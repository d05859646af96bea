import ApiSchema.Document.Decode
import ApiSchema.Document.Folder
import ApiSchema.Json.Source
import ApiSchema.Yaml.Source
import ApiSchema.TypeExpr.Flaw

set_option autoImplicit false

namespace ApiSchema

/-- Why a file gives no document. -/
inductive LoadError
  | unreadable (file : Text) (fault : ReadFault)
  | undecodable (file : Text) (fault : Fault)
deriving Repr

def ReadFault.fileMessage (file : Text) (fault : ReadFault) : Text :=
  "Failed to read input file " ++ TypeExpr.quoted file ++ ": " ++ fault.message

namespace Document

def fileName (path : Text) : Text := ((Text.pieces '/' path).getLast?).getD []

/-- What stands behind the last point of a file name, unless nothing stands before it. -/
def extension? (name : Text) : Option Text :=
  match (Text.pieces '.' name).reverse with
  | last :: before :: more => if more = [] ∧ before = [] then none else some last
  | _ => none

def isYamlFile (path : Text) : Bool :=
  match extension? (fileName path) with
  | some extension =>
    let lower := extension.map Char.toLower
    lower = ("yaml" : Text) || lower = ("yml" : Text)
  | none => false

/-- The document in the text of a file. -/
def ofText (file text : Text) : Except Fault Document :=
  if isYamlFile file then Yaml.decodeText Document.decode text
  else Json.decodeText Document.decode text

/-- The document in a file with these bytes. -/
def load (file : Text) (content : Except ReadFault ByteArray) : Except LoadError Document :=
  match content with
  | .error fault => .error (.unreadable file fault)
  | .ok bytes =>
    match String.fromUTF8? bytes with
    | none => .error (.unreadable file .notUtf8)
    | some text => (ofText file text.toList).mapError (.undecodable file)

end Document

end ApiSchema

import ApiSchema.Text.Basic

set_option autoImplicit false

namespace ApiSchema

/-- Why a file cannot be read: the system refuses it with a code of its own, or the name or the
bytes are unfit. -/
inductive ReadFault
  | system (code : Nat) (kind message : Text)
  | unfit (kind message : Text)
deriving DecidableEq, Repr

namespace ReadFault

def notFound : ReadFault := system 2 "NotFound" "No such file or directory"

def denied : ReadFault := system 13 "PermissionDenied" "Permission denied"

def notDirectory : ReadFault := system 20 "NotADirectory" "Not a directory"

def isDirectory : ReadFault := system 21 "IsADirectory" "Is a directory"

def nameTooLong : ReadFault := system 36 "InvalidFilename" "File name too long"

def nulInName : ReadFault := unfit "InvalidInput" "file name contained an unexpected NUL byte"

def notUtf8 : ReadFault := unfit "InvalidData" "stream did not contain valid UTF-8"

def message : ReadFault → Text
  | system code _ text => text ++ " (os error " ++ Text.ofNat code ++ ")"
  | unfit _ text => text

end ReadFault

/-- How many bytes a text takes in UTF-8. -/
def Text.size (text : Text) : Nat := text.foldl (fun size c => size + c.utf8Size) 0

/-- The parts of a path that a walk along it looks up. -/
def pathParts (path : Text) : List Text :=
  (Text.pieces '/' path).filter fun part => part ≠ [] ∧ part ≠ ['.'] ∧ part ≠ ['.', '.']

/-- The fault of a path that cannot name anything: a part has at most 255 bytes, and a path fewer
than 4096. Only the first part is looked at, since parts behind it may never be looked up. -/
def pathFault? (path : Text) : Option ReadFault :=
  if path.any fun c => c.toNat = 0 then some .nulInName
  else if 4096 ≤ path.size ∨ (pathParts path).head?.any fun part => 255 < part.size then
    some .nameTooLong
  else none

/-- The files of a folder, with their bytes. -/
structure Folder where
  files : List (Text × ByteArray)

/-- Reads the file with this name. A path without parts leads to a folder. -/
def Folder.read (folder : Folder) (name : Text) : Except ReadFault ByteArray :=
  match folder.files.lookup name with
  | some bytes => .ok bytes
  | none =>
    match pathFault? name with
    | some fault => .error fault
    | none => .error (if (pathParts name).isEmpty then .isDirectory else .notFound)

end ApiSchema

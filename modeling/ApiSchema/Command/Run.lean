import ApiSchema.Command.Arguments
import ApiSchema.Command.Report
import ApiSchema.Document.Resolution
import ApiSchema.Document.Encode
import ApiSchema.Json.Printer

set_option autoImplicit false

namespace ApiSchema.Command

/-- How a run ends: what it prints, and why it fails, if it does. -/
structure Outcome where
  output : Text
  failure : Option Failure := none

/-- The most steps that a discovery may take. -/
def stepLimit : Nat := 10000000

def versionText : Text := "apidoc-gen 0.1.0"

def usageText : Text :=
  "Usage: apidoc-gen [-v]... [--log-json] <resolve FILE [--json] | parse EXPR | check EXPR...>"

/-- Checks types in order and tells of each that is one, up to the first that is not. -/
def checkEach (colours : Bool) (done : Text) : List Text → Outcome
  | [] => { output := done }
  | expr :: rest =>
    match TypeExpr.check expr with
    | .error error => { output := done, failure := some (.schema error) }
    | .ok () =>
      checkEach colours (done ++ line (Style.apply colours .green "ok" ++ ' ' :: expr)) rest

def definitionsText (colours json : Bool) (definitions : List Definition) : Text :=
  if json then line ((Json.list (definitions.map Definition.encode)).pretty 0)
  else definitions.flatMap (definitionLines colours)

/-- Resolves a document that was loaded. -/
def resolveLoaded (colours json : Bool) (loaded : Except LoadError Document) : Outcome :=
  match loaded with
  | .error error => { output := [], failure := some (.load error) }
  | .ok document =>
    match document.resolve stepLimit with
    | none => { output := [], failure := some .unfinished }
    | some (.error error) => { output := [], failure := some (.schema error) }
    | some (.ok definitions) => { output := definitionsText colours json definitions }

def Request.file? : Request → Option Text
  | resolve file _ => some file
  | _ => none

/-- The outcome of a request, given the bytes of its file. -/
def Request.run (colours : Bool) (content : Except ReadFault ByteArray) : Request → Outcome
  | version => { output := line versionText }
  | help => { output := line usageText }
  | resolve file json => resolveLoaded colours json (Document.load file content)
  | parse expr =>
    match TypeExpr.parse expr with
    | .error error => { output := [], failure := some (.schema error) }
    | .ok type => { output := treeLines colours 0 type }
  | check exprs => checkEach colours [] exprs

/-- The exit code: 0 for success, 1 for a failure. -/
def Outcome.code (outcome : Outcome) : Nat := if outcome.failure.isSome then 1 else 0

/-- The exit code of wrong usage. -/
def usageCode : Nat := 2

end ApiSchema.Command

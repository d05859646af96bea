import ApiSchema.Command.Run

set_option autoImplicit false

namespace ApiSchema.Command

/-- The fault that the system tells. -/
def faultOf : IO.Error → ReadFault
  | .noFileOrDirectory .. => .notFound
  | .permissionDenied .. => .denied
  | .inappropriateType _ 20 _ => .notDirectory
  | .inappropriateType _ 21 _ => .isDirectory
  | .invalidArgument _ 36 _ => .nameTooLong
  | other => .system 5 "Uncategorized" (toString other).toList

def readBytes (file : Text) : IO (Except ReadFault ByteArray) := do
  match pathFault? file with
  | some fault => return .error fault
  | none =>
    try
      return .ok (← IO.FS.readBinFile (String.ofList file))
    catch error =>
      return .error (faultOf error)

def wantsColours : IO Bool := do
  return (← IO.getEnv "CLICOLOR_FORCE").any (· ≠ "0")

/-- Runs a request and gives the exit code. -/
def perform (request : Request) : IO UInt32 := do
  let content ←
    match request.file? with
    | some file => readBytes file
    | none => pure (.error .notFound)
  let outcome := request.run (← wantsColours) content
  IO.print (String.ofList outcome.output)
  match outcome.failure with
  | some failure => IO.eprintln (String.ofList (failure.headline ++ failure.detail))
  | none => pure ()
  return outcome.code.toUInt32

end ApiSchema.Command

def main (arguments : List String) : IO UInt32 :=
  match ApiSchema.Command.readArguments (arguments.map String.toList) with
  | some request => ApiSchema.Command.perform request
  | none => do
    IO.eprintln (String.ofList ApiSchema.Command.usageText)
    return ApiSchema.Command.usageCode.toUInt32

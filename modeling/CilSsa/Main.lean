import CilSsa.CommandLine.Run

/-!
The command line.
-/

namespace CilSsa

open CilSsa.CommandLine

/-- The cause of a failed access. -/
def fileError : IO.Error → FileError
  | .noFileOrDirectory .. | .noSuchThing .. => .notFound
  | .inappropriateType _ 20 _ => .notDirectory
  | .inappropriateType _ 21 _ => .isDirectory
  | .invalidArgument _ 36 _ => .nameTooLong
  | .permissionDenied _ 13 _ => .permissionDenied
  | error => .other (toString error)

def systemFiles : FileAccess IO where
  read path := do
    try
      let bytes ← IO.FS.readBinFile path
      match String.fromUTF8? bytes with
      | some text => return .ok text
      | none => return .error .notText
    catch error => return .error (fileError error)
  write path text := do
    try
      IO.FS.writeFile path text
      return .ok ()
    catch error => return .error (fileError error)

end CilSsa

/-- Runs the tool on the arguments. -/
def main (args : List String) : IO UInt32 := do
  let debug := ((← IO.getEnv "ILC_DEBUG_IR").getD "") ≠ ""
  let outcome ← CilSsa.CommandLine.run CilSsa.systemFiles debug args
  IO.eprint outcome.stderr
  IO.print outcome.stdout
  return outcome.exitCode.toUInt32

import Passage.CommandLine.Run

/-! The program: it reads the files that its command may need, runs it, and prints. -/

namespace Passage

/-- The cause of a failed reading, by the number the system gives for it, with either sign. -/
def FileError.ofSystem (e : IO.Error) : FileError :=
  match e with
  | .noFileOrDirectory .. => .notFound
  | .inappropriateType _ code _ => ofCode code
  | .resourceExhausted _ code _ => ofCode code
  | .invalidArgument _ code _ => ofCode code
  | _ => .other (toString e)
where
  /-- The cause with a number. -/
  ofCode (code : UInt32) : FileError :=
    if code = 20 || 0 - code = 20 then .notDirectory
    else if code = 21 || 0 - code = 21 then .isDirectory
    else if code = 36 || 0 - code = 36 then .nameTooLong
    else .other (toString e)

def readBytes (path : List Char) : IO (Except FileError (List UInt8)) := do
  try
    return .ok (← IO.FS.readBinFile (String.ofList path)).toList
  catch e =>
    return .error (.ofSystem e)

/-- Reads the files at some paths; there is nothing at any other path. -/
def readPaths (paths : List (List Char)) : IO Files := do
  let entries ← paths.mapM fun path => return (path, ← readBytes path)
  return fun path => ((entries.find? fun e => e.1 = path).map Prod.snd).getD (.error .notFound)

end Passage

open Passage in
def main (args : List String) : IO UInt32 := do
  let args := args.map String.toList
  let paths := match Command.read args with
    | .ok command => command.paths
    | .error _ => []
  let outcome := run (← readPaths paths) args
  IO.print (String.ofList outcome.stdout)
  IO.eprint (String.ofList outcome.stderr)
  return outcome.exit.toUInt32

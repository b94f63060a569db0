/-
  Pushdown.Main — the command line in the operating system's world: reads files and
  streams, and writes each part of a session as soon as it is known.
-/

import Pushdown.CommandLine.Arguments
import Pushdown.CommandLine.Session

namespace Pushdown

/-- The number of the operating system's error, where there is one; it may come negated. -/
def systemCode? (e : IO.Error) : Option Nat :=
  let positive (code : UInt32) := if code.toNat < UInt32.size / 2 then code.toNat else UInt32.size - code.toNat
  match e with
  | .noFileOrDirectory _ code _ => some (positive code)
  | .permissionDenied _ code _ => some (positive code)
  | .inappropriateType _ code _ => some (positive code)
  | .invalidArgument _ code _ => some (positive code)
  | .otherError code _ => some (positive code)
  | _ => none

/-- The operating system's words for the errors that reading a file can meet. -/
def systemWords? : Nat → Option String
  | 2 => some "No such file or directory"
  | 5 => some "Input/output error"
  | 13 => some "Permission denied"
  | 20 => some "Not a directory"
  | 21 => some "Is a directory"
  | 36 => some "File name too long"
  | 40 => some "Too many levels of symbolic links"
  | _ => none

def systemReason (e : IO.Error) : String :=
  match systemCode? e with
  | none => e.toString
  | some code =>
    match systemWords? code with
    | none => e.toString
    | some words => words ++ " (os error " ++ Nat.repr code ++ ")"

def readContents (path : String) : IO (Except ReadFailure ByteArray) := do
  match ← (IO.FS.readBinFile path).toBaseIO with
  | .ok bytes => return .ok bytes
  | .error e => return .error (.system (systemReason e))

/-- All bytes that are left in a stream, after those already read. -/
partial def readAll (stream : IO.FS.Stream) (already : ByteArray) : IO ByteArray := do
  let bytes ← stream.read 65536
  if bytes.isEmpty then return already
  readAll stream (already ++ bytes)

/-- The operating system's world. A run without an end does not come back from where it
    is computed. -/
def World.system : World IO where
  readFile := readContents
  readInput := do readAll (← IO.getStdin) .empty
  out text := do (← IO.getStdout).putStr text
  err text := do (← IO.getStderr).putStr text
  never := pure ()

end Pushdown

def main (arguments : List String) : IO UInt32 := do
  let code ← (Pushdown.Invocation.ofArguments arguments).session Pushdown.World.system
  return code.toUInt32

/-
  LoxLang.Main
  ────────────
  **The program.**  Reads files and the standard input, and writes what the library
  makes of them.
-/
import LoxLang.CommandLine.Execute

namespace LoxLang

/-- The bytes of a file, if it can be opened and read. -/
def readBytes? (path : String) : IO (Option (List UInt8)) := do
  try
    return some (← IO.FS.readBinFile path).toList
  catch _ => return none

/-- Write an outcome, and give the exit status. -/
def finish (o : Outcome) : IO UInt32 := do
  (← IO.getStdout).putStr o.output
  (← IO.getStderr).putStr o.report
  match o.failure with
  | none => return 0
  | some (.exit status) => return (status.getD 0).toNat.toUInt32
  | some _ => return 1

/-- Talk to whoever types in lines. -/
partial def talk (c : Console) : IO UInt32 := do
  let stdout ← IO.getStdout
  stdout.putStr c.prompt.text
  stdout.flush
  let line ← (← IO.getStdin).getLine
  let (reply, c) := if line.isEmpty then c.feed "EOF" else
    c.feed (if line.endsWith "\n" then (line.dropEnd 1).toString else line)
  stdout.putStr reply.output
  (← IO.getStderr).putStr reply.report
  match reply.failure with
  | some _ => return 1
  | none => if reply.stop then return 0 else talk c

end LoxLang

open LoxLang in
/-- Run a file or the console, as the arguments say. -/
def main (arguments : List String) : IO UInt32 := do
  let styled ← (← IO.getStderr).isTty
  match readCommandLine arguments with
  | .run { file := some path, .. } =>
      let bytes ← readBytes? path
      finish (execute styled arguments (fun _ => bytes) "")
  | .run { file := none, recursionLimit := some limit } =>
      match allowedDepth limit with
      | .error _ => finish (execute styled arguments (fun _ => none) "")
      | .ok depth =>
          match Session.start (.initial true styled) Session.typedPath none true
            (.ofDepth depth) with
          | .error (failure, reporter) => finish (.ofFailure reporter "" limit failure)
          | .ok s =>
              IO.print Console.greeting
              talk (.initial s)
  | _ => finish (execute styled arguments (fun _ => none) "")

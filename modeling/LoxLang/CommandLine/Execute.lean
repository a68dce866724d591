/-
  LoxLang.CommandLine.Execute
  ───────────────────────────
  **From a command line to its outcome.**  What the program does with its arguments,
  with the bytes of a file and with what is typed in, as a function of them.
-/
import LoxLang.CommandLine.Options
import LoxLang.Console

namespace LoxLang

/-! ## §1. Files and consoles. -/

/-- What an execution comes to. -/
structure Outcome where
  output : String := ""
  report : String := ""
  /-- Why the execution did not just end. -/
  failure : Option Failure := none
  /-- The depth limit that was in force at the end. -/
  limit : Int := 10000

/-- The deepest nesting that is supported.  A greater limit is accepted, and in force at the
end as it was given; but a recursion that goes as deep as that is ended by the memory of the
process, which no option decides and which is left out here.  The bound stands for that end. -/
def deepest : Nat := 20000

/-- The depth that a limit allows.  A limit of one leaves no room for a program. -/
def allowedDepth (limit : Int) : Except Failure Nat :=
  if limit < -0x80000000 ∨ 0x80000000 ≤ limit then .error (.fault .limitTooLarge)
  else if limit < 1 then .error (.fault .limitTooLow)
  else if limit = 1 then .error .tooDeep
  else .ok (min limit.toNat deepest)

/-- The outcome of a failure: it is reported, unless it is an exit. -/
def Outcome.ofFailure (reporter : Reporter) (output : String) (limit : Int)
    (failure : Failure) : Outcome :=
  let (report, result, _) := reporter.settle failure
  { output, report, limit
    failure := match result with
      | .ok () => none
      | .error failure => some failure }

/-- Run a file that holds `bytes`, if it can be opened. -/
def executeFile (reporter : Reporter) (limit : Int) (depth : Nat) (path : String)
    (bytes : Option (List UInt8)) : Outcome :=
  match Session.start reporter path bytes false (.ofDepth depth) with
  | .error (failure, reporter) => .ofFailure reporter "" limit failure
  | .ok s =>
      let (result, s) := s.run
      let (output, s) := s.takeOutput
      match result with
      | .ok () => { output, limit }
      | .error failure => .ofFailure s.reporter output limit failure

/-- Hold a conversation on what is typed in, at a terminal. -/
def executeConsole (reporter : Reporter) (limit : Int) (depth : Nat) (typed : String) : Outcome :=
  match Session.start reporter Session.typedPath none true (.ofDepth depth) with
  | .error (failure, reporter) => .ofFailure reporter "" limit failure
  | .ok s =>
      let (so, _) := (Console.initial s).conversation (Text.LineSource.terminal.lines typed)
      { output := so.output, report := so.report, failure := so.failure, limit }

/-- Execute a command line, where `paint` sets texts of reports in a colour, `read` gives the
bytes of a file that can be opened, and `typed` is all that will be typed in. -/
def executeWith (paint : Text.Colouring) (arguments : List String)
    (read : String → Option (List UInt8)) (typed : String) : Outcome :=
  match readCommandLine arguments with
  | .help => { output := usageHelp, failure := some (.exit (some 0)) }
  | .refuse e =>
      { report := usageText ++ "lox: error: " ++ e.message ++ "\n"
        failure := some (.exit (some 2)) }
  | .run options =>
      let reporter := Reporter.new true paint
      match options.recursionLimit with
      | none => .ofFailure reporter "" 10000 (.fault .limitNotNumber)
      | some limit =>
          match allowedDepth limit with
          | .error failure => .ofFailure reporter "" 10000 failure
          | .ok depth =>
              match options.file with
              | some path => executeFile reporter limit depth path (read path)
              | none => executeConsole reporter limit depth typed

/-! ## §2. On a terminal. -/

/-- The colours of a terminal, if they are wanted. -/
def Text.terminal (styled : Bool) : Text.Colouring :=
  if styled then Text.bold else Text.plain

/-- A reporter that knows no file, on a terminal. -/
def Reporter.initial (fatal styled : Bool) : Reporter :=
  .new fatal (Text.terminal styled)

/-- Execute a command line on a terminal. -/
def execute (styled : Bool) (arguments : List String) (read : String → Option (List UInt8))
    (typed : String) : Outcome :=
  executeWith (Text.terminal styled) arguments read typed

end LoxLang

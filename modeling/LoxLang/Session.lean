/-
  LoxLang.Session
  ───────────────
  **Sessions.**  A session runs inputs on one machine, so that each sees the globals
  of those before it.  `add` reads an input and puts it in a queue; `run` runs the
  queue and keeps one result for each input that ends; `pop` hands out the latest
  result.  A run that fails drops what is still queued.
-/
import LoxLang.Machine.Eval
import LoxLang.Report.Reporter

namespace LoxLang

/-- An input that was read and waits to be run. -/
structure QueuedInput where
  program : List Stmt
  source : String
  line : Int

/-- The state of a session. -/
structure Session where
  /-- The file that reports name. -/
  path : String
  /-- Are the inputs typed in, line by line? -/
  interactive : Bool
  limits : Limits
  reporter : Reporter
  resolver : Resolver
  machine : Machine
  queue : List QueuedInput
  /-- One value for each input that was run to its end, the latest last. -/
  results : List Value

namespace Session

/-- The path of inputs that are typed in. -/
def typedPath : String := "<in>"

/-! ## §1. Reading and running inputs. -/

/-- Tell the reporter which input is being worked on; a file is shown by its source
instead. -/
def begin (s : Session) (source : String) (line : Int) : Session :=
  if s.interactive then { s with reporter := s.reporter.beginInput s.path source line } else s

/-- Tell the reporter that the work on an input is done. -/
def finish (s : Session) : Session :=
  { s with reporter := s.reporter.endInput s.path }

/-- Read an input, whose first line is number `line`, and queue it. -/
def add (s : Session) (source : String) (line : Int) : Except Failure Unit × Session :=
  let s := s.begin source line
  match readProgram source line with
  | .error d => (.error (.diagnosed d), s)
  | .ok body =>
      match s.resolver.resolve body with
      | (.error e, resolver) => (.error (.diagnosed (.ofResolve e)), { s with resolver })
      | (.ok program, resolver) =>
          let queue := s.queue ++ [⟨program, source, line⟩]
          (.ok (), { s with resolver, queue }.finish)

/-- Run inputs in order, up to the first that fails. -/
def runAll (s : Session) : List QueuedInput → Except Failure Unit × Session
  | [] => (.ok (), s)
  | input :: rest =>
      let s := s.begin input.source input.line
      match s.machine.run s.limits input.program with
      | (.error halt, machine) => (.error (.ofHalt halt), { s with machine })
      | (.ok v, machine) => runAll { s with machine, results := s.results ++ [v] }.finish rest

/-- Run the queue, which is empty afterwards. -/
def run (s : Session) : Except Failure Unit × Session :=
  runAll { s with queue := [] } s.queue

/-- Hand out the latest result. -/
def pop (s : Session) : Except Failure Value × Session :=
  match s.results.getLast? with
  | some v => (.ok v, { s with results := s.results.dropLast })
  | none => (.error (.fault .noResult), s)

/-- Hand out what was printed since the last time. -/
def takeOutput (s : Session) : String × Session :=
  (s.machine.output, { s with machine := { s.machine with output := "" } })

/-! ## §2. Starting a session. -/

/-- The text of a file with these bytes. -/
def fileText (path : String) (bytes : Option (List UInt8)) : Except Failure String :=
  if '\x00' ∈ path.toList then .error (.fault .nullInPath)
  else match bytes with
    | none => .error (.diagnosed (.general ("'" ++ path ++ "' could not be opened")))
    | some bytes =>
        match Text.decodeUtf8 bytes with
        | .error f => .error (.fault (.undecodable f))
        | .ok s => .ok (Text.unifyNewlines s)

/-- A session with nothing queued. -/
def fresh (reporter : Reporter) (path : String) (interactive : Bool) (limits : Limits) :
    Session :=
  let reporter := reporter.addFile path none
  { path, interactive, limits, resolver := .initial, machine := .initial, queue := []
    results := []
    reporter := if interactive then { reporter with fatal := false } else reporter }

/-- Start a session on the file at `path`, which holds `bytes`, if it can be opened;
or on inputs to be typed in.  A failure comes with the reporter that knows of it. -/
def start (reporter : Reporter) (path : String) (bytes : Option (List UInt8))
    (interactive : Bool) (limits : Limits) : Except (Failure × Reporter) Session :=
  let s := fresh reporter path interactive limits
  if path = typedPath then
    if interactive then .ok s
    else .error (.diagnosed (.general "'<in>' is a reserved filename"), s.reporter)
  else match fileText path bytes with
    | .error failure => .error (failure, s.reporter)
    | .ok source =>
        let s := { s with reporter := s.reporter.addFile path (some source) }
        match s.add source 1 with
        | (.error failure, s) => .error (failure, s.reporter)
        | (.ok (), s) => .ok s

end Session

end LoxLang

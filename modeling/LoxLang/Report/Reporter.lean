/-
  LoxLang.Report.Reporter
  ───────────────────────
  **Reporting.**  A reporter knows the files in play: for each, the input being
  worked on, if any, and the lines of its source.  A report names the inputs in
  progress, gives every message of a diagnostic, and shows the offending line.

  `offendingLine`  — the source line that a diagnostic is about
  `render`         — a full report
  `report`         — a report, and what becomes of the reporter
  `settle`         — what becomes of a failure

  How a text is set in a colour is no business of the reporter, which is given a function
  for it and puts nothing around what that function makes of a text.
-/
import LoxLang.Report.Failure
import LoxLang.Text.Blank
import LoxLang.Text.Lines
import LoxLang.Text.Styled

namespace LoxLang

/-- Put a value under a key: in place of the one it has, or else at the end. -/
def putEntry {α : Type} (key : String) (a : α) : List (String × α) → List (String × α)
  | [] => [(key, a)]
  | (k, b) :: rest => if k = key then (key, a) :: rest else (k, b) :: putEntry key a rest

/-- An input being worked on, with the number of its first line. -/
structure Progress where
  text : String
  line : Int
  deriving DecidableEq, Repr

/-- What reports are made from. -/
structure Reporter where
  /-- Does a report end the program? -/
  fatal : Bool
  /-- A text set in a colour. -/
  paint : Text.Colouring
  /-- The files in play, each with the input being worked on. -/
  entries : List (String × Option Progress)
  /-- The source lines of the files that are stored. -/
  sources : List (String × List String)

namespace Reporter

/-- A reporter that knows no file. -/
def new (fatal : Bool) (paint : Text.Colouring) : Reporter :=
  ⟨fatal, paint, [], []⟩

/-! ## §1. Keeping track. -/

/-- Bring a file into play, with no input in progress, and store its source if it is
given. -/
def addFile (r : Reporter) (path : String) (source : Option String) : Reporter :=
  { r with
    entries := putEntry path none r.entries
    sources := match source with
      | some s => putEntry path (Text.storedLines s) r.sources
      | none => r.sources }

/-- Note that an input of a file is being worked on. -/
def beginInput (r : Reporter) (path text : String) (line : Int) : Reporter :=
  { r with entries := putEntry path (some ⟨text, line⟩) r.entries }

/-- Note that no input of a file is being worked on. -/
def endInput (r : Reporter) (path : String) : Reporter :=
  { r with entries := putEntry path none r.entries }

/-- Note that no input of any file is being worked on. -/
def clear (r : Reporter) : Reporter :=
  { r with entries := r.entries.map fun (path, _) => (path, none) }

/-! ## §2. Reports. -/

/-- Line number `n` of a stored source, counted from one. -/
def lineAt? (n : Int) (lines : List String) : Option String :=
  if 0 < n then lines[n.toNat - 1]? else none

/-- Line number `n` of the first stored source that has one. -/
def sourceLine? (r : Reporter) (n : Int) : Option String :=
  r.sources.findSome? fun (_, lines) => lineAt? n lines

/-- The offending line with its number, or nothing if it is not known or blank. -/
def offendingLine (r : Reporter) (d : Diagnostic) : String :=
  match d.line with
  | some n =>
      let text := Text.trim ((r.sourceLine? n).getD "")
      if d.internal ∨ text = "" then ""
      else "  " ++ toString n ++ " | " ++ r.paint .yellow text
  | none => ""

/-- How an input in progress is shown; an empty one is not. -/
def showProgress : String × Option Progress → Option String
  | (path, some p) =>
      if p.text = "" then none
      else some ("  File '" ++ path ++ "', line " ++ toString p.line ++ ":\n    "
        ++ p.text ++ "\n")
  | (_, none) => none

/-- The inputs in progress, under a title if there are several. -/
def inputsInProgress (r : Reporter) : String :=
  let shown := r.entries.filterMap showProgress
  (if 1 < shown.length then "Traceback:\n" else "") ++ String.join shown

/-- One message of a diagnostic, with the label of its stage. -/
def labelled (r : Reporter) (d : Diagnostic) (message : String) : String :=
  (if d.internal then r.paint .red "[internal] " else "")
    ++ r.paint .red (d.stage.label ++ ": ") ++ message

/-- The full report of a diagnostic. -/
def render (r : Reporter) (d : Diagnostic) : String :=
  let offending := r.offendingLine d
  r.inputsInProgress ++ "\n".intercalate (d.messages.map (r.labelled d))
    ++ (if offending = "" then "" else "\n" ++ offending)

/-! ## §3. What becomes of failures. -/

/-- Report a diagnostic: the text of the report, and what then becomes of the
reporter.  A fatal reporter asks for an exit; another is cleared for the next
input. -/
def report (r : Reporter) (d : Diagnostic) : String × Except Failure Unit × Reporter :=
  (r.render d ++ "\n",
    if r.fatal then (.error (.exit (some 1)), r) else (.ok (), r.clear))

/-- Report the failure of an activity, if it is one to report.  A failure is settled
by its report, but a fault of the interpreter goes on, and so does an exit, which
is not reported. -/
def settle (r : Reporter) : Failure → String × Except Failure Unit × Reporter
  | .interrupted => r.report (.general "keyboard interrupt")
  | .exit status => ("", .error (.exit status), r)
  | .tooDeep => r.report .tooDeep
  | .diagnosed d => r.report d
  | .fault f =>
      match r.report f.diagnostic with
      | (text, .ok (), r) => (text, .error (.fault f), r)
      | failed => failed

end Reporter

end LoxLang

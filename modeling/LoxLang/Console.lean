/-
  LoxLang.Console
  ───────────────
  **The console.**  Lines are typed in one by one.  A line with an unclosed brace is
  held back until later lines close it, and all of them are then one input.  A
  failure is reported and the console goes on.

  The words `help` and `exit` are commands where no input is held back; `EOF`, for
  the end of input, always is one.
-/
import LoxLang.Session

namespace LoxLang

/-! ## §1. Unclosed braces. -/

/-- Has the text more opening than closing braces?  Braces count wherever they stand,
in a string or a comment too. -/
def hasOpenBrace (text : String) : Bool :=
  text.toList.count '\x7d' < text.toList.count '\x7b'

/-! ## §2. State and replies. -/

/-- What the console asks for. -/
inductive Prompt where
  /-- A new input. -/
  | primary
  /-- A line that goes on an input held back. -/
  | continuation
  deriving DecidableEq, Repr

/-- How a prompt is written. -/
def Prompt.text : Prompt → String
  | .primary => "> "
  | .continuation => ". "

/-- The state of a console. -/
structure Console where
  session : Session
  prompt : Prompt
  /-- The lines held back, each with its newline. -/
  held : String
  /-- The number of the first line held back. -/
  heldLine : Nat
  /-- The number of lines typed in that were no commands. -/
  lineCount : Nat

/-- What the console answers to a line. -/
structure Reply where
  /-- Is this the end? -/
  stop : Bool := false
  output : String := ""
  report : String := ""
  /-- A failure that no report settled. -/
  failure : Option Failure := none

namespace Console

/-- A console at its start. -/
def initial (session : Session) : Console :=
  ⟨session, .primary, "", 0, 0⟩

/-- What the console says first. -/
def greeting : String :=
  "lox interpreter :: Python backend\nType 'help' for more information, 'exit' to leave.\n"

/-- What the console says when it is asked for help. -/
def helpText : String :=
  "Welcome to the lox interpreter!\n\n"
  ++ "lox is a small dynamically-typed scripting language with C-like syntax: variables, \n"
  ++ "if/while/for, functions and closures. Statements end with ';'. Unclosed braces \n"
  ++ "continue on the next line.\n\n"
  ++ "Try it out by typing 'fun add(a, b) \x7b return a + b; \x7d'. Next, try typing \n"
  ++ "'print add(1, 2);'. This will print 3. Typing a bare expression such as \n"
  ++ "'add(1, 2);' shows its value.\n"

/-! ## §3. Running an input. -/

/-- Add an input to a session, run it, and take its value. -/
def evaluate (s : Session) (source : String) (line : Int) : Except Failure Value × Session :=
  match s.add source line with
  | (.error failure, s) => (.error failure, s)
  | (.ok (), s) =>
      match s.run with
      | (.error failure, s) => (.error failure, s)
      | (.ok (), s) => s.pop

/-- The value of an input as it is shown; nil is not. -/
def echo : Value → String
  | .nil => ""
  | v => v.text ++ "\n"

/-- Run an input, and show its value or report its failure. -/
def submit (s : Session) (source : String) (line : Int) : Reply × Session :=
  let (result, s) := evaluate s source line
  let (output, s) := s.takeOutput
  match result with
  | .ok v => ({ output := output ++ echo v }, s)
  | .error failure =>
      match s.reporter.settle failure with
      | (report, .ok (), reporter) => ({ output, report }, { s with reporter })
      | (report, .error failure, reporter) =>
          ({ output, report, failure := some failure }, { s with reporter })

/-! ## §4. Feeding lines. -/

/-- Take in a line that is no command: hold it back, or submit it with all that was
held back.  Of what is submitted, white space at the end is left out. -/
def enter (c : Console) (line : String) : Reply × Console :=
  let lineCount := c.lineCount + 1
  let heldLine := if c.held = "" then lineCount else c.heldLine
  let source := Text.trimEnd (c.held ++ line)
  if hasOpenBrace source then
    ({}, { c with prompt := .continuation, held := c.held ++ line ++ "\n", heldLine, lineCount })
  else
    let (reply, session) := submit c.session source heldLine
    (reply, ⟨session, .primary, "", heldLine, lineCount⟩)

/-- Take in a line. -/
def feed (c : Console) (line : String) : Reply × Console :=
  let command := Text.trim line
  if command = "EOF" then
    ({ stop := true, output := "\n" }, { c with prompt := .primary, held := "" })
  else if c.held = "" ∧ command = "help" then ({ output := helpText }, c)
  else if c.held = "" ∧ command = "exit" then ({ stop := true }, c)
  else if c.held = "" ∧ command = "" then ({}, c)
  else c.enter line

/-! ## §5. A whole conversation. -/

/-- What a conversation comes to. -/
structure Transcript where
  output : String
  report : String
  failure : Option Failure

/-- Feed lines until one ends the conversation; behind the last, the input ends. -/
def converse (c : Console) (so : Transcript) : List String → Transcript × Console
  | [] =>
      let (reply, after) := c.feed "EOF"
      (⟨so.output ++ c.prompt.text ++ reply.output, so.report ++ reply.report, reply.failure⟩,
        after)
  | line :: rest =>
      let (reply, after) := c.feed line
      let so : Transcript :=
        ⟨so.output ++ c.prompt.text ++ reply.output, so.report ++ reply.report, reply.failure⟩
      if reply.stop ∨ reply.failure.isSome then (so, after) else after.converse so rest

/-- A conversation from its greeting on. -/
def conversation (c : Console) (lines : List String) : Transcript × Console :=
  c.converse ⟨greeting, "", none⟩ lines

end Console

end LoxLang

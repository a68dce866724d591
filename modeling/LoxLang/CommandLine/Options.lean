/-
  LoxLang.CommandLine.Options
  ───────────────────────────
  **The command line.**  One file may be named, and an option limits how deep a
  program may nest.  Without a file, the console starts.

  Arguments are first sorted into options and plain words, and then consumed from
  left to right.  A long option may be shortened as long as its beginning is its
  own; its value follows as the next word or behind an equals sign.  Behind `--`,
  every argument is a plain word.
-/
import LoxLang.Text.Blank
import LoxLang.Text.Digit
import LoxLang.Text.Quoted

namespace LoxLang

/-! ## §1. Options and their texts. -/

/-- The options there are. -/
inductive CliOption where
  | help
  | recursionLimit
  deriving DecidableEq, Repr

namespace CliOption

/-- The spellings of an option. -/
def spellings : CliOption → List String
  | .help => ["-h", "--help"]
  | .recursionLimit => ["--recursion-limit"]

/-- Every spelling with its option. -/
def table : List (String × CliOption) :=
  ([.help, .recursionLimit] : List CliOption).flatMap fun o => o.spellings.map (·, o)

/-- The option spelled like this, if there is one. -/
def ofSpelling? (s : String) : Option CliOption :=
  (table.find? (·.1 == s)).map Prod.snd

/-- How messages name an option. -/
def displayName (o : CliOption) : String :=
  "/".intercalate o.spellings

end CliOption

/-- What the command line asks for. -/
structure Options where
  /-- The file to run; without one, the console starts. -/
  file : Option String := none
  /-- The depth limit; there is none if the mark `--` stood in the place of its
  value. -/
  recursionLimit : Option Int := some 10000
  deriving DecidableEq, Repr

/-- Why a command line is refused. -/
inductive UsageError where
  | ambiguous (argument : String) (candidates : List String)
  | ignoredValue (option : CliOption) (value : String)
  | missingValue (option : CliOption)
  | invalidInteger (option : CliOption) (value : String)
  | unrecognized (arguments : List String)
  deriving DecidableEq, Repr

/-- The message of a refusal. -/
def UsageError.message : UsageError → String
  | .ambiguous argument candidates =>
      "ambiguous option: " ++ argument ++ " could match " ++ ", ".intercalate candidates
  | .ignoredValue option value =>
      "argument " ++ option.displayName ++ ": ignored explicit argument " ++ Text.quoted value
  | .missingValue option => "argument " ++ option.displayName ++ ": expected one argument"
  | .invalidInteger option value =>
      "argument " ++ option.displayName ++ ": invalid int value: " ++ Text.quoted value
  | .unrecognized arguments => "unrecognized arguments: " ++ " ".intercalate arguments

/-- The usage line. -/
def usageText : String :=
  "usage: lox [-h] [--recursion-limit RECURSION_LIMIT] [file]\n"

/-- The help page. -/
def usageHelp : String :=
  usageText
  ++ "\npositional arguments:\n"
  ++ "  file                  file to interpret and run (if empty, goes to command-\n"
  ++ "                        line mode)\n"
  ++ "\noptions:\n"
  ++ "  -h, --help            show this help message and exit\n"
  ++ "  --recursion-limit RECURSION_LIMIT\n"
  ++ "                        host recursion limit, bounds lox call depth (default:\n"
  ++ "                        10000)\n"

/-- What the command line comes to. -/
inductive Request where
  | run (options : Options)
  | help
  | refuse (e : UsageError)
  deriving DecidableEq, Repr

/-! ## §2. Integers. -/

/-- White space around an integer: every blank but the information separators. -/
def isIntegerBlank (c : Char) : Bool :=
  Text.isBlank c && !(0x1C ≤ c.toNat && c.toNat ≤ 0x1F)

/-- The value of digits with single underscores in between, where `value` and
`count` are the value and the number of the digits so far, and `digit` tells
whether one was just read. -/
def readDigits? (value count : Nat) (digit : Bool) : List Char → Option (Nat × Nat)
  | [] => if digit then some (value, count) else none
  | c :: cs =>
      if c = '_' then if digit then readDigits? value count false cs else none
      else match Text.digitValue? c with
        | some d => readDigits? (10 * value + d) (count + 1) true cs
        | none => none

/-- The most digits that an integer may have. -/
def integerDigits : Nat := 4300

/-- An integer: digits of any script, perhaps with a sign in front and white space
around. -/
def readInteger? (s : String) : Option Int :=
  let inner := (s.toList.dropWhile isIntegerBlank).reverse.dropWhile isIntegerBlank |>.reverse
  let (negative, digits) := match inner with
    | '-' :: cs => (true, cs)
    | '+' :: cs => (false, cs)
    | cs => (false, cs)
  match readDigits? 0 0 false digits with
  | some (value, count) =>
      if integerDigits < count then none
      else some (if negative then -(value : Int) else value)
  | none => none

/-! ## §3. Sorting arguments. -/

/-- What an argument is taken for. -/
inductive Argument where
  /-- A word of its own, or the value of an option. -/
  | plain (text : String)
  /-- The mark behind which all arguments are plain. -/
  | separator
  /-- An option in this spelling, perhaps with a value attached. -/
  | option (o : CliOption) (spelling : String) (value : Option (List Char))
  /-- Something that looks like an option and is none. -/
  | unknown (text : String)
  deriving DecidableEq, Repr

namespace Argument

/-- An argument up to its first equals sign, and the value behind that. -/
def splitEquals (cs : List Char) : List Char × Option (List Char) :=
  match cs.dropWhile (· ≠ '=') with
  | [] => (cs, none)
  | _ :: value => (cs.takeWhile (· ≠ '='), some value)

/-- A minus sign and a decimal number, perhaps with a newline at its end. -/
def isNegativeNumber (cs : List Char) : Bool :=
  let isDigit := fun c => (Text.digitValue? c).isSome
  let cs := if cs.getLast? = some '\n' then cs.dropLast else cs
  match cs with
  | '-' :: cs =>
      match cs.dropWhile isDigit with
      | [] => !cs.isEmpty
      | '.' :: fraction => !fraction.isEmpty && fraction.all isDigit
      | _ => false
  | _ => false

/-- The options that a long argument may be short for, with the value attached to
it. -/
def longMatches (cs : List Char) : List (CliOption × String × Option (List Char)) :=
  let (beginning, value) := splitEquals cs
  CliOption.table.filterMap fun (spelling, o) =>
    if beginning.isPrefixOf spelling.toList then some (o, spelling, value) else none

/-- The options that an argument with a single dash may stand for: a short option
with a value joined to it. -/
def shortMatches (cs : List Char) : List (CliOption × String × Option (List Char)) :=
  CliOption.table.filterMap fun (spelling, o) =>
    if spelling.toList = cs.take 2 then some (o, spelling, some (cs.drop 2)) else none

/-- Take an argument that starts with a dash, and is no option as it stands, for a
shortened option or a plain word. -/
def sortDashed (text : String) : Except UsageError Argument :=
  let cs := text.toList
  let found := if ['-', '-'].isPrefixOf cs then longMatches cs else shortMatches cs
  match found with
  | [(o, spelling, value)] => .ok (.option o spelling value)
  | [] =>
      if isNegativeNumber cs ∨ ' ' ∈ cs then .ok (.plain text) else .ok (.unknown text)
  | _ => .error (.ambiguous text (found.map (·.2.1)))

/-- Take an argument for an option or a plain word. -/
def sort (text : String) : Except UsageError Argument :=
  match text.toList with
  | '-' :: _ :: _ =>
      let (spelling, value) := splitEquals text.toList
      match CliOption.ofSpelling? (String.ofList spelling) with
      | some o => .ok (.option o (String.ofList spelling) value)
      | none => sortDashed text
  | _ => .ok (.plain text)

/-- Sort all arguments; `--` makes those behind it plain. -/
def sortAll : List String → Except UsageError (List Argument)
  | [] => .ok []
  | text :: rest =>
      if text = "--" then .ok (.separator :: rest.map .plain)
      else do
        let first ← sort text
        let others ← sortAll rest
        return first :: others

end Argument

/-! ## §4. Consuming arguments. -/

/-- What was consumed so far. -/
structure Consumed where
  options : Options := {}
  /-- Was the place of the file taken? -/
  fileTaken : Bool := false
  /-- Arguments that found no use. -/
  extras : List String := []

namespace Consumed

/-- Use a value as the depth limit.  The mark `--` is used up in its place, and leaves
no limit. -/
def setLimit (c : Consumed) (value : String) : Except UsageError Consumed :=
  if value = "--" then .ok { c with options := { c.options with recursionLimit := none } }
  else match readInteger? value with
    | some n => .ok { c with options := { c.options with recursionLimit := some n } }
    | none => .error (.invalidInteger .recursionLimit value)

/-- Take a plain word for the file, if that place is free. -/
def plain (c : Consumed) (text : String) : Consumed :=
  if c.fileTaken then { c with extras := c.extras ++ [text] }
  else { c with options := { c.options with file := some text }, fileTaken := true }

/-- What a value attached to the short help option comes to: its letters are more
short options, of which only help is one. -/
def moreHelp : List Char → Request
  | ['h'] => .help
  | 'h' :: rest => moreHelp rest
  | value => .refuse (.ignoredValue .help (String.ofList value))

/-- What the help option comes to in this spelling, with the value attached to it.
The long spelling takes no value. -/
def help (spelling : String) : Option (List Char) → Request
  | none => .help
  | some value =>
      if spelling = "-h" then moreHelp value
      else .refuse (.ignoredValue .help (String.ofList value))

end Consumed

/-- Consume arguments from left to right.  The mark `--` is used up next to the file
or in front of it, and else has no use. -/
def consume (c : Consumed) : List Argument → Request
  | [] =>
      if c.extras.isEmpty then .run c.options else .refuse (.unrecognized c.extras)
  | .plain text :: .separator :: rest =>
      if c.fileTaken then consume { c with extras := c.extras ++ [text, "--"] } rest
      else consume (c.plain text) rest
  | .plain text :: rest => consume (c.plain text) rest
  | .separator :: rest =>
      if c.fileTaken then consume { c with extras := c.extras ++ ["--"] } rest
      else consume c rest
  | .unknown text :: rest => consume { c with extras := c.extras ++ [text] } rest
  | .option .help spelling value :: _ => Consumed.help spelling value
  | .option .recursionLimit _ none :: .plain value :: rest =>
      match c.setLimit value with
      | .ok c => consume c rest
      | .error e => .refuse e
  | .option .recursionLimit _ none :: _ => .refuse (.missingValue .recursionLimit)
  | .option .recursionLimit _ (some value) :: rest =>
      match c.setLimit (String.ofList value) with
      | .ok c => consume c rest
      | .error e => .refuse e

/-- What a command line asks for. -/
def readCommandLine (arguments : List String) : Request :=
  match Argument.sortAll arguments with
  | .ok sorted => consume {} sorted
  | .error e => .refuse e

end LoxLang

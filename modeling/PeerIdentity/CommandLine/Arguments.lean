import PeerIdentity.Text.Decimal

/-!
# Command line arguments

An argument is an option, the value of an option, or an operand. Long options start with two dashes
and may be shortened to any beginning that no other option has; their value is the rest after an
equals sign or the next argument. Short options are one letter after a dash and can be written
together. After `--` every argument is an operand.

* `CommandOption`: an option that a command knows;
* `Argument`, `Argument.list`: arguments as a command sees them.
-/

namespace PeerIdentity

/-- An option that a command knows. -/
structure CommandOption where
  /-- The name after the two dashes. -/
  long : String
  /-- The letter after one dash. -/
  short : Option Char := none
  /-- Whether the option has a value. -/
  takesValue : Bool := false
  deriving DecidableEq, Repr

/-- An argument as a command sees it. -/
inductive Argument where
  | operand (s : String)
  /-- An option without value, by its long name. -/
  | flag (option : String)
  /-- An option with its value, by its long name. -/
  | valued (option value : String)
  /-- An option that the command does not know. -/
  | unknown
  /-- An option that lacks its value or has one that it does not take. -/
  | invalid
  deriving DecidableEq, Repr

namespace Argument

/-! ## One argument -/

/-- How an argument is read before it is known whether a value follows. -/
inductive Reading where
  | arguments (list : List Argument)
  /-- An option whose value is the next argument. -/
  | needsValue (option : String)

/-- Whether a character is a decimal digit of any script. -/
def isDigit (c : Char) : Bool :=
  (Decimal.digitValue? c).isSome

/-- Whether a text consists of digits that may hold a point before the last of them, and possibly an
end of line after them. -/
def isNumber (s : List Char) : Bool :=
  match s.dropWhile isDigit with
  | [] | ['\n'] => s.head?.any isDigit
  | '.' :: fraction =>
    fraction.head?.any isDigit &&
      (fraction.dropWhile isDigit = [] || fraction.dropWhile isDigit = ['\n'])
  | _ => false

/-- Whether a text is written like a negative number: a dash and a number. -/
def looksNegative : List Char → Bool
  | '-' :: rest => isNumber rest
  | _ => false

/-- A text that names no known option. Negative numbers and texts with spaces are operands. -/
def readUnknown (s : List Char) : Reading :=
  .arguments
    [if looksNegative s || s.contains ' ' then .operand (String.ofList s) else .unknown]

/-- An option with or without a value after an equals sign. -/
def readKnown (o : CommandOption) (value : Option (List Char)) : Reading :=
  match o.takesValue, value with
  | true, some v => .arguments [.valued o.long (String.ofList v)]
  | true, none => .needsValue o.long
  | false, some _ => .arguments [.invalid]
  | false, none => .arguments [.flag o.long]

/-- The part of a text before the first equals sign, and the part after it. -/
def splitValue (s : List Char) : List Char × Option (List Char) :=
  match s.dropWhile (· ≠ '=') with
  | [] => (s, none)
  | _ :: value => (s.takeWhile (· ≠ '='), some value)

/-- The options whose long names start with a text, or only the one that has it as its name. -/
def matching (options : List CommandOption) (name : List Char) : List CommandOption :=
  match options.find? fun o => o.long.toList = name with
  | some o => [o]
  | none => options.filter fun o => name.isPrefixOf o.long.toList

/-- Reads what follows two dashes. -/
def readLong (options : List CommandOption) (s : List Char) : Reading :=
  let (name, value) := splitValue s
  match matching options name with
  | [o] => readKnown o value
  | [] => readUnknown ('-' :: '-' :: s)
  | _ => .arguments [.invalid]

/-- The option of a letter. -/
def ofLetter? (options : List CommandOption) (c : Char) : Option CommandOption :=
  options.find? fun o => o.short = some c

/-- Reads the letters after one dash, which are options without values. -/
def readShort (options : List CommandOption) (s : List Char) : Reading :=
  match s with
  | [] => .arguments [.operand "-"]
  | c :: _ =>
    if (ofLetter? options c).isNone then readUnknown ('-' :: s)
    else
      match s.mapM (ofLetter? options) with
      | some os => .arguments (os.map fun o => .flag o.long)
      | none => .arguments [.invalid]

/-- Reads an argument. -/
def read (options : List CommandOption) (s : List Char) : Reading :=
  match s with
  | '-' :: '-' :: rest => readLong options rest
  | '-' :: rest => readShort options rest
  | _ => .arguments [.operand (String.ofList s)]

/-- Whether an argument can be the value of an option: it is an operand. -/
def isValue (options : List CommandOption) (s : String) : Bool :=
  s ≠ "--" &&
    match read options s.toList with
    | .arguments [.operand _] => true
    | _ => false

/-! ## All arguments -/

/-- The arguments of a command. -/
def list (options : List CommandOption) : List String → List Argument
  | [] => []
  | "--" :: rest => rest.map .operand
  | [s] =>
    match read options s.toList with
    | .arguments list => list
    | .needsValue _ => [.invalid]
  | s :: next :: rest =>
    match read options s.toList with
    | .arguments found => found ++ list options (next :: rest)
    | .needsValue o =>
      if isValue options next then .valued o next :: list options rest
      else .invalid :: list options (next :: rest)

end Argument

end PeerIdentity

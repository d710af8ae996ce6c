import PeerIdentity.Json.Literal

/-!
# JSON values

Values as far as records look into them: a number is read and its value dropped. Besides the
standard notation, `NaN`, `Infinity` and `-Infinity` are numbers. A number with too many digits
before its point is none.

* `Json`: the values;
* `Json.Token`, `Json.tokens?`: a text as a list of tokens;
* `Json.parse`: the value that a text writes.
-/

namespace PeerIdentity

/-- A JSON value. -/
inductive Json where
  | null
  | bool (b : Bool)
  | number
  | text (s : String)
  | array (items : List Json)
  | object (members : List (String × Json))
deriving Inhabited

namespace Json

/-! ## Tokens -/

/-- A token of a text. -/
inductive Token where
  | openArray
  | closeArray
  | openObject
  | closeObject
  | comma
  | colon
  | text (s : String)
  /-- A number, a truth value or `null`. -/
  | plain (value : Json)

/-- Whether a character separates tokens. -/
def isSpace (c : Char) : Bool :=
  c = ' ' || c = '\t' || c = '\n' || c = '\r'

/-- Drops one or more digits. -/
def readDigits : List Char → Option (List Char)
  | c :: rest => if c.isDigit then some (rest.dropWhile Char.isDigit) else none
  | [] => none

/-- Drops the digits before the point: a zero, or digits that do not start with one. -/
def readWhole : List Char → Option (List Char)
  | '0' :: rest => some rest
  | rest => readDigits rest

/-- Drops a point and digits, if there is a point. -/
def readFraction : List Char → Option (List Char)
  | '.' :: rest => readDigits rest
  | rest => some rest

/-- Drops an exponent, if there is one. -/
def readExponent : List Char → Option (List Char)
  | 'e' :: rest | 'E' :: rest =>
    match rest with
    | '+' :: rest | '-' :: rest => readDigits rest
    | rest => readDigits rest
  | rest => some rest

/-- The largest number of characters that a number has before its point, a sign included. -/
def maxWholeLength : Nat :=
  4300

/-- Drops a number without sign that has at most `limit` digits before its point. -/
def readMagnitude (limit : Nat) (s : List Char) : Option (List Char) :=
  if (s.takeWhile Char.isDigit).length ≤ limit then
    ((readWhole s).bind readFraction).bind readExponent
  else none

/-- Drops a number. -/
def readNumber : List Char → Option (List Char)
  | '-' :: 'I' :: 'n' :: 'f' :: 'i' :: 'n' :: 'i' :: 't' :: 'y' :: rest => some rest
  | '-' :: rest => readMagnitude (maxWholeLength - 1) rest
  | rest => readMagnitude maxWholeLength rest

/-- Reads a token that starts with the first character. -/
def readToken : List Char → Option (Token × List Char)
  | '[' :: rest => some (.openArray, rest)
  | ']' :: rest => some (.closeArray, rest)
  | '\x7b' :: rest => some (.openObject, rest)
  | '\x7d' :: rest => some (.closeObject, rest)
  | ',' :: rest => some (.comma, rest)
  | ':' :: rest => some (.colon, rest)
  | '"' :: rest => (readLiteral rest).map fun (s, rest) => (.text (String.ofList s), rest)
  | 't' :: 'r' :: 'u' :: 'e' :: rest => some (.plain (.bool true), rest)
  | 'f' :: 'a' :: 'l' :: 's' :: 'e' :: rest => some (.plain (.bool false), rest)
  | 'n' :: 'u' :: 'l' :: 'l' :: rest => some (.plain .null, rest)
  | 'N' :: 'a' :: 'N' :: rest => some (.plain .number, rest)
  | 'I' :: 'n' :: 'f' :: 'i' :: 'n' :: 'i' :: 't' :: 'y' :: rest => some (.plain .number, rest)
  | rest => (readNumber rest).map fun rest => (.plain .number, rest)

/-- The tokens of a text, of which at most `fuel` are read. -/
def tokensUpTo? : (fuel : Nat) → List Char → Option (List Token)
  | 0, s => if s.all isSpace then some [] else none
  | fuel + 1, s =>
    match s.dropWhile isSpace with
    | [] => some []
    | s =>
      match readToken s with
      | none => none
      | some (t, rest) => (tokensUpTo? fuel rest).map (t :: ·)

/-- The tokens of a text. There are no more of them than characters. -/
def tokens? (s : List Char) : Option (List Token) :=
  tokensUpTo? s.length s

/-! ## Values -/

/-- The largest number of arrays and objects inside one another, counting on from `depth`. Those
that are empty do not count. -/
def nesting (depth : Nat) : List Token → Nat
  | [] => depth
  | .openArray :: .closeArray :: ts | .openObject :: .closeObject :: ts => nesting depth ts
  | .openArray :: ts | .openObject :: ts => nesting (depth + 1) ts
  | .closeArray :: ts | .closeObject :: ts => max depth (nesting (depth - 1) ts)
  | _ :: ts => nesting depth ts

/-- The largest number of arrays and objects inside one another that is read. -/
def maxNesting : Nat :=
  200

mutual

/-- Reads a value in at most `fuel` steps: the value and the tokens after it. -/
def readValue : (fuel : Nat) → List Token → Option (Json × List Token)
  | 0, _ => none
  | _ + 1, .plain v :: rest => some (v, rest)
  | _ + 1, .text s :: rest => some (.text s, rest)
  | _ + 1, .openArray :: .closeArray :: rest => some (.array [], rest)
  | fuel + 1, .openArray :: rest =>
    (readItems fuel rest).map fun (items, rest) => (.array items, rest)
  | _ + 1, .openObject :: .closeObject :: rest => some (.object [], rest)
  | fuel + 1, .openObject :: rest =>
    (readMembers fuel rest).map fun (members, rest) => (.object members, rest)
  | _ + 1, _ => none

/-- Reads the items of an array up to its end. -/
def readItems : (fuel : Nat) → List Token → Option (List Json × List Token)
  | 0, _ => none
  | fuel + 1, ts =>
    match readValue fuel ts with
    | some (v, .closeArray :: rest) => some ([v], rest)
    | some (v, .comma :: rest) =>
      (readItems fuel rest).map fun (items, rest) => (v :: items, rest)
    | _ => none

/-- Reads the members of an object up to its end. -/
def readMembers : (fuel : Nat) → List Token → Option (List (String × Json) × List Token)
  | 0, _ => none
  | fuel + 1, .text key :: .colon :: ts =>
    match readValue fuel ts with
    | some (v, .closeObject :: rest) => some ([(key, v)], rest)
    | some (v, .comma :: rest) =>
      (readMembers fuel rest).map fun (members, rest) => ((key, v) :: members, rest)
    | _ => none
  | _ + 1, _ => none

end

/-- The value that all tokens of a list write. A value takes at most one step for a token. -/
def ofTokens? (ts : List Token) : Option Json :=
  if nesting 0 ts ≤ maxNesting then
    match readValue ts.length ts with
    | some (v, []) => some v
    | _ => none
  else none

/-- The value that a text writes. -/
def parse (s : String) : Option Json :=
  (tokens? s.toList).bind ofTokens?

/-! ## Members -/

/-- The value of a key in a list of members, where the last of several counts. -/
def lookup? (members : List (String × Json)) (key : String) : Option Json :=
  ((members.filter fun m => m.1 = key).getLast?).map (·.2)

/-- The keys of a list of members, with a repeated key as often as it is given. -/
def keys (members : List (String × Json)) : List String :=
  members.map (·.1)

end Json

end PeerIdentity

import SeqCalc.Text.Numeral
import SeqCalc.Json.Basic

/-!
# Reading JSON

A strict reader: one value, blanks around tokens, nothing after the value.  Leading zeros,
trailing commas, comments and raw control characters are refused.  The reader goes down the text
with a count of steps that is the length of the text; no value nests deeper than its text is long.
-/

namespace SeqCalc
namespace Json

/-! ## Strings -/

/-- What a string literal has spelled so far: its characters, last one first. -/
structure Spelling where
  chars : List Char
  /-- A leading surrogate that still waits for its partner. -/
  lead : Option Nat
  /-- Whether some surrogate stayed alone. -/
  broken : Bool

namespace Spelling

def empty : Spelling :=
  ⟨[], none, false⟩

/-- A whole character. -/
def push (s : Spelling) (c : Char) : Spelling :=
  ⟨c :: s.chars, none, s.broken || s.lead.isSome⟩

/-- An escaped 16-bit unit: half a surrogate pair, or a whole character. -/
def pushUnit (s : Spelling) (u : Nat) : Spelling :=
  if 0xD800 ≤ u ∧ u < 0xDC00 then
    ⟨s.chars, some u, s.broken || s.lead.isSome⟩
  else if 0xDC00 ≤ u ∧ u < 0xE000 then
    match s.lead with
    | some lead =>
      ⟨Char.ofNat (0x10000 + (lead - 0xD800) * 0x400 + (u - 0xDC00)) :: s.chars, none, s.broken⟩
    | none => { s with broken := true }
  else
    s.push (Char.ofNat u)

/-- The text, unless a surrogate stayed alone. -/
def text? (s : Spelling) : Option String :=
  if s.broken || s.lead.isSome then none else some (String.ofList s.chars.reverse)

end Spelling

/-- The character that a one-letter escape stands for. -/
def unescape? : Char → Option Char
  | '"' => some '"'
  | '\\' => some '\\'
  | '/' => some '/'
  | 'b' => some '\x08'
  | 'f' => some '\x0c'
  | 'n' => some '\n'
  | 'r' => some '\r'
  | 't' => some '\t'
  | _ => none

/-- The rest of a string literal, up to and including the closing quote. -/
def stringBody? (s : Spelling) : List Char → Option (Option String × List Char)
  | [] => none
  | '"' :: rest => some (s.text?, rest)
  | '\\' :: 'u' :: a :: b :: c :: d :: rest =>
    match Numeral.readHex? [a, b, c, d] with
    | some u => stringBody? (s.pushUnit u) rest
    | none => none
  | '\\' :: e :: rest =>
    match unescape? e with
    | some c => stringBody? (s.push c) rest
    | none => none
  | c :: rest =>
    if c.toNat < 32 ∨ c = '\\' then none else stringBody? (s.push c) rest

/-! ## Numbers -/

/-- A run of digits at the front, and what follows it. -/
def spanDigits (s : List Char) : List Char × List Char :=
  (s.takeWhile Char.isDigit, s.dropWhile Char.isDigit)

/-- A point with digits behind it, if there is a point; tells whether there was one. -/
def fractionPart? : List Char → Option (Bool × List Char)
  | '.' :: s =>
    match spanDigits s with
    | ([], _) => none
    | (_, rest) => some (true, rest)
  | s => some (false, s)

/-- An exponent with digits, if there is an `e`; tells whether there was one. -/
def exponentPart? : List Char → Option (Bool × List Char)
  | [] => some (false, [])
  | c :: s =>
    if c = 'e' ∨ c = 'E' then
      let unsigned := match s with
        | '+' :: t => t
        | '-' :: t => t
        | _ => s
      match spanDigits unsigned with
      | ([], _) => none
      | (_, rest) => some (true, rest)
    else
      some (false, c :: s)

/-- An unsigned number; `negative` tells that a minus sign stood before it. -/
def unsigned? (negative : Bool) (s : List Char) : Option (Json × List Char) :=
  match spanDigits s with
  | ([], _) => none
  | ('0' :: _ :: _, _) => none
  | (digits, rest) =>
    match fractionPart? rest with
    | none => none
    | some (hasPoint, rest) =>
      match exponentPart? rest with
      | none => none
      | some (hasExponent, rest) =>
        let n := Nat.ofDigitChars 10 digits 0
        if hasPoint || hasExponent || (negative && n == 0) then some (fraction, rest)
        else some (int (if negative then -(n : Int) else n), rest)

/-- A number at the front of the text. -/
def number? : List Char → Option (Json × List Char)
  | '-' :: s => unsigned? true s
  | s => unsigned? false s

/-! ## Values -/

/-- The four blanks of the grammar. -/
def isBlank (c : Char) : Bool :=
  c == ' ' || c == '\n' || c == '\t' || c == '\r'

def skipBlanks (s : List Char) : List Char :=
  s.dropWhile isBlank

mutual

/-- A value at the front of the text, in at most `fuel` nested steps. -/
def value? : Nat → List Char → Option (Json × List Char)
  | 0, _ => none
  | fuel + 1, s =>
    match skipBlanks s with
    | '"' :: rest => (stringBody? .empty rest).map fun r => (text r.1, r.2)
    | '[' :: rest =>
      match skipBlanks rest with
      | ']' :: rest => some (array [], rest)
      | rest => (arrayTail? fuel rest).map fun r => (array r.1, r.2)
    | '{' :: rest =>
      match skipBlanks rest with
      | '}' :: rest => some (object [], rest)
      | rest => (objectTail? fuel rest).map fun r => (object r.1, r.2)
    | 'n' :: 'u' :: 'l' :: 'l' :: rest => some (null, rest)
    | 't' :: 'r' :: 'u' :: 'e' :: rest => some (bool true, rest)
    | 'f' :: 'a' :: 'l' :: 's' :: 'e' :: rest => some (bool false, rest)
    | s => number? s

/-- One or more items and the closing bracket. -/
def arrayTail? : Nat → List Char → Option (List Json × List Char)
  | 0, _ => none
  | fuel + 1, s =>
    match value? fuel s with
    | none => none
    | some (item, rest) =>
      match skipBlanks rest with
      | ']' :: rest => some ([item], rest)
      | ',' :: rest => (arrayTail? fuel rest).map fun r => (item :: r.1, r.2)
      | _ => none

/-- One or more members and the closing brace. -/
def objectTail? : Nat → List Char → Option (List (Option String × Json) × List Char)
  | 0, _ => none
  | fuel + 1, s =>
    match skipBlanks s with
    | '"' :: rest =>
      match stringBody? .empty rest with
      | none => none
      | some (key, rest) =>
        match skipBlanks rest with
        | ':' :: rest =>
          match value? fuel rest with
          | none => none
          | some (value, rest) =>
            match skipBlanks rest with
            | '}' :: rest => some ([(key, value)], rest)
            | ',' :: rest => (objectTail? fuel rest).map fun r => ((key, value) :: r.1, r.2)
            | _ => none
        | _ => none
    | _ => none

end

/-- The value that a whole text stands for. -/
def parseChars? (s : List Char) : Option Json :=
  match value? (s.length + 1) s with
  | some (j, rest) => if skipBlanks rest = [] then some j else none
  | none => none

/-- The value that a whole text stands for. -/
def parse? (s : String) : Option Json :=
  parseChars? s.toList

end Json
end SeqCalc

import SeqCalc.Text.Numeral
import SeqCalc.Json.Basic

/-!
# Compact JSON text

The written form of a JSON value: no blanks, members in order, and in strings only quotes,
backslashes and control characters escaped.
-/

namespace SeqCalc
namespace Json

/-- One character of a string literal. -/
def escape (c : Char) : List Char :=
  match c with
  | '"' => ['\\', '"']
  | '\\' => ['\\', '\\']
  | '\n' => ['\\', 'n']
  | '\r' => ['\\', 'r']
  | '\t' => ['\\', 't']
  | '\x08' => ['\\', 'b']
  | '\x0c' => ['\\', 'f']
  | c => if c.toNat < 32 then '\\' :: 'u' :: Numeral.hex 4 c.toNat else [c]

/-- A string literal with its quotes. -/
def quote (s : String) : List Char :=
  '"' :: s.toList.flatMap escape ++ ['"']

mutual

/-- The written form.  A number without a value and a string without a text are written `null`. -/
def render : Json → List Char
  | null => ['n', 'u', 'l', 'l']
  | bool true => ['t', 'r', 'u', 'e']
  | bool false => ['f', 'a', 'l', 's', 'e']
  | int i => Numeral.ofInt i
  | fraction => ['n', 'u', 'l', 'l']
  | text none => ['n', 'u', 'l', 'l']
  | text (some s) => quote s
  | array items => '[' :: renderItems items
  | object members => '{' :: renderMembers members

/-- The items of an array and its closing bracket. -/
def renderItems : List Json → List Char
  | [] => [']']
  | [item] => render item ++ [']']
  | item :: rest => render item ++ ',' :: renderItems rest

/-- The members of an object and its closing brace. -/
def renderMembers : List (Option String × Json) → List Char
  | [] => ['}']
  | [(key, value)] => quote (key.getD "") ++ ':' :: render value ++ ['}']
  | (key, value) :: rest =>
    quote (key.getD "") ++ ':' :: render value ++ ',' :: renderMembers rest

end

/-- The compact text of a value. -/
def print (j : Json) : String :=
  String.ofList j.render

end Json
end SeqCalc

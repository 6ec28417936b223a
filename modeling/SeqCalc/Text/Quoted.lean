import SeqCalc.Text.Printable

/-!
# Quoted text

The form in which developer output shows a text: between quotes, with quotes, backslashes and
everything that would not be seen escaped.
-/

namespace SeqCalc
namespace Quoted

/-- An escape by code point. -/
def byCode (c : Char) : List Char :=
  ['\\', 'u', '\x7b'] ++ Nat.toDigits 16 c.toNat ++ ['\x7d']

/-- One character between the quotes. -/
def escape (c : Char) : List Char :=
  match c with
  | '\x00' => ['\\', '0']
  | '\t' => ['\\', 't']
  | '\r' => ['\\', 'r']
  | '\n' => ['\\', 'n']
  | '\\' => ['\\', '\\']
  | '"' => ['\\', '"']
  | c =>
    if ' ' ≤ c ∧ c ≤ '~' then [c]
    else if Printable.isAttaching c || Printable.isInvisible c then byCode c
    else [c]

/-- A text between quotes. -/
def text (s : String) : String :=
  String.ofList ('"' :: s.toList.flatMap escape ++ ['"'])

end Quoted
end SeqCalc

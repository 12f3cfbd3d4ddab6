import ReleaseWeaver.Text.Unprintable

/-
  Quoted texts, as listings and messages show them: quotes around, and an escape for the quote,
  the backslash, the common controls, and every character that does not print by itself.
-/

namespace ReleaseWeaver.Text.Quoted

/-- Lower-case hexadecimal digits without leading zeros. -/
def hexDigits (n : Nat) : List Char := Nat.toDigits 16 n

def escapesByNumber (c : Char) : Bool :=
  c.val < 0x20 || (c.val ≥ 0x7f && Unprintable.contains c.toNat)

/-- The characters that stand for `c` between the quotes. -/
def escape (c : Char) : List Char :=
  if c = '"' then ['\\', '"']
  else if c = '\\' then ['\\', '\\']
  else if c = '\n' then ['\\', 'n']
  else if c = '\r' then ['\\', 'r']
  else if c = '\t' then ['\\', 't']
  else if c = '\x00' then ['\\', '0']
  else if escapesByNumber c then
    ['\\', 'u', '\x7b'] ++ hexDigits c.toNat ++ ['\x7d']
  else [c]

def quote (s : String) : String :=
  String.ofList ('"' :: s.toList.flatMap escape ++ ['"'])

end ReleaseWeaver.Text.Quoted

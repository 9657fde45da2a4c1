import LuaEmbed.Text.CharTable

/-!
Text in double quotes, as diagnostics show it: quotes, backslashes and the common controls have
short escapes, and what cannot be seen on its own is written by its code point.
-/
namespace LuaEmbed.Quoted

/-- Lower-case hexadecimal digits of a number, without leading zeros. -/
def hexDigits (n : Nat) : List Char := Nat.toDigits 16 n

/-- How one character is shown between double quotes. -/
def escape (c : Char) : List Char :=
  if c = '\x00' then ['\\', '0']
  else if c = '\t' then ['\\', 't']
  else if c = '\r' then ['\\', 'r']
  else if c = '\n' then ['\\', 'n']
  else if c = '"' then ['\\', '"']
  else if c = '\\' then ['\\', '\\']
  else if CharTable.contains CharTable.extending c.toNat ||
      CharTable.contains CharTable.invisible c.toNat then
    '\\' :: 'u' :: '\x7b' :: hexDigits c.toNat ++ ['\x7d']
  else [c]

/-- The quoted form of a text. -/
def quote (s : String) : String := String.ofList ('"' :: (s.toList.flatMap escape ++ ['"']))

end LuaEmbed.Quoted

import FileNaming.Text.Numeral
import FileNaming.Text.Unprintable
import FileNaming.Text.Extender

/-! A text as a literal in double quotes. Quote, backslash, line feed, carriage
return, tab and the null character have escapes of their own; any other
character that is not printed by itself is given by its code point. -/

namespace FileNaming.Text

def hexadecimal (n : Nat) : Text :=
  Nat.toDigits 16 n

def escape (c : Char) : Text :=
  if c = '"' then ['\\', '"']
  else if c = '\\' then ['\\', '\\']
  else if c = '\n' then ['\\', 'n']
  else if c = '\r' then ['\\', 'r']
  else if c = '\t' then ['\\', 't']
  else if c = '\x00' then ['\\', '0']
  else if isExtender c || !isPrintable c then
    '\\' :: 'u' :: '{' :: hexadecimal c.toNat ++ ['}']
  else [c]

def literal (t : Text) : Text :=
  '"' :: t.flatMap escape ++ ['"']

end FileNaming.Text

import ControlLoop.Text.Unprintable

/-!
# Quoted text

A name as the loops and the store show it to people: between quotes, with quotes, backslashes and
line ends escaped, and every character that would not be seen by itself given by its number.
-/

namespace ControlLoop.Text

/-- A character inside a quoted text. -/
def showChar (c : Char) : List Char :=
  if c = '\x00' then ['\\', '0']
  else if c = '\t' then ['\\', 't']
  else if c = '\r' then ['\\', 'r']
  else if c = '\n' then ['\\', 'n']
  else if c = '"' then ['\\', '"']
  else if c = '\\' then ['\\', '\\']
  else if isUnprintable c then '\\' :: 'u' :: '\x7b' :: Nat.toDigits 16 c.toNat ++ ['\x7d']
  else [c]

/-- A text between quotes. -/
def quoted (s : String) : String := String.ofList ('"' :: s.toList.flatMap showChar ++ ['"'])

/-- Some texts between quotes, as a list. -/
def quotedList (ss : List String) : String := "[" ++ String.intercalate ", " (ss.map quoted) ++ "]"

end ControlLoop.Text

import ImageGateway.Text.GraphemeExtend
import ImageGateway.Text.Printable

/-!
# Quoted text for messages

A text inside a message stands in double quotes with the characters that could not be read there
escaped, so that a message is one line of visible characters whatever it quotes.
-/

namespace ImageGateway.Text

/-- One character of a quoted text. NUL, tab, carriage return, line feed, the double quote and the
backslash have short escapes; any other character that is not printable, or that would be drawn on
its neighbour, is given by its code point in lower-case hexadecimal digits. -/
def quotedChar (c : Char) : List Char :=
  if c = '\x00' then ['\\', '0']
  else if c = '\t' then ['\\', 't']
  else if c = '\r' then ['\\', 'r']
  else if c = '\n' then ['\\', 'n']
  else if c = '"' then ['\\', '"']
  else if c = '\\' then ['\\', '\\']
  else if isGraphemeExtend c || !isPrintable c then
    ['\\', 'u', '\x7b'] ++ Nat.toDigits 16 c.toNat ++ ['\x7d']
  else [c]

/-- The text in double quotes. -/
def quoted (s : String) : String :=
  String.ofList ('"' :: (s.toList.flatMap quotedChar ++ ['"']))

end ImageGateway.Text

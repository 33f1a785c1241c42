/-
# Wikidown.Text.Quoted -- texts in quotes

A text that a message speaks about stands in double quotes on one line.  Double quotes and
backslashes have a backslash before them, the usual controls have a letter, and any other
character that does not show by itself is written as its code point, `\u{7f}`.
-/
import Wikidown.Text.Printable

namespace Wikidown.Text

set_option autoImplicit false

/-- A code point in hexadecimal. -/
def codePoint (c : Char) : Text := "\\u\x7b" ++ Nat.toDigits 16 c.toNat ++ "\x7d"

/-- A character inside quotes. -/
def quotedChar (c : Char) : Text :=
  match c with
  | '"' => ['\\', '"']
  | '\\' => ['\\', '\\']
  | '\x00' => "\\0"
  | '\t' => "\\t"
  | '\n' => "\\n"
  | '\r' => "\\r"
  | _ => if isPrintable c then [c] else codePoint c

/-- A text in quotes, as messages about data and about files write it. -/
def quoted (t : Text) : Text := '"' :: (t.flatMap quotedChar ++ ['"'])

end Wikidown.Text

import Depsolve.Text.Hex
import Depsolve.Text.Printable

/-!
# A quoted character

How a message names one character: between single quotes, by itself if it can be shown, by its usual
escape if it has one, and else by its number in hexadecimal.
-/

namespace Depsolve.Text

/-- The character without the quotes around it. -/
def escaped (c : Char) : String :=
  match c with
  | '\x00' => "\\0"
  | '\t' => "\\t"
  | '\n' => "\\n"
  | '\r' => "\\r"
  | '\'' => "\\'"
  | '\\' => "\\\\"
  | c => if isPrintable c then String.singleton c else "\\u\x7b" ++ hexDigits c.toNat ++ "\x7d"

/-- The character between single quotes. -/
def quoted (c : Char) : String :=
  "'" ++ escaped c ++ "'"

end Depsolve.Text

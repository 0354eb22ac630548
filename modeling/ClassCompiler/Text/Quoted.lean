import ClassCompiler.Text.Hex
import ClassCompiler.Text.Printable

/-!
# Quoted text

A string as one printable token: double quotes around it, a backslash before a quote or a
backslash, short escapes for the common control characters and a code-point escape for every other
character that is not printable.
-/

namespace ClassCompiler.Text

/-- How one character stands inside quotes. -/
def quotedChar (c : Char) : String :=
  match c with
  | '\x00' => "\\0"
  | '\t' => "\\t"
  | '\n' => "\\n"
  | '\r' => "\\r"
  | '"' => "\\\""
  | '\\' => "\\\\"
  | _ => if isPrintable c then c.toString else "\\u\x7b" ++ hexDigits c.toNat ++ "\x7d"

def quoted (text : String) : String :=
  "\"" ++ String.join (text.toList.map quotedChar) ++ "\""

end ClassCompiler.Text

import ApiSchema.Text.Basic
import ApiSchema.Text.Printable

set_option autoImplicit false

namespace ApiSchema.Text

/-- A code point in hexadecimal between braces. -/
def codePointEscape (n : Nat) : Text :=
  "\\u\x7b".toList ++ Nat.toDigits 16 n ++ ['\x7d']

/-- A character of a quoted text. -/
def quoteChar (c : Char) : Text :=
  if c = '"' then "\\\""
  else if c = '\\' then "\\\\"
  else if c = '\n' then "\\n"
  else if c = '\r' then "\\r"
  else if c = '\t' then "\\t"
  else if c.toNat = 0 then "\\0"
  else if isPrintable c then [c]
  else codePointEscape c.toNat

def quote (text : Text) : Text := '"' :: text.flatMap quoteChar ++ ['"']

end ApiSchema.Text

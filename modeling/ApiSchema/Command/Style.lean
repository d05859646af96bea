import ApiSchema.Text.Basic

set_option autoImplicit false

namespace ApiSchema.Command

inductive Style
  | red
  | green
  | yellow
  | cyan
  | bold
  | dimmed
deriving DecidableEq, Repr

def Style.code : Style → Text
  | red => "31"
  | green => "32"
  | yellow => "33"
  | cyan => "36"
  | bold => "1"
  | dimmed => "2"

/-- The sequence that switches to a style. -/
def Style.opening (style : Style) : Text := "\x1b[" ++ style.code ++ "m"

def styleEnd : Text := "\x1b[0m"

/-- The text in a style, if there are colours. Where the text itself ends all styles, its own begins
again. -/
def Style.apply (colours : Bool) (style : Style) (text : Text) : Text :=
  if colours then
    style.opening ++ Text.replace styleEnd (styleEnd ++ style.opening) text ++ styleEnd
  else text

end ApiSchema.Command

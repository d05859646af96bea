import ApiSchema.Json.Token

set_option autoImplicit false

namespace ApiSchema.Json

/-- A character of a string: quotation marks, backslashes and control characters are escaped, all
others stand as they are. -/
def writeChar (c : Char) : Text :=
  if c = '"' then "\\\""
  else if c = '\\' then "\\\\"
  else if c = '\x08' then "\\b"
  else if c = '\x0c' then "\\f"
  else if c = '\n' then "\\n"
  else if c = '\r' then "\\r"
  else if c = '\t' then "\\t"
  else if c.toNat < 0x20 then
    "\\u00" ++ [Nat.digitChar (c.toNat / 16), Nat.digitChar (c.toNat % 16)]
  else [c]

def writeString (text : Text) : Text := '"' :: text.flatMap writeChar ++ ['"']

def writeName (name : Option Text) : Text := writeString (name.getD [])

/-- A value that is no container. What no text can stand for is written as null. -/
def writeLeaf : Json → Text
  | flag true => "true"
  | flag false => "false"
  | number numeral => numeral.text
  | string value => writeString value
  | _ => "null"

mutual

/-- The value without gaps. -/
def compact : Json → Text
  | array items _ => '[' :: compactItems items ++ "]"
  | object members _ => '{' :: compactMembers members ++ "\x7d"
  | leaf => writeLeaf leaf

def compactItems : List Json → Text
  | [] => []
  | item :: rest =>
    item.compact ++
      match rest with
      | [] => []
      | next :: more => ',' :: compactItems (next :: more)

def compactMembers : List (Option Text × Json) → Text
  | [] => []
  | (name, value) :: rest =>
    writeName name ++ ':' :: value.compact ++
      match rest with
      | [] => []
      | next :: more => ',' :: compactMembers (next :: more)

end

/-- A new line with `depth` steps of two blanks. -/
def newLine (depth : Nat) : Text := '\n' :: List.replicate (2 * depth) ' '

mutual

/-- The value with every item and member on a line of its own, `depth` steps in. -/
def pretty (depth : Nat) : Json → Text
  | array items _ =>
    match items with
    | [] => "[]"
    | first :: rest =>
      '[' :: newLine (depth + 1) ++ first.pretty (depth + 1) ++ prettyItems (depth + 1) rest
        ++ newLine depth ++ "]"
  | object members _ =>
    match members with
    | [] => "\x7b\x7d"
    | (name, value) :: rest =>
      '{' :: newLine (depth + 1) ++ writeName name ++ ": " ++ value.pretty (depth + 1)
        ++ prettyMembers (depth + 1) rest ++ newLine depth ++ "\x7d"
  | leaf => writeLeaf leaf

def prettyItems (depth : Nat) : List Json → Text
  | [] => []
  | item :: rest => ',' :: newLine depth ++ item.pretty depth ++ prettyItems depth rest

def prettyMembers (depth : Nat) : List (Option Text × Json) → Text
  | [] => []
  | (name, value) :: rest =>
    ',' :: newLine depth ++ writeName name ++ ": " ++ value.pretty depth ++ prettyMembers depth rest

end

end ApiSchema.Json

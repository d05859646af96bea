import ApiSchema.Yaml.Node
import ApiSchema.Decode.Source

set_option autoImplicit false

namespace ApiSchema.Yaml

def nulls : List Text := ["", "null", "Null", "NULL", "~"]

def flag? (text : Text) : Option Bool :=
  if text ∈ (["true", "True", "TRUE"] : List Text) then some true
  else if text ∈ (["false", "False", "FALSE"] : List Text) then some false
  else none

/-- The value of a digit of numbers to any base up to sixteen. -/
def digit? (base : Nat) (c : Char) : Option Nat := (Text.hexValue? c).filter (· < base)

/-- The number that at least one digit writes to this base. -/
def digits? (base : Nat) (text : Text) : Option Nat :=
  if text = [] then none
  else text.foldlM (fun n c => (digit? base c).map (n * base + ·)) 0

/-- Digits behind a letter that tells their base. -/
def based? (text : Text) : Option Nat :=
  match text with
  | '0' :: 'x' :: rest => digits? 16 rest
  | '0' :: 'o' :: rest => digits? 8 rest
  | '0' :: 'b' :: rest => digits? 2 rest
  | _ => none

def unsigned (text : Text) : Text :=
  match text with
  | '+' :: rest => rest
  | '-' :: rest => rest
  | _ => text

/-- Digits with a zero in front, which are no number. -/
def hasLeadingZero (text : Text) : Bool :=
  match unsigned text with
  | '0' :: rest => !rest.isEmpty && rest.all Char.isDigit
  | _ => false

/-- A natural number, with a plus or without. -/
def natural? (text : Text) : Option Nat :=
  match text with
  | '-' :: _ => none
  | _ =>
    if hasLeadingZero text then none
    else (based? (unsigned text)).or (digits? 10 (unsigned text))

def negative? (text : Text) : Option Nat :=
  match text with
  | '-' :: rest => if hasLeadingZero text then none else (based? rest).or (digits? 10 rest)
  | _ => none

/-- An exponent behind its letter. -/
def exponent? (text : Text) : Option Int :=
  match text with
  | '-' :: rest => (digits? 10 rest).map fun n => -(n : Int)
  | '+' :: rest => (digits? 10 rest).map fun n => (n : Int)
  | _ => (digits? 10 text).map fun n => (n : Int)

/-- A numeral with a digit on one side of its point at least. -/
def numeral? (negative : Bool) (text : Text) : Option Numeral :=
  let whole := text.takeWhile Char.isDigit
  let tail := text.dropWhile Char.isDigit
  let (fraction, tail) :=
    match tail with
    | '.' :: rest => (rest.takeWhile Char.isDigit, rest.dropWhile Char.isDigit)
    | _ => ([], tail)
  if whole = [] ∧ fraction = [] then none
  else
    match tail with
    | [] => some ⟨negative, whole, fraction, none⟩
    | c :: rest =>
      if c = 'e' ∨ c = 'E' then
        (exponent? rest).map fun n => ⟨negative, whole, fraction, some n⟩
      else none

def infinities : List Text := [".inf", ".Inf", ".INF"]

def notNumbers : List Text := [".nan", ".NaN", ".NAN"]

/-- A double: infinite, no number, or the one nearest to a numeral, if that is finite. -/
def real? (text : Text) : Option Binary64 :=
  let isNegative := text.head? = some '-'
  let body := unsigned text
  if body ∈ infinities then some (.infinite isNegative)
  else if text ∈ notNumbers then some .nan
  else (numeral? isNegative body).bind fun numeral =>
    if numeral.nearest.isFinite then some numeral.nearest else none

/-- What a plain scalar is. Integers beyond 64 bits that 128 bits can hold are refused. -/
def plainDatum (text : Text) : Except Fault Datum :=
  if text ∈ nulls then .ok .null
  else
    match flag? text with
    | some value => .ok (.flag value)
    | none =>
      match natural? text, negative? text with
      | some n, _ =>
        if n < UInt64.size then .ok (.integer n)
        else if n < Nat.pow 2 128 then .error .malformed
        else realDatum text
      | none, some n =>
        if n ≤ Nat.pow 2 63 then .ok (.integer (-n))
        else if n ≤ Nat.pow 2 127 then .error .malformed
        else realDatum text
      | none, none => if hasLeadingZero text then .ok (.text text) else realDatum text
where
  realDatum (text : Text) : Except Fault Datum :=
    match real? text with
    | some value => .ok (.real value)
    | none => .ok (.text text)

/-- The number of containers that may stand in one another. -/
def deepest : Nat := 128

mutual

/-- The value with all that it holds, `depth` containers being open around it. -/
def datum (depth : Nat) : Yaml → Except Fault Datum
  | scalar text plain => if plain then plainDatum text else .ok (.text text)
  | sequence items =>
    if depth < deepest then
      match data (depth + 1) items with
      | .error fault => .error fault
      | .ok values => .ok (.sequence values)
    else .error .malformed
  | mapping pairs =>
    if depth < deepest then
      match checkPairs (depth + 1) pairs with
      | .error fault => .error fault
      | .ok () => .ok .mapping
    else .error .malformed

def data (depth : Nat) : List Yaml → Except Fault (List Datum)
  | [] => .ok []
  | item :: rest =>
    match item.datum depth with
    | .error fault => .error fault
    | .ok value =>
      match data depth rest with
      | .error fault => .error fault
      | .ok values => .ok (value :: values)

def checkPairs (depth : Nat) : List (Yaml × Yaml) → Except Fault Unit
  | [] => .ok ()
  | (name, value) :: rest =>
    match name.datum depth with
    | .error fault => .error fault
    | .ok _ =>
      match value.datum depth with
      | .error fault => .error fault
      | .ok _ => checkPairs depth rest

end

def text : Yaml → Except Fault Text
  | scalar text _ => .ok text
  | _ => .error .malformed

/-- What `read` finds in a plain scalar. -/
def plainly {α : Type} (read : Text → Option α) : Yaml → Except Fault α
  | scalar text true =>
    match read text with
    | some value => .ok value
    | none => .error .malformed
  | _ => .error .malformed

/-- The items of a list; nothing at all stands for no items. -/
def items : Yaml → Except Fault (List Yaml × Bool)
  | sequence items => .ok (items, true)
  | scalar [] true => .ok ([], true)
  | _ => .error .malformed

/-- The pairs of a mapping whose keys are all scalars, with these as names. -/
def named : List (Yaml × Yaml) → Except Fault (List (Text × Yaml))
  | [] => .ok []
  | (name, value) :: rest =>
    match name.text with
    | .error fault => .error fault
    | .ok name => (named rest).map ((name, value) :: ·)

def members (shape : Shape Yaml) : Yaml → Except Fault (List (Text × Yaml))
  | mapping pairs =>
    match named pairs with
    | .error fault => .error fault
    | .ok members => (shape.scan [] members).map fun () => members
  | scalar [] true => .ok []
  | _ => .error .malformed

def variant (names : List Text) (value : Yaml) : Except Fault Text :=
  match value.text with
  | .error fault => .error fault
  | .ok name => if name ∈ names then .ok name else .error (.unknownVariant name names)

instance : RecordSource Yaml where
  text := text
  flag := plainly flag?
  status := fun value =>
    match plainly natural? value with
    | .error fault => .error fault
    | .ok n => Datum.asStatus (.integer n)
  length := fun value =>
    match plainly natural? value with
    | .error fault => .error fault
    | .ok n => Datum.asLength (.integer n)
  real := fun value =>
    match value.datum 0 with
    | .error fault => .error fault
    | .ok datum => datum.asReal
  items := items
  isNull
    | scalar text true => text ∈ nulls
    | _ => false
  variant := variant
  members := members
  datum := datum
  skip := fun _ => .ok ()

/-- Reads a whole text by `decode`; every fault makes the text a malformed one. -/
def decodeText {α : Type} (decode : Yaml → Except Fault α) (text : Text) : Except Fault α :=
  match read? text with
  | none => .error .malformed
  | some value => (decode value).mapError fun _ => .malformed

end ApiSchema.Yaml

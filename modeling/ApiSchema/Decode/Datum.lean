import ApiSchema.Text.Quoted
import ApiSchema.Decimal.Shortest

set_option autoImplicit false

namespace ApiSchema

/-- What a value is. Of a mapping only this is kept. -/
inductive Datum
  | null
  | flag (value : Bool)
  | integer (value : Int)
  | real (value : Binary64)
  | text (value : Text)
  | sequence (items : List Datum)
  | mapping
deriving Repr

/-- Where doubles are written without an exponent. -/
def realLayout : Decimal.Layout := ⟨-5, 15⟩

def realText (value : Binary64) : Text :=
  match realLayout.ofBinary64? value with
  | some numeral => numeral.text
  | none => "null"

/-- The name of a value in messages. -/
def Datum.describe : Datum → Text
  | null => "null"
  | flag true => "boolean `true`"
  | flag false => "boolean `false`"
  | integer value => "integer `" ++ (Numeral.ofInt value).text ++ "`"
  | real value => "floating point `" ++ realText value ++ "`"
  | text value => "string " ++ Text.quote value
  | sequence _ => "sequence"
  | mapping => "map"

/-- Why a value does not decode. -/
inductive Fault
  /-- The text does not follow the notation. -/
  | malformed
  | missingField (name : Text)
  | duplicateField (name : Text)
  | unknownVariant (found : Text) (known : List Text)
  | wrongType (found : Datum) (expected : Text)
  | outOfRange (found : Int) (expected : Text)
  | wrongLength (length : Nat) (record : Text) (fields : Nat)
deriving Repr

namespace Fault

/-- A text between grave accents. -/
def ticked (text : Text) : Text := '`' :: text ++ ['`']

/-- The wording of a fault. What a malformed text lacks is not told. -/
def message? : Fault → Option Text
  | malformed => none
  | missingField name => some ("missing field " ++ ticked name)
  | duplicateField name => some ("duplicate field " ++ ticked name)
  | unknownVariant found known =>
    some ("unknown variant " ++ ticked found ++ ", expected one of "
      ++ Text.joinWith ", " (known.map ticked))
  | wrongType found expected =>
    some ("invalid type: " ++ found.describe ++ ", expected " ++ expected)
  | outOfRange found expected =>
    some ("invalid value: " ++ (Datum.integer found).describe ++ ", expected " ++ expected)
  | wrongLength length record fields =>
    some ("invalid length " ++ Text.ofNat length ++ ", expected struct " ++ record ++ " with "
      ++ Text.ofNat fields ++ (if fields = 1 then " element" else " elements"))

end Fault

namespace Datum

def asText : Datum → Except Fault Text
  | text value => .ok value
  | other => .error (.wrongType other "a string")

def asFlag : Datum → Except Fault Bool
  | flag value => .ok value
  | other => .error (.wrongType other "a boolean")

/-- An integer from 0 up to below `limit`; `expected` names the range. -/
def asNat (limit : Nat) (expected : Text) : Datum → Except Fault Nat
  | integer value =>
    if 0 ≤ value ∧ value < limit then .ok value.toNat else .error (.outOfRange value expected)
  | other => .error (.wrongType other expected)

def asStatus (datum : Datum) : Except Fault UInt16 :=
  (datum.asNat UInt16.size "u16").map UInt16.ofNat

def asLength (datum : Datum) : Except Fault UInt64 :=
  (datum.asNat UInt64.size "u64").map UInt64.ofNat

/-- A number as a double; integers are rounded. -/
def asReal : Datum → Except Fault Binary64
  | integer value => .ok (.ofNat (value < 0) value.natAbs)
  | real value => .ok value
  | other => .error (.wrongType other "f64")

end Datum

end ApiSchema

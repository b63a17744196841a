import Mathlib.Data.List.AList
import Mathlib.Data.Nat.Digits.Lemmas
import BadgeKeeper.Lib.Heap
import BadgeKeeper.Lib.Json

/-!
The parts of Objective-C and Foundation that the client is written in: strings,
doubles and boxed numbers, dictionaries keyed by strings, the objects that
`NSJSONSerialization` returns, and the messages the client sends to them. A
message that the receiver's class does not implement raises; a message to nil
returns nil or zero.
-/

namespace BadgeKeeper

abbrev NSString := Unicode.Utf16

/-- A string literal `@"…"`. -/
def ns (literal : String) : NSString := Unicode.encode literal.toList

/-- The `%@` of `stringWithFormat:` for a string argument, which may be nil. -/
def formatObject : Option NSString → NSString
  | none => ns "(null)"
  | some string => string

/-- An IEEE 754 double, as its 64 bits. -/
structure Double where
  bits : UInt64
deriving DecidableEq, Repr

namespace Double

def isNegative (d : Double) : Bool := decide (2 ^ 63 ≤ d.bits.toNat)

def biasedExponent (d : Double) : Nat := d.bits.toNat / 2 ^ 52 % 2 ^ 11

def fraction (d : Double) : Nat := d.bits.toNat % 2 ^ 52

def isFinite (d : Double) : Bool := decide (d.biasedExponent ≠ 2047)

def isNaN (d : Double) : Bool := !d.isFinite && decide (d.fraction ≠ 0)

/-- The exact value of a finite double. -/
def toRat (d : Double) : ℚ :=
  let magnitude : ℚ :=
    if d.biasedExponent = 0 then d.fraction * (2 : ℚ) ^ (-1074 : ℤ)
    else (2 ^ 52 + d.fraction) * (2 : ℚ) ^ ((d.biasedExponent : ℤ) - 1075)
  if d.isNegative then -magnitude else magnitude

def zero : Double := ⟨0⟩

def one : Double := ⟨0x3FF0000000000000⟩

end Double

/-- A boxed number, as what its conversion messages return. -/
structure NSNumber where
  intValue : Int32
  doubleValue : Double
  boolValue : Bool
deriving DecidableEq

/-- The platform's conversions between numbers and text. They are not part of
the repository; what a result needs of them is a hypothesis of that result. -/
class NumberFormat where
  /-- The `%@` of a boxed double. -/
  description : Double → NSString
  intValue : NSString → Int32
  doubleValue : NSString → Double
  boolValue : NSString → Bool

/-- Numerals to evaluate the model with: decimal for zero and one, and for the
other finite doubles a one before the digits of the bits, lowest first. -/
def Double.numeral (d : Double) : NSString :=
  if d.isNaN then ns "nan"
  else if !d.isFinite then if d.isNegative then ns "-inf" else ns "inf"
  else if d = Double.zero then ns "0"
  else if d = Double.one then ns "1"
  else 0x31 :: (Nat.digits 10 d.bits.toNat).map fun digit => UInt16.ofNat (0x30 + digit)

/-- These numerals; no text is read as a number. -/
@[reducible] def NumberFormat.numerals : NumberFormat where
  description := Double.numeral
  intValue _ := 0
  doubleValue _ := Double.zero
  boolValue _ := false

inductive NSException where
  /-- The receiver's class does not implement the message. -/
  | unrecognizedSelector
  /-- `setObject:forKey:` with a nil key. -/
  | invalidArgument
  /-- Raised by Realm. -/
  | realm
deriving DecidableEq, Repr

/-- Keyed by string; the keys are distinct. -/
abbrev NSMutableDictionary (α : Type) := AList fun _ : NSString => α

/-- An object as `NSJSONSerialization` returns it. `id` is `Option JSONObject`,
with `none` for nil. -/
abbrev JSONObject := Json NSNumber

namespace JSONObject

/-- `receiver[@"key"]`: only dictionaries can be subscripted by a string. -/
def subscript (receiver : JSONObject) (key : NSString) :
    Except NSException (Option JSONObject) :=
  match receiver with
  | .object members => .ok (members.lookup key)
  | _ => .error .unrecognizedSelector

/-- `[receiver copy]`: every JSON class is immutable and can be copied, so no
class check takes place. -/
def copy (receiver : Option JSONObject) : Option JSONObject := receiver

/-- `x != nil && x != [NSNull null]`. -/
def unlessNull : Option JSONObject → Option JSONObject
  | some .null => none
  | other => other

/-- The objects that `for (item in receiver)` visits: an array's elements, a
dictionary's keys. -/
def enumerate : Option JSONObject → Except NSException (List JSONObject)
  | none => .ok []
  | some (.array items) => .ok items
  | some (.object members) => .ok (members.map fun member => .string member.1)
  | some _ => .error .unrecognizedSelector

section

variable [NumberFormat]

/-- Both `NSNumber` and `NSString` answer the three conversion messages. -/
def intValue : Option JSONObject → Except NSException Int32
  | none => .ok 0
  | some (.number n) => .ok n.intValue
  | some (.bool b) => .ok (if b then 1 else 0)
  | some (.string s) => .ok (NumberFormat.intValue s)
  | some _ => .error .unrecognizedSelector

def doubleValue : Option JSONObject → Except NSException Double
  | none => .ok Double.zero
  | some (.number n) => .ok n.doubleValue
  | some (.bool b) => .ok (if b then Double.one else Double.zero)
  | some (.string s) => .ok (NumberFormat.doubleValue s)
  | some _ => .error .unrecognizedSelector

def boolValue : Option JSONObject → Except NSException Bool
  | none => .ok false
  | some (.number n) => .ok n.boolValue
  | some (.bool b) => .ok b
  | some (.string s) => .ok (NumberFormat.boolValue s)
  | some _ => .error .unrecognizedSelector

end

end JSONObject

end BadgeKeeper

/-!
Whole numbers below 2^64 in decimal digits. Leading zeros are allowed, and only the ten ASCII
digits count as digits.
-/

namespace TagQuery.Text

/-- Why a text is no whole number below 2^64. -/
inductive DecimalError where
  | empty
  | invalidDigit
  | tooLarge
  deriving DecidableEq, Repr

def DecimalError.message : DecimalError → String
  | .empty => "cannot parse integer from empty string"
  | .invalidDigit => "invalid digit found in string"
  | .tooLarge => "number too large to fit in target type"

def digitValue (c : Char) : Nat :=
  c.toNat - '0'.toNat

/-- Reads digits after those that make up `value`. Of a foreign character and the digit with which
the number leaves the range, the first is reported. -/
def readDigits (value : Nat) : List Char → Except DecimalError UInt64
  | [] => .ok (UInt64.ofNat value)
  | c :: digits =>
    if c.isDigit then
      let next := 10 * value + digitValue c
      if next < UInt64.size then readDigits next digits else .error .tooLarge
    else .error .invalidDigit

/-- Reads one or more digits and nothing else. -/
def readUnsigned : List Char → Except DecimalError UInt64
  | [] => .error .empty
  | digits => readDigits 0 digits

/-- Reads one or more digits, which a plus sign may precede. -/
def readDecimal : List Char → Except DecimalError UInt64
  | ['+'] => .error .invalidDigit
  | '+' :: digits => readDigits 0 digits
  | digits => readUnsigned digits

end TagQuery.Text

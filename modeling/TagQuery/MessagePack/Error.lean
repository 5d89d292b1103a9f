import TagQuery.Text.Quoted

/-!
Why bytes are not the MessagePack form of a wanted value, and the words for it.
-/

namespace TagQuery.MessagePack

/-- What stands where another value is wanted. -/
inductive Found where
  | nothing
  | boolean (value : Bool)
  | integer (value : Int)
  | float
  | text (value : String)
  | binary
  | array
  | map
  | extension
  deriving DecidableEq, Repr

def Found.describe : Found → String
  | .nothing => "unit value"
  | .boolean value => s!"boolean `{value}`"
  | .integer value => s!"integer `{value}`"
  | .float => "floating point"
  | .text value => s!"string {Text.quoted value}"
  | .binary => "byte array"
  | .array => "sequence"
  | .map => "map"
  | .extension => "newtype struct"

/-- A value that is well formed and yet is not what is wanted. -/
inductive Mistake where
  | wrongType (found : Found) (wanted : String)
  | wrongValue (found : Found) (wanted : String)
  | tooShort (length : Nat) (wanted : String)
  | missingField (name : String)
  | duplicateField (name : String)
  deriving DecidableEq, Repr

def Mistake.message : Mistake → String
  | .wrongType found wanted => s!"invalid type: {found.describe}, expected {wanted}"
  | .wrongValue found wanted => s!"invalid value: {found.describe}, expected {wanted}"
  | .tooShort length wanted => s!"invalid length {length}, expected {wanted}"
  | .missingField name => s!"missing field `{name}`"
  | .duplicateField name => s!"duplicate field `{name}`"

/-- Why reading fails. The bytes can end where a value should begin, or within the length, the
number or the text of a value. -/
inductive ReadError where
  | missingMarker
  | missingData
  | reservedMarker
  | notUtf8
  | tooDeep
  | mistake (m : Mistake)
  deriving DecidableEq, Repr

namespace ReadError

/-- Why the bytes could not be had, where that is the reason. -/
def cause? : ReadError → Option String
  | .missingMarker | .missingData => some "failed to fill whole buffer"
  | _ => none

def message : ReadError → String
  | .missingMarker => "IO error while reading marker: failed to fill whole buffer"
  | .missingData => "IO error while reading data: failed to fill whole buffer"
  | .reservedMarker => "wrong msgpack marker Reserved"
  | .notUtf8 => "string found to be invalid utf8"
  | .tooDeep => "depth limit exceeded"
  | .mistake m => m.message

end ReadError

end TagQuery.MessagePack

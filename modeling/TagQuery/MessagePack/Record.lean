import TagQuery.MessagePack.Decode

/-!
Reading records. A record is an array of its fields in order, or a map whose keys are names or
numbers of fields. An array may be longer than the record, and what it holds beyond the fields is
left to be read. A map may have other keys, which are passed over with their values.
-/

namespace TagQuery.MessagePack

/-- A field of a record of which `σ` holds what has been read. -/
structure RecordField (σ : Type) where
  name : String
  isSet : σ → Bool
  read : σ → Reader σ

/-- A field from how its value is held and read. -/
def RecordField.of {σ α : Type} (name : String) (get : σ → Option α) (set : σ → α → σ)
    (value : Reader α) : RecordField σ where
  name := name
  isSet s := (get s).isSome
  read s := return set s (← value)

/-- The name of a record, as an error shows it, and its fields. -/
structure RecordFormat (σ : Type) where
  name : String
  fields : List (RecordField σ)

namespace RecordFormat

variable {σ : Type} (format : RecordFormat σ)

/-- Reads fields one after another while the array lasts. -/
def readInOrder (size : Nat) : (index : Nat) → List (RecordField σ) → σ → Reader σ
  | _, [], s => return s
  | index, field :: fields, s =>
    if index < size then do readInOrder size (index + 1) fields (← field.read s)
    else throw (.mistake (.tooShort size s!"{format.name} with {format.fields.length} elements"))

/-- The field that a key means, if it means one. -/
def fieldOfKey : Item → Except ReadError (Option (RecordField σ))
  | .unsigned number => .ok format.fields[number]?
  | .text bytes => .ok (format.fields.find? (Text.utf8 ·.name = bytes))
  | .binary bytes => .ok (format.fields.find? (Text.utf8 ·.name = bytes))
  | item => .error (item.mismatch "field identifier")

/-- Reads the entries of a map. No field may come twice. -/
def readEntriesOf (room : Nat) : (count : Nat) → σ → Reader σ
  | 0, s => return s
  | count + 1, s => do
    match ← format.fieldOfKey (← readItem) with
    | none =>
      skip room
      readEntriesOf room count s
    | some field =>
      if field.isSet s then throw (.mistake (.duplicateField field.name))
      else readEntriesOf room count (← field.read s)

/-- Reads a record into `s`, with so much room for what is passed over. -/
def read (room : Nat) (s : σ) : Reader σ := do
  match ← readItem with
  | .array size => format.readInOrder size 0 format.fields s
  | .map size => format.readEntriesOf room size s
  | item => throw (item.mismatch format.name)

end RecordFormat

/-- The value of a field, which must have been read. -/
def required {α : Type} (name : String) : Option α → Reader α
  | some value => return value
  | none => throw (.mistake (.missingField name))

end TagQuery.MessagePack

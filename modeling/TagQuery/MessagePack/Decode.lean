import TagQuery.MessagePack.Encode
import TagQuery.MessagePack.Error
import TagQuery.SortedMap

/-!
Reading MessagePack: items, values that are passed over, numbers, truth values, texts and maps. An
item is taken whole before it is judged whether it is what is wanted, so bytes that end too soon are
noticed first.
-/

namespace TagQuery.MessagePack

/-- Reads from the front of some bytes, and leaves those that follow. -/
abbrev Reader (α : Type) := StateT Bytes (Except ReadError) α

/-- The number that bytes stand for, the most significant first. -/
def ofBigEndian (bytes : Bytes) : Nat :=
  bytes.foldl (fun n byte => 256 * n + byte.toNat) 0

/-- A number in two's complement. -/
def ofTwosComplement (width n : Nat) : Int :=
  if n < 1 <<< (8 * width - 1) then n else (n : Int) - (1 <<< (8 * width) : Nat)

/-- The beginning of a value: all of a value that holds no others, and the size of one that does. -/
inductive Item where
  | nothing
  | boolean (value : Bool)
  | unsigned (value : Nat)
  | signed (value : Int)
  | float
  | text (bytes : Bytes)
  | binary (bytes : Bytes)
  | array (size : Nat)
  | map (size : Nat)
  | extension (size : Nat)
  deriving DecidableEq, Repr

/-- Takes bytes from the front. -/
def take (count : Nat) : Reader Bytes := fun bytes =>
  let front := bytes.take count
  if front.length < count then .error .missingData else .ok (front, bytes.drop count)

/-- Takes a number of some width. -/
def takeNat (width : Nat) : Reader Nat := do
  return ofBigEndian (← take width)

/-- Takes a number of some width in two's complement. -/
def takeInt (width : Nat) : Reader Int := do
  return ofTwosComplement width (← takeNat width)

/-- Takes a length of some width, and then as many bytes. -/
def takeSized (width : Nat) : Reader Bytes := do
  take (← takeNat width)

/-- The item that a marker begins. -/
def readMarked (marker : Nat) : Reader Item :=
  if marker < 0x80 then pure (.unsigned marker)
  else if marker < 0x90 then pure (.map (marker - 0x80))
  else if marker < 0xa0 then pure (.array (marker - 0x90))
  else if marker < 0xc0 then .text <$> take (marker - 0xa0)
  else if 0xe0 ≤ marker then pure (.signed (ofTwosComplement 1 marker))
  else
    match marker with
    | 0xc0 => pure .nothing
    | 0xc2 => pure (.boolean false)
    | 0xc3 => pure (.boolean true)
    | 0xc4 => .binary <$> takeSized 1
    | 0xc5 => .binary <$> takeSized 2
    | 0xc6 => .binary <$> takeSized 4
    | 0xc7 => .extension <$> takeNat 1
    | 0xc8 => .extension <$> takeNat 2
    | 0xc9 => .extension <$> takeNat 4
    | 0xca => (fun _ => .float) <$> take 4
    | 0xcb => (fun _ => .float) <$> take 8
    | 0xcc => .unsigned <$> takeNat 1
    | 0xcd => .unsigned <$> takeNat 2
    | 0xce => .unsigned <$> takeNat 4
    | 0xcf => .unsigned <$> takeNat 8
    | 0xd0 => .signed <$> takeInt 1
    | 0xd1 => .signed <$> takeInt 2
    | 0xd2 => .signed <$> takeInt 4
    | 0xd3 => .signed <$> takeInt 8
    | 0xd4 => pure (.extension 1)
    | 0xd5 => pure (.extension 2)
    | 0xd6 => pure (.extension 4)
    | 0xd7 => pure (.extension 8)
    | 0xd8 => pure (.extension 16)
    | 0xd9 => .text <$> takeSized 1
    | 0xda => .text <$> takeSized 2
    | 0xdb => .text <$> takeSized 4
    | 0xdc => .array <$> takeNat 2
    | 0xdd => .array <$> takeNat 4
    | 0xde => .map <$> takeNat 2
    | 0xdf => .map <$> takeNat 4
    | _ => throw .reservedMarker

/-- Reads an item. -/
def readItem : Reader Item
  | [] => .error .missingMarker
  | marker :: bytes => readMarked marker.toNat bytes

/-- The error of an item that is not what is wanted. A text that is no UTF-8 is wrong as such. -/
def Item.mismatch (wanted : String) : Item → ReadError
  | .nothing => .mistake (.wrongType .nothing wanted)
  | .boolean value => .mistake (.wrongType (.boolean value) wanted)
  | .unsigned value => .mistake (.wrongType (.integer value) wanted)
  | .signed value => .mistake (.wrongType (.integer value) wanted)
  | .float => .mistake (.wrongType .float wanted)
  | .text bytes =>
    match Text.ofUtf8? bytes with
    | some s => .mistake (.wrongType (.text s) wanted)
    | none => .notUtf8
  | .binary _ => .mistake (.wrongType .binary wanted)
  | .array _ => .mistake (.wrongType .array wanted)
  | .map _ => .mistake (.wrongType .map wanted)
  | .extension _ => .mistake (.wrongType .extension wanted)

/-- Applies a reader a number of times. -/
def repeatedly (reader : Reader Unit) : Nat → Reader Unit
  | 0 => pure ()
  | count + 1 => do
    reader
    repeatedly reader count

/-- What passes over the inside of a value, if it has one: the items of an array, the keys and values
of a map, the bytes of an extension. -/
def Item.skipInside (skipValue : Reader Unit) : Item → Option (Reader Unit)
  | .array size => some (repeatedly skipValue size)
  | .map size => some (repeatedly skipValue (2 * size))
  | .extension size => some (discard (take (size + 1)))
  | _ => none

/-- Passes over a value. Values that have an inside take up room within one another, and one level of
it has to be left. -/
def skip : (room : Nat) → Reader Unit
  | inner + 2 => do
    match (← readItem).skipInside (skip (inner + 1)) with
    | some inside => inside
    | none => pure ()
  | _ => do
    match (← readItem).skipInside (pure ()) with
    | some _ => throw .tooDeep
    | none => pure ()

/-- Reads a number below 2^64 in any form. -/
def readUInt64 : Reader UInt64 := do
  match ← readItem with
  | .unsigned n => return UInt64.ofNat n
  | .signed n =>
    if 0 ≤ n then return UInt64.ofNat n.toNat
    else throw (.mistake (.wrongValue (.integer n) "u64"))
  | item => throw (item.mismatch "u64")

/-- Reads a truth value. -/
def readBool : Reader Bool := do
  match ← readItem with
  | .boolean b => return b
  | item => throw (item.mismatch "a boolean")

/-- Reads a text, which may also be given as binary data. -/
def readText : Reader String := do
  match ← readItem with
  | .text bytes =>
    match Text.ofUtf8? bytes with
    | some s => return s
    | none => throw .notUtf8
  | .binary bytes =>
    match Text.ofUtf8? bytes with
    | some s => return s
    | none => throw (.mistake (.wrongValue .binary "a string"))
  | item => throw (item.mismatch "a string")

/-- Reads entries into a map. Of entries with one key the last one counts. -/
def readEntries {κ ν : Type} [LT κ] [DecidableLT κ] [Trans (α := κ) (· < ·) (· < ·) (· < ·)]
    (key : Reader κ) (value : Reader ν) : Nat → SortedMap κ ν → Reader (SortedMap κ ν)
  | 0, m => return m
  | count + 1, m => do
    let k ← key
    let v ← value
    readEntries key value count (m.insert k v)

/-- Reads a map. -/
def readMap {κ ν : Type} [LT κ] [DecidableLT κ] [Trans (α := κ) (· < ·) (· < ·) (· < ·)]
    (key : Reader κ) (value : Reader ν) : Reader (SortedMap κ ν) := do
  match ← readItem with
  | .map size => readEntries key value size ∅
  | item => throw (item.mismatch "a map")

end TagQuery.MessagePack

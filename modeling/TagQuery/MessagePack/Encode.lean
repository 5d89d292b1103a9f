import TagQuery.Text.Utf8

/-!
Writing MessagePack: every value takes the shortest form that holds it.
-/

namespace TagQuery.MessagePack

/-- The last bytes of a number, the most significant first. -/
def bigEndian (n : Nat) : (width : Nat) → Bytes
  | 0 => []
  | width + 1 => UInt8.ofNat (n >>> (8 * width)) :: bigEndian n width

/-- A number that is not negative. -/
def encodeNat (n : Nat) : Bytes :=
  if n < 0x80 then [UInt8.ofNat n]
  else if n < 0x100 then 0xcc :: bigEndian n 1
  else if n < 0x10000 then 0xcd :: bigEndian n 2
  else if n < 0x100000000 then 0xce :: bigEndian n 4
  else 0xcf :: bigEndian n 8

def encodeBool (b : Bool) : Bytes :=
  [if b then 0xc3 else 0xc2]

/-- The head of an array, which its items follow. -/
def encodeArrayHead (size : Nat) : Bytes :=
  if size < 0x10 then [UInt8.ofNat (0x90 + size)]
  else if size < 0x10000 then 0xdc :: bigEndian size 2
  else 0xdd :: bigEndian size 4

/-- The head of a map, which its entries follow. -/
def encodeMapHead (size : Nat) : Bytes :=
  if size < 0x10 then [UInt8.ofNat (0x80 + size)]
  else if size < 0x10000 then 0xde :: bigEndian size 2
  else 0xdf :: bigEndian size 4

/-- The head of a text, which its bytes follow. -/
def encodeTextHead (size : Nat) : Bytes :=
  if size < 0x20 then [UInt8.ofNat (0xa0 + size)]
  else if size < 0x100 then 0xd9 :: bigEndian size 1
  else if size < 0x10000 then 0xda :: bigEndian size 2
  else 0xdb :: bigEndian size 4

def encodeText (s : String) : Bytes :=
  encodeTextHead (Text.utf8 s).length ++ Text.utf8 s

/-- A map whose keys and values have forms of their own. -/
def encodeMap {κ ν : Type} (key : κ → Bytes) (value : ν → Bytes) (entries : List (κ × ν)) : Bytes :=
  encodeMapHead entries.length ++ entries.flatMap fun entry => key entry.1 ++ value entry.2

/-- The pieces in which a map is written, entry by entry. -/
def mapPieces {κ ν : Type} (key : κ → List Bytes) (value : ν → List Bytes)
    (entries : List (κ × ν)) : List Bytes :=
  encodeMapHead entries.length :: entries.flatMap fun entry => key entry.1 ++ value entry.2

end TagQuery.MessagePack

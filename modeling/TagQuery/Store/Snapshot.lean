import TagQuery.MessagePack.Record
import TagQuery.Store

/-!
The form in which a store is kept: a MessagePack record with its counter, its three maps in the
order of their keys, and what is hidden from visitors. Names are kept as they are.
-/

namespace TagQuery

open MessagePack

namespace Visibility

/-- A visibility is kept as an array of its two truth values. -/
def encode (v : Visibility) : Bytes :=
  encodeArrayHead 2 ++ encodeBool v.hidesNotSafe ++ encodeBool v.hidesExplicit

def pieces (v : Visibility) : List Bytes :=
  [encodeArrayHead 2, encodeBool v.hidesNotSafe, encodeBool v.hidesExplicit]

/-- The fields of a visibility that have been read. -/
structure Partial where
  hidesNotSafe? : Option Bool := none
  hidesExplicit? : Option Bool := none
  deriving Repr

def format : RecordFormat Partial where
  name := "struct RatingVisibility"
  fields :=
    [.of "hide_unsafe" Partial.hidesNotSafe? (fun p b => { p with hidesNotSafe? := some b }) readBool,
      .of "hide_explicit" Partial.hidesExplicit? (fun p b => { p with hidesExplicit? := some b })
        readBool]

def read (room : Nat) : Reader Visibility := do
  let p ← format.read room {}
  return ⟨← required "hide_unsafe" p.hidesNotSafe?, ← required "hide_explicit" p.hidesExplicit?⟩

end Visibility

/-- How many values that have an inside there is room for within one another. -/
def depthLimit : Nat := 1024

namespace Store

/-- The bytes in which a store is kept. -/
def save (s : Store) : Bytes :=
  encodeArrayHead 5
    ++ encodeNat s.nextId.toNat
    ++ encodeMap encodeText (fun id => encodeNat id.toNat) s.tags.entries
    ++ encodeMap encodeText (fun id => encodeNat id.toNat) s.aliases.entries
    ++ encodeMap (fun user => encodeNat user.toNat) Visibility.encode s.preferences.entries
    ++ s.anonymous.encode

/-- The pieces of a map of names. -/
def namePieces (m : SortedMap String Id) : List Bytes :=
  mapPieces (fun name => [encodeText name]) (fun id => [encodeNat id.toNat]) m.entries

/-- The pieces of a saved store, in the order in which they are written. -/
def pieces (s : Store) : List Bytes :=
  encodeArrayHead 5 ::
    [[encodeNat s.nextId.toNat], namePieces s.tags, namePieces s.aliases,
      mapPieces (fun user => [encodeNat user.toNat]) Visibility.pieces s.preferences.entries,
      s.anonymous.pieces].flatten

/-- Writes pieces after what has been written in a place of limited size. Of a piece for which there is
no room so much is written as there is room for, and nothing after it. -/
def writePieces (limit : Nat) : (written : Bytes) → List Bytes → Except Bytes Bytes
  | written, [] => .ok written
  | written, piece :: pieces =>
    if written.length + piece.length ≤ limit then writePieces limit (written ++ piece) pieces
    else .error ((written ++ piece).take limit)

/-- Saves into a place of limited size, piece by piece. -/
def saveWithin (limit : Nat) (s : Store) : Option Bytes :=
  (writePieces limit [] s.pieces).toOption

/-- The fields of a store that have been read. -/
structure Partial where
  nextId? : Option Id := none
  tags? : Option (SortedMap String Id) := none
  aliases? : Option (SortedMap String Id) := none
  preferences? : Option (SortedMap Id Visibility) := none
  anonymous? : Option Visibility := none
  deriving Repr

def format : RecordFormat Partial where
  name := "struct Snapshot"
  fields :=
    [.of "next_id" Partial.nextId? (fun p n => { p with nextId? := some n }) readUInt64,
      .of "tags" Partial.tags? (fun p m => { p with tags? := some m }) (readMap readText readUInt64),
      .of "aliases" Partial.aliases? (fun p m => { p with aliases? := some m })
        (readMap readText readUInt64),
      .of "preferences" Partial.preferences? (fun p m => { p with preferences? := some m })
        (readMap readUInt64 (Visibility.read (depthLimit - 3))),
      .of "anonymous" Partial.anonymous? (fun p v => { p with anonymous? := some v })
        (Visibility.read (depthLimit - 2))]

def read : Reader Store := do
  let p ← format.read (depthLimit - 1) {}
  return {
    nextId := ← required "next_id" p.nextId?
    tags := ← required "tags" p.tags?
    aliases := ← required "aliases" p.aliases?
    preferences := ← required "preferences" p.preferences?
    anonymous := ← required "anonymous" p.anonymous? }

/-- The store that bytes hold. Bytes after it do not matter. -/
def load (bytes : Bytes) : Except ReadError Store :=
  read.run' bytes

end Store

end TagQuery

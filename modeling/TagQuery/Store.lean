import TagQuery.Lookup
import TagQuery.SortedMap
import TagQuery.Text.Lowercase

/-!
The store of tags, aliases and preferences. The names of tags and aliases are folded to lower case
whenever they are stored or asked for.
-/

namespace TagQuery

/-- Tags and aliases by name with the ids they stand for, and what is hidden from whom. -/
structure Store where
  nextId : Id
  tags : SortedMap String Id
  aliases : SortedMap String Id
  preferences : SortedMap Id Visibility
  anonymous : Visibility
  deriving DecidableEq, Repr

/-- Why the store refuses a change. -/
inductive StoreError where
  | nameTaken (name : String)
  | noSuchTag (name : String)
  | noSuchTarget (target : String)
  deriving DecidableEq, Repr

def StoreError.message : StoreError → String
  | .nameTaken name => s!"tag or alias '{name}' already exists"
  | .noSuchTag name => s!"no tag named '{name}'"
  | .noSuchTarget target => s!"alias target '{target}' does not exist"

namespace Store

/-- A store without tags, which hides all it can from visitors without an account. -/
def empty : Store :=
  ⟨0, ∅, ∅, ∅, .hideAll⟩

/-- The id that a name stands for. Tags come before aliases. -/
def resolve (s : Store) (name : String) : Option Id :=
  let name := Text.lowercase name
  (s.tags.get? name).or (s.aliases.get? name)

/-- Whether a folded name is that of a tag or an alias. -/
def isTaken (s : Store) (name : String) : Bool :=
  s.tags.contains name || s.aliases.contains name

/-- Makes a tag of a new name, and gives its id. -/
def createTag (s : Store) (name : String) : Except StoreError (Id × Store) :=
  let name := Text.lowercase name
  if s.isTaken name then .error (.nameTaken name)
  else .ok (s.nextId, { s with nextId := s.nextId + 1, tags := s.tags.insert name s.nextId })

/-- Gives a tag a new name. The old one is free afterwards. -/
def renameTag (s : Store) (source target : String) : Except StoreError Store :=
  let source := Text.lowercase source
  let target := Text.lowercase target
  if s.isTaken target then .error (.nameTaken target)
  else
    match s.tags.get? source with
    | none => .error (.noSuchTag source)
    | some id => .ok { s with tags := (s.tags.erase source).insert target id }

/-- Lets a new name stand for the id that another name stands for now. -/
def addAlias (s : Store) (name target : String) : Except StoreError Store :=
  let name := Text.lowercase name
  if s.isTaken name then .error (.nameTaken name)
  else
    match s.resolve target with
    | none => .error (.noSuchTarget target)
    | some id => .ok { s with aliases := s.aliases.insert name id }

def setPreferences (s : Store) (user : Id) (visibility : Visibility) : Store :=
  { s with preferences := s.preferences.insert user visibility }

def setAnonymous (s : Store) (visibility : Visibility) : Store :=
  { s with anonymous := visibility }

/-- What is hidden from a viewer. A user without preferences sees what visitors see. -/
def visibility (s : Store) : Viewer → Visibility
  | .anonymous => s.anonymous
  | .user id => (s.preferences.get? id).getD s.anonymous

/-- The store as a service. It answers at once and never fails. -/
def services (s : Store) : Services where
  resolve name := .now (s.resolve name)
  visibility viewer := .now (s.visibility viewer)

end Store

end TagQuery

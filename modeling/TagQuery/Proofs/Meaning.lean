import Mathlib.Data.Nat.Digits.Defs
import TagQuery.Compiled
import TagQuery.Config
import TagQuery.Lookup
import TagQuery.Query
import TagQuery.Text.Decimal
import TagQuery.Text.Lowercase

/-!
What queries and conditions mean for a post. A post is given by what is the case for it, and nothing
is assumed about that: its columns may compare in any way at all. A condition is read with the values
of its parameters, and a query as it is written, without regard to how it is compiled.
-/

namespace TagQuery

/-- What is the case for a post: the tags that it carries, how its columns compare with a value, the
texts that they contain, the posts that it is a child and a parent of, and the pools that it is in. -/
structure Post where
  carries : Id → Prop
  compares : Column → Comparator → Param → Prop
  contains : Column → String → Prop
  childOf : Id → Prop
  parentOf : Id → Prop
  inPool : Id → Prop

namespace Predicate

variable (post : Post) (params : List Param)

mutual

/-- A condition holds of a post with the values of the parameters. A leaf whose parameter is missing,
or is of the wrong kind, does not hold. -/
def Holds : Predicate → Prop
  | .always => True
  | .never => False
  | .and parts => AllHold parts
  | .or parts => SomeHolds parts
  | .not part => ¬part.Holds
  | .hasTag param => ∃ id, params[param]? = some (.id id) ∧ post.carries id
  | .compare column comparator param =>
    ∃ value, params[param]? = some value ∧ post.compares column comparator value
  | .contains column param => ∃ text, params[param]? = some (.text text) ∧ post.contains column text
  | .childOf param => ∃ id, params[param]? = some (.id id) ∧ post.childOf id
  | .parentOf param => ∃ id, params[param]? = some (.id id) ∧ post.parentOf id
  | .inPool param => ∃ id, params[param]? = some (.id id) ∧ post.inPool id

def AllHold : List Predicate → Prop
  | [] => True
  | part :: parts => part.Holds ∧ AllHold parts

def SomeHolds : List Predicate → Prop
  | [] => False
  | part :: parts => part.Holds ∨ SomeHolds parts

end

variable {post params}

theorem allHold_iff {parts : List Predicate} :
    AllHold post params parts ↔ ∀ part ∈ parts, part.Holds post params := by
  induction parts with
  | nil => simp [AllHold]
  | cons part parts ih => rw [AllHold, ih, List.forall_mem_cons]

theorem someHolds_iff {parts : List Predicate} :
    SomeHolds post params parts ↔ ∃ part ∈ parts, part.Holds post params := by
  induction parts with
  | nil => simp [SomeHolds]
  | cons part parts ih => simp [SomeHolds, ih]

theorem holds_all {parts : List Predicate} :
    (all parts).Holds post params ↔ ∀ part ∈ parts, part.Holds post params := by
  match parts with
  | [] => simp [all, Holds]
  | [part] => simp [all]
  | first :: second :: others => exact allHold_iff

theorem holds_any {parts : List Predicate} :
    (any parts).Holds post params ↔ ∃ part ∈ parts, part.Holds post params := by
  match parts with
  | [] => simp [any, Holds]
  | [part] => simp [any]
  | first :: second :: others => exact someHolds_iff

end Predicate

/-- The condition of a compiled query, with the values of its own parameters. -/
def Compiled.Holds (post : Post) (c : Compiled) : Prop :=
  c.predicate.Holds post c.params

/-- The tag service knows a tag by a name. -/
def Services.Knows (services : Services) (name : String) (id : Id) : Prop :=
  (services.resolve name).result = .ok (some id)

/-- A tag holds of the posts that carry it. A tag that is not known holds of none, so that its
negation holds of all. -/
def TagTerm.Holds (services : Services) (post : Post) (t : TagTerm) : Prop :=
  let carried := ∃ id, services.Knows (Text.lowercase t.word.value) id ∧ post.carries id
  if t.negated then ¬carried else carried

/-- The comparison that an operator of the language asks for. -/
def writtenComparator? (legacyLessThan : Bool) : String → Option Comparator
  | "=" => some .equal
  | ">" => some .greaterThan
  | "<" => some (if legacyLessThan then .greaterThan else .lessThan)
  | "!" => some .notEqual
  | _ => none

/-- A text is one or more decimal digits, and they make up an id. -/
def Denotes (text : String) (id : Id) : Prop :=
  text.toList ≠ [] ∧ (∀ c ∈ text.toList, c.isDigit) ∧
    id.toNat = Nat.ofDigits 10 (text.toList.reverse.map Text.digitValue)

namespace FieldTerm

/-- The column compares with a value as the operator asks for. -/
def Compares (legacyLessThan : Bool) (post : Post) (t : FieldTerm) (column : Column)
    (value : Param) : Prop :=
  ∃ comparator, writtenComparator? legacyLessThan t.operator.value = some comparator ∧
    post.compares column comparator value

/-- The value is the id of something that stands in a relation to the post. -/
def Relates (relation : Id → Prop) (t : FieldTerm) : Prop :=
  ∃ id, Denotes t.value.value id ∧ relation id

/-- The column is the value in lower case. -/
def Equals (post : Post) (t : FieldTerm) (column : Column) : Prop :=
  post.compares column .equal (.text t.value.value.toLower)

/-- What a search field asks for. A sort key asks for nothing. -/
def Holds (legacyLessThan : Bool) (post : Post) (t : FieldTerm) : Prop :=
  let value := t.value.value
  match t.name.value.toLower with
  | "user" => t.Relates fun id => t.Compares legacyLessThan post .accountId (.id id)
  | "rating" => t.Equals post .rating
  | "status" => t.Equals post .status
  | "md5" => t.Compares legacyLessThan post .md5 (.text value)
  | "extension" => t.Compares legacyLessThan post .extension (.text value)
  | "parent" => t.Relates post.childOf
  | "child" => t.Relates post.parentOf
  | "type" => t.Equals post .fileType
  | "title" => post.contains .title value
  | "description" => post.contains .description value
  | "context" => post.contains .context value
  | "contains" =>
    post.contains .title value ∨ post.contains .description value ∨ post.contains .context value
  | "pool" => t.Relates post.inPool
  | "sort" => True
  | _ => False

end FieldTerm

/-- A block holds if one of its alternatives does. -/
def Term.Holds (services : Services) (legacyLessThan : Bool) (post : Post) : Term → Prop
  | .tag t => t.Holds services post
  | .alternatives _ first second others => ∃ t ∈ first :: second :: others, t.Holds services post
  | .field t => t.Holds legacyLessThan post

/-- A query has a search field among its terms, under any casing of its name. -/
def Query.HasField (q : Query) (name : String) : Prop :=
  ∃ t, Term.field t ∈ q.terms ∧ t.name.value.toLower = name

/-- A query has a search field with a value among its terms, under any casing of both. -/
def Query.HasFieldValue (q : Query) (name value : String) : Prop :=
  ∃ t, Term.field t ∈ q.terms ∧ t.name.value.toLower = name ∧ t.value.value.toLower = value

/-- What a query selects for a viewer: the posts of which all its terms hold, without those whose
rating is hidden from the viewer unless the query has a field for the rating, and without those
whose status is not `ok` where these are to be hidden and the query has no field for the status. -/
structure Query.Selects (services : Services) (config : Config) (viewer : Viewer) (q : Query)
    (post : Post) : Prop where
  terms : ∀ t ∈ q.terms, t.Holds services config.legacyLessThan post
  rating : ¬q.HasField "rating" → ∃ v, (services.visibility viewer).result = .ok v ∧
    (v.hidesNotSafe = true → post.compares .rating .notEqual (.text "unsafe")) ∧
    (v.hidesExplicit = true → post.compares .rating .notEqual (.text "explicit"))
  status : ¬q.HasField "status" → config.hideDeleted = true →
    post.compares .status .equal (.text "ok")

end TagQuery

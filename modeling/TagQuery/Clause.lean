import TagQuery.Keyword
import TagQuery.Order
import TagQuery.Predicate
import TagQuery.Query
import TagQuery.Text.Decimal
import TagQuery.Text.Lowercase
import TagQuery.Viewer

/-!
What the terms of a query say: names of tags are folded, and the names of search fields and their
values are read. A term that cannot be read is an error of the query.
-/

namespace TagQuery

/-- The search fields. -/
inductive Field where
  | user
  | rating
  | status
  | md5
  | extension
  | parent
  | child
  | type
  | title
  | description
  | context
  | contains
  | pool
  | sort
  deriving DecidableEq, Repr

namespace Field

def all : List Field :=
  [.user, .rating, .status, .md5, .extension, .parent, .child, .type, .title, .description,
    .context, .contains, .pool, .sort]

def keyword : Field → String
  | .user => "user"
  | .rating => "rating"
  | .status => "status"
  | .md5 => "md5"
  | .extension => "extension"
  | .parent => "parent"
  | .child => "child"
  | .type => "type"
  | .title => "title"
  | .description => "description"
  | .context => "context"
  | .contains => "contains"
  | .pool => "pool"
  | .sort => "sort"

def ofName? : String → Option Field :=
  findKeyword all keyword

end Field

/-- The operators that a query can write before the value of a field. -/
inductive Operator where
  | equal
  | greater
  | less
  | notEqual
  deriving DecidableEq, Repr

/-- The operator of a text. A query can write no other texts than these three and `!`. -/
def Operator.ofText : String → Operator
  | "=" => .equal
  | ">" => .greater
  | "<" => .less
  | _ => .notEqual

/-- The comparison that an operator stands for. In the legacy reading less-than is greater-than. -/
def Operator.comparator (legacyLessThan : Bool) : Operator → Comparator
  | .equal => .equal
  | .greater => .greaterThan
  | .less => if legacyLessThan then .greaterThan else .lessThan
  | .notEqual => .notEqual

/-- A tag by its folded name, or its absence. -/
structure TagTest where
  negated : Bool
  name : String
  deriving DecidableEq, Repr

/-- What one term says about a post, or about the order of the posts. -/
inductive Clause where
  | tag (test : TagTest)
  | alternatives (tests : List TagTest)
  | user (operator : Operator) (id : Id)
  | rating (value : Rating)
  | status (value : PostStatus)
  | fileType (value : FileType)
  | text (column : Column) (operator : Operator) (value : String)
  | contains (columns : List Column) (value : String)
  | childOf (id : Id)
  | parentOf (id : Id)
  | inPool (id : Id)
  | sort (order : Order)
  deriving DecidableEq, Repr

/-- Why a term cannot be read. Names and values are kept as they are written. -/
inductive TermError where
  | invalidField (name : String)
  | invalidValue (name value : String)
  | notNumeric (name value : String)
  | invalidSortKey (value : String)
  deriving DecidableEq, Repr

def TermError.message : TermError → String
  | .invalidField name => s!"invalid search field '{name}'"
  | .invalidValue name value => s!"invalid value '{value}' for search field '{name}'"
  | .notNumeric name value => s!"search field '{name}' expects a number, found '{value}'"
  | .invalidSortKey value => s!"invalid sort key '{value}'"

def TagTerm.test (t : TagTerm) : TagTest :=
  ⟨t.negated, Text.lowercase t.word.value⟩

namespace FieldTerm

/-- The value as an id. -/
def id (t : FieldTerm) : Except TermError Id :=
  match Text.readUnsigned t.value.value.toList with
  | .ok id => .ok id
  | .error _ => .error (.notNumeric t.name.value t.value.value)

/-- The value as a keyword. -/
def keyword {α : Type} (t : FieldTerm) (ofKeyword? : String → Option α) : Except TermError α :=
  match ofKeyword? t.value.value with
  | some value => .ok value
  | none => .error (.invalidValue t.name.value t.value.value)

/-- The value as an order. -/
def order (t : FieldTerm) : Except TermError Order :=
  match Order.ofText? t.value.value with
  | some order => .ok order
  | none => .error (.invalidSortKey t.value.value)

/-- What a field says. -/
def clause (t : FieldTerm) : Except TermError Clause :=
  let operator := Operator.ofText t.operator.value
  let value := t.value.value
  match Field.ofName? t.name.value with
  | none => .error (.invalidField t.name.value)
  | some .user => t.id.map (.user operator)
  | some .rating => (t.keyword Rating.ofKeyword?).map .rating
  | some .status => (t.keyword PostStatus.ofKeyword?).map .status
  | some .md5 => .ok (.text .md5 operator value)
  | some .extension => .ok (.text .extension operator value)
  | some .parent => t.id.map .childOf
  | some .child => t.id.map .parentOf
  | some .type => (t.keyword FileType.ofKeyword?).map .fileType
  | some .title => .ok (.contains [.title] value)
  | some .description => .ok (.contains [.description] value)
  | some .context => .ok (.contains [.context] value)
  | some .contains => .ok (.contains [.title, .description, .context] value)
  | some .pool => t.id.map .inPool
  | some .sort => t.order.map .sort

end FieldTerm

/-- What a term says. -/
def Term.clause : Term → Except TermError Clause
  | .tag t => .ok (.tag t.test)
  | .alternatives _ first second others =>
    .ok (.alternatives ((first :: second :: others).map TagTerm.test))
  | .field t => t.clause

/-- What the terms of a query say, or why the first of them that cannot be read cannot be. -/
def Query.clauses (q : Query) : Except TermError (List Clause) :=
  q.terms.mapM Term.clause

namespace Clause

def isRating : Clause → Bool
  | .rating _ => true
  | _ => false

def isStatus : Clause → Bool
  | .status _ => true
  | _ => false

def order? : Clause → Option Order
  | .sort order => some order
  | _ => none

end Clause

end TagQuery

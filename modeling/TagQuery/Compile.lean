import TagQuery.Clause
import TagQuery.Compiled
import TagQuery.Config
import TagQuery.Lookup
import TagQuery.SortedMap

/-!
Compilation. The names of all tags are looked up first and at once. Then the terms are read, the
preferences of the viewer are looked up unless a term names a rating, and the terms are lowered to
one condition, from left to right, with a parameter for each value in that order.
-/

namespace TagQuery

/-- Why a query does not compile. -/
inductive CompileError where
  | term (e : TermError)
  | lookup (e : LookupError)
  deriving DecidableEq, Repr

namespace CompileError

def message : CompileError → String
  | .term e => e.message
  | .lookup e => e.message

/-- A lookup may succeed another time. A term that cannot be read never can. -/
def isRetryable : CompileError → Bool
  | .term _ => false
  | .lookup _ => true

end CompileError

/-- The ids of the tags that were looked up. -/
abbrev TagTable := SortedMap String (Option Id)

/-- The id of a tag, if there is such a tag. -/
def TagTable.id? (table : TagTable) (name : String) : Option Id :=
  (table.get? name).join

/-- A part of a condition with the values of its parameters. -/
structure Piece where
  predicate : Predicate
  params : List Param
  deriving Repr

/-- A condition with one parameter. -/
def Piece.single (predicate : Nat → Predicate) (param : Param) (base : Nat) : Piece :=
  ⟨predicate base, [param]⟩

/-- Pieces side by side, each of which is given the number of the parameters before it. -/
def Piece.sequence (base : Nat) : List (Nat → Piece) → List Predicate × List Param
  | [] => ([], [])
  | piece :: pieces =>
    let first := piece base
    let (predicates, params) := sequence (base + first.params.length) pieces
    (first.predicate :: predicates, first.params ++ params)

/-- The test for a tag. A tag that is not known is on no post. -/
def TagTest.piece (table : TagTable) (test : TagTest) (base : Nat) : Piece :=
  match table.id? test.name, test.negated with
  | some id, false => Piece.single .hasTag (.id id) base
  | some id, true => Piece.single (fun param => .not (.hasTag param)) (.id id) base
  | none, false => ⟨.never, []⟩
  | none, true => ⟨.always, []⟩

/-- A disjunction of pieces. -/
def Piece.any (pieces : List (Nat → Piece)) (base : Nat) : Piece :=
  let (predicates, params) := sequence base pieces
  ⟨.any predicates, params⟩

/-- The piece that a clause lowers to. A sort key leaves none. -/
def Clause.piece? (legacyLessThan : Bool) (table : TagTable) : Clause → Option (Nat → Piece)
  | .tag test => some (test.piece table)
  | .alternatives tests => some (.any (tests.map (TagTest.piece table)))
  | .user operator id =>
    some (.single (.compare .accountId (operator.comparator legacyLessThan)) (.id id))
  | .rating value => some (.single (.compare .rating .equal) (.text value.keyword))
  | .status value => some (.single (.compare .status .equal) (.text value.keyword))
  | .fileType value => some (.single (.compare .fileType .equal) (.text value.keyword))
  | .text column operator value =>
    some (.single (.compare column (operator.comparator legacyLessThan)) (.text value))
  | .contains columns value =>
    some (.any (columns.map fun column => .single (.contains column) (.text value)))
  | .childOf id => some (.single .childOf (.id id))
  | .parentOf id => some (.single .parentOf (.id id))
  | .inPool id => some (.single .inPool (.id id))
  | .sort _ => none

/-- The ratings that are hidden, in the order in which they are left out. -/
def Visibility.hidden (v : Visibility) : List Rating :=
  (if v.hidesNotSafe then [.notSafe] else []) ++ (if v.hidesExplicit then [.explicit] else [])

/-- Leaves out a rating. -/
def Rating.exclusion (rating : Rating) : Nat → Piece :=
  .single (.compare .rating .notEqual) (.text rating.keyword)

/-- Leaves out all posts but those whose status is a given one. -/
def PostStatus.restriction (status : PostStatus) : Nat → Piece :=
  .single (.compare .status .equal) (.text status.keyword)

/-- A query whose tags are looked up and whose terms are read. -/
structure Draft where
  clauses : List Clause
  table : TagTable
  deriving Repr

namespace Draft

def constrainsRating (d : Draft) : Bool :=
  d.clauses.any Clause.isRating

def constrainsStatus (d : Draft) : Bool :=
  d.clauses.any Clause.isStatus

/-- The order that the last of the sort terms asks for. -/
def order? (d : Draft) : Option Order :=
  (d.clauses.filterMap Clause.order?).getLast?

/-- The pieces that the terms lower to. -/
def pieces (d : Draft) (config : Config) : List (Nat → Piece) :=
  d.clauses.filterMap (Clause.piece? config.legacyLessThan d.table)

/-- The pieces that no term asks for: the ratings that a visibility hides are left out, and so are
deleted posts where the query does not constrain the status. -/
def exclusions (d : Draft) (config : Config) (visibility? : Option Visibility) :
    List (Nat → Piece) :=
  (visibility?.elim [] Visibility.hidden).map Rating.exclusion ++
    (if !d.constrainsStatus && config.hideDeleted then [PostStatus.ok.restriction] else [])

/-- The compiled query, for the visibility if that matters. Several terms are joined before the
exclusions are added, even if no more than one of them leaves a piece. -/
def finish (d : Draft) (config : Config) (visibility? : Option Visibility) : Compiled :=
  let (parts, params) := Piece.sequence 0 (d.pieces config)
  let own := if d.clauses.length = 1 then parts else [Predicate.all parts]
  let (added, more) := Piece.sequence params.length (d.exclusions config visibility?)
  { predicate := .all (own ++ added)
    params := params ++ more
    order := d.order?.getD config.defaultOrder
    constrainsRating := d.constrainsRating
    constrainsStatus := d.constrainsStatus }

end Draft

/-- The names of the tags of a query, in order and each of them once. -/
def Query.tagNames (q : Query) : List String :=
  let names := q.terms.flatMap fun term => term.tags.map fun tag => (tag.test.name, ())
  (SortedMap.ofList names).keys

/-- The query with the ids of its tags. -/
def Query.draft (q : Query) (table : TagTable) : Except TermError Draft :=
  q.clauses.map (⟨·, table⟩)

/-- What a compilation comes to, and what it asked on the way. -/
structure Compilation where
  outcome : Except CompileError Compiled
  tagLookups : List String
  preferenceLookups : List Viewer

/-- Compiles a query for a viewer. -/
def compile (services : Services) (config : Config) (viewer : Viewer) (q : Query) : Compilation :=
  let names := q.tagNames
  let answers := names.map fun name => (name, services.resolve name)
  match (Answer.together answers).within config.lookupTimeout with
  | .error e => ⟨.error (.lookup e), names, []⟩
  | .ok ids =>
    match q.draft (SortedMap.ofList ids) with
    | .error e => ⟨.error (.term e), names, []⟩
    | .ok draft =>
      if draft.constrainsRating then ⟨.ok (draft.finish config none), names, []⟩
      else
        match (services.visibility viewer).within config.lookupTimeout with
        | .error e => ⟨.error (.lookup e), names, [viewer]⟩
        | .ok visibility => ⟨.ok (draft.finish config (some visibility)), names, [viewer]⟩

end TagQuery

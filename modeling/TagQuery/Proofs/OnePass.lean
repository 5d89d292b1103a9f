import TagQuery.Proofs.Lowering
import TagQuery.Proofs.Stages
import TagQuery.Query.Tree

/-!
Compilation in one pass. The syntax tree is walked once, and the service is asked for a tag wherever
the walk meets one. Parameters, the order and what the query constrains are kept on the way. The
pass comes to what the clauses of the query lower to, if the table of tags says what the service
says.
-/

namespace TagQuery

/-- What is kept on the way. -/
structure Progress where
  params : List Param := []
  order? : Option Order := none
  constrainsRating : Bool := false
  constrainsStatus : Bool := false

/-- A part of the pass. A term that cannot be read ends it. -/
abbrev Pass (α : Type) :=
  StateT Progress (Except TermError) α

namespace Pass

/-- A leaf with a new parameter. -/
def leaf (predicate : Nat → Predicate) (value : Param) : Pass Predicate := do
  let s ← get
  set { s with params := s.params ++ [value] }
  return predicate s.params.length

/-- A tag is asked for by its word in lower case. -/
def tag (resolve : String → Option Id) (negated : Bool) (word : String) : Pass Predicate :=
  match resolve (Text.lowercase word) with
  | none => return if negated then .always else .never
  | some id => do
    let part ← leaf .hasTag (.id id)
    return if negated then .not part else part

/-- A search field, with what it leaves behind for the whole query. -/
def field (legacyLessThan : Bool) (t : FieldTerm) : Pass (Option Predicate) := do
  let comparator := (Operator.ofText t.operator.value).comparator legacyLessThan
  let value := t.value.value
  match Field.ofName? t.name.value with
  | none => throw (.invalidField t.name.value)
  | some .user => some <$> leaf (.compare .accountId comparator) (.id (← t.id))
  | some .rating =>
    let rating ← t.keyword Rating.ofKeyword?
    modify ({ · with constrainsRating := true })
    some <$> leaf (.compare .rating .equal) (.text rating.keyword)
  | some .status =>
    let status ← t.keyword PostStatus.ofKeyword?
    modify ({ · with constrainsStatus := true })
    some <$> leaf (.compare .status .equal) (.text status.keyword)
  | some .md5 => some <$> leaf (.compare .md5 comparator) (.text value)
  | some .extension => some <$> leaf (.compare .extension comparator) (.text value)
  | some .parent => some <$> leaf .childOf (.id (← t.id))
  | some .child => some <$> leaf .parentOf (.id (← t.id))
  | some .type =>
    let fileType ← t.keyword FileType.ofKeyword?
    some <$> leaf (.compare .fileType .equal) (.text fileType.keyword)
  | some .title => some <$> leaf (.contains .title) (.text value)
  | some .description => some <$> leaf (.contains .description) (.text value)
  | some .context => some <$> leaf (.contains .context) (.text value)
  | some .contains =>
    let title ← leaf (.contains .title) (.text value)
    let description ← leaf (.contains .description) (.text value)
    let context ← leaf (.contains .context) (.text value)
    return some (.or [title, description, context])
  | some .pool => some <$> leaf .inPool (.id (← t.id))
  | some .sort =>
    let order ← t.order
    modify ({ · with order? := some order })
    return none

end Pass

mutual

/-- The pass over a tree. A node that is no condition on its own leaves none. -/
def Node.pass (resolve : String → Option Id) (legacyLessThan : Bool) :
    Node → Pass (Option Predicate)
  | ⟨.conjunction, _, children⟩ => do
    return some (.all (← Node.passEach resolve legacyLessThan children))
  | ⟨.alternatives, _, children⟩ => do
    return some (.any (← Node.passEach resolve legacyLessThan children))
  | ⟨.tag, word, _⟩ => some <$> Pass.tag resolve false word.value
  | ⟨.negatedTag, word, _⟩ => some <$> Pass.tag resolve true word.value
  | ⟨.field, colon, [name, operator, value]⟩ =>
    Pass.field legacyLessThan ⟨name.token, colon, operator.token, value.token⟩
  | ⟨.field, _, _⟩ | ⟨.fieldName, _, _⟩ | ⟨.fieldOperator, _, _⟩ | ⟨.fieldValue, _, _⟩ =>
    return none

def Node.passEach (resolve : String → Option Id) (legacyLessThan : Bool) :
    List Node → Pass (List Predicate)
  | [] => return []
  | node :: nodes => do
    let part? ← node.pass resolve legacyLessThan
    let parts ← Node.passEach resolve legacyLessThan nodes
    return part?.toList ++ parts

end

namespace Progress

/-- Leaves out ratings one by one. -/
def exclude (s : Progress) : List Rating → List Predicate × Progress
  | [] => ([], s)
  | rating :: ratings =>
    let (parts, last) :=
      exclude { s with params := s.params ++ [.text rating.keyword] } ratings
    (.compare .rating .notEqual s.params.length :: parts, last)

/-- The compiled query of a tree that has been walked, with the ratings that are to be left out. -/
def finish (s : Progress) (config : Config) (part? : Option Predicate) (hidden : List Rating) :
    Compiled :=
  let (excluded, last) := s.exclude hidden
  let (restricted, params) :=
    if s.constrainsStatus || !config.hideDeleted then ([], [])
    else ([.compare .status .equal last.params.length], [.text PostStatus.ok.keyword])
  { predicate := .all (part?.toList ++ excluded ++ restricted)
    params := last.params ++ params
    order := s.order?.getD config.defaultOrder
    constrainsRating := s.constrainsRating
    constrainsStatus := s.constrainsStatus }

end Progress

/-- Compiles a tree in one pass. The preferences are asked for after that, and only if no field for
the rating has been met. -/
def Node.compile (resolve : String → Option Id) (answer : Answer Visibility) (config : Config)
    (root : Node) : Except CompileError Compiled :=
  match (root.pass resolve config.legacyLessThan).run {} with
  | .error e => .error (.term e)
  | .ok (part?, s) =>
    if s.constrainsRating then .ok (s.finish config part? [])
    else
      match answer.within config.lookupTimeout with
      | .error e => .error (.lookup e)
      | .ok visibility => .ok (s.finish config part? visibility.hidden)

/-! ### What the pass leaves -/

namespace Progress

variable (legacyLessThan : Bool) (table : TagTable)

/-- The parts that clauses leave, with the parameters from before. -/
def parts (s : Progress) (clauses : List Clause) : List Predicate :=
  (Piece.sequence s.params.length (clauses.filterMap (Clause.piece? legacyLessThan table))).1

/-- What is kept after clauses. -/
def after (s : Progress) (clauses : List Clause) : Progress where
  params := s.params ++
    (Piece.sequence s.params.length (clauses.filterMap (Clause.piece? legacyLessThan table))).2
  order? := (clauses.filterMap Clause.order?).getLast?.or s.order?
  constrainsRating := clauses.any Clause.isRating || s.constrainsRating
  constrainsStatus := clauses.any Clause.isStatus || s.constrainsStatus

variable {legacyLessThan table}

theorem parts_append (s : Progress) (clauses more : List Clause) :
    s.parts legacyLessThan table (clauses ++ more) =
      s.parts legacyLessThan table clauses ++
        (s.after legacyLessThan table clauses).parts legacyLessThan table more := by
  rw [parts, List.filterMap_append, Piece.sequence_append]
  rfl

theorem toList_head?_parts (s : Progress) (clause : Clause) :
    (s.parts legacyLessThan table [clause]).head?.toList =
      s.parts legacyLessThan table [clause] := by
  unfold parts
  rw [List.filterMap_cons]
  cases clause.piece? legacyLessThan table <;> rfl

theorem after_append (s : Progress) (clauses more : List Clause) :
    s.after legacyLessThan table (clauses ++ more) =
      (s.after legacyLessThan table clauses).after legacyLessThan table more := by
  simp only [after, List.filterMap_append, Piece.sequence_append, List.getLast?_append,
    Option.or_assoc, List.any_append, Bool.or_assoc, Bool.or_left_comm, List.append_assoc]

end Progress

section

variable {resolve : String → Option Id} {legacyLessThan : Bool} {table : TagTable}

theorem Pass.run_tag {word : String}
    (h : table.id? (Text.lowercase word) = resolve (Text.lowercase word)) (negated : Bool)
    (s : Progress) :
    let piece := TagTest.piece table ⟨negated, Text.lowercase word⟩ s.params.length
    (Pass.tag resolve negated word).run s =
      .ok (piece.predicate, { s with params := s.params ++ piece.params }) := by
  unfold Pass.tag TagTest.piece
  dsimp only
  rw [h]
  cases resolve (Text.lowercase word) with
  | none => cases negated <;> simp only [List.append_nil] <;> rfl
  | some id => cases negated <;> rfl

/-- The pass over the node of a term leaves what the clause of the term leaves. -/
def Term.PassesAs (resolve : String → Option Id) (legacyLessThan : Bool) (table : TagTable)
    (t : Term) : Prop :=
  ∀ s : Progress, (t.node.pass resolve legacyLessThan).run s =
    t.clause.map fun clause =>
      ((s.parts legacyLessThan table [clause]).head?, s.after legacyLessThan table [clause])

theorem TagTerm.pass_node (t : TagTerm) (h : table.id? t.test.name = resolve t.test.name) :
    (Term.tag t).PassesAs resolve legacyLessThan table := by
  intro s
  obtain ⟨negated, word⟩ := t
  have hpass : (Term.tag ⟨negated, word⟩).node.pass resolve legacyLessThan =
      some <$> Pass.tag resolve negated word.value := by
    cases negated <;> rfl
  have hafter : s.after legacyLessThan table [.tag (TagTerm.test ⟨negated, word⟩)] =
      { s with params := s.params ++
          (TagTest.piece table (TagTerm.test ⟨negated, word⟩) s.params.length).params } := by
    show (⟨s.params ++ (_ ++ []), _, _, _⟩ : Progress) = _
    rw [List.append_nil]
    rfl
  show _ = Except.ok (_, s.after legacyLessThan table [.tag (TagTerm.test ⟨negated, word⟩)])
  rw [hpass, StateT.run_map, Pass.run_tag h, hafter]
  rfl

theorem FieldTerm.pass_node (t : FieldTerm) :
    (Term.field t).PassesAs resolve legacyLessThan table := by
  intro s
  show (Pass.field legacyLessThan t).run s = t.clause.map _
  cases hfield : Field.ofName? t.name.value with
  | none =>
      simp only [Pass.field, FieldTerm.clause, hfield]
      rfl
  | some field =>
      cases field <;> simp only [Pass.field, FieldTerm.clause, hfield]
      case user | parent | child | pool =>
        cases t.id <;> rfl
      case rating | status | type =>
        cases t.keyword _ <;> rfl
      case sort =>
        cases t.order with
        | error e => rfl
        | ok order =>
            have hafter : s.after legacyLessThan table [.sort order] =
                { s with order? := some order } := by
              show (⟨s.params ++ [], _, _, _⟩ : Progress) = _
              rw [List.append_nil]
              rfl
            show _ = Except.ok (none, s.after legacyLessThan table [.sort order])
            rw [hafter]
            rfl
      case md5 | extension | title | description | context => rfl
      case contains =>
        simp only [Pass.leaf, bind_pure_comp, map_bind, Functor.map_map, bind_assoc, bind_map_left,
          LawfulMonadStateOf.set_bind_get_bind, List.length_append, List.length_cons,
          List.length_nil, zero_add, List.append_assoc, List.cons_append, List.nil_append,
          LawfulMonadStateOf.set_bind_map_set, StateT.run_bind, StateT.run_get, StateT.run_map,
          StateT.run_set, map_pure]
        rfl

/-- Nodes one after another leave what their clauses leave, if each of them does. -/
theorem Node.passEach_terms {terms : List Term}
    (h : ∀ t ∈ terms, t.PassesAs resolve legacyLessThan table) (s : Progress) :
    (Node.passEach resolve legacyLessThan (terms.map Term.node)).run s =
      (terms.mapM Term.clause).map fun clauses =>
        (s.parts legacyLessThan table clauses, s.after legacyLessThan table clauses) := by
  -- for any progress, since the parameters of a term are numbered on from those before it
  induction terms generalizing s with
  | nil =>
      have hafter : s.after legacyLessThan table [] = s := by
        show (⟨s.params ++ [], _, _, _⟩ : Progress) = _
        rw [List.append_nil]
        rfl
      show Except.ok ([], s) = Except.ok ([], s.after legacyLessThan table [])
      rw [hafter]
  | cons t terms ih =>
      obtain ⟨ht, hterms⟩ := List.forall_mem_cons.mp h
      rw [List.map_cons, Node.passEach, StateT.run_bind, ht, List.mapM_cons]
      cases t.clause with
      | error e => rfl
      | ok clause =>
          show StateT.run (do
            let parts ← Node.passEach resolve legacyLessThan (terms.map Term.node)
            return (s.parts legacyLessThan table [clause]).head?.toList ++ parts)
            (s.after legacyLessThan table [clause]) = _
          rw [StateT.run_bind, ih hterms]
          cases terms.mapM Term.clause with
          | error e => rfl
          | ok clauses =>
              show _ = Except.ok (s.parts legacyLessThan table ([clause] ++ clauses),
                s.after legacyLessThan table ([clause] ++ clauses))
              rw [Progress.parts_append, Progress.after_append, Progress.toList_head?_parts]
              rfl

theorem mapM_clause_tags (tags : List TagTerm) :
    (tags.map Term.tag).mapM Term.clause = .ok ((tags.map TagTerm.test).map Clause.tag) := by
  rw [mapM_eq_ok_iff, List.map_map, List.forall₂_map_left_iff, List.forall₂_map_right_iff]
  exact List.forall₂_same.mpr fun _ _ => rfl

/-- The alternatives of a block leave one part, for which their own are joined. -/
theorem Progress.after_tags (s : Progress) (legacyLessThan : Bool) (table : TagTable)
    (tests : List TagTest) :
    s.parts legacyLessThan table [.alternatives tests] =
        [.any (s.parts legacyLessThan table (tests.map Clause.tag))] ∧
      s.after legacyLessThan table [.alternatives tests] =
        s.after legacyLessThan table (tests.map Clause.tag) := by
  have hpieces : (tests.map Clause.tag).filterMap (Clause.piece? legacyLessThan table) =
      tests.map (TagTest.piece table) := by
    rw [List.filterMap_map, ← List.filterMap_eq_map]
    rfl
  have horders : (tests.map Clause.tag).filterMap Clause.order? = [] := by
    simp [Clause.order?]
  have hrating : (tests.map Clause.tag).any Clause.isRating = false := by
    simp [Clause.isRating]
  have hstatus : (tests.map Clause.tag).any Clause.isStatus = false := by
    simp [Clause.isStatus]
  constructor
  · rw [parts, parts, hpieces]
    rfl
  · rw [after, after, hpieces, horders, hrating, hstatus]
    show (⟨s.params ++ (_ ++ []), _, _, _⟩ : Progress) = _
    rw [List.append_nil]
    rfl

theorem Term.pass_node (t : Term)
    (h : ∀ tag ∈ t.tags, table.id? tag.test.name = resolve tag.test.name) :
    t.PassesAs resolve legacyLessThan table := by
  cases t with
  | tag tag => exact tag.pass_node (h tag (List.mem_singleton_self tag))
  | field f => exact f.pass_node
  | alternatives opening first second others =>
      intro s
      let tags := first :: second :: others
      have htags : ∀ t ∈ tags.map Term.tag, t.PassesAs resolve legacyLessThan table := by
        intro t ht
        obtain ⟨tag, htag, rfl⟩ := List.mem_map.mp ht
        exact tag.pass_node (h tag htag)
      have heach : (Node.passEach resolve legacyLessThan (tags.map TagTerm.node)).run s =
          .ok (s.parts legacyLessThan table ((tags.map TagTerm.test).map Clause.tag),
            s.after legacyLessThan table ((tags.map TagTerm.test).map Clause.tag)) := by
        have hterms := Node.passEach_terms htags s
        rwa [List.map_map, mapM_clause_tags] at hterms
      obtain ⟨hparts, hafter⟩ := s.after_tags legacyLessThan table (tags.map TagTerm.test)
      show StateT.run (do
          let parts ← Node.passEach resolve legacyLessThan (tags.map TagTerm.node)
          return some (Predicate.any parts)) s =
        Except.ok ((s.parts legacyLessThan table [.alternatives (tags.map TagTerm.test)]).head?,
          s.after legacyLessThan table [.alternatives (tags.map TagTerm.test)])
      rw [StateT.run_bind, heach, hparts, hafter]
      rfl

/-- A tree leaves what the clauses of its query leave, and joins the parts if it has several
terms. -/
theorem Query.pass_tree (q : Query)
    (h : ∀ t ∈ q.terms, ∀ tag ∈ t.tags, table.id? tag.test.name = resolve tag.test.name) :
    (q.tree.pass resolve legacyLessThan).run {} =
      q.clauses.map fun clauses =>
        (if clauses.length = 1 then (({} : Progress).parts legacyLessThan table clauses).head?
          else some (.all (({} : Progress).parts legacyLessThan table clauses)),
        ({} : Progress).after legacyLessThan table clauses) := by
  obtain ⟨first, others⟩ := q
  have hterms : ∀ t ∈ first :: others, t.PassesAs resolve legacyLessThan table :=
    fun t ht => t.pass_node (h t ht)
  cases others with
  | nil =>
      show (first.node.pass resolve legacyLessThan).run {} = ([first].mapM Term.clause).map _
      rw [hterms first (List.mem_singleton_self _), List.mapM_cons, List.mapM_nil]
      cases first.clause with
      | error e => rfl
      | ok clause => rfl
  | cons second others =>
      show StateT.run (do
          let parts ← Node.passEach resolve legacyLessThan
            ((first :: second :: others).map Term.node)
          return some (Predicate.all parts)) {} =
        ((first :: second :: others).mapM Term.clause).map _
      rw [StateT.run_bind, Node.passEach_terms hterms]
      cases hclauses : (first :: second :: others).mapM Term.clause with
      | error e => rfl
      | ok clauses =>
          have hlength : clauses.length ≠ 1 := by
            have hsame := (mapM_eq_ok_iff.mp hclauses).length_eq
            simp only [List.length_cons] at hsame
            omega
          show _ = Except.ok (if clauses.length = 1 then _ else _, _)
          rw [if_neg hlength]
          rfl

end

theorem Progress.exclude_eq (s : Progress) (ratings : List Rating) :
    s.exclude ratings =
      ((Piece.sequence s.params.length (ratings.map Rating.exclusion)).1,
        { s with params := s.params ++
            (Piece.sequence s.params.length (ratings.map Rating.exclusion)).2 }) := by
  induction ratings generalizing s with
  | nil =>
      show ([], s) = ([], (⟨s.params ++ [], _, _, _⟩ : Progress))
      rw [List.append_nil]
  | cons rating ratings ih =>
      rw [exclude, ih, List.map_cons, Piece.sequence_cons]
      simp only [List.append_assoc]
      rfl

/-- A walk over a tree is finished as the draft of its query is. -/
theorem Progress.finish_after (config : Config) (d : Draft) (visibility? : Option Visibility) :
    let s := ({} : Progress).after config.legacyLessThan d.table d.clauses
    let parts := ({} : Progress).parts config.legacyLessThan d.table d.clauses
    s.finish config (if d.clauses.length = 1 then parts.head? else some (.all parts))
        (visibility?.elim [] Visibility.hidden) =
      d.finish config visibility? := by
  intro s parts
  have hown : (if d.clauses.length = 1 then parts.head? else some (.all parts)).toList =
      if d.clauses.length = 1 then parts else [.all parts] := by
    split
    next hone =>
      obtain ⟨clause, hclause⟩ := List.length_eq_one_iff.mp hone
      show (({} : Progress).parts _ _ d.clauses).head?.toList = ({} : Progress).parts _ _ d.clauses
      rw [hclause, toList_head?_parts]
    next => rfl
  have horder : s.order? = d.order? := Option.or_none
  have hrating : s.constrainsRating = d.constrainsRating := Bool.or_false _
  have hstatus : s.constrainsStatus = d.constrainsStatus := Bool.or_false _
  have hparams : s.params = (Piece.sequence 0 (d.pieces config)).2 := rfl
  rw [finish, exclude_eq, Draft.finish, Draft.exclusions, hown, horder, hrating, hstatus]
  dsimp only
  rw [← hparams, Piece.sequence_append, List.append_assoc, List.append_assoc]
  cases d.constrainsStatus <;> cases config.hideDeleted <;> rfl

/-- A tree compiles in one pass to what is left to do with the draft of its query, if the table says
what the service says. -/
theorem Query.compile_tree {q : Query} {table : TagTable} {resolve : String → Option Id}
    (h : ∀ t ∈ q.terms, ∀ tag ∈ t.tags, table.id? tag.test.name = resolve tag.test.name)
    (answer : Answer Visibility) (config : Config) :
    q.tree.compile resolve answer config =
      ((q.draft table).mapError .term).bind fun d => d.complete answer config := by
  rw [Node.compile, q.pass_tree h, draft]
  cases q.clauses with
  | error e => rfl
  | ok clauses =>
      let d : Draft := ⟨clauses, table⟩
      have hrating : (({} : Progress).after config.legacyLessThan table clauses).constrainsRating =
          d.constrainsRating := Bool.or_false _
      show _ = d.complete answer config
      rw [Draft.complete, ← hrating, ← Progress.finish_after config d none, Draft.lookUpPreferences]
      show (if _ then _ else _) = if _ then _ else _
      split
      · rfl
      · cases answer.within config.lookupTimeout with
        | error e => rfl
        | ok visibility =>
            dsimp only
            rw [← Progress.finish_after config d (some visibility)]
            rfl

end TagQuery

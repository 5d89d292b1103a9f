import TagQuery.Proofs.Batching
import TagQuery.Proofs.CaseFolding
import TagQuery.Proofs.Joining
import TagQuery.Proofs.Shape
import TagQuery.Proofs.Writing

/-!
Queries that differ in the words of their tags only. What such a query compiles to depends on its
words by what the service says of them, so two of them compile alike if their words stand for the
same ids, each to each.
-/

namespace TagQuery

/-- Two trees that are alike but for the places of tokens and the words of tags, which are related
each to each. -/
inductive Node.Alike (R : String → String → Prop) : Node → Node → Prop
  | tag {kind : NodeKind} {token token' : Token} {children children' : List Node}
      (hkind : kind.isTag = true) (hword : R token.value token'.value)
      (hchildren : List.Forall₂ (Node.Alike R) children children') :
      Node.Alike R ⟨kind, token, children⟩ ⟨kind, token', children'⟩
  | other {kind : NodeKind} {token token' : Token} {children children' : List Node}
      (hkind : kind.isTag = false) (htoken : token.unplaced = token'.unplaced)
      (hchildren : List.Forall₂ (Node.Alike R) children children') :
      Node.Alike R ⟨kind, token, children⟩ ⟨kind, token', children'⟩

namespace Node.Alike

variable {R R' : String → String → Prop} {node node' : Node}

theorem kind_eq (h : node.Alike R node') : node.kind = node'.kind := by
  cases h <;> rfl

theorem children (h : node.Alike R node') :
    List.Forall₂ (Node.Alike R) node.children node'.children := by
  cases h with
  | tag _ _ hchildren => exact hchildren
  | other _ _ hchildren => exact hchildren

theorem word (h : node.Alike R node') (hkind : node.kind.isTag = true) :
    R node.token.value node'.token.value := by
  cases h with
  | tag _ hword _ => exact hword
  | other hother _ _ => cases hkind.symm.trans hother

theorem value_eq (h : node.Alike R node') (hkind : node.kind.isTag = false) :
    node.token.value = node'.token.value := by
  cases h with
  | tag htag _ _ => cases hkind.symm.trans htag
  | @other _ token token' _ _ _ htoken _ =>
      have hvalue : token.unplaced.value = token'.unplaced.value := congrArg Token.value htoken
      exact hvalue

end Node.Alike

theorem tagWordsOf_cons (visit : Visit) (visits : List Visit) :
    tagWordsOf (visit :: visits) =
      (if visit.node.kind.isTag then [visit.node.token.value] else []) ++ tagWordsOf visits := by
  unfold tagWordsOf
  by_cases h : visit.node.kind.isTag <;> simp [h]

mutual

/-- The words of a tree do not depend on its depth. -/
theorem Node.tagWordsOf_listing :
    ∀ (node : Node) (depth : Nat), tagWordsOf (node.listing depth) = node.tagWords
  | ⟨kind, token, children⟩, depth => by
    rw [tagWords, visits_eq_listing, listing, listing, tagWordsOf_cons, tagWordsOf_cons,
      Node.tagWordsOf_listingEach children, Node.tagWordsOf_listingEach children]

theorem Node.tagWordsOf_listingEach :
    ∀ (nodes : List Node) (depth : Nat),
      tagWordsOf (Node.listingEach depth nodes) = nodes.flatMap Node.tagWords
  | [], _ => rfl
  | node :: nodes, depth => by
    rw [listingEach, List.flatMap_cons, ← Node.tagWordsOf_listing node depth,
      ← Node.tagWordsOf_listingEach nodes depth]
    simp [tagWordsOf]

end

theorem Node.tagWords_mk (kind : NodeKind) (token : Token) (children : List Node) :
    (⟨kind, token, children⟩ : Node).tagWords =
      (if kind.isTag then [token.value] else []) ++ children.flatMap Node.tagWords := by
  rw [tagWords, visits_eq_listing, listing, tagWordsOf_cons, tagWordsOf_listingEach]

mutual

/-- What is more to say of the words of a tree can be said of those of a tree that is alike. -/
theorem Node.Alike.imp_of_mem {R R' : String → String → Prop} :
    ∀ (node : Node) {node' : Node}, (∀ word ∈ node.tagWords, ∀ word', R word word' → R' word word') →
      node.Alike R node' → node.Alike R' node'
  | ⟨kind, token, children⟩, _, himp, h => by
    rw [Node.tagWords_mk] at himp
    have hchildren {others : List Node} (hothers : List.Forall₂ (Node.Alike R) children others) :
        List.Forall₂ (Node.Alike R') children others :=
      forall₂_alike_imp_of_mem children
        (fun word hword => himp word (List.mem_append_right _ hword)) hothers
    cases h with
    | tag hkind hword hothers =>
        refine .tag hkind (himp _ ?_ _ hword) (hchildren hothers)
        rw [if_pos hkind]
        exact List.mem_append_left _ List.mem_cons_self
    | other hkind hsame hothers => exact .other hkind hsame (hchildren hothers)

theorem forall₂_alike_imp_of_mem {R R' : String → String → Prop} :
    ∀ (nodes : List Node) {others : List Node},
      (∀ word ∈ nodes.flatMap Node.tagWords, ∀ word', R word word' → R' word word') →
      List.Forall₂ (Node.Alike R) nodes others → List.Forall₂ (Node.Alike R') nodes others
  | [], _, _, h => by
    cases h
    exact .nil
  | node :: nodes, _, himp, h => by
    rw [List.flatMap_cons] at himp
    cases h with
    | cons hfirst hrest =>
        exact .cons
          (Node.Alike.imp_of_mem node (fun word hword => himp word (List.mem_append_left _ hword))
            hfirst)
          (forall₂_alike_imp_of_mem nodes
            (fun word hword => himp word (List.mem_append_right _ hword)) hrest)

end

section

variable {resolve resolve' : String → Option Id} {legacyLessThan : Bool}

/-- Words of which two services say the same. -/
def MeansSame (resolve resolve' : String → Option Id) (word word' : String) : Prop :=
  resolve (Text.lowercase word) = resolve' (Text.lowercase word')

theorem Pass.tag_eq {word word' : String} (h : MeansSame resolve resolve' word word')
    (negated : Bool) : Pass.tag resolve negated word = Pass.tag resolve' negated word' := by
  unfold Pass.tag
  rw [h]

theorem TagTerm.pass_node_eq {t t' : TagTerm}
    (h : t.node.Alike (MeansSame resolve resolve') t'.node) :
    t.node.pass resolve legacyLessThan = t'.node.pass resolve' legacyLessThan := by
  obtain ⟨negated, word⟩ := t
  obtain ⟨negated', word'⟩ := t'
  have hkind := h.kind_eq
  cases negated <;> cases negated'
  · exact congrArg (some <$> ·) (Pass.tag_eq (h.word rfl) false)
  · cases hkind
  · cases hkind
  · exact congrArg (some <$> ·) (Pass.tag_eq (h.word rfl) true)

/-- A field says what its texts say. -/
theorem Pass.field_eq {t t' : FieldTerm} (hname : t.name.value = t'.name.value)
    (hoperator : t.operator.value = t'.operator.value) (hvalue : t.value.value = t'.value.value) :
    Pass.field legacyLessThan t = Pass.field legacyLessThan t' := by
  unfold Pass.field FieldTerm.id FieldTerm.keyword FieldTerm.order
  rw [hname, hoperator, hvalue]

theorem FieldTerm.pass_node_eq {t t' : FieldTerm}
    (h : t.node.Alike (MeansSame resolve resolve') t'.node) :
    t.node.pass resolve legacyLessThan = t'.node.pass resolve' legacyLessThan := by
  obtain ⟨hname, hothers⟩ := List.forall₂_cons.mp h.children
  obtain ⟨hoperator, hothers⟩ := List.forall₂_cons.mp hothers
  obtain ⟨hvalue, -⟩ := List.forall₂_cons.mp hothers
  exact Pass.field_eq (hname.value_eq rfl) (hoperator.value_eq rfl) (hvalue.value_eq rfl)

theorem Node.passEach_eq {α : Type} (legacyLessThan : Bool) {node : α → Node} {xs xs' : List α}
    (h : List.Forall₂ (fun x x' =>
      (node x).pass resolve legacyLessThan = (node x').pass resolve' legacyLessThan) xs xs') :
    Node.passEach resolve legacyLessThan (xs.map node) =
      Node.passEach resolve' legacyLessThan (xs'.map node) := by
  induction h with
  | nil => rfl
  | cons hfirst _ ih => rw [List.map_cons, List.map_cons, passEach, passEach, hfirst, ih]

theorem Term.pass_node_eq {t t' : Term} (h : t.node.Alike (MeansSame resolve resolve') t'.node) :
    t.node.pass resolve legacyLessThan = t'.node.pass resolve' legacyLessThan := by
  have hkind := congrArg NodeKind.isTag h.kind_eq
  match t, t' with
  | .tag t, .tag t' => exact TagTerm.pass_node_eq h
  | .field t, .field t' => exact FieldTerm.pass_node_eq h
  | .alternatives _ first second others, .alternatives _ first' second' others' =>
      have htags : List.Forall₂ _ (first :: second :: others) (first' :: second' :: others') :=
        List.forall₂_map_left_iff.mp (List.forall₂_map_right_iff.mp h.children)
      have hparts := Node.passEach_eq legacyLessThan
        (htags.imp fun _ _ => TagTerm.pass_node_eq)
      rw [Term.node, Term.node, Node.pass, Node.pass, hparts]
  | .tag t, .alternatives .. | .tag t, .field _ => cases t.isTag_node.symm.trans hkind
  | .alternatives .., .tag t' | .field _, .tag t' => cases hkind.trans t'.isTag_node
  | .alternatives .., .field _ | .field _, .alternatives .. => cases h.kind_eq

theorem Query.pass_tree_eq {q q' : Query}
    (h : q.tree.Alike (MeansSame resolve resolve') q'.tree) :
    q.tree.pass resolve legacyLessThan = q'.tree.pass resolve' legacyLessThan := by
  match q, q' with
  | ⟨first, []⟩, ⟨first', []⟩ => exact Term.pass_node_eq h
  | ⟨first, []⟩, ⟨_, _ :: _⟩ => exact absurd h.kind_eq first.kind_node_ne
  | ⟨_, _ :: _⟩, ⟨first', []⟩ => exact absurd h.kind_eq.symm first'.kind_node_ne
  | ⟨first, second :: others⟩, ⟨first', second' :: others'⟩ =>
      have hterms : List.Forall₂ _ (Query.terms ⟨first, second :: others⟩)
          (Query.terms ⟨first', second' :: others'⟩) :=
        List.forall₂_map_left_iff.mp (List.forall₂_map_right_iff.mp h.children)
      have hparts := Node.passEach_eq legacyLessThan
        (hterms.imp fun _ _ => Term.pass_node_eq)
      rw [Query.tree, Query.tree, Node.pass, Node.pass, hparts]

theorem Query.compile_tree_eq {q q' : Query}
    (h : q.tree.Alike (MeansSame resolve resolve') q'.tree) (answer : Answer Visibility)
    (config : Config) :
    q.tree.compile resolve answer config = q'.tree.compile resolve' answer config := by
  unfold Node.compile
  rw [pass_tree_eq h]

end

theorem Answer.mem_of_mem_awaited {α κ : Type} {answers : List (κ × Answer α)}
    {answer : κ × Answer α} (h : answer ∈ awaited answers) : answer ∈ answers := by
  induction answers with
  | nil => cases h
  | cons first answers ih =>
      unfold awaited at h
      split at h
      · exact (List.mem_cons.mp h).elim (fun h => h ▸ List.mem_cons_self)
          fun h => List.mem_cons_of_mem _ (ih h)
      · exact List.mem_singleton.mp h ▸ List.mem_cons_self

theorem Answer.lastEnd_eq_zero {α κ : Type} {answers : List (κ × Answer α)}
    (h : ∀ answer ∈ answers, answer.2.delay = 0) : lastEnd answers = 0 :=
  Nat.le_zero.mp ((isLeast_lastEnd answers).2 fun answer hanswer => (h answer hanswer).le)

/-- Lookups that are all there at once are there at once, however many they are. -/
theorem Answer.delay_together_eq_zero {α κ : Type} {answers : List (κ × Answer α)}
    {values : List (κ × α)} (h : ∀ answer ∈ answers, answer.2.delay = 0)
    (hvalues : collect answers = .ok values) : (together answers).delay = 0 := by
  unfold together
  split
  · rw [watched, firstFailure_eq_none_of_collect_eq_ok hvalues]
    exact lastEnd_eq_zero h
  · have hlast := lastEnd_eq_zero fun answer hanswer => h answer (mem_of_mem_awaited hanswer)
    show lastTaken (awaited answers) = 0
    rw [lastTaken, hlast]
    simp

/-- On a store a query compiles as its tree does in one pass that asks the store for each tag. -/
theorem Store.compile_outcome (s : Store) (config : Config) (viewer : Viewer) (q : Query) :
    (compile s.services config viewer q).outcome =
      q.tree.compile s.resolve (.now (s.visibility viewer)) config := by
  have hcollect : Answer.collect (q.tagAnswers s.services) =
      .ok (q.tagNames.map fun name => (name, s.resolve name)) :=
    Answer.collect_tagAnswers fun _ _ => rfl
  have hdelay : (Answer.together (q.tagAnswers s.services)).delay = 0 := by
    refine Answer.delay_together_eq_zero (fun answer hanswer => ?_) hcollect
    obtain ⟨name, -, rfl⟩ := List.mem_map.mp hanswer
    rfl
  have hwithin : (Answer.together (q.tagAnswers s.services)).within config.lookupTimeout =
      .ok (q.tagNames.map fun name => (name, s.resolve name)) := by
    rw [Answer.within_eq_result fun limit _ => hdelay.trans_le (Nat.zero_le _),
      Answer.together_eq_ok_iff.mpr hcollect]
    rfl
  have htable : ∀ t ∈ q.terms, ∀ tag ∈ t.tags, TagTable.id?
      (SortedMap.ofList (q.tagNames.map fun name => (name, s.resolve name))) tag.test.name =
        s.resolve tag.test.name := by
    intro t ht tag htag
    rw [TagTable.id?, TagTable.get?_ofList_map (Query.mem_tagNames_iff.mpr ⟨t, ht, tag, htag, rfl⟩)]
    rfl
  rw [TagQuery.compile_outcome, Query.lookUpTags_of_within hwithin, Query.compile_tree htable]
  rfl

theorem Store.resolve_lowercase (s : Store) (word : String) :
    s.resolve (Text.lowercase word) = s.resolve word := by
  unfold resolve
  rw [Text.lowercase_lowercase]

/-- Queries that are alike but for words which two stores resolve alike compile alike on them. -/
theorem Store.compile_outcome_eq {s s' : Store} {q q' : Query}
    (hvisibility : ∀ viewer, s.visibility viewer = s'.visibility viewer)
    (h : q.tree.Alike (fun word word' => s.resolve word = s'.resolve word') q'.tree)
    (config : Config) (viewer : Viewer) :
    (compile s.services config viewer q).outcome =
      (compile s'.services config viewer q').outcome := by
  have hmeans : (fun word word' => s.resolve word = s'.resolve word') =
      MeansSame s.resolve s'.resolve := by
    funext word word'
    rw [MeansSame, resolve_lowercase, resolve_lowercase]
  rw [Store.compile_outcome, Store.compile_outcome, hvisibility viewer,
    Query.compile_tree_eq (hmeans ▸ h)]

end TagQuery

import TagQuery.Proofs.Batching
import TagQuery.Proofs.Preservation
import TagQuery.Proofs.Shape

/-!
What compilation does with malformed trees is never done. The tree of a query has no field without
its three parts and no part of a field outside of a field, every block has two alternatives at
least, and a text has no operators but the known ones.
-/

namespace TagQuery

mutual

/-- The pass over a tree, with what to do at a field that has not its three parts and at a part
outside of a field. -/
def Node.passOr (fallback : Node → Pass (Option Predicate)) (resolve : String → Option Id)
    (legacyLessThan : Bool) : Node → Pass (Option Predicate)
  | ⟨.conjunction, _, children⟩ => do
    return some (.all (← Node.passEachOr fallback resolve legacyLessThan children))
  | ⟨.alternatives, _, children⟩ => do
    return some (.any (← Node.passEachOr fallback resolve legacyLessThan children))
  | ⟨.tag, word, _⟩ => some <$> Pass.tag resolve false word.value
  | ⟨.negatedTag, word, _⟩ => some <$> Pass.tag resolve true word.value
  | ⟨.field, colon, [name, operator, value]⟩ =>
    Pass.field legacyLessThan ⟨name.token, colon, operator.token, value.token⟩
  | malformed => fallback malformed

def Node.passEachOr (fallback : Node → Pass (Option Predicate)) (resolve : String → Option Id)
    (legacyLessThan : Bool) : List Node → Pass (List Predicate)
  | [] => return []
  | node :: nodes => do
    let part? ← node.passOr fallback resolve legacyLessThan
    let parts ← Node.passEachOr fallback resolve legacyLessThan nodes
    return part?.toList ++ parts

end

section

variable (fallback fallback' : Node → Pass (Option Predicate)) (resolve : String → Option Id)
  (legacyLessThan : Bool)

mutual

/-- The pass leaves out what is malformed. -/
theorem Node.passOr_return_none (node : Node) :
    node.passOr (fun _ => return none) resolve legacyLessThan =
      node.pass resolve legacyLessThan := by
  match node with
  | ⟨.conjunction, _, children⟩ | ⟨.alternatives, _, children⟩ =>
      rw [passOr, pass, Node.passEachOr_return_none children]
  | ⟨.field, _, [_, _, _]⟩ => rfl
  | ⟨.field, _, []⟩ | ⟨.field, _, [_]⟩ | ⟨.field, _, [_, _]⟩ | ⟨.field, _, _ :: _ :: _ :: _ :: _⟩ =>
      rfl
  | ⟨.tag, _, _⟩ | ⟨.negatedTag, _, _⟩ => rfl
  | ⟨.fieldName, _, _⟩ | ⟨.fieldOperator, _, _⟩ | ⟨.fieldValue, _, _⟩ => rfl

theorem Node.passEachOr_return_none (nodes : List Node) :
    Node.passEachOr (fun _ => return none) resolve legacyLessThan nodes =
      Node.passEach resolve legacyLessThan nodes := by
  match nodes with
  | [] => rfl
  | node :: nodes =>
      rw [passEachOr, passEach, Node.passOr_return_none node, Node.passEachOr_return_none nodes]

end

variable {fallback fallback' resolve legacyLessThan}

theorem Node.passEachOr_map {α : Type} {toNode : α → Node}
    (h : ∀ a, (toNode a).passOr fallback resolve legacyLessThan =
      (toNode a).passOr fallback' resolve legacyLessThan) (as : List α) :
    Node.passEachOr fallback resolve legacyLessThan (as.map toNode) =
      Node.passEachOr fallback' resolve legacyLessThan (as.map toNode) := by
  induction as with
  | nil => rfl
  | cons a as ih => rw [List.map_cons, passEachOr, passEachOr, h a, ih]

theorem TagTerm.passOr_node (t : TagTerm) :
    t.node.passOr fallback resolve legacyLessThan =
      t.node.passOr fallback' resolve legacyLessThan := by
  obtain ⟨negated, word⟩ := t
  cases negated <;> rfl

theorem Term.passOr_node (t : Term) :
    t.node.passOr fallback resolve legacyLessThan =
      t.node.passOr fallback' resolve legacyLessThan := by
  cases t with
  | tag tag => exact tag.passOr_node
  | field t => rfl
  | alternatives opening first second others =>
      rw [node, Node.passOr, Node.passOr, Node.passEachOr_map TagTerm.passOr_node]

/-- The pass over the tree of a query meets nothing malformed. -/
theorem Query.passOr_tree (q : Query) :
    q.tree.passOr fallback resolve legacyLessThan = q.tree.pass resolve legacyLessThan := by
  rw [← Node.passOr_return_none]
  unfold tree
  split
  next => exact q.first.passOr_node
  next => rw [Node.passOr, Node.passOr, Node.passEachOr_map Term.passOr_node]

end

section

variable {resolve : String → Option Id} {legacyLessThan : Bool}

variable (resolve) in
theorem Pass.run_tag_eq_ok (negated : Bool) (word : String) (s : Progress) :
    ∃ part s', (Pass.tag resolve negated word).run s = .ok (part, s') := by
  unfold Pass.tag
  cases resolve (Text.lowercase word) with
  | none => exact ⟨_, _, rfl⟩
  | some id => cases negated <;> exact ⟨_, _, rfl⟩

theorem Node.run_pass_eq_ok {node : Node} (h : node.kind.isTag) (s : Progress) :
    ∃ part s', (node.pass resolve legacyLessThan).run s = .ok (some part, s') := by
  obtain ⟨kind, token, children⟩ := node
  have htag (negated : Bool) : ∃ part s',
      (some <$> Pass.tag resolve negated token.value).run s = .ok (some part, s') := by
    obtain ⟨part, s', hrun⟩ := Pass.run_tag_eq_ok resolve negated token.value s
    exact ⟨part, s', by rw [StateT.run_map, hrun]; rfl⟩
  cases kind with
  | tag => exact htag false
  | negatedTag => exact htag true
  | _ => cases h

/-- Every one of several tags leaves a part. -/
theorem Node.run_passEach_eq_ok {nodes : List Node} (h : ∀ node ∈ nodes, node.kind.isTag)
    (s : Progress) : ∃ parts s', (Node.passEach resolve legacyLessThan nodes).run s =
      .ok (parts, s') ∧ parts.length = nodes.length := by
  induction nodes generalizing s with
  | nil => exact ⟨[], s, rfl, rfl⟩
  | cons node nodes ih =>
      obtain ⟨hnode, hnodes⟩ := List.forall_mem_cons.mp h
      obtain ⟨part, s₁, hpart⟩ := Node.run_pass_eq_ok hnode s
      obtain ⟨parts, s₂, hparts, hlength⟩ := ih hnodes s₁
      refine ⟨part :: parts, s₂, ?_, congrArg Nat.succ hlength⟩
      rw [passEach, StateT.run_bind, hpart]
      show StateT.run (do
        let parts ← Node.passEach resolve legacyLessThan nodes
        return (some part).toList ++ parts) s₁ = _
      rw [StateT.run_bind, hparts]
      rfl

theorem Predicate.any_of_two_le {parts : List Predicate} (h : 2 ≤ parts.length) :
    Predicate.any parts = .or parts := by
  match parts with
  | _ :: _ :: _ => rfl

/-- A block leaves a disjunction with a part for each alternative. -/
theorem Node.IsSyntaxTree.run_pass_alternatives {root : Node} (hroot : root.IsSyntaxTree)
    {steps : Nat} {node : Node} (h : root.Below steps node) (hkind : node.kind = .alternatives)
    (s : Progress) : ∃ parts s', (node.pass resolve legacyLessThan).run s =
      .ok (some (.or parts), s') ∧ parts.length = node.children.length := by
  obtain ⟨hlength, htags⟩ := hroot.alternatives h hkind
  obtain ⟨parts, s', hparts, hsame⟩ := Node.run_passEach_eq_ok htags s
  obtain ⟨_, token, children⟩ := node
  cases hkind
  refine ⟨parts, s', ?_, hsame⟩
  rw [pass, StateT.run_bind, hparts, ← Predicate.any_of_two_le (hsame ▸ hlength)]
  rfl

end

theorem Term.field_of_part {t : Term} {part : Node} (hpart : part ∈ t.node.children)
    (hkind : part.kind = .fieldOperator) : ∃ f, t = .field f ∧ part.token = f.operator := by
  rcases Term.part_cases hpart with ⟨tag, rfl⟩ | ⟨f, rfl, rfl | rfl | rfl⟩
  · exact absurd (hkind ▸ tag.isTag_node) (by decide)
  · cases hkind
  · exact ⟨f, rfl, rfl⟩
  · cases hkind

theorem Query.exists_field_of_below {q : Query} {steps : Nat} {node : Node}
    (h : q.tree.Below steps node) (hkind : node.kind = .fieldOperator) :
    ∃ f, Term.field f ∈ q.terms ∧ node.token = f.operator := by
  cases hasNode_of_below h with
  | conjunction => cases hkind
  | @term t ht =>
      cases t with
      | tag tag => exact absurd (hkind ▸ tag.isTag_node) (by decide)
      | alternatives | field => cases hkind
  | part ht hpart =>
      obtain ⟨f, rfl, htoken⟩ := Term.field_of_part hpart hkind
      exact ⟨f, ht, htoken⟩

theorem Query.operator_of_below {text : String} {q : Query} (h : Query.parse text = .ok q)
    {steps : Nat} {node : Node} (hnode : q.tree.Below steps node)
    (hkind : node.kind = .fieldOperator) : node.token.value ∈ ["=", ">", "<", "!"] := by
  obtain ⟨f, hf, htoken⟩ := exists_field_of_below hnode hkind
  rw [htoken]
  exact FieldTerm.operatorKnown_of_parse h hf

/-- Tokens that spell a query give a well-formed tree, which is walked by depth, and over which the
pass meets nothing malformed. Nodes that keep depths, set from the root on, keep those of the walk. A
block leaves a disjunction with a part for each alternative. Where the lookups of tags succeed, that
pass is what compilation comes to, and of the operators of a text only `!` is read as the last one.
All but the last of this is carried by the type of queries and holds of any query; the operators are
known only where the query has been read from a text. -/
theorem tree_wellFormed {tokens : List Token} {q : Query} (h : Query.ofTokens tokens = .ok q) :
    q.tree.IsSyntaxTree ∧
    (∀ v, v ∈ q.tree.visits ↔ q.tree.Below v.depth v.node) ∧
    (∀ root : LeveledNode, root.node = q.tree →
      (root.setDepth 0).node = q.tree ∧ (root.setDepth 0).visits = q.tree.visits) ∧
    (∀ fallback resolve legacyLessThan,
      q.tree.passOr fallback resolve legacyLessThan = q.tree.pass resolve legacyLessThan) ∧
    (∀ steps node, q.tree.Below steps node → node.kind = .alternatives →
      ∀ resolve legacyLessThan s, ∃ parts s', (node.pass resolve legacyLessThan).run s =
        .ok (some (.or parts), s') ∧ parts.length = node.children.length) ∧
    (∀ services config viewer ids,
      (Answer.together (q.tagAnswers services)).within config.lookupTimeout = .ok ids →
        (compile services config viewer q).outcome =
          q.tree.compile (TagTable.id? (.ofList ids)) (services.visibility viewer) config) ∧
    (∀ text, tokens = tokenize text → ∀ steps node, q.tree.Below steps node →
      node.kind = .fieldOperator →
        (Operator.ofText node.token.value = .notEqual ↔ node.token.value = "!")) := by
  refine ⟨q.isSyntaxTree_tree, fun _ => Node.mem_visits, ?_, fun _ _ _ => q.passOr_tree,
    fun _ _ hnode hkind _ _ => q.isSyntaxTree_tree.run_pass_alternatives hnode hkind, ?_, ?_⟩
  · intro root hroot
    rw [root.node_setDepth, root.visits_setDepth, Node.visits_eq_listing, hroot]
    exact ⟨rfl, rfl⟩
  · intro services config viewer ids hids
    rw [compile_outcome, Query.lookUpTags_of_within hids, Query.compile_tree fun _ _ _ _ => rfl]
  · rintro text rfl steps node hnode hkind
    have hvalue := Query.operator_of_below h hnode hkind
    simp only [List.mem_cons, List.not_mem_nil, or_false] at hvalue
    rcases hvalue with hvalue | hvalue | hvalue | hvalue <;> rw [hvalue] <;> decide

/-- A block, a field and a tag next to each other. -/
theorem tree_wellFormed_of_three_terms :
    ∃ q, Query.ofTokens (tokenize "\x7ba ~ -b\x7d user:!7 c") = .ok q ∧ q.tree.IsSyntaxTree ∧
      q.tree.visits.map (fun v => (v.depth, v.node.kind)) =
        [(0, .conjunction), (1, .alternatives), (2, .tag), (2, .negatedTag), (1, .field),
          (2, .fieldName), (2, .fieldOperator), (2, .fieldValue), (1, .tag)] ∧
      ∀ e resolve legacyLessThan, q.tree.passOr (fun _ => throw e) resolve legacyLessThan =
        q.tree.pass resolve legacyLessThan := by
  let q : Query :=
    ⟨.alternatives ⟨.orStart, "\x7b", 0⟩ ⟨false, ⟨.word, "a", 1⟩⟩ ⟨true, ⟨.word, "b", 6⟩⟩ [],
      [.field ⟨⟨.word, "user", 9⟩, ⟨.colon, ":", 13⟩, ⟨.operator, "!", 14⟩, ⟨.word, "7", 15⟩⟩,
        .tag ⟨false, ⟨.word, "c", 17⟩⟩]⟩
  have hq : Query.ofTokens (tokenize "\x7ba ~ -b\x7d user:!7 c") = .ok q := by decide +kernel
  obtain ⟨hshape, -, -, hpass, -⟩ := tree_wellFormed hq
  refine ⟨q, hq, hshape, ?_, fun e => hpass _⟩
  rw [Node.visits_eq_listing]
  rfl

end TagQuery

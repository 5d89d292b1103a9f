import TagQuery.Proofs.Correspondence
import TagQuery.Proofs.Shape
import TagQuery.Proofs.Tokenization

/-!
The tokens that the nodes of a tree are known by. Each is written in the query, and of the kind that
belongs to the node, but for a conjunction and for an operator that is left out. So the kind of a
node and its value tell all of its token but where it stands and whether it is written.
-/

namespace TagQuery

open Grammar Text

/-- The kind of the token that a node is known by where it is written. A conjunction never is. -/
def NodeKind.tokenKind : NodeKind → TokenKind
  | .conjunction => .implied
  | .alternatives => .orStart
  | .field => .colon
  | .fieldOperator => .operator
  | .tag | .negatedTag | .fieldName | .fieldValue => .word

/-- The tokens by which nodes of a kind are known, in a query that writes some tokens. -/
inductive NodeKind.KnownBy (tokens : List Token) : NodeKind → Token → Prop
  | written {kind : NodeKind} {token : Token} (htoken : token ∈ tokens)
    (hkind : token.kind = kind.tokenKind) : kind.KnownBy tokens token
  | conjunction (position : Nat) : NodeKind.conjunction.KnownBy tokens ⟨.implied, "", position⟩
  | operator (position : Nat) : NodeKind.fieldOperator.KnownBy tokens ⟨.implied, "=", position⟩

theorem NodeKind.KnownBy.mono {tokens more : List Token} {kind : NodeKind} {token : Token}
    (h : kind.KnownBy tokens token) (hmore : tokens ⊆ more) : kind.KnownBy more token := by
  cases h with
  | written htoken hkind => exact .written (hmore htoken) hkind
  | conjunction position => exact .conjunction position
  | operator position => exact .operator position

namespace Grammar

theorem TagDerivation.knownBy_node (d : TagDerivation) :
    d.node.kind.KnownBy d.leaves d.node.token := by
  cases d with
  | word w => exact .written List.mem_cons_self w.property
  | negated dash w => exact .written (List.mem_cons_of_mem _ List.mem_cons_self) w.property

theorem TermDerivation.knownBy_node (d : TermDerivation) :
    d.node.kind.KnownBy d.leaves d.node.token := by
  cases d with
  | tag tag => exact tag.knownBy_node
  | block opening first second others closing => exact .written List.mem_cons_self opening.property
  | field name colon operator? value =>
      exact .written (List.mem_cons_of_mem _ List.mem_cons_self) colon.property

theorem TermDerivation.knownBy_part {d : TermDerivation} {part : Node}
    (hpart : part ∈ d.node.children) : part.kind.KnownBy d.leaves part.token := by
  cases d with
  | tag tag => cases tag <;> cases hpart
  | block opening first second others closing =>
      obtain rfl | hlater := List.mem_cons.mp hpart
      · exact first.knownBy_node.mono fun _ hleaf => by simp [leaves, hleaf]
      · obtain ⟨next, hnext, rfl⟩ := List.mem_map.mp hlater
        refine next.2.knownBy_node.mono fun leaf hleaf => ?_
        have hnextLeaf : leaf ∈ (second :: others).flatMap NextDerivation.leaves :=
          List.mem_flatMap.mpr ⟨next, hnext, List.mem_cons_of_mem _ hleaf⟩
        exact List.mem_cons_of_mem _ (List.mem_append_left _ (List.mem_append_right _ hnextLeaf))
  | field name colon operator? value =>
      simp only [node, List.mem_cons, List.not_mem_nil, or_false] at hpart
      rcases hpart with rfl | rfl | rfl
      · exact .written List.mem_cons_self name.property
      · cases operator? with
        | none => exact .operator _
        | some operator => exact .written (by simp [leaves]) operator.property
      · exact .written (by simp [leaves]) value.property

theorem QueryDerivation.knownBy_of_below {d : QueryDerivation} {steps : Nat} {node : Node}
    (h : d.query.tree.Below steps node) : node.kind.KnownBy d.leaves node.token := by
  have hleaves {term : TermDerivation} (hterm : term ∈ d.terms) : term.leaves ⊆ d.leaves :=
    fun _ hleaf => List.mem_flatMap.mpr ⟨term, hterm, hleaf⟩
  have hterms : d.query.terms = d.terms.map TermDerivation.term := rfl
  cases Query.hasNode_of_below h with
  | conjunction => exact .conjunction _
  | term ht =>
      rw [hterms] at ht
      obtain ⟨term, hterm, rfl⟩ := List.mem_map.mp ht
      rw [term.node_term]
      exact term.knownBy_node.mono (hleaves hterm)
  | part ht hpart =>
      rw [hterms] at ht
      obtain ⟨term, hterm, rfl⟩ := List.mem_map.mp ht
      rw [term.node_term] at hpart
      exact (TermDerivation.knownBy_part hpart).mono (hleaves hterm)

end Grammar

theorem Query.knownBy_of_below {text : String} {q : Query} (h : Query.parse text = .ok q)
    {steps : Nat} {node : Node} (hnode : q.tree.Below steps node) :
    node.kind.KnownBy (tokenize text) node.token := by
  obtain ⟨d, hleaves, rfl⟩ := Query.ofTokens_eq_ok.mp h
  refine (QueryDerivation.knownBy_of_below hnode).mono ?_
  rw [hleaves]
  exact List.takeWhile_subset _

theorem isWhiteSpace_eq_false_of_all {chars : List Char} (h : chars.all (!isWhiteSpace ·))
    {c : Char} (hc : c ∈ chars) : isWhiteSpace c = false := by
  simpa using List.all_eq_true.mp h c hc

theorem TokenKind.Admits.isWhiteSpace_eq_false {kind : TokenKind} {value : String}
    (h : kind.Admits value) {c : Char} (hc : c ∈ value.toList) : isWhiteSpace c = false := by
  cases kind with
  | word =>
      obtain ⟨first, rest, hvalue, -, hall⟩ := h
      exact (hall c (hvalue ▸ hc)).1
  | operator =>
      obtain ⟨operator, hoperator, rfl⟩ := h
      rw [String.toList_singleton, List.mem_singleton] at hc
      exact hc ▸ isWhiteSpace_eq_false_of_all (by decide) hoperator
  | implied => cases h
  | _ =>
      obtain rfl := h
      exact isWhiteSpace_eq_false_of_all (by decide) hc

/-- No white space is in the value of a node. -/
theorem NodeKind.KnownBy.isWhiteSpace_eq_false {text : String} {kind : NodeKind} {token : Token}
    (h : kind.KnownBy (tokenize text) token) {c : Char} (hc : c ∈ token.value.toList) :
    isWhiteSpace c = false := by
  cases h with
  | written htoken =>
      exact ((isTokenization_tokenize text).admitted _ htoken).isWhiteSpace_eq_false hc
  | conjunction => cases hc
  | operator =>
      have hequals : c ∈ "=".toList := hc
      exact isWhiteSpace_eq_false_of_all (by decide) hequals

/-- Two tokens are the same but for where they stand, and but for whether an equals sign is written
or implied. -/
structure Token.SameButImplied (t t' : Token) : Prop where
  value_eq : t.value = t'.value
  kind_eq : t.kind = t'.kind ∨
    t.value = "=" ∧ t.kind ∈ [.operator, .implied] ∧ t'.kind ∈ [.operator, .implied]

/-- Where a node shows no value there is only one. -/
theorem NodeKind.value_eq_of_admits {kind : NodeKind} {value value' : String}
    (h : kind.tokenKind.Admits value) (h' : kind.tokenKind.Admits value')
    (hshown : kind.showsValue → value = value') : value = value' := by
  cases kind with
  | conjunction => cases h
  | alternatives | field => exact Eq.trans h (Eq.symm h')
  | _ => exact hshown rfl

theorem NodeKind.KnownBy.sameButImplied {text text' : String} {kind : NodeKind}
    {token token' : Token} (h : kind.KnownBy (tokenize text) token)
    (h' : kind.KnownBy (tokenize text') token')
    (hshown : kind.showsValue → token.value = token'.value) : token.SameButImplied token' := by
  have hadmits {text : String} {t : Token} (ht : t ∈ tokenize text)
      (hkind : t.kind = kind.tokenKind) : kind.tokenKind.Admits t.value :=
    hkind ▸ (isTokenization_tokenize text).admitted t ht
  cases h with
  | written htoken hkind =>
      cases h' with
      | written htoken' hkind' =>
          exact ⟨value_eq_of_admits (hadmits htoken hkind) (hadmits htoken' hkind') hshown,
            .inl (hkind.trans hkind'.symm)⟩
      | conjunction => cases hadmits htoken hkind
      | operator =>
          exact ⟨hshown rfl, .inr ⟨hshown rfl, by simp [hkind, tokenKind], by simp⟩⟩
  | conjunction =>
      cases h' with
      | written htoken' hkind' => cases hadmits htoken' hkind'
      | conjunction => exact ⟨rfl, .inl rfl⟩
  | operator =>
      cases h' with
      | written htoken' hkind' =>
          exact ⟨hshown rfl, .inr ⟨rfl, by simp, by simp [hkind', tokenKind]⟩⟩
      | operator => exact ⟨rfl, .inl rfl⟩

end TagQuery

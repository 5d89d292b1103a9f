import TagQuery.Proofs.Rewording

/-!
The words of the tags of a query can be exchanged for other words, each for the one that is put in
its place. There is a text of the query that comes of this, with the same tree but for these words.
-/

namespace TagQuery

mutual

/-- Where tokens stand makes no difference to what a tree is alike. -/
theorem Node.Alike.of_unplaced_eq {R : String → String → Prop} :
    ∀ (node : Node) {other other' : Node}, node.Alike R other → other.unplaced = other'.unplaced →
      node.Alike R other'
  | ⟨kind, token, children⟩, other, ⟨kind', token', children'⟩, h, heq => by
    have hchildren {others : List Node} (hothers : List.Forall₂ (Node.Alike R) children others)
        (hmoved : others.map (Node.moved fun _ => 0) = children'.map (Node.moved fun _ => 0)) :
        List.Forall₂ (Node.Alike R) children children' :=
      forall₂_alike_of_unplaced_eq children hothers hmoved
    cases h with
    | tag hkind hword hothers =>
        simp only [Node.unplaced, Node.moved_mk, Node.mk.injEq] at heq
        obtain ⟨rfl, htoken, hmoved⟩ := heq
        have hvalue := congrArg Token.value htoken
        exact .tag hkind (hvalue ▸ hword) (hchildren hothers hmoved)
    | other hkind hsame hothers =>
        simp only [Node.unplaced, Node.moved_mk, Node.mk.injEq] at heq
        obtain ⟨rfl, htoken, hmoved⟩ := heq
        exact .other hkind (hsame.trans htoken) (hchildren hothers hmoved)

theorem forall₂_alike_of_unplaced_eq {R : String → String → Prop} :
    ∀ (nodes : List Node) {others others' : List Node},
      List.Forall₂ (Node.Alike R) nodes others →
      others.map (Node.moved fun _ => 0) = others'.map (Node.moved fun _ => 0) →
      List.Forall₂ (Node.Alike R) nodes others'
  | [], others, others', h, heq => by
    cases h
    cases others' with
    | nil => exact .nil
    | cons _ _ => cases heq
  | node :: nodes, others, others', h, heq => by
    cases h with
    | cons hfirst hrest =>
        cases others' with
        | nil => cases heq
        | cons other' others' =>
            obtain ⟨hmoved, hmoveds⟩ := List.cons.inj heq
            exact .cons (Node.Alike.of_unplaced_eq node hfirst hmoved)
              (forall₂_alike_of_unplaced_eq nodes hrest hmoveds)

end

namespace Grammar

section

variable (reword : String → String)

/-- A word in the place of another. -/
def Leaf.reworded (w : Leaf .word) : Leaf .word :=
  ⟨{ w.val with value := reword w.val.value }, w.property⟩

def TagDerivation.reworded : TagDerivation → TagDerivation
  | .word w => .word (Leaf.reworded reword w)
  | .negated dash w => .negated dash (Leaf.reworded reword w)

def NextDerivation.reworded (next : NextDerivation) : NextDerivation :=
  (next.1, next.2.reworded reword)

/-- Only tags are reworded. The texts of a field stay. -/
def TermDerivation.reworded : TermDerivation → TermDerivation
  | .tag t => .tag (t.reworded reword)
  | .block opening first second others closing =>
      .block opening (first.reworded reword) (NextDerivation.reworded reword second)
        (others.map (NextDerivation.reworded reword)) closing
  | .field name colon operator? value => .field name colon operator? value

def QueryDerivation.reworded (d : QueryDerivation) : QueryDerivation :=
  ⟨d.first.reworded reword, d.others.map (TermDerivation.reworded reword)⟩

/-- A word that stands in the place of another. -/
def Rewords (word word' : String) : Prop :=
  word' = reword word

theorem TagDerivation.alike_reworded (d : TagDerivation) :
    d.node.Alike (Rewords reword) (d.reworded reword).node := by
  cases d with
  | word w => exact .tag rfl rfl .nil
  | negated dash w => exact .tag rfl rfl .nil

theorem forall₂_alike_map {δ : Type} (node : δ → Node) (exchange : δ → δ)
    (h : ∀ d, (node d).Alike (Rewords reword) (node (exchange d))) (ds : List δ) :
    List.Forall₂ (Node.Alike (Rewords reword)) (ds.map node) ((ds.map exchange).map node) := by
  rw [List.map_map, List.forall₂_map_left_iff, List.forall₂_map_right_iff]
  exact List.forall₂_same.mpr fun d _ => h d

theorem TermDerivation.alike_reworded (d : TermDerivation) :
    d.node.Alike (Rewords reword) (d.reworded reword).node := by
  cases d with
  | tag t => exact t.alike_reworded reword
  | block opening first second others closing =>
      have hothers := forall₂_alike_map reword (fun next => next.2.node)
        (NextDerivation.reworded reword) (fun next => next.2.alike_reworded reword) (second :: others)
      exact .other rfl rfl (.cons (first.alike_reworded reword) hothers)
  | field name colon operator? value =>
      exact .other rfl rfl (.cons (.other rfl rfl .nil)
        (.cons (.other rfl rfl .nil) (.cons (.other rfl rfl .nil) .nil)))

theorem QueryDerivation.alike_reworded (d : QueryDerivation) :
    d.node.Alike (Rewords reword) (d.reworded reword).node := by
  obtain ⟨first, others⟩ := d
  cases others with
  | nil => exact first.alike_reworded reword
  | cons second others =>
      exact .other rfl rfl (forall₂_alike_map reword _ _
        (TermDerivation.alike_reworded reword) (first :: second :: others))

/-- A token can follow another. -/
def InTurn (t next : Token) : Prop :=
  next.CanFollow (t.kind = .colon)

theorem inTurn_of_ne {t next : Token} (h : t.kind ≠ .colon) (hnext : next.kind ≠ .operator) :
    InTurn t next :=
  ⟨fun hoperator => absurd hoperator hnext, fun _ hcolon => absurd hcolon h⟩

/-- Tokens each of which can follow the one before it, and which can stand between others such. -/
structure Closed (tokens : List Token) : Prop where
  chain : tokens.IsChain InTurn
  head : ∀ t ∈ tokens.head?, t.kind ≠ .operator
  last : ∀ t ∈ tokens.getLast?, t.kind ≠ .colon

theorem Closed.append {front back : List Token} (hfront : Closed front) (hback : Closed back) :
    Closed (front ++ back) where
  chain := List.isChain_append.mpr ⟨hfront.chain, hback.chain, fun t ht next hnext =>
    inTurn_of_ne (hfront.last t ht) (hback.head next hnext)⟩
  head t ht := by
    rw [List.head?_append] at ht
    rcases Option.or_eq_some_iff.mp ht with ht | ⟨-, ht⟩
    · exact hfront.head t ht
    · exact hback.head t ht
  last t ht := by
    rw [List.getLast?_append] at ht
    rcases Option.or_eq_some_iff.mp ht with ht | ⟨-, ht⟩
    · exact hback.last t ht
    · exact hfront.last t ht

theorem Closed.flatMap {δ : Type} {leaves : δ → List Token} {ds : List δ}
    (h : ∀ d ∈ ds, Closed (leaves d)) : Closed (ds.flatMap leaves) := by
  induction ds with
  | nil => exact ⟨List.isChain_nil, nofun, nofun⟩
  | cons d ds ih =>
      obtain ⟨hd, hds⟩ := List.forall_mem_cons.mp h
      exact hd.append (ih hds)

/-- Tokens among which there is neither a colon nor an operator can stand in any order. -/
theorem closed_of_forall_ne {tokens : List Token}
    (h : ∀ t ∈ tokens, t.kind ≠ .colon ∧ t.kind ≠ .operator) : Closed tokens where
  chain := (List.pairwise_of_forall_mem_list fun t ht next hnext =>
    inTurn_of_ne (h t ht).1 (h next hnext).2).isChain
  head t ht := (h t (List.mem_of_head? ht)).2
  last t ht := (h t (List.mem_of_getLast? ht)).1

theorem Leaf.neither {kind : TokenKind} (leaf : Leaf kind)
    (h : kind ≠ .colon ∧ kind ≠ .operator) :
    leaf.val.kind ≠ .colon ∧ leaf.val.kind ≠ .operator :=
  ⟨leaf.kind_ne h.1, leaf.kind_ne h.2⟩

theorem TagDerivation.closed_leaves (d : TagDerivation) : Closed d.leaves := by
  refine closed_of_forall_ne fun t ht => ?_
  cases d with
  | word w => exact List.mem_singleton.mp ht ▸ Leaf.neither w (by decide)
  | negated dash w =>
      rcases List.mem_cons.mp ht with rfl | ht
      · exact Leaf.neither dash (by decide)
      · exact List.mem_singleton.mp ht ▸ Leaf.neither w (by decide)

theorem Leaf.closed {kind : TokenKind} (leaf : Leaf kind) (h : kind ≠ .colon ∧ kind ≠ .operator) :
    Closed [leaf.val] :=
  closed_of_forall_ne fun _ ht => List.mem_singleton.mp ht ▸ Leaf.neither leaf h

theorem NextDerivation.closed_leaves (next : NextDerivation) : Closed next.leaves :=
  (Leaf.closed next.1 (by decide)).append next.2.closed_leaves

/-- The tokens of a term stay in turn when it is reworded. A word after a colon is not reworded. -/
theorem TermDerivation.closed_reworded {d : TermDerivation} (h : d.leaves.IsChain InTurn) :
    Closed (d.reworded reword).leaves := by
  cases d with
  | tag t => exact (t.reworded reword).closed_leaves
  | block opening first second others closing =>
      exact (Leaf.closed opening (by decide)).append
        (((first.reworded reword).closed_leaves.append
          (.flatMap fun next _ => next.closed_leaves)).append (Leaf.closed closing (by decide)))
  | field name colon operator? value =>
      refine ⟨h, ?_, ?_⟩
      · rintro _ ⟨⟩
        exact name.kind_ne (by decide)
      · intro t ht
        have hlast : (TermDerivation.field name colon operator? value).leaves =
            (name.val :: colon.val :: operator?.toList.map Subtype.val) ++ [value.val] := rfl
        rw [reworded, hlast, List.getLast?_concat] at ht
        cases ht
        exact value.kind_ne (by decide)

theorem QueryDerivation.closed_reworded {d : QueryDerivation} (h : d.leaves.IsChain InTurn) :
    Closed (d.reworded reword).leaves := by
  have hleaves : (d.reworded reword).leaves =
      d.terms.flatMap fun d => (d.reworded reword).leaves :=
    List.flatMap_map (TermDerivation.reworded reword) TermDerivation.leaves d.terms
  rw [hleaves]
  refine .flatMap fun d' hd' => TermDerivation.closed_reworded reword ?_
  obtain ⟨before, after, hterms⟩ := List.append_of_mem hd'
  rw [leaves, hterms, List.flatMap_append, List.flatMap_cons] at h
  exact (h.right_of_append).left_of_append

/-! ### The tokens of a derivation with other words -/

/-- A token that is as another one was, or a word in its place. -/
def Rewrites (t t' : Token) : Prop :=
  t'.kind = t.kind ∧ (t'.value = t.value ∨ t.kind = .word ∧ t'.value = reword t.value)

theorem Rewrites.refl (t : Token) : Rewrites reword t t :=
  ⟨rfl, Or.inl rfl⟩

theorem Leaf.rewrites (w : Leaf .word) : Rewrites reword w.val (Leaf.reworded reword w).val :=
  ⟨rfl, Or.inr ⟨w.property, rfl⟩⟩

theorem forall₂_rewrites_flatMap {δ : Type} {leaves : δ → List Token} {exchange : δ → δ}
    (h : ∀ d, List.Forall₂ (Rewrites reword) (leaves d) (leaves (exchange d))) (ds : List δ) :
    List.Forall₂ (Rewrites reword) (ds.flatMap leaves) ((ds.map exchange).flatMap leaves) := by
  induction ds with
  | nil => exact .nil
  | cons d ds ih => exact List.rel_append (h d) ih

theorem TagDerivation.rewrites_leaves (d : TagDerivation) :
    List.Forall₂ (Rewrites reword) d.leaves (d.reworded reword).leaves := by
  cases d with
  | word w => exact .cons (Leaf.rewrites reword w) .nil
  | negated dash w => exact .cons (.refl reword _) (.cons (Leaf.rewrites reword w) .nil)

theorem NextDerivation.rewrites_leaves (next : NextDerivation) :
    List.Forall₂ (Rewrites reword) next.leaves (NextDerivation.reworded reword next).leaves :=
  .cons (.refl reword _) (next.2.rewrites_leaves reword)

theorem TermDerivation.rewrites_leaves (d : TermDerivation) :
    List.Forall₂ (Rewrites reword) d.leaves (d.reworded reword).leaves := by
  cases d with
  | tag t => exact t.rewrites_leaves reword
  | block opening first second others closing =>
      have hothers := forall₂_rewrites_flatMap reword (NextDerivation.rewrites_leaves reword)
        (second :: others)
      exact .cons (.refl reword _) (List.rel_append
        (List.rel_append (first.rewrites_leaves reword) hothers) (.cons (.refl reword _) .nil))
  | field name colon operator? value => exact List.forall₂_same.mpr fun t _ => .refl reword t

theorem QueryDerivation.rewrites_leaves (d : QueryDerivation) :
    List.Forall₂ (Rewrites reword) d.leaves (d.reworded reword).leaves :=
  forall₂_rewrites_flatMap reword (TermDerivation.rewrites_leaves reword) d.terms

end

end Grammar

open Grammar

/-- The tokens of a query can follow one another. -/
theorem isChain_inTurn_of_tokenize (text : String) :
    (beforeEnd (tokenize text)).IsChain InTurn := by
  obtain ⟨position, htokens⟩ := exists_tokenize_eq text
  refine List.isChain_iff_forall_rel_of_append_cons_cons.mpr fun t next before after hsplit => ?_
  have hfollow := (isTokenization_tokenize text).following (before ++ [t]) next
    (after ++ [Token.endAt position]) (by rw [htokens, hsplit]; simp)
  have hcolon : EndsInColon false (before ++ [t]) ↔ t.kind = .colon := by
    simp [EndsInColon]
  exact ⟨fun h => hcolon.mp (hfollow.1 h), fun h h' => hfollow.2 h (hcolon.mpr h')⟩

/-- Tokens that can follow one another do so from the beginning of a query. -/
theorem Grammar.Closed.following {tokens before after : List Token} {t : Token} (h : Closed tokens)
    (hsplit : tokens = before ++ t :: after) : t.CanFollow (EndsInColon false before) := by
  subst hsplit
  induction before using List.reverseRecOn with
  | nil => exact ⟨fun hoperator => absurd hoperator (h.head t rfl), fun _ h => nomatch h⟩
  | append_singleton before last _ =>
      have hcolon : EndsInColon false (before ++ [last]) ↔ last.kind = .colon := by
        simp [EndsInColon]
      have hturn := List.isChain_iff_forall_rel_of_append_cons_cons.mp h.chain
        (List.append_assoc before [last] (t :: after))
      exact ⟨fun h => hcolon.mpr (hturn.1 h), fun h h' => hturn.2 h (hcolon.mp h')⟩

/-- A query with other words for its tags is legible, if these are words. -/
theorem areLegible_reworded {text : String} {d : QueryDerivation} {reword : String → String}
    (hleaves : d.leaves = beforeEnd (tokenize text))
    (hreword : ∀ word, TokenKind.word.Admits word → TokenKind.word.Admits (reword word)) :
    Spaced.AreLegible false (d.reworded reword).spaced := by
  have hmem : ∀ piece ∈ (d.reworded reword).spaced, ∃ t ∈ beforeEnd (tokenize text),
      Rewrites reword t piece.token := by
    intro piece hpiece
    have hpiece := List.mem_map_of_mem (f := Spaced.token) hpiece
    rw [QueryDerivation.map_token_spaced] at hpiece
    rw [← hleaves]
    exact exists_of_mem_right (d.rewrites_leaves reword) hpiece
  refine ⟨fun _ => QueryDerivation.isWhite_of_mem_spaced, ?_, ?_, ?_,
    QueryDerivation.wordsApart_spaced _⟩
  · intro piece hpiece
    obtain ⟨t, ht, hkind, -⟩ := hmem piece hpiece
    rw [hkind]
    simpa using List.mem_takeWhile_imp ht
  · intro piece hpiece
    obtain ⟨t, ht, hkind, hvalue⟩ := hmem piece hpiece
    have hadmits := (isTokenization_tokenize text).admitted t (mem_tokenize_of_mem_beforeEnd ht)
    rcases hvalue with hsame | ⟨hword, hother⟩
    · rwa [hkind, hsame]
    · rw [hkind, hother, hword]
      exact hreword _ (hword ▸ hadmits)
  · intro before t after hsplit
    rw [QueryDerivation.map_token_spaced] at hsplit
    exact (QueryDerivation.closed_reworded reword
      (hleaves ▸ isChain_inTurn_of_tokenize text)).following hsplit

/-- A query stays a query when other words are put in the places of the words of its tags. -/
theorem exists_parse_reworded {text : String} {q : Query} {reword : String → String}
    (h : Query.parse text = .ok q)
    (hreword : ∀ word, TokenKind.word.Admits word → TokenKind.word.Admits (reword word)) :
    ∃ text' q', Query.parse text' = .ok q' ∧ q.tree.Alike (Rewords reword) q'.tree := by
  obtain ⟨d, hleaves, rfl⟩ := Query.ofTokens_eq_ok.mp h
  have hfinal : ∀ c ∈ ([] : List Char), Text.isWhiteSpace c = true := nofun
  have htokens := (areLegible_reworded hleaves hreword).tokenize_eq hfinal
  have hkinds : ∀ t ∈ (d.reworded reword).leaves, t.kind ≠ .endOfQuery := by
    rw [← QueryDerivation.map_token_spaced]
    intro t ht
    obtain ⟨piece, hpiece, rfl⟩ := List.mem_map.mp ht
    exact (areLegible_reworded hleaves hreword).kind_ne piece hpiece
  have hroot : (Query.ofTokens ((d.reworded reword).leaves ++ [Token.endAt 0])).map Query.tree =
      .ok (d.reworded reword).node :=
    tree_ofTokens_eq_ok.mpr ⟨_, (beforeEnd_append_endAt hkinds 0).symm, rfl⟩
  have hmoved := (tree_ofTokens_map_moved fun _ => 0).mpr ⟨_, hroot, rfl⟩
  rw [List.map_append, ← QueryDerivation.map_token_spaced, List.map_map] at hmoved
  obtain ⟨_, hroot', heq⟩ := (tree_ofTokens_map_moved fun _ => 0).mp (htokens ▸ hmoved)
  obtain ⟨q', hq', rfl⟩ := map_tree_parse_eq_ok_iff.mp hroot'
  refine ⟨_, q', hq', ?_⟩
  rw [d.tree_query]
  exact Node.Alike.of_unplaced_eq _ (d.alike_reworded reword) heq.symm

end TagQuery

import TagQuery.Proofs.Places

/-!
Trees written out as queries, with one space where a space is needed. What is written has the tokens
that the tree was parsed from, so it is parsed to the same tree again.
-/

namespace TagQuery

mutual

/-- The query of a tree. The operator of a field is left out where it is implied. -/
def Node.write : Node → String
  | ⟨.conjunction, _, children⟩ => " ".intercalate (Node.writeAll children)
  | ⟨.alternatives, _, children⟩ => "\x7b" ++ " ~ ".intercalate (Node.writeAll children) ++ "\x7d"
  | ⟨.tag, token, _⟩ => token.value
  | ⟨.negatedTag, token, _⟩ => "-" ++ token.value
  | ⟨.field, _, children⟩ => String.join (Node.writeAll children)
  | ⟨.fieldName, token, _⟩ => token.value ++ ":"
  | ⟨.fieldOperator, token, _⟩ => if token.kind = .implied then "" else token.value
  | ⟨.fieldValue, token, _⟩ => token.value

def Node.writeAll : List Node → List String
  | [] => []
  | node :: nodes => node.write :: Node.writeAll nodes

end

theorem Node.writeAll_eq_map (nodes : List Node) : Node.writeAll nodes = nodes.map Node.write := by
  induction nodes with
  | nil => rw [writeAll, List.map_nil]
  | cons node nodes ih => rw [writeAll, List.map_cons, ih]

mutual

/-- What is written does not depend on where tokens stand. -/
theorem Node.write_moved (move : Nat → Nat) : ∀ node : Node, (node.moved move).write = node.write
  | ⟨kind, token, children⟩ => by
    have hchildren := Node.writeAll_allMoved move children
    cases kind <;> simp only [moved, write, hchildren] <;> rfl

theorem Node.writeAll_allMoved (move : Nat → Nat) :
    ∀ nodes : List Node, Node.writeAll (Node.allMoved move nodes) = Node.writeAll nodes
  | [] => rfl
  | node :: nodes => by
    rw [allMoved, writeAll, writeAll, Node.write_moved move node, Node.writeAll_allMoved move nodes]

end

theorem toList_intercalate_cons (separator first : String) (others : List String) :
    (separator.intercalate (first :: others)).toList =
      first.toList ++ others.flatMap fun s => separator.toList ++ s.toList := by
  induction others generalizing first with
  | nil => simp
  | cons second others ih =>
      rw [String.intercalate_cons_cons, String.toList_append, ih, String.toList_append,
        List.flatMap_cons, List.append_assoc, List.append_assoc]

namespace Grammar

/-- The tokens of a tag, with white space before the first of them. -/
def TagDerivation.spaced (space : List Char) : TagDerivation → List Spaced
  | .word w => [⟨space, w.val⟩]
  | .negated dash w => [⟨space, dash.val⟩, ⟨[], w.val⟩]

def NextDerivation.spaced (next : NextDerivation) : List Spaced :=
  ⟨[' '], next.1.val⟩ :: next.2.spaced [' ']

def TermDerivation.spaced (space : List Char) : TermDerivation → List Spaced
  | .tag t => t.spaced space
  | .block opening first second others closing =>
      ⟨space, opening.val⟩ :: (first.spaced [] ++ (second :: others).flatMap NextDerivation.spaced ++
        [⟨[], closing.val⟩])
  | .field name colon operator? value =>
      ⟨space, name.val⟩ :: ⟨[], colon.val⟩ ::
        (operator?.toList.map (fun operator => ⟨[], operator.val⟩) ++ [⟨[], value.val⟩])

def QueryDerivation.spaced (d : QueryDerivation) : List Spaced :=
  d.first.spaced [] ++ d.others.flatMap (TermDerivation.spaced [' '])

theorem TagDerivation.map_token_spaced (d : TagDerivation) (space : List Char) :
    (d.spaced space).map Spaced.token = d.leaves := by
  cases d <;> rfl

theorem NextDerivation.map_token_spaced (next : NextDerivation) :
    next.spaced.map Spaced.token = next.leaves := by
  rw [spaced, List.map_cons, next.2.map_token_spaced]
  rfl

theorem TermDerivation.map_token_spaced (d : TermDerivation) (space : List Char) :
    (d.spaced space).map Spaced.token = d.leaves := by
  cases d with
  | tag t => exact t.map_token_spaced space
  | block opening first second others closing =>
      simp [spaced, leaves, List.map_flatMap, TagDerivation.map_token_spaced,
        NextDerivation.map_token_spaced]
  | field name colon operator? value => cases operator? <;> rfl

theorem QueryDerivation.map_token_spaced (d : QueryDerivation) :
    d.spaced.map Spaced.token = d.leaves := by
  simp [spaced, leaves, terms, List.map_flatMap, TermDerivation.map_token_spaced]

/-- The tokens have values that their kinds admit. -/
def Admitted (tokens : List Token) : Prop :=
  ∀ t ∈ tokens, t.kind.Admits t.value

theorem Admitted.leaf {tokens : List Token} (h : Admitted tokens) {kind : TokenKind}
    (leaf : Leaf kind) (hleaf : leaf.val ∈ tokens) : kind.Admits leaf.val.value := by
  have hadmits := h leaf.val hleaf
  rwa [leaf.property] at hadmits

/-- What holds of one derivation holds of several in a row. -/
theorem spell_flatMap_of_admitted {δ : Type} {spaced : δ → List Spaced} {leaves : δ → List Token}
    {text : δ → List Char} (h : ∀ d, Admitted (leaves d) → Spaced.spell (spaced d) = text d)
    {ds : List δ} (hds : Admitted (ds.flatMap leaves)) :
    Spaced.spell (ds.flatMap spaced) = ds.flatMap text := by
  rw [Spaced.spell_flatMap]
  exact List.flatMap_congr fun d hd =>
    h d fun t ht => hds t (List.mem_flatMap.mpr ⟨d, hd, ht⟩)

theorem TagDerivation.spell_spaced {d : TagDerivation} (h : Admitted d.leaves) (space : List Char) :
    Spaced.spell (d.spaced space) = space ++ d.node.write.toList := by
  cases d with
  | word w => simp [spaced, node, Node.write]
  | negated dash w =>
      have hdash : dash.val.value = "-" := h.leaf dash (by simp [leaves])
      simp [spaced, node, Node.write, hdash]

theorem NextDerivation.spell_spaced {next : NextDerivation} (h : Admitted next.leaves) :
    Spaced.spell next.spaced = " ~ ".toList ++ next.2.node.write.toList := by
  have hseparator : next.1.val.value = "~" := h.leaf next.1 (by simp [leaves])
  have htag := TagDerivation.spell_spaced (fun t ht => h t (List.mem_cons_of_mem _ ht)) [' ']
  simp [spaced, hseparator, htag]

theorem TermDerivation.spell_spaced {d : TermDerivation} (h : Admitted d.leaves)
    (space : List Char) : Spaced.spell (d.spaced space) = space ++ d.node.write.toList := by
  cases d with
  | tag t => exact TagDerivation.spell_spaced h space
  | block opening first second others closing =>
      have hopening : opening.val.value = "\x7b" := h.leaf opening (by simp [leaves])
      have hclosing : closing.val.value = "\x7d" := h.leaf closing (by simp [leaves])
      have hfirst : Admitted first.leaves := fun t ht => h t (by simp [leaves, ht])
      have hothers : Admitted ((second :: others).flatMap NextDerivation.leaves) := by
        intro t ht
        refine h t ?_
        simp only [leaves, List.mem_cons, List.mem_append]
        exact Or.inr (Or.inl (Or.inr ht))
      have hspell := spell_flatMap_of_admitted (fun _ => NextDerivation.spell_spaced) hothers
      rw [spaced, node, Node.write, Node.writeAll_eq_map, List.map_cons, String.toList_append,
        String.toList_append, toList_intercalate_cons, Spaced.spell_cons, Spaced.spell_append,
        Spaced.spell_append, TagDerivation.spell_spaced hfirst, hspell]
      simp [hopening, hclosing, List.flatMap_map]
  | field name colon operator? value =>
      have hcolon : colon.val.value = ":" := h.leaf colon (by simp [leaves])
      rw [spaced, node, Node.write, Node.writeAll_eq_map]
      cases operator? with
      | none => simp [Node.write, hcolon]
      | some operator => simp [Node.write, hcolon, operator.property]

theorem QueryDerivation.spell_spaced {d : QueryDerivation} (h : Admitted d.leaves) :
    Spaced.spell d.spaced = d.node.write.toList := by
  obtain ⟨first, others⟩ := d
  have hfirst : Admitted first.leaves := fun t ht => h t (by simp [leaves, terms, ht])
  have hothers : Admitted (others.flatMap TermDerivation.leaves) :=
    fun t ht => h t (List.mem_append_right first.leaves ht)
  have hspell : Spaced.spell (others.flatMap (TermDerivation.spaced [' '])) =
      others.flatMap fun d => " ".toList ++ d.node.write.toList :=
    spell_flatMap_of_admitted (fun _ hd => TermDerivation.spell_spaced hd [' ']) hothers
  rw [spaced, Spaced.spell_append, TermDerivation.spell_spaced hfirst, hspell, List.nil_append]
  cases others with
  | nil => simp [node]
  | cons second others =>
      rw [node, Node.write, Node.writeAll_eq_map, terms, List.map_cons, List.map_cons,
        toList_intercalate_cons, List.flatMap_map, List.flatMap_map]

theorem Leaf.kind_ne {kind kind' : TokenKind} (leaf : Leaf kind) (h : kind ≠ kind') :
    leaf.val.kind ≠ kind' := by
  rwa [leaf.property]

theorem isApart_of_leaf {kind : TokenKind} (leaf : Leaf kind) (space : List Char)
    (hword : kind ≠ .word) (hdash : kind ≠ .negation) : Spaced.IsApart ⟨space, leaf.val⟩ :=
  fun _ => ⟨leaf.kind_ne hword, leaf.kind_ne hdash⟩

theorem isApart_of_space (space : Char) (t : Token) : Spaced.IsApart ⟨[space], t⟩ :=
  nofun

theorem TagDerivation.wordsApart_spaced (d : TagDerivation) (space : List Char) :
    Spaced.WordsApart (d.spaced space) := by
  cases d with
  | word w => exact List.isChain_singleton _
  | negated dash w => exact .cons_of_ne (Leaf.kind_ne dash nofun) (List.isChain_singleton _)

theorem TagDerivation.mayFollow_spaced (d : TagDerivation) :
    Spaced.MayFollow (d.spaced [' ']) := by
  have hapart := d.wordsApart_spaced [' ']
  cases d with
  | word w => exact .cons (isApart_of_space ' ' _) hapart
  | negated dash w => exact .cons (isApart_of_space ' ' _) hapart

theorem NextDerivation.mayFollow_spaced (next : NextDerivation) : Spaced.MayFollow next.spaced :=
  .cons (isApart_of_space ' ' _) (next.2.mayFollow_spaced.wordsApart_cons _)

theorem TermDerivation.wordsApart_spaced (d : TermDerivation) (space : List Char) :
    Spaced.WordsApart (d.spaced space) := by
  cases d with
  | tag t => exact t.wordsApart_spaced space
  | block opening first second others closing =>
      have hclosing : Spaced.MayFollow [⟨[], closing.val⟩] :=
        .cons (isApart_of_leaf closing [] nofun nofun) (List.isChain_singleton _)
      have hothers := Spaced.MayFollow.flatMap NextDerivation.mayFollow_spaced (second :: others)
      exact .cons_of_ne (Leaf.kind_ne opening nofun)
        (((first.wordsApart_spaced []).append hothers).append hclosing)
  | field name colon operator? value =>
      have hvalue : Spaced.WordsApart [⟨[], value.val⟩] := List.isChain_singleton _
      have hcolon : Spaced.WordsApart (⟨[], colon.val⟩ ::
          (operator?.toList.map (fun operator => ⟨[], operator.val⟩) ++ [⟨[], value.val⟩])) := by
        refine .cons_of_ne (Leaf.kind_ne colon nofun) ?_
        cases operator? with
        | none => exact hvalue
        | some operator => exact .cons_of_ne (Leaf.kind_ne operator nofun) hvalue
      exact (Spaced.MayFollow.cons (isApart_of_leaf colon [] nofun nofun) hcolon).wordsApart_cons _

theorem TermDerivation.mayFollow_spaced (d : TermDerivation) :
    Spaced.MayFollow (d.spaced [' ']) := by
  have hapart := d.wordsApart_spaced [' ']
  match d with
  | .tag t => exact t.mayFollow_spaced
  | .block .. | .field .. => exact .cons (isApart_of_space ' ' _) hapart

theorem QueryDerivation.wordsApart_spaced (d : QueryDerivation) : Spaced.WordsApart d.spaced :=
  (d.first.wordsApart_spaced []).append (.flatMap TermDerivation.mayFollow_spaced d.others)

theorem isWhite_nil (t : Token) : Spaced.IsWhite ⟨[], t⟩ :=
  nofun

theorem isWhite_blank (t : Token) : Spaced.IsWhite ⟨[' '], t⟩ := by
  intro c hc
  rw [List.mem_singleton.mp hc]
  rfl

theorem TagDerivation.isWhite_of_mem_spaced {d : TagDerivation} {space : List Char} {piece : Spaced}
    (hspace : ∀ t, Spaced.IsWhite ⟨space, t⟩) (h : piece ∈ d.spaced space) : piece.IsWhite := by
  cases d with
  | word w => exact List.mem_singleton.mp h ▸ hspace _
  | negated dash w =>
      simp only [spaced, List.mem_cons, List.not_mem_nil, or_false] at h
      rcases h with rfl | rfl
      · exact hspace _
      · exact isWhite_nil _

theorem NextDerivation.isWhite_of_mem_spaced {next : NextDerivation} {piece : Spaced}
    (h : piece ∈ next.spaced) : piece.IsWhite := by
  rcases List.mem_cons.mp h with rfl | h
  · exact isWhite_blank _
  · exact TagDerivation.isWhite_of_mem_spaced isWhite_blank h

theorem TermDerivation.isWhite_of_mem_spaced {d : TermDerivation} {space : List Char}
    {piece : Spaced} (hspace : ∀ t, Spaced.IsWhite ⟨space, t⟩) (h : piece ∈ d.spaced space) :
    piece.IsWhite := by
  cases d with
  | tag t => exact TagDerivation.isWhite_of_mem_spaced hspace h
  | block opening first second others closing =>
      simp only [spaced, List.mem_cons, List.mem_append, List.mem_flatMap, List.not_mem_nil,
        or_false] at h
      rcases h with rfl | ((h | ⟨next, -, h⟩) | rfl)
      · exact hspace _
      · exact TagDerivation.isWhite_of_mem_spaced isWhite_nil h
      · exact NextDerivation.isWhite_of_mem_spaced h
      · exact isWhite_nil _
  | field name colon operator? value =>
      simp only [spaced, List.mem_cons, List.mem_append, List.mem_map, List.not_mem_nil,
        or_false] at h
      rcases h with rfl | rfl | ⟨operator, -, rfl⟩ | rfl
      · exact hspace _
      · exact isWhite_nil _
      · exact isWhite_nil _
      · exact isWhite_nil _

theorem QueryDerivation.isWhite_of_mem_spaced {d : QueryDerivation} {piece : Spaced}
    (h : piece ∈ d.spaced) : piece.IsWhite := by
  simp only [spaced, List.mem_append, List.mem_flatMap] at h
  rcases h with h | ⟨d', -, h⟩
  · exact TermDerivation.isWhite_of_mem_spaced isWhite_nil h
  · exact TermDerivation.isWhite_of_mem_spaced isWhite_blank h

end Grammar

open Grammar

/-! ### Parsing what is written -/

theorem map_tree_parse_eq_ok_iff {text : String} {root : Node} :
    (Query.ofTokens (tokenize text)).map Query.tree = .ok root ↔
      ∃ q, Query.parse text = .ok q ∧ q.tree = root := by
  rw [Query.parse]
  cases Query.ofTokens (tokenize text) with
  | error e => simp [Except.map]
  | ok q => simp [Except.map]

/-- What is written has the tokens that the tree was parsed from. -/
theorem tokenize_write {text : String} {q : Query} (h : Query.parse text = .ok q) :
    (tokenize q.tree.write).map Token.unplaced = (tokenize text).map Token.unplaced := by
  obtain ⟨d, hleaves, rfl⟩ := Query.ofTokens_eq_ok.mp h
  have hadmitted : Admitted d.leaves := fun t ht =>
    (isTokenization_tokenize text).admitted t (mem_tokenize_of_mem_beforeEnd (hleaves ▸ ht))
  have hwrite : String.ofList (Spaced.spell d.spaced ++ []) = d.query.tree.write := by
    rw [List.append_nil, QueryDerivation.spell_spaced hadmitted, String.ofList_toList, d.tree_query]
  rw [← hwrite]
  exact tokenize_spell (d.map_token_spaced.trans hleaves)
    (fun _ => QueryDerivation.isWhite_of_mem_spaced) d.wordsApart_spaced nofun

/-- Queries with the same tokens have the same trees. -/
theorem tree_eq_of_tokenize_eq {text text' : String} {q : Query} (h : Query.parse text = .ok q)
    (htokens : (tokenize text').map Token.unplaced = (tokenize text).map Token.unplaced) :
    ∃ q', Query.parse text' = .ok q' ∧ q'.tree.unplaced = q.tree.unplaced := by
  have hroot := map_tree_parse_eq_ok_iff.mpr ⟨q, h, rfl⟩
  have hmoved := (tree_ofTokens_map_moved fun _ => 0).mpr ⟨_, hroot, rfl⟩
  rw [show (tokenize text).map (Token.moved fun _ => 0) =
    (tokenize text').map (Token.moved fun _ => 0) from htokens.symm] at hmoved
  obtain ⟨root', hroot', heq⟩ := (tree_ofTokens_map_moved fun _ => 0).mp hmoved
  obtain ⟨q', hq', rfl⟩ := map_tree_parse_eq_ok_iff.mp hroot'
  exact ⟨q', hq', heq⟩

theorem visits_unplaced_eq {root root' : Node} (h : root.unplaced = root'.unplaced) :
    root.visits.map Visit.unplaced = root'.visits.map Visit.unplaced := by
  have hvisits := congrArg Node.visits h
  rwa [Node.unplaced, Node.unplaced, Node.visits_moved, Node.visits_moved] at hvisits

/-- The tree of a query can be written as a query, which is parsed to the same tree but for places,
with each node at the same depth. Two queries have the same trees but for places exactly if they
have the same tokens but for places. -/
theorem parse_write :
    (∀ text q, Query.parse text = .ok q → ∃ q', Query.parse q.tree.write = .ok q' ∧
      q'.tree.unplaced = q.tree.unplaced ∧
      q'.tree.visits.map Visit.unplaced = q.tree.visits.map Visit.unplaced) ∧
    ∀ text text' q q', Query.parse text = .ok q → Query.parse text' = .ok q' →
      (q.tree.unplaced = q'.tree.unplaced ↔
        (tokenize text).map Token.unplaced = (tokenize text').map Token.unplaced) := by
  constructor
  · intro text q h
    obtain ⟨q', hq', htree⟩ := tree_eq_of_tokenize_eq h (tokenize_write h)
    exact ⟨q', hq', htree, visits_unplaced_eq htree⟩
  · intro text text' q q' h h'
    constructor
    · intro htree
      have hwrite : q.tree.write = q'.tree.write := by
        have hunplaced := congrArg Node.write htree
        rwa [Node.unplaced, Node.unplaced, Node.write_moved, Node.write_moved] at hunplaced
      rw [← tokenize_write h, ← tokenize_write h', hwrite]
    · intro htokens
      obtain ⟨q'', hq'', htree⟩ := tree_eq_of_tokenize_eq h htokens.symm
      cases h'.symm.trans hq''
      exact htree.symm

/-- A block, a field without an operator, and one whose value begins like an operator. -/
theorem parse_write_of_spaced_fields :
    let text := " \x7b a~ - b \x7dx :y  z: < =3 -c"
    let q : Query :=
      ⟨.alternatives ⟨.orStart, "\x7b", 1⟩ ⟨false, ⟨.word, "a", 3⟩⟩ ⟨true, ⟨.word, "b", 8⟩⟩ [],
        [.field ⟨⟨.word, "x", 11⟩, ⟨.colon, ":", 13⟩, ⟨.implied, "=", 13⟩, ⟨.word, "y", 14⟩⟩,
          .field ⟨⟨.word, "z", 17⟩, ⟨.colon, ":", 18⟩, ⟨.operator, "<", 20⟩, ⟨.word, "=3", 22⟩⟩,
          .tag ⟨true, ⟨.word, "c", 26⟩⟩]⟩
    Query.parse text = .ok q ∧ q.tree.write = "\x7ba ~ -b\x7d x:y z:<=3 -c" ∧
      (∃ q', Query.parse q.tree.write = .ok q' ∧ q'.tree.unplaced = q.tree.unplaced) ∧
      (tokenize text).map Token.unplaced = (tokenize q.tree.write).map Token.unplaced := by
  intro text q
  have h : Query.parse text = .ok q := by decide +kernel
  obtain ⟨q', hq', htree, -⟩ := parse_write.1 text q h
  exact ⟨h, by decide +kernel, ⟨q', hq', htree⟩,
    (parse_write.2 text q.tree.write q q' h hq').mp htree.symm⟩

end TagQuery

import TagQuery.Proofs.NodeTokens
import TagQuery.Proofs.Quotation

/-!
The listing of a syntax tree tells the tree. A line tells the depth of its node by its indentation,
then the kind and the value of the node, and the depths tell which nodes are below which.
-/

namespace TagQuery

open Text

/-- What a line tells after the indentation and the kind. -/
def Node.shown (node : Node) : String :=
  if node.kind.showsValue then " " ++ node.token.value else ""

/-- The line of a node. -/
def Visit.text (v : Visit) : String :=
  String.ofList (List.replicate (2 * v.depth) ' ') ++ v.node.kind.name ++ v.node.shown

theorem Visit.line_eq (v : Visit) : v.line = v.text ++ "\n" :=
  rfl

/-- Two visits show the same: the depth, the kind, and the value where it is shown. -/
structure Visit.Agrees (v v' : Visit) : Prop where
  depth_eq : v.depth = v'.depth
  kind_eq : v.node.kind = v'.node.kind
  value_eq : v.node.kind.showsValue → v.node.token.value = v'.node.token.value

theorem Visit.Agrees.symm {v v' : Visit} (h : v.Agrees v') : v'.Agrees v :=
  ⟨h.depth_eq.symm, h.kind_eq.symm, fun hshows => (h.value_eq (h.kind_eq ▸ hshows)).symm⟩

theorem NodeKind.name_injective : Function.Injective NodeKind.name := by
  intro kind kind'
  cases kind <;> cases kind' <;> decide

theorem NodeKind.not_mem_name (kind : NodeKind) :
    ' ' ∉ kind.name.toList ∧ '\n' ∉ kind.name.toList := by
  cases kind <;> decide

theorem NodeKind.head?_name_append (kind : NodeKind) (rest : List Char) :
    ∀ c ∈ (kind.name.toList ++ rest).head?, ¬(c == ' ') := by
  cases kind <;> simp [name]

theorem NodeKind.name_append_inj {kind kind' : NodeKind} {rest rest' : List Char}
    (hrest : ∀ c ∈ rest.head?, c = ' ') (hrest' : ∀ c ∈ rest'.head?, c = ' ')
    (h : kind.name.toList ++ rest = kind'.name.toList ++ rest') : kind = kind' ∧ rest = rest' := by
  have hletters (kind : NodeKind) : ∀ c ∈ kind.name.toList, c != ' ' :=
    fun _ hc => bne_iff_ne.mpr (ne_of_mem_of_not_mem hc kind.not_mem_name.1)
  obtain ⟨hname, hsame⟩ := append_inj_of_head (hletters kind) (hletters kind')
    (by simpa using hrest) (by simpa using hrest') h
  exact ⟨name_injective (String.toList_inj.mp hname), hsame⟩

theorem Node.head?_shown (node : Node) : ∀ c ∈ node.shown.toList.head?, c = ' ' := by
  unfold shown
  split <;> simp [eq_comm]

theorem Visit.text_eq_iff {v v' : Visit} : v.text = v'.text ↔ v.Agrees v' := by
  constructor
  · intro h
    have hchars := congrArg String.toList h
    simp only [text, String.toList_append, String.toList_ofList, List.append_assoc] at hchars
    have hspaces (n : Nat) : ∀ c ∈ List.replicate n ' ', c == ' ' :=
      fun _ hc => beq_iff_eq.mpr (List.eq_of_mem_replicate hc)
    obtain ⟨hindent, hmore⟩ := append_inj_of_head (hspaces _) (hspaces _)
      (v.node.kind.head?_name_append _) (v'.node.kind.head?_name_append _) hchars
    obtain ⟨hkind, hshown⟩ := NodeKind.name_append_inj v.node.head?_shown v'.node.head?_shown hmore
    have hlength := congrArg List.length hindent
    refine ⟨by simpa using hlength, hkind, fun hshows => ?_⟩
    rw [String.toList_inj, Node.shown, Node.shown, ← hkind, if_pos hshows, if_pos hshows] at hshown
    exact String.append_right_inj _ |>.mp hshown
  · rintro ⟨hdepth, hkind, hvalue⟩
    have hshown : v.node.shown = v'.node.shown := by
      rw [Node.shown, Node.shown, ← hkind]
      split
      next hshows => rw [hvalue hshows]
      next => rfl
    rw [text, text, hdepth, hkind, hshown]

/-- A node shows its value exactly if it is a leaf. -/
def Node.ShowsLeaf (node : Node) : Prop :=
  node.kind.showsValue ↔ node.children = []

theorem Query.allBelow_showsLeaf_tree (q : Query) : q.tree.AllBelow Node.ShowsLeaf := by
  intro steps node h
  refine ⟨q.isSyntaxTree_tree.leaf h, fun hchildren => ?_⟩
  have hconjunction := q.isSyntaxTree_tree.conjunction h
  have halternatives := q.isSyntaxTree_tree.alternatives h
  have hfield := q.isSyntaxTree_tree.field h
  rw [hchildren] at hconjunction halternatives hfield
  cases hkind : node.kind with
  | conjunction => exact absurd (hconjunction hkind).2.1 (by decide)
  | alternatives => exact absurd (halternatives hkind).1 (by decide)
  | field => exact absurd (hfield hkind) (by decide)
  | _ => rfl

/-- Two trees agree in the kinds of their nodes, in the values of their leaves and in the order of
all children. -/
inductive Node.Agrees : Node → Node → Prop
  | mk {kind : NodeKind} {token token' : Token} {children children' : List Node}
      (hleaf : children = [] → token.value = token'.value)
      (hchildren : List.Forall₂ Node.Agrees children children') :
      Node.Agrees ⟨kind, token, children⟩ ⟨kind, token', children'⟩

theorem Node.listing_eq_cons (depth : Nat) (node : Node) :
    node.listing depth = ⟨depth, node⟩ :: Node.listingEach (depth + 1) node.children := by
  cases node
  rfl

/-- What follows the listing of a node is its next sibling, or not as deep as it is. -/
theorem Node.head?_listingEach_append {depth : Nat} (nodes : List Node) {rest : List Visit}
    (hrest : ∀ v ∈ rest.head?, v.depth < depth) :
    ∀ v ∈ (Node.listingEach depth nodes ++ rest).head?, v.depth ≤ depth := by
  cases nodes with
  | nil => exact fun v hv => Nat.le_of_lt (hrest v hv)
  | cons node nodes =>
      rw [listingEach, listing_eq_cons]
      rintro _ ⟨⟩
      exact Nat.le_refl depth

/-- A listing of siblings does not go on where the other one has come to an end. -/
theorem Node.not_forall₂_listingEach {depth : Nat} {node : Node} {nodes : List Node}
    {rest rest' : List Visit} (hrest : ∀ v ∈ rest.head?, v.depth < depth) :
    ¬List.Forall₂ Visit.Agrees rest (Node.listingEach depth (node :: nodes) ++ rest') := by
  intro h
  rw [listingEach, listing_eq_cons] at h
  cases h with
  | cons hfirst =>
      have hless := hrest _ rfl
      rw [hfirst.depth_eq] at hless
      exact Nat.lt_irrefl _ hless

mutual

/-- The lines tell a tree from what is listed after it, if that begins no deeper than its root. -/
theorem Node.agrees_of_listing {depth : Nat} (root : Node) {root' : Node}
    {rest rest' : List Visit} (hroot : root.AllBelow Node.ShowsLeaf)
    (hrest : ∀ v ∈ rest.head?, v.depth ≤ depth) (hrest' : ∀ v ∈ rest'.head?, v.depth ≤ depth)
    (h : List.Forall₂ Visit.Agrees (root.listing depth ++ rest) (root'.listing depth ++ rest')) :
    root.Agrees root' ∧ List.Forall₂ Visit.Agrees rest rest' := by
  obtain ⟨kind, token, children⟩ := root
  obtain ⟨kind', token', children'⟩ := root'
  rw [listing, listing, List.cons_append, List.cons_append, List.forall₂_cons] at h
  obtain ⟨⟨-, rfl, hvalue⟩, hmore⟩ := h
  -- what is no deeper than the root is above its children, so there the children end
  obtain ⟨hchildren, hsame⟩ := Node.agrees_of_listingEach children (fun _ => hroot.child)
    (fun v hv => Nat.lt_succ_of_le (hrest v hv)) (fun v hv => Nat.lt_succ_of_le (hrest' v hv)) hmore
  exact ⟨.mk (fun hleaf => hvalue (hroot.self.mpr hleaf)) hchildren, hsame⟩

/-- The lines tell siblings from what is listed after them, if that begins above them. -/
theorem Node.agrees_of_listingEach {depth : Nat} (nodes : List Node) {nodes' : List Node}
    {rest rest' : List Visit} (hnodes : ∀ node ∈ nodes, node.AllBelow Node.ShowsLeaf)
    (hrest : ∀ v ∈ rest.head?, v.depth < depth) (hrest' : ∀ v ∈ rest'.head?, v.depth < depth)
    (h : List.Forall₂ Visit.Agrees (Node.listingEach depth nodes ++ rest)
      (Node.listingEach depth nodes' ++ rest')) :
    List.Forall₂ Node.Agrees nodes nodes' ∧ List.Forall₂ Visit.Agrees rest rest' := by
  match nodes, nodes' with
  | [], [] => exact ⟨.nil, h⟩
  | [], node' :: nodes' => exact absurd h (Node.not_forall₂_listingEach hrest)
  | node :: nodes, [] =>
      exact absurd (h.imp fun _ _ => Visit.Agrees.symm).flip (Node.not_forall₂_listingEach hrest')
  | node :: nodes, node' :: nodes' =>
      obtain ⟨hnode, hothers⟩ := List.forall_mem_cons.mp hnodes
      rw [listingEach, listingEach, List.append_assoc, List.append_assoc] at h
      obtain ⟨hfirst, hmore⟩ := Node.agrees_of_listing node hnode
        (Node.head?_listingEach_append nodes hrest) (Node.head?_listingEach_append nodes' hrest') h
      obtain ⟨hlater, hsame⟩ := Node.agrees_of_listingEach nodes hothers hrest hrest' hmore
      exact ⟨.cons hfirst hlater, hsame⟩

end

/-- Trees that agree have listings that show the same. -/
theorem Node.Agrees.listing {depth : Nat} {root root' : Node}
    (hroot : root.AllBelow Node.ShowsLeaf) (h : root.Agrees root') :
    List.Forall₂ Visit.Agrees (root.listing depth) (root'.listing depth) := by
  induction root using Node.induction generalizing root' depth with
  | mk kind token children ih =>
      cases h with
      | mk hleaf hchildren =>
          rw [Node.listing, Node.listing, Node.listingEach_eq_flatMap,
            Node.listingEach_eq_flatMap]
          refine .cons ⟨rfl, rfl, fun hshows => hleaf (hroot.self.mp hshows)⟩ ?_
          exact List.rel_flatMap (forall₂_imp_of_mem hchildren fun child hchild _ _ hagrees =>
            ih child hchild (hroot.child hchild) hagrees) fun _ _ hlisting => hlisting

theorem Node.agrees_iff_visits {root : Node} (hroot : root.AllBelow Node.ShowsLeaf)
    (root' : Node) : root.Agrees root' ↔ List.Forall₂ Visit.Agrees root.visits root'.visits := by
  rw [visits_eq_listing, visits_eq_listing]
  constructor
  · exact Node.Agrees.listing hroot
  · intro h
    have hend : ∀ v ∈ ([] : List Visit).head?, v.depth ≤ 0 := nofun
    rw [← List.append_nil (root.listing 0), ← List.append_nil (root'.listing 0)] at h
    exact (Node.agrees_of_listing root hroot hend hend h).1

/-! ### Trees of texts -/

/-- A node is known by a token of a text, or by an implied one. -/
def Node.KnownIn (text : String) (node : Node) : Prop :=
  node.kind.KnownBy (tokenize text) node.token

/-- Where two trees agree, their tokens are the same but for what is implied. -/
theorem Node.Agrees.like {text text' : String} {root root' : Node}
    (hroot : root.AllBelow Node.ShowsLeaf) (hknown : root.AllBelow (Node.KnownIn text))
    (hknown' : root'.AllBelow (Node.KnownIn text')) (h : root.Agrees root') :
    root.Like Token.SameButImplied root' := by
  induction root using Node.induction generalizing root' with
  | mk kind token children ih =>
      cases h with
      | mk hleaf hchildren =>
          refine .mk ?_ (forall₂_imp_of_mem hchildren fun child hchild _ hchild' =>
            ih child hchild (hroot.child hchild) (hknown.child hchild) (hknown'.child hchild'))
          exact hknown.self.sameButImplied hknown'.self fun hshows => hleaf (hroot.self.mp hshows)

theorem Node.Like.agrees {root root' : Node} (h : root.Like Token.SameButImplied root') :
    root.Agrees root' := by
  induction root using Node.induction generalizing root' with
  | mk kind token children ih =>
      cases h with
      | mk htoken hchildren =>
          exact .mk (fun _ => htoken.value_eq)
            (forall₂_imp_of_mem hchildren fun child hchild _ _ => ih child hchild)

section

variable {text text' : String} {q q' : Query}

theorem Query.isWhiteSpace_eq_false_of_visit (h : Query.parse text = .ok q) {v : Visit}
    (hv : v ∈ q.tree.visits) : ∀ c ∈ v.node.token.value.toList, isWhiteSpace c = false :=
  fun _ hc => (Query.knownBy_of_below h (Node.mem_visits.mp hv)).isWhiteSpace_eq_false hc

/-- A line is one line, as the value in it has no white space. -/
theorem Visit.not_mem_text {v : Visit}
    (h : ∀ c ∈ v.node.token.value.toList, isWhiteSpace c = false) : '\n' ∉ v.text.toList := by
  have hvalue : '\n' ∉ v.node.token.value.toList := fun hmem => absurd (h _ hmem) (by decide)
  have hshown : '\n' ∉ v.node.shown.toList := by
    unfold Node.shown
    split
    · rw [String.toList_append, List.mem_append, not_or]
      exact ⟨by decide, hvalue⟩
    · decide
  simp only [Visit.text, String.toList_append, String.toList_ofList, List.mem_append, not_or]
  exact ⟨⟨fun hmem => absurd (List.eq_of_mem_replicate hmem) (by decide),
    v.node.kind.not_mem_name.2⟩, hshown⟩

theorem Node.render_eq (root : Node) :
    root.render = String.join ((root.visits.map Visit.text).map (· ++ "\n")) := by
  rw [render, List.map_map]
  exact congrArg String.join (List.map_congr_left fun v _ => v.line_eq)

theorem Query.lines_render_tree (h : Query.parse text = .ok q) :
    Text.lines q.tree.render = q.tree.visits.map Visit.text ++ [""] := by
  rw [Node.render_eq, Text.lines_join]
  intro line hline
  obtain ⟨v, hv, rfl⟩ := List.mem_map.mp hline
  exact Visit.not_mem_text (Query.isWhiteSpace_eq_false_of_visit h hv)

theorem Query.render_tree_eq_iff_visits (h : Query.parse text = .ok q)
    (h' : Query.parse text' = .ok q') :
    q.tree.render = q'.tree.render ↔
      List.Forall₂ Visit.Agrees q.tree.visits q'.tree.visits := by
  have htexts : q.tree.visits.map Visit.text = q'.tree.visits.map Visit.text ↔
      List.Forall₂ Visit.Agrees q.tree.visits q'.tree.visits := by
    rw [← List.forall₂_eq_eq_eq, List.forall₂_map_left_iff, List.forall₂_map_right_iff]
    exact ⟨fun h => h.imp fun _ _ => Visit.text_eq_iff.mp,
      fun h => h.imp fun _ _ => Visit.text_eq_iff.mpr⟩
  rw [← htexts]
  constructor
  · intro hrender
    have hlines := congrArg Text.lines hrender
    rw [Query.lines_render_tree h, Query.lines_render_tree h'] at hlines
    exact List.append_cancel_right hlines
  · intro hsame
    rw [Node.render_eq, Node.render_eq, hsame]

end

/-- The listings of two trees that are parsed are the same exactly if the trees agree in their
nodes, so that all tokens are the same but for where they stand and for equals signs that are
implied. Each node has one line, before those of its children, and no two nodes that differ have
one line in common: no white space is in a value. -/
theorem Query.render_tree_eq_iff {text text' : String} {q q' : Query}
    (h : Query.parse text = .ok q) (h' : Query.parse text' = .ok q') :
    (q.tree.render = q'.tree.render ↔ q.tree.Agrees q'.tree) ∧
    (q.tree.Agrees q'.tree ↔ List.Forall₂ Visit.Agrees q.tree.visits q'.tree.visits) ∧
    (q.tree.Agrees q'.tree ↔ q.tree.Like Token.SameButImplied q'.tree) ∧
    Text.lines q.tree.render = q.tree.visits.map Visit.text ++ [""] ∧
    q.tree.visits = q.tree.listing 0 ∧
    (∀ v v' : Visit, v.text = v'.text ↔ v.Agrees v') ∧
    (∀ v ∈ q.tree.visits, ∀ c ∈ v.node.token.value.toList, isWhiteSpace c = false) := by
  have hshows := q.allBelow_showsLeaf_tree
  have hvisits := Node.agrees_iff_visits hshows q'.tree
  have hlike : q.tree.Agrees q'.tree → q.tree.Like Token.SameButImplied q'.tree :=
    Node.Agrees.like hshows (fun _ _ => Query.knownBy_of_below h)
      fun _ _ => Query.knownBy_of_below h'
  exact ⟨(Query.render_tree_eq_iff_visits h h').trans hvisits.symm, hvisits,
    ⟨hlike, Node.Like.agrees⟩, Query.lines_render_tree h, Node.visits_eq_listing _,
    fun _ _ => Visit.text_eq_iff, fun _ => Query.isWhiteSpace_eq_false_of_visit h⟩

/-- White space, and an equals sign that only one of two queries writes. -/
theorem Query.render_tree_eq_iff_of_written_operator :
    ∃ q q' : Query, Query.parse "-a user:7" = .ok q ∧ Query.parse " - a user: =7" = .ok q' ∧
      q.tree.render = q'.tree.render ∧
      Text.lines q.tree.render =
        ["AND", "  NOT_TAG a", "  META", "    META_FIELD user", "    META_OPERATOR =",
          "    META_VALUE 7", ""] := by
  let q : Query :=
    ⟨.tag ⟨true, ⟨.word, "a", 1⟩⟩,
      [.field ⟨⟨.word, "user", 3⟩, ⟨.colon, ":", 7⟩, ⟨.implied, "=", 7⟩, ⟨.word, "7", 8⟩⟩]⟩
  let q' : Query :=
    ⟨.tag ⟨true, ⟨.word, "a", 3⟩⟩,
      [.field ⟨⟨.word, "user", 5⟩, ⟨.colon, ":", 9⟩, ⟨.operator, "=", 11⟩, ⟨.word, "7", 12⟩⟩]⟩
  have hq : Query.parse "-a user:7" = .ok q := by decide +kernel
  have hq' : Query.parse " - a user: =7" = .ok q' := by decide +kernel
  obtain ⟨hrender, -, -, hlines, hvisits, -, -⟩ := Query.render_tree_eq_iff hq hq'
  have hsame {kind : NodeKind} {value : String} {tokenKind tokenKind' : TokenKind}
      {position position' : Nat} :
      Node.Agrees ⟨kind, ⟨tokenKind, value, position⟩, []⟩
        ⟨kind, ⟨tokenKind', value, position'⟩, []⟩ := .mk (fun _ => rfl) .nil
  have hfield : Node.Agrees (q.tree.children[1]) (q'.tree.children[1]) :=
    .mk nofun (.cons hsame (.cons hsame (.cons hsame .nil)))
  refine ⟨q, q', hq, hq', hrender.mpr (.mk nofun (.cons hsame (.cons hfield .nil))), ?_⟩
  rw [hlines, hvisits]
  decide +kernel

end TagQuery

import TagQuery.Proofs.Places

/-!
The walk over a tree as a recursive listing: each node comes before its children, and their listings
follow one another. From the listing the tags of a query are read off its tree.
-/

namespace TagQuery

mutual

/-- The nodes of a tree that stands at some depth, each before its children. -/
def Node.listing (depth : Nat) : Node → List Visit
  | ⟨kind, token, children⟩ =>
    ⟨depth, ⟨kind, token, children⟩⟩ :: Node.listingEach (depth + 1) children

def Node.listingEach (depth : Nat) : List Node → List Visit
  | [] => []
  | node :: nodes => node.listing depth ++ Node.listingEach depth nodes

end

theorem Node.listingEach_eq_flatMap (depth : Nat) (nodes : List Node) :
    Node.listingEach depth nodes = nodes.flatMap (Node.listing depth) := by
  induction nodes with
  | nil => rfl
  | cons node nodes ih => rw [listingEach, ih, List.flatMap_cons]

/-- The listing of a node that is due. -/
def Visit.listing (v : Visit) : List Visit :=
  v.node.listing v.depth

theorem Visit.listing_eq (v : Visit) :
    v.listing = v :: v.node.children.flatMap (Node.listing (v.depth + 1)) := by
  obtain ⟨depth, kind, token, children⟩ := v
  rw [← Node.listingEach_eq_flatMap]
  rfl

/-- A walk visits what the nodes that are due list, one listing after another. -/
theorem Walk.visits_eq_flatMap (w : Walk) : w.visits = w.due.flatMap Visit.listing := by
  -- by induction on the visits that are left, as a visit may leave more visits due than before
  induction w using Walk.visits.induct with
  | case1 w hnext =>
      obtain ⟨due⟩ := w
      cases due with
      | nil => rw [visits_of_next_eq_none hnext, List.flatMap_nil]
      | cons first due => cases hnext
  | case2 w visit w' hnext ih =>
      obtain ⟨due⟩ := w
      cases due with
      | nil => cases hnext
      | cons first due =>
          rw [visits_of_next_eq_some hnext, ih]
          cases hnext
          rw [List.flatMap_append, List.flatMap_cons, Visit.listing_eq, List.cons_append,
            List.flatMap_map]
          rfl

theorem Node.visits_eq_listing (root : Node) : root.visits = root.listing 0 :=
  (Walk.visits_eq_flatMap (.ofNode root)).trans (List.append_nil _)

/-- The nodes for tags and for negated tags. -/
def NodeKind.isTag : NodeKind → Bool
  | .tag | .negatedTag => true
  | _ => false

/-- The words of the tags in a listing. -/
def tagWordsOf (visits : List Visit) : List String :=
  (visits.filter (·.node.kind.isTag)).map (·.node.token.value)

/-- The words of the tags of a tree, in the order of a walk. -/
def Node.tagWords (root : Node) : List String :=
  tagWordsOf root.visits

theorem tagWordsOf_flatMap {α : Type} (xs : List α) (f : α → List Visit) :
    tagWordsOf (xs.flatMap f) = xs.flatMap fun x => tagWordsOf (f x) := by
  rw [tagWordsOf, List.filter_flatMap, List.map_flatMap]
  rfl

theorem TagTerm.tagWordsOf_listing (t : TagTerm) (depth : Nat) :
    tagWordsOf (t.node.listing depth) = [t.word.value] := by
  obtain ⟨negated, word⟩ := t
  cases negated <;> rfl

theorem Term.tagWordsOf_listing (t : Term) (depth : Nat) :
    tagWordsOf (t.node.listing depth) = t.tags.map (·.word.value) := by
  cases t with
  | tag tag => exact tag.tagWordsOf_listing depth
  | field f => rfl
  | alternatives opening first second others =>
      show tagWordsOf (Node.listingEach (depth + 1)
        ((first :: second :: others).map TagTerm.node)) = _
      rw [Node.listingEach_eq_flatMap, List.flatMap_map, tagWordsOf_flatMap]
      simp only [TagTerm.tagWordsOf_listing]
      exact List.map_eq_flatMap.symm

/-- The tags of a tree are those of the terms of its query. -/
theorem Query.tagWords_tree (q : Query) :
    q.tree.tagWords = q.terms.flatMap fun t => t.tags.map (·.word.value) := by
  rw [Node.tagWords, Node.visits_eq_listing]
  obtain ⟨first, others⟩ := q
  cases others with
  | nil => exact (first.tagWordsOf_listing 0).trans (List.append_nil _).symm
  | cons second others =>
      show tagWordsOf (Node.listingEach 1 ((first :: second :: others).map Term.node)) = _
      rw [Node.listingEach_eq_flatMap, List.flatMap_map, tagWordsOf_flatMap]
      simp only [Term.tagWordsOf_listing]
      rfl

end TagQuery

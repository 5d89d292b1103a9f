import TagQuery.Proofs.History
import TagQuery.Proofs.Shape

/-!
Walks taken step by step. Each step makes the first of the visits that are left, so what a walk has
left after some steps is the listing of its tree without as many visits. The listing has one visit
for each path that leads to a node. A walk may be kept on a stack, and walks that are taken side by
side do not disturb one another.
-/

namespace TagQuery

/-- The node that a path leads to. A path tells which child to go to, from the root on. -/
def Node.at? (root : Node) : List Nat → Option Node
  | [] => some root
  | i :: path => root.children[i]?.bind fun child => child.at? path

/-- The visit of the node that a path leads to, for a root that stands at some depth. -/
def Node.visitAt? (depth : Nat) (root : Node) (path : List Nat) : Option Visit :=
  (root.at? path).map fun node => ⟨depth + path.length, node⟩

mutual

/-- The paths to the nodes of a tree. -/
def Node.paths : Node → List (List Nat)
  | ⟨_, _, children⟩ => [] :: Node.pathsFrom 0 children

/-- The paths to the nodes of trees that are children, from the child with a number on. -/
def Node.pathsFrom (i : Nat) : List Node → List (List Nat)
  | [] => []
  | node :: nodes => node.paths.map (i :: ·) ++ Node.pathsFrom (i + 1) nodes

end

theorem Node.mem_pathsFrom {i : Nat} {nodes : List Node} {path : List Nat} :
    path ∈ Node.pathsFrom i nodes ↔
      ∃ j rest node, path = (i + j) :: rest ∧ nodes[j]? = some node ∧ rest ∈ node.paths := by
  induction nodes generalizing i with
  | nil => simp [pathsFrom]
  | cons node nodes ih =>
      rw [pathsFrom, List.mem_append, List.mem_map, ih]
      constructor
      · rintro (⟨rest, hrest, rfl⟩ | ⟨j, rest, other, rfl, hother, hrest⟩)
        · exact ⟨0, rest, node, rfl, rfl, hrest⟩
        · exact ⟨j + 1, rest, other, by rw [Nat.add_right_comm, Nat.add_assoc], hother, hrest⟩
      · rintro ⟨j, rest, other, rfl, hother, hrest⟩
        cases j with
        | zero =>
            cases hother
            exact .inl ⟨rest, hrest, rfl⟩
        | succ j =>
            refine .inr ⟨j, rest, other, ?_, hother, hrest⟩
            rw [Nat.add_right_comm, Nat.add_assoc]

theorem Node.mem_paths {root : Node} {path : List Nat} :
    path ∈ root.paths ↔ (root.at? path).isSome := by
  induction root using Node.induction generalizing path with
  | mk kind token children ih =>
      rw [paths, List.mem_cons, Node.mem_pathsFrom]
      cases path with
      | nil => exact ⟨fun _ => rfl, fun _ => .inl rfl⟩
      | cons i path =>
          rw [at?, Option.isSome_bind, Option.any_eq_true]
          constructor
          · rintro (hnil | ⟨j, rest, node, hpath, hnode, hrest⟩)
            · cases hnil
            · cases hpath
              rw [Nat.zero_add]
              exact ⟨node, hnode, (ih node (List.mem_of_getElem? hnode)).mp hrest⟩
          · rintro ⟨node, hnode, hrest⟩
            refine .inr ⟨i, path, node, by rw [Nat.zero_add], hnode, ?_⟩
            exact (ih node (List.mem_of_getElem? hnode)).mpr hrest

mutual

/-- The paths are in order. A path comes before those that go on from it, and a child before the
next one. -/
theorem Node.pairwise_paths : ∀ root : Node, root.paths.Pairwise (· < ·)
  | ⟨kind, token, children⟩ => by
    rw [paths, List.pairwise_cons]
    refine ⟨fun path hpath => ?_, Node.pairwise_pathsFrom 0 children⟩
    obtain ⟨j, rest, node, rfl, -, -⟩ := Node.mem_pathsFrom.mp hpath
    exact List.nil_lt_cons _ _

theorem Node.pairwise_pathsFrom (i : Nat) :
    ∀ nodes : List Node, (Node.pathsFrom i nodes).Pairwise (· < ·)
  | [] => .nil
  | node :: nodes => by
    rw [pathsFrom, List.pairwise_append, List.pairwise_map]
    refine ⟨(Node.pairwise_paths node).imp fun hless => List.cons_lt_cons_self.mpr hless,
      Node.pairwise_pathsFrom (i + 1) nodes, fun path hpath path' hpath' => ?_⟩
    obtain ⟨rest, -, rfl⟩ := List.mem_map.mp hpath
    obtain ⟨j, rest', other, rfl, -, -⟩ := Node.mem_pathsFrom.mp hpath'
    exact List.cons_lt_cons_iff.mpr (.inl (by omega))

end

theorem Node.visitAt?_cons {root child : Node} {i : Nat} (h : root.children[i]? = some child)
    (depth : Nat) (path : List Nat) :
    root.visitAt? depth (i :: path) = child.visitAt? (depth + 1) path := by
  rw [visitAt?, visitAt?, at?, h, Option.bind_some, List.length_cons, Nat.add_right_comm,
    Nat.add_assoc]

mutual

/-- The listing of a tree has one visit for each path, in the order of the paths. -/
theorem Node.map_visitAt?_paths (depth : Nat) :
    ∀ root : Node, root.paths.map (root.visitAt? depth) = (root.listing depth).map some
  | ⟨kind, token, children⟩ => by
    rw [paths, listing, List.map_cons, List.map_cons,
      Node.map_visitAt?_pathsFrom depth children List.drop_zero]
    rfl

theorem Node.map_visitAt?_pathsFrom {parent : Node} {i : Nat} (depth : Nat) :
    ∀ nodes : List Node, parent.children.drop i = nodes →
      (Node.pathsFrom i nodes).map (parent.visitAt? depth) =
        (Node.listingEach (depth + 1) nodes).map some
  | [], _ => rfl
  | node :: nodes, hdrop => by
    have hnode : parent.children[i]? = some node := by
      rw [← List.head?_drop, hdrop, List.head?_cons]
    have hlater : parent.children.drop (i + 1) = nodes := by
      rw [← List.tail_drop, hdrop, List.tail_cons]
    have hfirst : parent.visitAt? depth ∘ (i :: ·) = node.visitAt? (depth + 1) :=
      funext (Node.visitAt?_cons hnode depth)
    rw [pathsFrom, listingEach, List.map_append, List.map_append, List.map_map, hfirst,
      Node.map_visitAt?_paths (depth + 1) node, Node.map_visitAt?_pathsFrom depth nodes hlater]

end

section Steps

variable {σ τ α : Type}

/-- The state after a step. Where none is left to take, the state stays. -/
def advance (next : σ → Option (α × σ)) (state : σ) : σ :=
  (next state).elim state Prod.snd

/-- States that take the same steps go on to such states. -/
theorem semiconj_advance {next : σ → Option (α × σ)} {next' : τ → Option (α × τ)} {f : σ → τ}
    (h : ∀ state, next' (f state) = (next state).map (Prod.map id f)) :
    Function.Semiconj f (advance next) (advance next') := by
  intro state
  rw [advance, advance, h]
  cases next state <;> rfl

end Steps

namespace Walk

theorem next_map_fst (w : Walk) : w.next.map Prod.fst = w.visits.head? := by
  cases hnext : w.next with
  | none => rw [visits_of_next_eq_none hnext, Option.map_none, List.head?_nil]
  | some step => rw [visits_of_next_eq_some hnext, Option.map_some, List.head?_cons]

/-- A step takes away the first of the visits that are left. -/
theorem visits_advance (w : Walk) : (advance next w).visits = w.visits.tail := by
  unfold advance
  cases hnext : w.next with
  | none => rw [Option.elim_none, visits_of_next_eq_none hnext, List.tail_nil]
  | some step => rw [Option.elim_some, visits_of_next_eq_some hnext, List.tail_cons]

theorem visits_iterate_advance (w : Walk) (k : Nat) :
    ((advance next)^[k] w).visits = w.visits.drop k := by
  induction k with
  | zero => rw [Function.iterate_zero_apply, List.drop_zero]
  | succ k ih => rw [Function.iterate_succ_apply', visits_advance, ih, List.tail_drop]

theorem next_iterate_advance (w : Walk) (k : Nat) :
    ((advance next)^[k] w).next.map Prod.fst = w.visits[k]? := by
  rw [next_map_fst, visits_iterate_advance, List.head?_drop]

end Walk

/-- A walk under way on a stack: the visits that are due, the next one last. -/
structure Stack where
  due : Array Visit

namespace Stack

def ofNode (root : Node) : Stack :=
  ⟨#[⟨0, root⟩]⟩

/-- Pops the visit on top, and pushes those of its children, the last child first. -/
def next (s : Stack) : Option (Visit × Stack) :=
  s.due.back?.map fun visit =>
    (visit, ⟨visit.node.children.foldr (fun child due => due.push ⟨visit.depth + 1, child⟩)
      s.due.pop⟩)

/-- The walk that a stack keeps. -/
def walk (s : Stack) : Walk :=
  ⟨s.due.toList.reverse⟩

/-- A stack takes the steps of the walk that it keeps. -/
theorem next_walk (s : Stack) : s.walk.next = s.next.map (Prod.map id walk) := by
  obtain ⟨due⟩ := s
  by_cases hdue : due = #[]
  · subst hdue
    rfl
  · obtain ⟨below, visit, rfl⟩ := Array.exists_push_of_ne_empty hdue
    have hwalk : (⟨below.push visit⟩ : Stack).walk = ⟨visit :: below.toList.reverse⟩ := by
      rw [walk, Array.toList_push, List.reverse_append]
      rfl
    rw [hwalk, Walk.next, next, Array.back?_push, Option.map_some, Option.map_some, Array.pop_push,
      List.foldr_push_eq_append]
    simp [walk]

theorem next_map_fst (s : Stack) : s.next.map Prod.fst = s.walk.next.map Prod.fst := by
  rw [next_walk, Option.map_map]
  rfl

theorem walk_iterate_advance (root : Node) (k : Nat) :
    ((advance next)^[k] (ofNode root)).walk = (advance Walk.next)^[k] (.ofNode root) :=
  (semiconj_advance next_walk).iterate_right k (ofNode root)

end Stack

/-! ### Walks side by side -/

namespace Walks

/-- What happens to walks over one tree. They are numbered as they begin. -/
inductive Event where
  | begin
  | step (i : Nat) (answer : Option Visit)

inductive Step (root : Node) : List Walk → Event → List Walk → Prop where
  | begin (walks : List Walk) : Step root walks .begin (walks ++ [.ofNode root])
  | step {walks : List Walk} {i : Nat} {w : Walk} (hw : walks[i]? = some w) :
      Step root walks (.step i (w.next.map Prod.fst)) (walks.set i (advance Walk.next w))

/-- What the walk with a number is answered. -/
def Event.answerTo? (i : Nat) : Event → Option (Option Visit)
  | .begin => none
  | .step j answer => if j = i then some answer else none

/-- All that the walk with a number has been answered, in order. -/
def answersTo (i : Nat) (past : List (Moment (List Walk) Event)) : List (Option Visit) :=
  past.filterMap fun m => m.event.answerTo? i

variable {root : Node} {past : List (Moment (List Walk) Event)} {walks walks' : List Walk}
  {event : Event}

theorem answersTo_snoc (i : Nat) :
    answersTo i (past ++ [⟨walks, event, walks'⟩]) =
      answersTo i past ++ (event.answerTo? i).toList := by
  rw [answersTo, List.filterMap_append, List.filterMap_cons, List.filterMap_nil]
  cases event.answerTo? i <;> rfl

theorem answersTo_snoc_of_eq_none {i : Nat} (h : event.answerTo? i = none) :
    answersTo i (past ++ [⟨walks, event, walks'⟩]) = answersTo i past := by
  rw [answersTo_snoc, h, Option.toList_none, List.append_nil]

/-- Each walk stands where its own steps have brought it, and has been answered what it would have
been without the others. -/
structure Apart (root : Node) (past : List (Moment (List Walk) Event)) (walks : List Walk) :
    Prop where
  unbegun {i : Nat} (hi : walks.length ≤ i) : answersTo i past = []
  begun {i : Nat} {w : Walk} (hw : walks[i]? = some w) : ∃ k,
    answersTo i past = (List.range k).map (root.visits[·]?) ∧
      w = (advance Walk.next)^[k] (.ofNode root)

theorem Apart.snoc (h : Apart root past walks) (hstep : Step root walks event walks') :
    Apart root (past ++ [⟨walks, event, walks'⟩]) walks' := by
  cases hstep with
  | begin =>
      refine ⟨fun {i} hi => ?_, fun {i w} hw => ?_⟩
      · rw [List.length_append] at hi
        rw [answersTo_snoc_of_eq_none rfl]
        exact h.unbegun (Nat.le_of_succ_le hi)
      · rw [answersTo_snoc_of_eq_none rfl]
        rcases getElem?_concat_eq_some_iff.mp hw with hold | ⟨rfl, rfl⟩
        · exact h.begun hold
        · exact ⟨0, h.unbegun (Nat.le_refl _), rfl⟩
  | @step j stepped hstepped =>
      have hj : j < walks.length := (List.getElem?_eq_some_iff.mp hstepped).1
      have hothers {i : Nat} (hne : j ≠ i) :
          (Event.step j (stepped.next.map Prod.fst)).answerTo? i = none := if_neg hne
      refine ⟨fun {i} hi => ?_, fun {i w} hw => ?_⟩
      · rw [List.length_set] at hi
        rw [answersTo_snoc_of_eq_none (hothers (Nat.ne_of_lt (Nat.lt_of_lt_of_le hj hi)))]
        exact h.unbegun hi
      · by_cases heq : j = i
        · subst heq
          rw [List.getElem?_set_self hj] at hw
          cases hw
          obtain ⟨k, hanswers, rfl⟩ := h.begun hstepped
          refine ⟨k + 1, ?_, (Function.iterate_succ_apply' _ k _).symm⟩
          rw [answersTo_snoc, hanswers, Event.answerTo?, if_pos rfl, Walk.next_iterate_advance,
            List.range_succ, List.map_append]
          rfl
        · rw [List.getElem?_set_ne heq] at hw
          rw [answersTo_snoc_of_eq_none (hothers heq)]
          exact h.begun hw

theorem apart_of_run (h : Run (Step root) [] past walks) : Apart root past walks := by
  induction h with
  | nil => exact ⟨fun _ => rfl, nofun⟩
  | snoc _ hstep ih => exact ih.snoc hstep

end Walks

/-- A walk visits what its tree lists, each node before its children, whose listings follow one
another. The listing has one visit for each path that leads to a node, and the paths are in strict
order, so no node is visited twice. On a stack it is the same walk, and what it has left after any
number of steps is the listing without as many visits. Of several walks over the tree that are taken
by turns, each has been answered what comes first in the listing and has left the rest of it, however
many steps the others have taken. -/
theorem walks_follow_listing {root : Node} {past : List (Moment (List Walk) Walks.Event)}
    {walks : List Walk} (h : Run (Walks.Step root) [] past walks) :
    root.visits = root.listing 0 ∧
    (root.visits.map some = root.paths.map (root.visitAt? 0) ∧ root.paths.Pairwise (· < ·) ∧
      ∀ path, path ∈ root.paths ↔ (root.at? path).isSome) ∧
    (∀ k, let s := (advance Stack.next)^[k] (.ofNode root)
      s.walk = (advance Walk.next)^[k] (.ofNode root) ∧
      s.next.map Prod.fst = (root.listing 0)[k]? ∧ s.walk.visits = (root.listing 0).drop k) ∧
    ∀ i w, walks[i]? = some w → ∃ k,
      Walks.answersTo i past = (List.range k).map ((root.listing 0)[·]?) ∧
      w.visits = (root.listing 0).drop k := by
  have hvisits : (Walk.ofNode root).visits = root.listing 0 := root.visits_eq_listing
  refine ⟨hvisits, ⟨?_, root.pairwise_paths, fun _ => Node.mem_paths⟩, fun k => ?_,
    fun i w hw => ?_⟩
  · rw [root.visits_eq_listing, root.map_visitAt?_paths]
  · have hwalk := Stack.walk_iterate_advance root k
    refine ⟨hwalk, ?_, ?_⟩
    · rw [Stack.next_map_fst, hwalk, Walk.next_iterate_advance, hvisits]
    · rw [hwalk, Walk.visits_iterate_advance, hvisits]
  · obtain ⟨k, hanswers, rfl⟩ := (Walks.apart_of_run h).begun hw
    refine ⟨k, ?_, ?_⟩
    · rw [hanswers, root.visits_eq_listing]
    · rw [Walk.visits_iterate_advance, hvisits]

/-- Two children that are the same node are visited one after the other, by two walks of which the
second one begins while the first one is under way. -/
theorem walks_follow_listing_of_two_walks :
    let leaf : Node := ⟨.tag, ⟨.word, "a", 2⟩, []⟩
    let root : Node := ⟨.alternatives, ⟨.orStart, "\x7b", 0⟩, [leaf, leaf]⟩
    root.visits = [⟨0, root⟩, ⟨1, leaf⟩, ⟨1, leaf⟩] ∧
    ∃ past walks, Run (Walks.Step root) [] past walks ∧
      past.map Moment.event = [.begin, .step 0 (some ⟨0, root⟩), .begin,
        .step 0 (some ⟨1, leaf⟩), .step 1 (some ⟨0, root⟩)] ∧
      walks.map Walk.visits = [[⟨1, leaf⟩], [⟨1, leaf⟩, ⟨1, leaf⟩]] := by
  intro leaf root
  have hbegun : Run (Walks.Step root) [] _ [.ofNode root] := Run.nil.snoc (.begin [])
  have htwo := (hbegun.snoc (.step (i := 0) rfl)).snoc (.begin _)
  have hrun := (htwo.snoc (.step (i := 0) rfl)).snoc (.step (i := 1) rfl)
  obtain ⟨hvisits, -, -, hwalks⟩ := walks_follow_listing hrun
  refine ⟨hvisits, _, _, hrun, rfl, ?_⟩
  obtain ⟨k, hanswers, hfirst⟩ := hwalks 0 _ rfl
  obtain ⟨k', hanswers', hsecond⟩ := hwalks 1 _ rfl
  have hk : 2 = ((List.range k).map ((root.listing 0)[·]?)).length :=
    congrArg List.length hanswers
  have hk' : 1 = ((List.range k').map ((root.listing 0)[·]?)).length :=
    congrArg List.length hanswers'
  rw [List.length_map, List.length_range] at hk hk'
  subst hk hk'
  exact congrArg₂ (fun visits visits' => [visits, visits']) hfirst hsecond

end TagQuery

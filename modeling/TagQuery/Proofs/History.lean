import TagQuery.Proofs.SortedMap
import TagQuery.Search
import TagQuery.Store

/-!
Runs of a system that takes one step after another, what a cache may do on its own in a run, and the
changes of a store as steps.
-/

namespace TagQuery

section Runs

variable {σ ε : Type}

/-- A step of a run: what it was, and what the state was before and after it. -/
structure Moment (σ ε : Type) where
  before : σ
  event : ε
  after : σ

/-- The steps from one state to another, in order. -/
inductive Run (Step : σ → ε → σ → Prop) (start : σ) : List (Moment σ ε) → σ → Prop where
  | nil : Run Step start [] start
  | snoc {past : List (Moment σ ε)} {state state' : σ} {event : ε} (h : Run Step start past state)
      (hstep : Step state event state') : Run Step start (past ++ [⟨state, event, state'⟩]) state'

variable {Step : σ → ε → σ → Prop} {start state : σ}

theorem Run.snoc_cases {past : List (Moment σ ε)} {m : Moment σ ε}
    (h : Run Step start (past ++ [m]) state) :
    Run Step start past m.before ∧ Step m.before m.event m.after ∧ m.after = state := by
  generalize hpast : past ++ [m] = steps at h
  cases h with
  | nil => exact absurd hpast (by simp)
  | snoc h hstep =>
      obtain ⟨rfl, hm⟩ := List.append_inj' hpast rfl
      cases hm
      exact ⟨h, hstep, rfl⟩

theorem Run.append {past later : List (Moment σ ε)} {state' : σ} (h : Run Step start past state)
    (hlater : Run Step state later state') : Run Step start (past ++ later) state' := by
  induction hlater with
  | nil => rwa [List.append_nil]
  | snoc _ hstep ih =>
      rw [← List.append_assoc]
      exact ih.snoc hstep

/-- A run can be cut at each of its steps. -/
theorem Run.cut {earlier later : List (Moment σ ε)} {m : Moment σ ε}
    (h : Run Step start (earlier ++ m :: later) state) :
    Run Step start earlier m.before ∧ Step m.before m.event m.after ∧
      Run Step m.after later state := by
  induction later using List.reverseRecOn generalizing state with
  | nil =>
      obtain ⟨hearlier, hstep, rfl⟩ := h.snoc_cases
      exact ⟨hearlier, hstep, .nil⟩
  | append_singleton later last ih =>
      rw [← List.cons_append, ← List.append_assoc] at h
      obtain ⟨hrest, hlast, rfl⟩ := h.snoc_cases
      obtain ⟨hearlier, hstep, hlater⟩ := ih hrest
      exact ⟨hearlier, hstep, hlater.snoc hlast⟩

end Runs

/-- What is numbered as it comes: the last one to come has the number of those before it. -/
theorem getElem?_concat_eq_some_iff {α : Type} {l : List α} {a b : α} {i : Nat} :
    (l ++ [a])[i]? = some b ↔ l[i]? = some b ∨ i = l.length ∧ a = b := by
  rcases Nat.lt_or_ge i l.length with hlt | hge
  · rw [List.getElem?_append_left hlt]
    exact (or_iff_left fun ⟨heq, _⟩ => hlt.ne heq).symm
  · rw [List.getElem?_append_right hge, List.getElem?_eq_none hge, List.getElem?_singleton]
    simp only [reduceCtorEq, false_or, Option.ite_none_right_eq_some, Option.some.injEq]
    exact and_congr_left fun _ => by omega

namespace Cache

variable {α : Type} {c c' : Cache α} {key key' : CacheKey} {value value' : α}

/-- A cache that has dropped any of its entries. -/
structure Drops (c c' : Cache α) : Prop where
  capacity : c'.capacity = c.capacity
  get? : ∀ key value, c'.get? key = some value → c.get? key = some value

theorem Drops.refl (c : Cache α) : c.Drops c :=
  ⟨rfl, fun _ _ => id⟩

/-- A cache that has been given an entry in the place of an earlier one for its key, and has dropped
any entries, perhaps the new one. -/
structure Takes (c : Cache α) (key : CacheKey) (value : α) (c' : Cache α) : Prop where
  capacity : c'.capacity = c.capacity
  get? : ∀ key' value', c'.get? key' = some value' →
    (key' = key ∧ value' = value) ∨ (key' ≠ key ∧ c.get? key' = some value')

theorem get?_empty (capacity : Nat) (key : CacheKey) :
    (empty capacity : Cache α).get? key = none :=
  rfl

theorem get?_clear (c : Cache α) (key : CacheKey) : c.clear.get? key = none :=
  rfl

theorem size_le (c : Cache α) : c.size ≤ max c.capacity 1 :=
  c.length_le

theorem lookup_of_lookup_filter_ne {entries : List (CacheKey × α)}
    (h : (entries.filter (·.1 ≠ key)).lookup key' = some value') :
    key' ≠ key ∧ entries.lookup key' = some value' := by
  induction entries with
  | nil => cases h
  | cons first entries ih =>
      obtain ⟨k, v⟩ := first
      rw [SortedMap.lookup_cons_eq_ite]
      by_cases hk : k = key
      · rw [List.filter_cons_of_neg (by simpa using hk)] at h
        obtain ⟨hne, hentries⟩ := ih h
        exact ⟨hne, (if_neg (hk ▸ hne)).trans hentries⟩
      · rw [List.filter_cons_of_pos (by simpa using hk), SortedMap.lookup_cons_eq_ite] at h
        by_cases heq : key' = k
        · exact ⟨heq ▸ hk, by rwa [if_pos heq] at h ⊢⟩
        · rw [if_neg heq] at h ⊢
          exact ih h

/-- The cache that drops its oldest entries is one of those that drop any. -/
theorem takes_insert (c : Cache α) (key : CacheKey) (value : α) :
    c.Takes key value (c.insert key value) := by
  refine ⟨rfl, fun key' value' h => ?_⟩
  have hentry : ((key, value) :: c.entries.filter (·.1 ≠ key)).lookup key' = some value' :=
    (List.take_prefix _ _).lookup_eq_some h
  rw [SortedMap.lookup_cons_eq_ite] at hentry
  split at hentry
  next heq =>
    cases hentry
    exact Or.inl ⟨heq, rfl⟩
  next => exact Or.inr (lookup_of_lookup_filter_ne hentry)

end Cache

namespace Store

/-- What can be asked of a store to change. -/
inductive Change where
  | createTag (name : String)
  | renameTag (source target : String)
  | addAlias (name target : String)
  | setPreferences (user : Id) (visibility : Visibility)
  | setAnonymous (visibility : Visibility)

namespace Change

/-- A change of the names that stand for tags. -/
def IsOfNames : Change → Prop
  | .createTag _ | .renameTag _ _ | .addAlias _ _ => True
  | .setPreferences _ _ | .setAnonymous _ => False

/-- The store with a change, or why it is refused. -/
def apply (s : Store) : Change → Except StoreError Store
  | .createTag name => (s.createTag name).map Prod.snd
  | .renameTag source target => s.renameTag source target
  | .addAlias name target => s.addAlias name target
  | .setPreferences user visibility => .ok (s.setPreferences user visibility)
  | .setAnonymous visibility => .ok (s.setAnonymous visibility)

end Change

/-- The store after a change, which a refusal leaves as it was. -/
def after (s : Store) (change : Change) : Store :=
  match change.apply s with
  | .ok s' => s'
  | .error _ => s

end Store

end TagQuery

import Mathlib
import TagQuery.SortedMap

/-!
The laws of sorted maps: what a key has after an insertion, and what it has in the map of a list.
-/

namespace TagQuery.SortedMap

variable {κ ν : Type}

section

variable [DecidableEq κ] [BEq κ] [LawfulBEq κ]

theorem lookup_cons_eq_ite (key k : κ) (v : ν) (entries : List (κ × ν)) :
    ((k, v) :: entries).lookup key = if key = k then some v else entries.lookup key := by
  rw [List.lookup_cons]
  by_cases hkey : key = k
  · rw [if_pos hkey, beq_iff_eq.mpr hkey]
  · rw [if_neg hkey, beq_eq_false_iff_ne.mpr hkey]

end

section

variable [LT κ] [DecidableLT κ]

theorem length_insertEntry_le (key : κ) (value : ν) (entries : List (κ × ν)) :
    (insertEntry key value entries).length ≤ entries.length + 1 := by
  induction entries with
  | nil => exact Nat.le_refl _
  | cons first entries ih =>
      unfold insertEntry
      split_ifs
      · exact Nat.le_refl _
      · exact Nat.succ_le_succ ih
      · exact Nat.le_succ _

variable [Trans (α := κ) (· < ·) (· < ·) (· < ·)]

/-- A later entry takes the place of an earlier one with its key. -/
theorem ofList_append_singleton (entries : List (κ × ν)) (key : κ) (value : ν) :
    ofList (entries ++ [(key, value)]) = (ofList entries).insert key value := by
  rw [ofList, List.foldl_append]
  rfl

theorem size_insert_le (m : SortedMap κ ν) (key : κ) (value : ν) :
    (m.insert key value).size ≤ m.size + 1 :=
  length_insertEntry_le key value m.entries

theorem eq_or_mem_of_mem_keys_insert {m : SortedMap κ ν} {key key' : κ} {value : ν}
    (h : key' ∈ (m.insert key value).keys) : key' = key ∨ key' ∈ m.keys := by
  obtain ⟨entry, hentry, rfl⟩ := List.mem_map.mp h
  exact fst_of_mem_insertEntry hentry

variable [Std.Irrefl (α := κ) (· < ·)]

/-- An entry whose key comes after all others is put behind them. -/
theorem insertEntry_of_forall_lt {key : κ} (value : ν) {entries : List (κ × ν)}
    (h : ∀ entry ∈ entries, entry.1 < key) :
    insertEntry key value entries = entries ++ [(key, value)] := by
  induction entries with
  | nil => rfl
  | cons first entries ih =>
      have hfirst : first.1 < key := h first List.mem_cons_self
      have hnot : ¬ key < first.1 := fun hlt =>
        Std.Irrefl.irrefl (r := (· < ·)) key (Trans.trans hlt hfirst)
      rw [insertEntry, if_neg hnot, if_pos hfirst,
        ih fun entry hentry => h entry (List.mem_cons_of_mem _ hentry), List.cons_append]

theorem entries_ofList {entries : List (κ × ν)} (h : Ascending entries) :
    (ofList entries).entries = entries := by
  induction entries using List.reverseRecOn with
  | nil => rfl
  | append_singleton entries last ih =>
      obtain ⟨hentries, -, hlast⟩ := List.pairwise_append.mp h
      rw [ofList_append_singleton]
      show insertEntry last.1 last.2 (ofList entries).entries = entries ++ [last]
      rw [ih hentries]
      exact insertEntry_of_forall_lt _ fun entry hentry =>
        hlast entry hentry last List.mem_cons_self

/-- A map is that of its own entries. -/
theorem ofList_entries (m : SortedMap κ ν) : ofList m.entries = m :=
  ext_entries (entries_ofList m.ascending)

end

theorem ne_of_get?_eq_none [LT κ] [BEq κ] {m : SortedMap κ ν} {key key' : κ} {value : ν}
    (h : m.get? key = some value) (h' : m.get? key' = none) : key ≠ key' := by
  rintro rfl
  cases h.symm.trans h'

variable [LT κ] [DecidableEq κ] [BEq κ] [LawfulBEq κ]

theorem mem_keys_iff {m : SortedMap κ ν} {key : κ} : key ∈ m.keys ↔ ∃ v, m.get? key = some v := by
  show key ∈ m.entries.map Prod.fst ↔ ∃ v, m.entries.lookup key = some v
  induction m.entries with
  | nil => simp
  | cons first entries ih =>
      obtain ⟨k, v⟩ := first
      rw [List.map_cons, List.mem_cons, lookup_cons_eq_ite, ih]
      by_cases hkey : key = k <;> simp [hkey]

theorem get?_erase (m : SortedMap κ ν) (key key' : κ) :
    (m.erase key).get? key' = if key' = key then none else m.get? key' := by
  show (m.entries.filter (·.1 != key)).lookup key' = if key' = key then none else m.entries.lookup key'
  induction m.entries with
  | nil => simp
  | cons first entries ih =>
      obtain ⟨k, v⟩ := first
      by_cases hk : k = key
      · rw [List.filter_cons_of_neg (by simpa using hk), ih, lookup_cons_eq_ite]
        by_cases hkey : key' = key
        · rw [if_pos hkey, if_pos hkey]
        · rw [if_neg hkey, if_neg hkey, if_neg (hk ▸ hkey)]
      · rw [List.filter_cons_of_pos (by simpa using hk), lookup_cons_eq_ite, lookup_cons_eq_ite, ih]
        by_cases hkey : key' = k
        · rw [if_pos hkey, if_pos hkey, if_neg (hkey ▸ hk)]
        · rw [if_neg hkey, if_neg hkey]

theorem mem_entries_iff [Std.Irrefl (α := κ) (· < ·)] {m : SortedMap κ ν} {key : κ} {value : ν} :
    (key, value) ∈ m.entries ↔ m.get? key = some value := by
  show (key, value) ∈ m.entries ↔ m.entries.lookup key = some value
  obtain ⟨entries, hascending⟩ := m
  dsimp only
  induction entries with
  | nil => simp
  | cons first entries ih =>
      obtain ⟨k, v⟩ := first
      obtain ⟨hfirst, hentries⟩ := List.pairwise_cons.mp hascending
      rw [List.mem_cons, lookup_cons_eq_ite, ih hentries]
      by_cases hkey : key = k
      · subst hkey
        rw [if_pos rfl, Prod.mk.injEq, and_iff_right rfl, Option.some.injEq, eq_comm, or_iff_left]
        intro hrest
        exact Std.Irrefl.irrefl (r := (· < ·)) key (hfirst _ ((ih hentries).mpr hrest))
      · rw [if_neg hkey, or_iff_right fun heq => hkey (Prod.ext_iff.mp heq).1]

/-- Maps that give every key the same value are the same. -/
theorem ext_get? [Std.Irrefl (α := κ) (· < ·)] [Trans (α := κ) (· < ·) (· < ·) (· < ·)]
    {m m' : SortedMap κ ν} (h : ∀ key, m.get? key = m'.get? key) : m = m' := by
  have hnodup (m : SortedMap κ ν) : m.entries.Nodup := by
    refine List.Pairwise.imp (fun {a b} hlt => ?_) m.ascending
    rintro rfl
    exact Std.Irrefl.irrefl (r := (· < ·)) a.1 hlt
  have hperm : m.entries.Perm m'.entries :=
    (List.perm_ext_iff_of_nodup (hnodup m) (hnodup m')).mpr fun ⟨key, value⟩ => by
      rw [mem_entries_iff, mem_entries_iff, h]
  refine ext_entries (hperm.eq_of_pairwise ?_ m.ascending m'.ascending)
  intro a b _ _ hab hba
  exact (Std.Irrefl.irrefl (r := (· < ·)) _ (Trans.trans hab hba)).elim

variable [DecidableLT κ] [Std.Irrefl (α := κ) (· < ·)] [Std.Trichotomous (α := κ) (· < ·)]

theorem lookup_insertEntry (key key' : κ) (value : ν) (entries : List (κ × ν)) :
    (insertEntry key value entries).lookup key' =
      if key' = key then some value else entries.lookup key' := by
  induction entries with
  | nil => exact lookup_cons_eq_ite key' key value []
  | cons first entries ih =>
      obtain ⟨k, v⟩ := first
      unfold insertEntry
      by_cases hbefore : key < k
      · rw [if_pos hbefore, lookup_cons_eq_ite]
      · rw [if_neg hbefore]
        by_cases hafter : k < key
        · have hne : k ≠ key := fun h => Std.Irrefl.irrefl (r := (· < ·)) key (h ▸ hafter)
          rw [if_pos hafter, lookup_cons_eq_ite, lookup_cons_eq_ite, ih]
          by_cases hk : key' = k
          · rw [if_pos hk, if_pos hk, if_neg (hk ▸ hne)]
          · rw [if_neg hk, if_neg hk]
        · have heq : k = key := Std.Trichotomous.trichotomous (r := (· < ·)) k key hafter hbefore
          rw [if_neg hafter, heq, lookup_cons_eq_ite, lookup_cons_eq_ite]
          by_cases hkey : key' = key
          · rw [if_pos hkey, if_pos hkey]
          · rw [if_neg hkey, if_neg hkey, if_neg hkey]

variable [Trans (α := κ) (· < ·) (· < ·) (· < ·)]

theorem get?_insert (m : SortedMap κ ν) (key key' : κ) (value : ν) :
    (m.insert key value).get? key' = if key' = key then some value else m.get? key' :=
  lookup_insertEntry key key' value m.entries

theorem mem_of_get?_ofList {entries : List (κ × ν)} {key : κ} {value : ν}
    (h : (ofList entries).get? key = some value) : (key, value) ∈ entries := by
  induction entries using List.reverseRecOn with
  | nil => cases h
  | append_singleton entries last ih =>
      obtain ⟨k, v⟩ := last
      rw [ofList_append_singleton, get?_insert] at h
      by_cases hkey : key = k
      · rw [if_pos hkey] at h
        cases h
        exact List.mem_append_right _ (hkey ▸ List.mem_singleton_self _)
      · rw [if_neg hkey] at h
        exact List.mem_append_left _ (ih h)

theorem mem_keys_ofList {entries : List (κ × ν)} {key : κ} :
    key ∈ (ofList entries).keys ↔ key ∈ entries.map Prod.fst := by
  rw [mem_keys_iff]
  constructor
  · rintro ⟨value, hvalue⟩
    exact List.mem_map_of_mem (mem_of_get?_ofList hvalue)
  · intro h
    induction entries using List.reverseRecOn with
    | nil => cases h
    | append_singleton entries last ih =>
        obtain ⟨k, v⟩ := last
        rw [ofList_append_singleton, get?_insert]
        by_cases hkey : key = k
        · exact ⟨v, if_pos hkey⟩
        · rw [if_neg hkey]
          rw [List.map_append, List.mem_append] at h
          exact ih (h.resolve_right fun hlast => hkey (List.mem_singleton.mp hlast))

/-- Of the entries of a list with one key, the last one counts. -/
theorem get?_ofList (entries : List (κ × ν)) (key : κ) :
    (ofList entries).get? key = entries.reverse.lookup key := by
  induction entries using List.reverseRecOn with
  | nil => rfl
  | append_singleton entries last ih =>
      obtain ⟨k, v⟩ := last
      rw [ofList_append_singleton, get?_insert, ih, List.reverse_append, List.reverse_singleton,
        List.singleton_append, lookup_cons_eq_ite]

end TagQuery.SortedMap

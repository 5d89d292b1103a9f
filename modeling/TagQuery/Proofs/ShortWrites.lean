import TagQuery.Proofs.Snapshots

/-!
Saved stores that are cut off. A saved store is written piece by piece, and one that has been cut off
is not loaded, wherever it ends. So a place that is too small for a store is noticed when the store is
saved, and also when what could be saved is loaded.
-/

namespace TagQuery

open MessagePack

namespace Store

theorem load_eq_error_iff {bytes : Bytes} {e : ReadError} :
    load bytes = .error e ↔ read bytes = .error e := by
  show Except.map Prod.fst (read bytes) = .error e ↔ _
  cases read bytes <;> simp [Except.map]

/-- A store in any of its forms is not loaded where it is cut off. -/
theorem IsForm.load_take {s : Store} {pieces : List Bytes} (h : s.IsForm pieces) {k : Nat}
    (hk : k < pieces.flatten.length) :
    load (pieces.flatten.take k) =
      .error (if k ∈ starts pieces then .missingMarker else .missingData) :=
  load_eq_error_iff.mpr (h.takes.error_of_lt hk)

theorem load_take_save {s : Store} (h : s.IsStorable) {k : Nat} (hk : k < s.save.length) :
    load (s.save.take k) =
      .error (if k ∈ starts s.pieces then .missingMarker else .missingData) := by
  rw [← s.flatten_pieces] at hk ⊢
  exact (isForm_pieces h).load_take hk

theorem writePieces_eq (limit : Nat) (written : Bytes) (pieces : List Bytes)
    (hwritten : written.length ≤ limit) :
    writePieces limit written pieces =
      if (written ++ pieces.flatten).length ≤ limit then .ok (written ++ pieces.flatten)
      else .error ((written ++ pieces.flatten).take limit) := by
  induction pieces generalizing written with
  | nil => rw [writePieces, List.flatten_nil, List.append_nil, if_pos hwritten]
  | cons piece pieces ih =>
      rw [writePieces, List.flatten_cons, ← List.append_assoc]
      by_cases hfits : written.length + piece.length ≤ limit
      · rw [if_pos hfits, ih _ (by rwa [List.length_append])]
      · have hlong : limit ≤ (written ++ piece).length := by
          rw [List.length_append]
          omega
        rw [if_neg hfits, if_neg, List.take_append_of_le_length hlong]
        rw [List.length_append, List.length_append]
        omega

theorem writePieces_pieces (limit : Nat) (s : Store) :
    writePieces limit [] s.pieces =
      if s.save.length ≤ limit then .ok s.save else .error (s.save.take limit) := by
  rw [writePieces_eq limit [] s.pieces (Nat.zero_le _), List.nil_append, flatten_pieces]

/-- A place of limited size has to hold all of the bytes. -/
theorem saveWithin_eq (limit : Nat) (s : Store) :
    s.saveWithin limit = if s.save.length ≤ limit then some s.save else none := by
  rw [saveWithin, writePieces_pieces]
  split_ifs <;> rfl

end Store

/-- A saved store that is cut off is not loaded: where another of its pieces should begin a marker is
missing, and elsewhere data. In a place of limited size it is saved if there is room for all of it, and
from what is left of it otherwise no store is loaded. -/
theorem load_take_save_of_isStorable {s : Store} (h : s.IsStorable) :
    s.pieces.flatten = s.save ∧
    (∀ piece ∈ s.pieces, ∃ item, Consumes readItem piece item) ∧
    (∀ k < s.save.length, Store.load (s.save.take k) =
      .error (if k ∈ starts s.pieces then .missingMarker else .missingData)) ∧
    ∀ limit,
      s.saveWithin limit = (Store.writePieces limit [] s.pieces).toOption ∧
      ((s.saveWithin limit).isSome ↔ s.save.length ≤ limit) ∧
      (∀ bytes, Store.writePieces limit [] s.pieces = .ok bytes → bytes = s.save) ∧
      ∀ left, Store.writePieces limit [] s.pieces = .error left → ∃ e, Store.load left = .error e := by
  refine ⟨s.flatten_pieces, (Store.isForm_pieces h).takes.items, fun k => Store.load_take_save h,
    fun limit => ⟨rfl, ?_, ?_⟩⟩
  · rw [Store.saveWithin_eq]
    split_ifs with hfits <;> simp [hfits]
  · rw [Store.writePieces_pieces]
    split_ifs with hfits
    · refine ⟨?_, nofun⟩
      rintro _ ⟨⟩
      rfl
    · refine ⟨nofun, ?_⟩
      rintro _ ⟨⟩
      exact ⟨_, Store.load_take_save h (Nat.not_le.mp hfits)⟩

/-- Cut off within its counter, before its first map and within the name of its tag, and saved in a
place with room for one byte less than it has. -/
theorem load_take_save_of_one_tag :
    let s : Store :=
      { Store.empty with
        nextId := 300
        tags := .ofList [("ab", 299)]
        preferences := .ofList [(7, .hideAll)] }
    s.IsStorable ∧ s.save.length = 20 ∧
    Store.load (s.save.take 2) = .error .missingData ∧
    Store.load (s.save.take 4) = .error .missingMarker ∧
    Store.load (s.save.take 6) = .error .missingData ∧
    (s.saveWithin 20).isSome ∧ ¬ (s.saveWithin 19).isSome := by
  intro s
  have h : s.IsStorable := by decide +kernel
  have hlength : s.save.length = 20 := by decide +kernel
  have hstarts : 2 ∉ starts s.pieces ∧ 4 ∈ starts s.pieces ∧ 6 ∉ starts s.pieces := by
    decide +kernel
  obtain ⟨-, -, hload, hsave⟩ := load_take_save_of_isStorable h
  refine ⟨h, hlength, ?_, ?_, ?_, ?_, ?_⟩
  · rw [hload 2 (by omega), if_neg hstarts.1]
  · rw [hload 4 (by omega), if_pos hstarts.2.1]
  · rw [hload 6 (by omega), if_neg hstarts.2.2]
  · exact (hsave 20).2.1.mpr hlength.le
  · rw [(hsave 19).2.1, hlength]
    decide

end TagQuery

import TagQuery.Proofs.MessagePack

/-!
Where bytes end too soon. The bytes of a value are those of its pieces, each of which is one item. A
reader that takes the pieces one after another notices every end before the last: a marker is missing
between two pieces, and data within one.
-/

namespace TagQuery.MessagePack

/-- Of bytes with which the reader gives a value, a front is enough for that value or lacks data. -/
def LacksData {α : Type} (reader : Reader α) : Prop :=
  ∀ front more a rest, reader (front ++ more) = .ok (a, rest) →
    (∃ left, reader front = .ok (a, left) ∧ rest = left ++ more) ∨
      reader front = .error .missingData

namespace LacksData

variable {α β : Type} {reader : Reader α} {next : α → Reader β}

theorem pure (a : α) : LacksData (pure a : Reader α) := by
  rintro front more _ _ ⟨⟩
  exact Or.inl ⟨front, rfl, rfl⟩

theorem throw (e : ReadError) : LacksData (throw e : Reader α) :=
  nofun

theorem bind (h : LacksData reader) (hnext : ∀ a, LacksData (next a)) :
    LacksData (reader >>= next) := by
  intro front more b rest hread
  change (reader (front ++ more) >>= fun found => next found.1 found.2) = .ok (b, rest) at hread
  show (∃ left, (reader front >>= fun found => next found.1 found.2) = .ok (b, left) ∧ _) ∨
    (reader front >>= fun found => next found.1 found.2) = .error .missingData
  cases hfound : reader (front ++ more) with
  | error e =>
      rw [hfound] at hread
      cases hread
  | ok found =>
      rw [hfound] at hread
      rcases h front more found.1 found.2 hfound with ⟨left, hleft, hrest⟩ | hmissing
      · rw [hleft]
        change next found.1 found.2 = .ok (b, rest) at hread
        rw [hrest] at hread
        exact hnext found.1 left more b rest hread
      · rw [hmissing]
        exact Or.inr rfl

theorem map (h : LacksData reader) (f : α → β) : LacksData (f <$> reader) := by
  rw [map_eq_pure_bind]
  exact h.bind fun _ => .pure _

end LacksData

theorem lacksData_take (count : Nat) : LacksData (take count) := by
  intro front more a rest h
  unfold take at h ⊢
  dsimp only at h ⊢
  rcases Nat.lt_or_ge front.length count with hlt | hge
  · exact Or.inr (if_pos ((List.length_take_le' _ _).trans_lt hlt))
  · rw [List.take_append_of_le_length hge, List.drop_append_of_le_length hge] at h
    split_ifs at h ⊢ with hshort
    cases h
    exact Or.inl ⟨_, rfl, rfl⟩

theorem lacksData_takeNat (width : Nat) : LacksData (takeNat width) :=
  (lacksData_take width).bind fun _ => .pure _

theorem lacksData_takeInt (width : Nat) : LacksData (takeInt width) :=
  (lacksData_takeNat width).bind fun _ => .pure _

theorem lacksData_takeSized (width : Nat) : LacksData (takeSized width) :=
  (lacksData_takeNat width).bind lacksData_take

theorem lacksData_readMarked (marker : Nat) : LacksData (readMarked marker) := by
  unfold readMarked
  split_ifs
  · exact .pure _
  · exact .pure _
  · exact .pure _
  · exact (lacksData_take _).map _
  · exact .pure _
  · split
    all_goals first
      | exact .pure _
      | exact (lacksData_take _).map _
      | exact (lacksData_takeNat _).map _
      | exact (lacksData_takeInt _).map _
      | exact (lacksData_takeSized _).map _
      | exact .throw _

/-- A front of an item that has its marker lacks data. -/
theorem readItem_of_front {front more : Bytes} {item : Item} (hfront : front ≠ []) (hmore : more ≠ [])
    (h : Consumes readItem (front ++ more) item) : readItem front = .error .missingData := by
  cases front with
  | nil => exact (hfront rfl).elim
  | cons marker front =>
      have hall := h []
      rw [List.append_nil] at hall
      rcases lacksData_readMarked marker.toNat front more item [] hall with ⟨left, -, hrest⟩ | hmissing
      · exact (hmore (List.append_eq_nil_iff.mp hrest.symm).2).elim
      · exact hmissing

/-- Bytes that end before all of the pieces have come, and the error of one who reads the pieces. -/
inductive EndsIn : List Bytes → Bytes → ReadError → Prop where
  | before (piece : Bytes) (pieces : List Bytes) : EndsIn (piece :: pieces) [] .missingMarker
  | within {front more : Bytes} (hfront : front ≠ []) (hmore : more ≠ []) (pieces : List Bytes) :
      EndsIn ((front ++ more) :: pieces) front .missingData
  | after (piece : Bytes) {pieces : List Bytes} {bytes : Bytes} {e : ReadError}
      (h : EndsIn pieces bytes e) : EndsIn (piece :: pieces) (piece ++ bytes) e

theorem EndsIn.of_append {pieces more : List Bytes} {bytes : Bytes} {e : ReadError}
    (h : EndsIn (pieces ++ more) bytes e) :
    EndsIn pieces bytes e ∨ ∃ bytes', EndsIn more bytes' e ∧ bytes = pieces.flatten ++ bytes' := by
  induction pieces generalizing bytes with
  | nil => exact Or.inr ⟨bytes, h, rfl⟩
  | cons piece pieces ih =>
      cases h with
      | before => exact Or.inl (.before piece pieces)
      | within hfront hmore => exact Or.inl (.within hfront hmore pieces)
      | after _ h =>
          rcases ih h with hends | ⟨bytes', hends, rfl⟩
          · exact Or.inl (.after piece hends)
          · exact Or.inr ⟨bytes', hends, by rw [List.flatten_cons, List.append_assoc]⟩

/-- The reader takes the pieces, each of which is an item, one after another and gives the value. -/
structure Takes {α : Type} (reader : Reader α) (pieces : List Bytes) (a : α) : Prop where
  items : ∀ piece ∈ pieces, ∃ item, Consumes readItem piece item
  consumes : Consumes reader pieces.flatten a
  error_of_endsIn : ∀ {bytes e}, EndsIn pieces bytes e → reader bytes = .error e

namespace Takes

variable {α β : Type} {reader : Reader α} {next : α → Reader β} {front back : List Bytes} {a : α}
  {b : β}

theorem pure (a : α) : Takes (pure a : Reader α) [] a :=
  ⟨nofun, .pure a, nofun⟩

theorem lift {outcome : Except ReadError α} (h : outcome = .ok a) :
    Takes (liftM outcome : Reader α) [] a := by
  subst h
  exact .pure a

theorem item {bytes : Bytes} {item : Item} (h : Consumes readItem bytes item) :
    Takes readItem [bytes] item where
  items := List.forall_mem_singleton.mpr ⟨item, h⟩
  consumes := by rwa [List.flatten_singleton]
  error_of_endsIn := by
    intro _ _ hends
    cases hends with
    | before => rfl
    | within hfront hmore => exact readItem_of_front hfront hmore h
    | after _ hnone => cases hnone

theorem bind (h : Takes reader front a) (hnext : Takes (next a) back b) :
    Takes (reader >>= next) (front ++ back) b where
  items := List.forall_mem_append.mpr ⟨h.items, hnext.items⟩
  consumes := by
    rw [List.flatten_append]
    exact h.consumes.bind hnext.consumes
  error_of_endsIn := by
    intro bytes e hends
    show (reader bytes >>= fun found => next found.1 found.2) = .error e
    rcases hends.of_append with hfront | ⟨bytes', hback, rfl⟩
    · rw [h.error_of_endsIn hfront]
      rfl
    · rw [h.consumes]
      exact hnext.error_of_endsIn hback

theorem bind_pure (h : Takes reader front a) (hnext : next a = Pure.pure b) :
    Takes (reader >>= next) front b := by
  rw [← List.append_nil front]
  exact h.bind (hnext ▸ pure b)

end Takes

/-- After how many bytes each of the pieces begins. -/
def starts : List Bytes → List Nat
  | [] => []
  | piece :: pieces => 0 :: (starts pieces).map (piece.length + ·)

/-- A front of the bytes of some pieces ends before one of them or within one. -/
theorem endsIn_take {pieces : List Bytes} (hpieces : ∀ piece ∈ pieces, piece ≠ []) {k : Nat}
    (hk : k < pieces.flatten.length) :
    EndsIn pieces (pieces.flatten.take k)
      (if k ∈ starts pieces then .missingMarker else .missingData) := by
  induction pieces generalizing k with
  | nil => cases hk
  | cons piece pieces ih =>
      obtain ⟨hpiece, hrest⟩ := List.forall_mem_cons.mp hpieces
      have hpos := List.length_pos_iff.mpr hpiece
      rw [List.flatten_cons] at hk ⊢
      rcases Nat.lt_or_ge k piece.length with hlt | hge
      · have hstarts : k ∈ starts (piece :: pieces) ↔ k = 0 := by
          simp only [starts, List.mem_cons, List.mem_map, or_iff_left_iff_imp]
          rintro ⟨k', -, rfl⟩
          omega
        rw [List.take_append_of_le_length hlt.le]
        by_cases hzero : k = 0
        · rw [if_pos (hstarts.mpr hzero), hzero]
          exact .before piece pieces
        · rw [if_neg fun h => hzero (hstarts.mp h)]
          have hfront : piece.take k ≠ [] := by
            rw [Ne, List.take_eq_nil_iff, not_or]
            exact ⟨hzero, hpiece⟩
          have hmore : piece.drop k ≠ [] := by
            rw [Ne, List.drop_eq_nil_iff]
            omega
          have hends := EndsIn.within hfront hmore pieces
          rwa [List.take_append_drop] at hends
      · obtain ⟨k', rfl⟩ := Nat.exists_eq_add_of_le hge
        have hstarts : piece.length + k' ∈ starts (piece :: pieces) ↔ k' ∈ starts pieces := by
          simp only [starts, List.mem_cons, List.mem_map, Nat.add_left_cancel_iff, exists_eq_right]
          exact or_iff_right (by omega)
        rw [List.length_append] at hk
        rw [List.take_length_add_append]
        simp only [hstarts]
        exact .after piece (ih hrest (by omega))

/-- A reader of pieces notices where their bytes are cut off. -/
theorem Takes.error_of_lt {α : Type} {reader : Reader α} {pieces : List Bytes} {a : α}
    (h : Takes reader pieces a) {k : Nat} (hk : k < pieces.flatten.length) :
    reader (pieces.flatten.take k) =
      .error (if k ∈ starts pieces then .missingMarker else .missingData) := by
  refine h.error_of_endsIn (endsIn_take ?_ hk)
  rintro piece hpiece rfl
  obtain ⟨item, hitem⟩ := h.items _ hpiece
  cases hitem []

end TagQuery.MessagePack

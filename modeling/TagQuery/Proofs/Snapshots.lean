import TagQuery.Proofs.StoreForms

/-!
A store that is saved and loaded again is the same store, whatever follows its bytes, and so saved
stores can be told apart from one another and from what follows them. Names and maps have to be as
short as their heads can say; all that can be loaded is.
-/

namespace TagQuery

open MessagePack

namespace Visibility

theorem flatten_pieces (v : Visibility) : v.pieces.flatten = v.encode := by
  simp [pieces, encode]

theorem isForm_pieces (room : Nat) (v : Visibility) : v.IsForm room v.pieces :=
  @IsRecord.array _ _ _ [[_], [_]] (form_encodeArrayHead (show 2 < 2 ^ 32 by decide))
    (.cons (IsBool.boolean (.boolean _)) (.cons (IsBool.boolean (.boolean _)) .nil))

end Visibility

namespace Store

/-- A map of names and each of the names is as short as its head can say. -/
def NamesFit (m : SortedMap String Id) : Prop :=
  m.size < 2 ^ 32 ∧ ∀ name ∈ m.keys, (Text.utf8 name).length < 2 ^ 32

/-- The maps of a store and their names are as short as their heads can say. -/
structure IsStorable (s : Store) : Prop where
  tags : NamesFit s.tags
  aliases : NamesFit s.aliases
  preferences : s.preferences.size < 2 ^ 32

instance (m : SortedMap String Id) : Decidable (NamesFit m) :=
  inferInstanceAs (Decidable (_ ∧ _))

instance (s : Store) : Decidable s.IsStorable :=
  decidable_of_iff (NamesFit s.tags ∧ NamesFit s.aliases ∧ s.preferences.size < 2 ^ 32)
    ⟨fun ⟨tags, aliases, preferences⟩ => ⟨tags, aliases, preferences⟩,
      fun ⟨tags, aliases, preferences⟩ => ⟨tags, aliases, preferences⟩⟩

theorem flatten_pieces (s : Store) : s.pieces.flatten = s.save := by
  simp [pieces, save, namePieces, flatten_mapPieces, Visibility.flatten_pieces]

theorem isForm_pieces {s : Store} (h : s.IsStorable) : s.IsForm s.pieces := by
  have hnumber (n : UInt64) : IsNumber n [encodeNat n.toNat] := .unsigned (form_encodeNat n.toNat_lt)
  have hnames {m : SortedMap String Id} (h : NamesFit m) : IsMap IsText IsNumber m (namePieces m) :=
    isMap_mapPieces h.1 fun entry hentry =>
      ⟨.text (form_encodeText (h.2 _ (List.mem_map_of_mem hentry))), hnumber _⟩
  have hpreferences : IsMap IsNumber (Visibility.IsForm (depthLimit - 3)) s.preferences
      (mapPieces (fun user => [encodeNat user.toNat]) Visibility.pieces s.preferences.entries) :=
    isMap_mapPieces h.preferences fun entry _ => ⟨hnumber entry.1, entry.2.isForm_pieces _⟩
  exact .array (form_encodeArrayHead (show 5 < 2 ^ 32 by decide))
    (.cons (hnumber _) (.cons (hnames h.tags) (.cons (hnames h.aliases) (.cons hpreferences
      (.cons (s.anonymous.isForm_pieces _) .nil)))))

theorem consumes_read {s : Store} (h : s.IsStorable) : Consumes read s.save s := by
  rw [← s.flatten_pieces]
  exact (isForm_pieces h).takes.consumes

theorem load_save_append {s : Store} (h : s.IsStorable) (rest : Bytes) :
    load (s.save ++ rest) = .ok s :=
  load_eq_ok_iff.mpr ⟨rest, consumes_read h rest⟩

theorem load_save {s : Store} (h : s.IsStorable) : load s.save = .ok s := by
  rw [← List.append_nil s.save]
  exact load_save_append h []

/-- The fields that have been read are as short as their heads can say. -/
structure Partial.IsStorable (p : Partial) : Prop where
  tags : ∀ m, p.tags? = some m → NamesFit m
  aliases : ∀ m, p.aliases? = some m → NamesFit m
  preferences : ∀ m, p.preferences? = some m → m.size < 2 ^ 32

theorem yields_readField {field : RecordField Partial} (hfield : field ∈ format.fields)
    {p : Partial} (hp : p.IsStorable) : Yields (field.read p) Partial.IsStorable := by
  have hnames := yields_readMap readUInt64 yields_readText
  have hpreferences := fun room =>
    yields_readMap (Visibility.read room) (Yields.trivial readUInt64)
  simp only [format, List.mem_cons, List.not_mem_nil, or_false] at hfield
  rcases hfield with rfl | rfl | rfl | rfl | rfl
  · exact yields_field (Yields.trivial _) fun _ _ => ⟨hp.tags, hp.aliases, hp.preferences⟩
  · refine yields_field hnames fun m hm => ⟨?_, hp.aliases, hp.preferences⟩
    rintro _ ⟨⟩
    exact hm
  · refine yields_field hnames fun m hm => ⟨hp.tags, ?_, hp.preferences⟩
    rintro _ ⟨⟩
    exact hm
  · refine yields_field (hpreferences _) fun m hm => ⟨hp.tags, hp.aliases, ?_⟩
    rintro _ ⟨⟩
    exact hm.1
  · exact yields_field (Yields.trivial _) fun _ _ => ⟨hp.tags, hp.aliases, hp.preferences⟩

theorem yields_required {α : Type} (name : String) (value? : Option α) :
    Yields (required name value?) (value? = some ·) := by
  cases value? with
  | none => exact .throw _
  | some value => exact .pure rfl

theorem yields_read : Yields read IsStorable := by
  have hempty : ({} : Partial).IsStorable := ⟨nofun, nofun, nofun⟩
  refine (yields_readRecord (fun field hfield p hp => yields_readField hfield hp) _ hempty).bind
    fun p hp => ?_
  refine (yields_required _ _).bind fun nextId _ => ?_
  refine (yields_required _ _).bind fun tags htags => ?_
  refine (yields_required _ _).bind fun aliases haliases => ?_
  refine (yields_required _ _).bind fun preferences hpreferences => ?_
  refine (yields_required _ _).bind fun anonymous _ => .pure ?_
  exact ⟨hp.tags tags htags, hp.aliases aliases haliases, hp.preferences preferences hpreferences⟩

theorem isStorable_of_load {bytes : Bytes} {s : Store} (h : load bytes = .ok s) : s.IsStorable := by
  obtain ⟨rest, hread⟩ := load_eq_ok_iff.mp h
  exact yields_read bytes s rest hread

end Store

/-- A store whose names and maps are short enough is loaded from its bytes, whatever follows them.
Two such stores have the same bytes only if they are the same, and the bytes of none begin those of
another. All that is loaded from any bytes is short enough to be saved and loaded again. -/
theorem load_save_append_of_isStorable :
    (∀ s : Store, s.IsStorable → ∀ rest, Store.load (s.save ++ rest) = .ok s) ∧
    (∀ s s' : Store, s.IsStorable → s'.IsStorable → s.save = s'.save → s = s') ∧
    (∀ s s' : Store, s.IsStorable → s'.IsStorable → s.save <+: s'.save → s.save = s'.save) ∧
    ∀ bytes s, Store.load bytes = .ok s →
      s.IsStorable ∧ ∀ rest, Store.load (s.save ++ rest) = .ok s := by
  have hfront : ∀ s s' : Store, s.IsStorable → s'.IsStorable → s.save <+: s'.save → s = s' := by
    rintro s s' h h' ⟨rest, hrest⟩
    have hload := Store.load_save_append h rest
    rw [hrest, Store.load_save h'] at hload
    exact (Except.ok.inj hload).symm
  refine ⟨fun s => Store.load_save_append, ?_, ?_, ?_⟩
  · exact fun s s' h h' hsave => hfront s s' h h' (hsave ▸ List.prefix_rfl)
  · exact fun s s' h h' hsave => congrArg Store.save (hfront s s' h h' hsave)
  · intro bytes s h
    exact ⟨Store.isStorable_of_load h, Store.load_save_append (Store.isStorable_of_load h)⟩

/-- Names of 31, 32 and 256 bytes, each the beginning of the next, with ids of one, five and nine
bytes, and as many preferences as a short head cannot count. -/
theorem load_save_append_of_long_names :
    let name (length : Nat) := String.ofList (List.replicate length 'a')
    let s : Store :=
      { nextId := 0x100000000
        tags := .ofList [(name 31, 0x7f), (name 32, 0xffffffff), (name 256, 0xffffffffffffffff)]
        aliases := .ofList [("", 0x80)]
        preferences := .ofList ((List.range 16).map fun n => (UInt64.ofNat (n * n * n * n), .hideAll))
        anonymous := .hideAll }
    s.IsStorable ∧ Store.load (s.save ++ [0xc1]) = .ok s := by
  intro name s
  have h : s.IsStorable := by decide +kernel
  exact ⟨h, load_save_append_of_isStorable.1 s h [0xc1]⟩

end TagQuery

import Mathlib.Tactic.SplitIfs
import TagQuery.Text.Lowercase

/-!
Lower-casing a text that has been lower-cased changes nothing. A final sigma is no capital one, the
two characters of a dotted capital I are small, and no run of the table of one-to-one mappings leads
to a character that a run begins from.
-/

namespace TagQuery.Text

namespace CaseRun

/-- The code points that a run has images for. -/
def Maps (run : CaseRun) (code : Nat) : Prop :=
  run.first ≤ code ∧ code ≤ run.last ∧ (code - run.first) % run.step = 0

/-- The last image of a run. -/
def lastImage (run : CaseRun) : Nat :=
  run.image + (run.last - run.first)

/-- The images of a run lie before or behind the characters of another, or between them. -/
def misses (run other : CaseRun) : Bool :=
  Nat.blt run.lastImage other.first || Nat.blt other.last run.image ||
    ((run.first == run.last || run.step % other.step == 0) &&
      run.image % other.step != other.first % other.step)

/-- A character is no image of a run. -/
def avoids (run : CaseRun) (c : Char) : Bool :=
  Nat.blt run.lastImage c.toNat || Nat.blt c.toNat run.image

/-- The images of a run are characters, and none of them is one that the table leaves out. -/
def isSound (run : CaseRun) : Bool :=
  (Nat.blt run.lastImage 0xd800 || (Nat.blt 0xdfff run.image && Nat.blt run.lastImage 0x110000)) &&
    run.avoids 'Σ' && run.avoids 'İ'

theorem not_maps_of_misses {run other : CaseRun} {code : Nat} (h : run.misses other = true)
    (hcode : run.Maps code) : ¬ other.Maps (run.image + (code - run.first)) := by
  obtain ⟨hfirst, hlast, hstep⟩ := hcode
  rintro ⟨hfirst', hlast', hstep'⟩
  simp only [misses, lastImage, Bool.or_eq_true, Bool.and_eq_true, Nat.blt_eq, beq_iff_eq,
    bne_iff_ne] at h
  rcases h with (h | h) | ⟨hdvd, hne⟩
  · omega
  · omega
  · have hoffset : (code - run.first) % other.step = 0 := by
      rcases hdvd with heq | hdvd
      · have : code - run.first = 0 := by omega
        rw [this, Nat.zero_mod]
      · exact Nat.mod_eq_zero_of_dvd
          (Nat.dvd_trans (Nat.dvd_of_mod_eq_zero hdvd) (Nat.dvd_of_mod_eq_zero hstep))
    apply hne
    calc run.image % other.step
        = (run.image + (code - run.first)) % other.step := by
          rw [Nat.add_mod, hoffset, Nat.add_zero, Nat.mod_mod]
      _ = other.first % other.step := by
          obtain ⟨k, hk⟩ := Nat.dvd_of_mod_eq_zero hstep'
          rw [show run.image + (code - run.first) = other.first + other.step * k by omega,
            Nat.add_mul_mod_self_left]

theorem ne_of_avoids {run : CaseRun} {c d : Char} (h : run.avoids c = true)
    (hfirst : run.image ≤ d.toNat) (hlast : d.toNat ≤ run.lastImage) : d ≠ c := by
  rintro rfl
  simp only [avoids, Bool.or_eq_true, Nat.blt_eq] at h
  omega

end CaseRun

/-- No run leads to where a run begins from. -/
theorem misses_lowercaseRuns {run other : CaseRun} (h : run ∈ lowercaseRuns)
    (hother : other ∈ lowercaseRuns) : run.misses other = true := by
  have htable : (lowercaseRuns.all fun run => lowercaseRuns.all run.misses) = true := by
    decide +kernel
  exact List.all_eq_true.mp (List.all_eq_true.mp htable run h) other hother

theorem isSound_lowercaseRuns {run : CaseRun} (h : run ∈ lowercaseRuns) : run.isSound = true := by
  have htable : lowercaseRuns.all CaseRun.isSound = true := by decide +kernel
  exact List.all_eq_true.mp htable run h

theorem lowercaseCode_eq_self {code : Nat} {runs : List CaseRun} (h : ∀ run ∈ runs, ¬ run.Maps code) :
    lowercaseCode code runs = code := by
  induction runs with
  | nil => rfl
  | cons run runs ih =>
      unfold lowercaseCode
      split_ifs with hbefore hmaps
      · rfl
      · exact absurd ⟨Nat.le_of_not_lt hbefore, hmaps⟩ (h run List.mem_cons_self)
      · exact ih fun run hrun => h run (List.mem_cons_of_mem _ hrun)

theorem lowercaseCode_cases (code : Nat) (runs : List CaseRun) :
    lowercaseCode code runs = code ∨
      ∃ run ∈ runs, run.Maps code ∧ lowercaseCode code runs = run.image + (code - run.first) := by
  induction runs with
  | nil => exact Or.inl rfl
  | cons run runs ih =>
      unfold lowercaseCode
      split_ifs with hbefore hmaps
      · exact Or.inl rfl
      · exact Or.inr ⟨run, List.mem_cons_self, ⟨Nat.le_of_not_lt hbefore, hmaps⟩, rfl⟩
      · rcases ih with heq | ⟨run', hrun', hfound⟩
        · exact Or.inl heq
        · exact Or.inr ⟨run', List.mem_cons_of_mem _ hrun', hfound⟩

/-- A character that lower-casing leaves as it is, wherever it stands. -/
structure IsLower (c : Char) : Prop where
  ne_sigma : c ≠ 'Σ'
  ne_dotted : c ≠ 'İ'
  lowercaseChar_eq : lowercaseChar c = c

theorem isLower_lowercaseChar {c : Char} (hsigma : c ≠ 'Σ') (hdotted : c ≠ 'İ') :
    IsLower (lowercaseChar c) := by
  rcases lowercaseCode_cases c.toNat lowercaseRuns with heq | ⟨run, hrun, hmaps, heq⟩
  · have hsame : lowercaseChar c = c := by rw [lowercaseChar, heq, Char.ofNat_toNat]
    rw [hsame]
    exact ⟨hsigma, hdotted, hsame⟩
  · have hfree : ∀ other ∈ lowercaseRuns, ¬ other.Maps (run.image + (c.toNat - run.first)) :=
      fun other hother => CaseRun.not_maps_of_misses (misses_lowercaseRuns hrun hother) hmaps
    have hlast : run.image + (c.toNat - run.first) ≤ run.lastImage :=
      Nat.add_le_add_left (Nat.sub_le_sub_right hmaps.2.1 _) _
    have hsound := isSound_lowercaseRuns hrun
    simp only [CaseRun.isSound, Bool.and_eq_true, Bool.or_eq_true, Nat.blt_eq] at hsound
    obtain ⟨⟨hchar, hsigma'⟩, hdotted'⟩ := hsound
    have hvalid : (run.image + (c.toNat - run.first)).isValidChar := by
      rcases hchar with hlow | ⟨hhigh, htop⟩
      · left
        omega
      · right
        omega
    have htoNat : (lowercaseChar c).toNat = run.image + (c.toNat - run.first) := by
      rw [lowercaseChar, heq, Char.ofNat, dif_pos hvalid]
      exact UInt32.toNat_ofNatLT
    rw [← htoNat] at hfree hlast
    have hfirst : run.image ≤ (lowercaseChar c).toNat := htoNat ▸ Nat.le_add_right _ _
    refine ⟨CaseRun.ne_of_avoids hsigma' hfirst hlast, CaseRun.ne_of_avoids hdotted' hfirst hlast, ?_⟩
    show Char.ofNat (lowercaseCode (lowercaseChar c).toNat lowercaseRuns) = lowercaseChar c
    rw [lowercaseCode_eq_self hfree, Char.ofNat_toNat]

theorem isLower_of_mem_lowercaseAt {before after : List Char} {c d : Char}
    (h : d ∈ lowercaseAt before c after) : IsLower d := by
  unfold lowercaseAt at h
  split_ifs at h with hsigma hfinal hdotted
  · cases List.mem_singleton.mp h
    exact ⟨by decide, by decide, by decide⟩
  · cases List.mem_singleton.mp h
    exact ⟨by decide, by decide, by decide⟩
  · simp only [List.mem_cons, List.not_mem_nil, or_false] at h
    rcases h with rfl | rfl
    · exact ⟨by decide, by decide, by decide⟩
    · exact ⟨by decide, by decide, by decide⟩
  · cases List.mem_singleton.mp h
    exact isLower_lowercaseChar hsigma hdotted

theorem isLower_of_mem_lowercaseFrom {before cs : List Char} {d : Char}
    (h : d ∈ lowercaseFrom before cs) : IsLower d := by
  induction cs generalizing before with
  | nil => cases h
  | cons c after ih =>
      rw [lowercaseFrom, List.mem_append] at h
      rcases h with h | h
      · exact isLower_of_mem_lowercaseAt h
      · exact ih h

theorem lowercaseAt_of_isLower {c : Char} (h : IsLower c) (before after : List Char) :
    lowercaseAt before c after = [c] := by
  rw [lowercaseAt, if_neg h.ne_sigma, if_neg h.ne_dotted, h.lowercaseChar_eq]

theorem lowercaseFrom_of_isLower {cs : List Char} (h : ∀ c ∈ cs, IsLower c) (before : List Char) :
    lowercaseFrom before cs = cs := by
  induction cs generalizing before with
  | nil => rfl
  | cons c after ih =>
      rw [lowercaseFrom, lowercaseAt_of_isLower (h c List.mem_cons_self),
        ih fun d hd => h d (List.mem_cons_of_mem _ hd), List.singleton_append]

@[simp] theorem lowercase_lowercase (s : String) : lowercase (lowercase s) = lowercase s := by
  unfold lowercase
  rw [String.toList_ofList, lowercaseFrom_of_isLower fun _ => isLower_of_mem_lowercaseFrom]

/-- A dotted capital I and both small sigmas. -/
example : lowercase "İΣΑΣ" = "i̇σας" := by decide +kernel

end TagQuery.Text

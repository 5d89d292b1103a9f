import TagQuery.Proofs.Lookups
import TagQuery.Proofs.Seams
import TagQuery.Text.Lowercase

/-!
Texts in large and small letters. A text and its lower-case form are cut into tokens alike, of the
same kinds and at the same places. So are two texts that differ in the case of letters alone, and a
token is the same in both if none of its letters differs.
-/

namespace TagQuery

open Text

namespace Text

/-- What is the same for each capital letter and its small letter is the same for a character and
its lower-case form. -/
theorem apply_toLower {α : Type} {f : Char → α}
    (h : ∀ n < 26, f (Char.ofNat (65 + n)).toLower = f (Char.ofNat (65 + n))) (c : Char) :
    f c.toLower = f c := by
  by_cases hcapital : 65 ≤ c.toNat ∧ c.toNat ≤ 90
  · have hletter := h (c.toNat - 65) (by omega)
    rwa [Nat.add_sub_cancel' hcapital.1, Char.ofNat_toNat] at hletter
  · have hsame : c.toLower = c := by
      unfold Char.toLower
      apply dif_neg
      simpa [UInt32.le_iff_toNat_le] using hcapital
    rw [hsame]

theorem toLower_iff {p : Char → Prop} [DecidablePred p]
    (h : ∀ n < 26, p (Char.ofNat (65 + n)).toLower ↔ p (Char.ofNat (65 + n))) (c : Char) :
    p c.toLower ↔ p c :=
  decide_eq_decide.mp (apply_toLower (f := fun c => decide (p c))
    (fun n hn => decide_eq_decide.mpr (h n hn)) c)

@[simp] theorem utf8Size_toLower (c : Char) : c.toLower.utf8Size = c.utf8Size :=
  apply_toLower (by decide) c

@[simp] theorem isWhiteSpace_toLower (c : Char) : isWhiteSpace c.toLower = isWhiteSpace c :=
  apply_toLower (by decide) c

@[simp] theorem isCased_toLower (c : Char) : isCased c.toLower = isCased c :=
  apply_toLower (by decide) c

@[simp] theorem isCaseIgnorable_toLower (c : Char) :
    isCaseIgnorable c.toLower = isCaseIgnorable c :=
  apply_toLower (by decide) c

@[simp] theorem lowercaseChar_toLower (c : Char) : lowercaseChar c.toLower = lowercaseChar c :=
  apply_toLower (by decide) c

@[simp] theorem casedAhead_map_toLower (cs : List Char) :
    casedAhead (cs.map Char.toLower) = casedAhead cs := by
  have hignorable : isCaseIgnorable ∘ Char.toLower = isCaseIgnorable := by
    funext c
    simp
  unfold casedAhead
  rw [List.dropWhile_map, hignorable, List.head?_map, Option.map_map]
  congr 2
  funext c
  simp

theorem lowercaseAt_toLower (before : List Char) (c : Char) (after : List Char) :
    lowercaseAt (before.map Char.toLower) c.toLower (after.map Char.toLower) =
      lowercaseAt before c after := by
  have hsigma : c.toLower = 'Σ' ↔ c = 'Σ' := toLower_iff (p := (· = 'Σ')) (by decide) c
  have hdotted : c.toLower = 'İ' ↔ c = 'İ' := toLower_iff (p := (· = 'İ')) (by decide) c
  simp only [lowercaseAt, hsigma, hdotted, casedAhead_map_toLower, lowercaseChar_toLower]

theorem lowercaseFrom_map_toLower (before cs : List Char) :
    lowercaseFrom (before.map Char.toLower) (cs.map Char.toLower) = lowercaseFrom before cs := by
  induction cs generalizing before with
  | nil => rfl
  | cons c after ih =>
      rw [List.map_cons, lowercaseFrom, lowercaseFrom, lowercaseAt_toLower, ← List.map_cons, ih]

theorem toList_toLower (s : String) : s.toLower.toList = s.toList.map Char.toLower :=
  String.toList_map

theorem toLower_ofList (cs : List Char) :
    (String.ofList cs).toLower = String.ofList (cs.map Char.toLower) := by
  rw [← String.toList_inj, toList_toLower, String.toList_ofList, String.toList_ofList]

/-- Full lower-casing makes no difference between ASCII letters in one case and in the other. -/
theorem lowercase_toLower (s : String) : lowercase s.toLower = lowercase s := by
  rw [lowercase, toList_toLower]
  exact congrArg String.ofList (lowercaseFrom_map_toLower [] s.toList)

theorem lowercase_eq_of_toLower_eq {s s' : String} (h : s.toLower = s'.toLower) :
    lowercase s = lowercase s' := by
  rw [← lowercase_toLower s, h, lowercase_toLower]

@[simp] theorem utf8Length_map_toLower (cs : List Char) :
    utf8Length (cs.map Char.toLower) = utf8Length cs := by
  induction cs with
  | nil => rfl
  | cons c cs ih => rw [List.map_cons, utf8Length_cons, utf8Length_cons, utf8Size_toLower, ih]

end Text

theorem mem_separators_toLower (c : Char) : c.toLower ∈ separators ↔ c ∈ separators :=
  toLower_iff (p := (· ∈ separators)) (by decide) c

theorem mem_operatorChars_toLower (c : Char) : c.toLower ∈ operatorChars ↔ c ∈ operatorChars :=
  toLower_iff (p := (· ∈ operatorChars)) (by decide) c

/-- A token with its value in small letters. -/
def Token.lowered (t : Token) : Token :=
  { t with value := t.value.toLower }

theorem Token.lowered_eq_iff {t t' : Token} : t'.lowered = t.lowered ↔
    t'.kind = t.kind ∧ t'.value.toLower = t.value.toLower ∧ t'.position = t.position := by
  simp [Token.lowered]

theorem Token.lowered_endAt (position : Nat) : (Token.endAt position).lowered = .endAt position :=
  congrArg (Token.mk .endOfQuery · position) (show "".toLower = "" by decide +kernel)

theorem TokenKind.Admits.toLower {kind : TokenKind} {value : String} (h : kind.Admits value) :
    kind.Admits value.toLower := by
  cases kind with
  | word =>
      obtain ⟨c, cs, hvalue, hdash, hchars⟩ := h
      refine ⟨c.toLower, cs.map Char.toLower, ?_, ?_, ?_⟩
      · rw [toList_toLower, hvalue, List.map_cons]
      · exact mt (toLower_iff (p := (· = '-')) (by decide) c).mp hdash
      · rw [← List.map_cons, List.forall_mem_map]
        intro d hd
        rw [isWhiteSpace_toLower, mem_separators_toLower]
        exact hchars d hd
  | operator =>
      obtain ⟨c, hc, rfl⟩ := h
      refine ⟨c.toLower, (mem_operatorChars_toLower c).mpr hc, ?_⟩
      rw [← String.toList_inj, toList_toLower, String.toList_singleton, String.toList_singleton]
      rfl
  | implied => exact h
  | _ =>
      rw [show value = _ from h, TokenKind.Admits]
      decide +kernel

theorem Token.CanFollow.lowered {t : Token} {afterColon : Prop} (h : t.CanFollow afterColon) :
    t.lowered.CanFollow afterColon := by
  refine ⟨h.1, fun hword hcolon c hc => ?_⟩
  rw [Token.lowered, toList_toLower, List.head?_map] at hc
  obtain ⟨d, hd, rfl⟩ := Option.map_eq_some_iff.mp hc
  rw [mem_operatorChars_toLower]
  exact h.2 hword hcolon d hd

theorem isWhiteSpace_of_mem_map_toLower {space : List Char}
    (h : ∀ c ∈ space, isWhiteSpace c = true) :
    ∀ c ∈ space.map Char.toLower, isWhiteSpace c = true := by
  simpa using h

theorem Lexeme.Fits.lowered {kind : TokenKind} {text rest : List Char} {afterColon : Bool}
    (h : (⟨kind, text, rest⟩ : Lexeme).Fits afterColon) :
    (⟨kind, text.map Char.toLower, rest.map Char.toLower⟩ : Lexeme).Fits afterColon where
  kind_ne := h.kind_ne
  admitted := by
    rw [← toLower_ofList]
    exact h.admitted.toLower
  canFollow position := by
    rw [← toLower_ofList]
    exact (h.canFollow position).lowered
  maximal hword c hc := by
    rw [List.head?_map] at hc
    obtain ⟨d, hd, rfl⟩ := Option.map_eq_some_iff.mp hc
    rw [isWhiteSpace_toLower, mem_separators_toLower]
    exact h.maximal hword d hd

theorem Layout.lowered {start : Nat} {afterColon : Bool} {text : List Char} {tokens : List Token}
    (h : Layout start afterColon text tokens) :
    Layout start afterColon (text.map Char.toLower) (tokens.map Token.lowered) := by
  induction h with
  | @finish start afterColon space hspace =>
      rw [List.map_singleton, Token.lowered_endAt, ← utf8Length_map_toLower space]
      exact .finish (isWhiteSpace_of_mem_map_toLower hspace)
  | @token start afterColon space lexeme tokens hspace hfits _ ih =>
      rw [← utf8Length_map_toLower space, ← utf8Length_map_toLower lexeme.text] at ih
      rw [List.map_append, List.map_append, List.map_cons, Token.lowered, toLower_ofList,
        ← utf8Length_map_toLower space]
      exact .token (isWhiteSpace_of_mem_map_toLower hspace) hfits.lowered ih

/-- The tokens of a text in small letters are the tokens of the text in small letters. -/
theorem tokenize_toLower (text : String) :
    tokenize text.toLower = (tokenize text).map Token.lowered := by
  rw [← String.ofList_toList (s := text.toLower)]
  apply tokenize_ofList
  rw [toList_toLower]
  exact (layout_tokenize text).lowered

/-! ### Texts that differ in the case of letters -/

/-- The first text with some of its letters in the other case, all of them at offsets that are free
for this. The texts begin at an offset of their own. -/
inductive Recased (free : Nat → Prop) : Nat → List Char → List Char → Prop
  | nil {start : Nat} : Recased free start [] []
  | cons {start : Nat} {c c' : Char} {cs cs' : List Char}
      (hchar : c' = c ∨ free start ∧ c'.toLower = c.toLower)
      (hrest : Recased free (start + c.utf8Size) cs cs') :
      Recased free start (c :: cs) (c' :: cs')

namespace Recased

variable {free : Nat → Prop} {start : Nat} {text text' front front' back back' : List Char}

theorem cons_iff {c c' : Char} :
    Recased free start (c :: text) (c' :: text') ↔
      (c' = c ∨ free start ∧ c'.toLower = c.toLower) ∧
        Recased free (start + c.utf8Size) text text' := by
  constructor
  · rintro (_ | ⟨hchar, hrest⟩)
    exact ⟨hchar, hrest⟩
  · exact fun h => .cons h.1 h.2

instance decidable [DecidablePred free] :
    ∀ (start : Nat) (text text' : List Char), Decidable (Recased free start text text')
  | _, [], [] => isTrue .nil
  | _, [], _ :: _ => isFalse nofun
  | _, _ :: _, [] => isFalse nofun
  | start, c :: text, _ :: text' =>
    have := decidable (start + c.utf8Size) text text'
    decidable_of_iff _ cons_iff.symm

theorem map_toLower_eq (h : Recased free start text text') :
    text'.map Char.toLower = text.map Char.toLower := by
  induction h with
  | nil => rfl
  | cons hchar _ ih =>
      rw [List.map_cons, List.map_cons, ih]
      rcases hchar with rfl | ⟨-, hletter⟩
      · rfl
      · rw [hletter]

/-- Behind beginnings that are as long, the texts differ in case as they do as a whole. -/
theorem of_append (h : Recased free start (front ++ back) (front' ++ back'))
    (hlength : utf8Length front' = utf8Length front) :
    Recased free (start + utf8Length front) back back' := by
  induction front generalizing start front' with
  | nil =>
      obtain rfl := utf8Length_eq_zero hlength
      exact h
  | cons c front ih =>
      cases front' with
      | nil => cases (utf8Length_eq_zero hlength.symm)
      | cons c' front' =>
          cases h with
          | cons hchar hrest =>
              have hsize : c'.utf8Size = c.utf8Size := by
                rcases hchar with rfl | ⟨-, hletter⟩
                · rfl
                · rw [← utf8Size_toLower c', hletter, utf8Size_toLower]
              rw [utf8Length_cons, utf8Length_cons, hsize] at hlength
              rw [utf8Length_cons, ← Nat.add_assoc]
              exact ih hrest (by omega)

/-- Where no offset is free, the texts are the same. -/
theorem eq_of_not_free (h : Recased free start (front ++ back) (front' ++ back'))
    (hlength : front'.length = front.length)
    (hfree : ∀ offset, start ≤ offset → offset < start + utf8Length front → ¬free offset) :
    front' = front := by
  induction front generalizing start front' with
  | nil => exact List.eq_nil_of_length_eq_zero hlength
  | cons c front ih =>
      cases front' with
      | nil => cases hlength
      | cons c' front' =>
          have hsize := c.utf8Size_pos
          rw [utf8Length_cons] at hfree
          cases h with
          | cons hchar hrest =>
              have hc : c' = c := hchar.resolve_right fun hletter =>
                hfree start (Nat.le_refl _) (by omega) hletter.1
              have hfront : front' = front := by
                apply ih hrest (Nat.succ.inj hlength)
                intro offset hlow hhigh
                exact hfree offset (by omega) (by omega)
              rw [hc, hfront]

end Recased

section

variable {free : Nat → Prop} {text text' : String}
  (h : Recased free 0 text.toList text'.toList)

include h

theorem Recased.map_lowered_tokenize_eq :
    (tokenize text').map Token.lowered = (tokenize text).map Token.lowered := by
  have hlower : text'.toLower = text.toLower := by
    rw [← String.toList_inj, toList_toLower, toList_toLower, h.map_toLower_eq]
  rw [← tokenize_toLower, ← tokenize_toLower, hlower]

/-- A token with no letter that is free to differ is a token of both texts. -/
theorem Recased.token_eq {t t' : Token} (ht : t ∈ tokenize text) (ht' : t' ∈ tokenize text')
    (hlowered : t'.lowered = t.lowered)
    (hfree : ∀ offset, t.position ≤ offset → offset < t.stop → ¬free offset) : t' = t := by
  obtain ⟨kind, value, position⟩ := t
  obtain ⟨kind', value', position'⟩ := t'
  obtain ⟨rfl, hvalue, rfl⟩ := Token.mk.inj hlowered
  obtain ⟨before, after, htext, hbefore⟩ := (isTokenization_tokenize text).literal _ ht
  obtain ⟨before', after', htext', hbefore'⟩ := (isTokenization_tokenize text').literal _ ht'
  have hlength : value'.toList.length = value.toList.length := by
    have hchars := congrArg String.toList hvalue
    rw [toList_toLower, toList_toLower] at hchars
    simpa only [List.length_map] using congrArg List.length hchars
  rw [htext, htext', List.append_assoc, List.append_assoc] at h
  have hsame : value'.toList = value.toList := by
    have hfront : utf8Length before' = utf8Length before :=
      Nat.add_left_cancel (hbefore'.trans hbefore.symm)
    apply (h.of_append hfront).eq_of_not_free hlength
    intro offset hlow hhigh
    rw [hbefore] at hlow hhigh
    rw [utf8Length_toList] at hhigh
    exact hfree offset hlow hhigh
  rw [String.toList_inj.mp hsame]

/-- The tokens of both texts are the same but for case, each to each. -/
theorem Recased.forall₂_tokenize :
    List.Forall₂ (fun t t' => t'.lowered = t.lowered ∧
        ((∀ offset, t.position ≤ offset → offset < t.stop → ¬free offset) → t' = t))
      (tokenize text) (tokenize text') := by
  have hlowered : List.Forall₂ (fun t t' => t'.lowered = t.lowered) (tokenize text)
      (tokenize text') := by
    have hmap := h.map_lowered_tokenize_eq.symm
    rw [← List.forall₂_eq_eq_eq, List.forall₂_map_left_iff, List.forall₂_map_right_iff] at hmap
    exact hmap.imp fun _ _ => Eq.symm
  exact forall₂_imp_of_mem hlowered fun t ht t' ht' hsame => ⟨hsame, h.token_eq ht ht' hsame⟩

end

end TagQuery

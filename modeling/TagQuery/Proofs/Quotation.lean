import TagQuery.Proofs.Placeholders

/-!
Numbers and quoted texts are told apart from what follows them. The digits of a number end where a
character follows that is no digit, and a quotation ends at the first quote that is not escaped,
whatever the text in it and whatever follows it.
-/

namespace TagQuery

open Predicate

theorem append_inj_of_head {p : Char → Bool} {text text' rest rest' : List Char}
    (htext : ∀ c ∈ text, p c) (htext' : ∀ c ∈ text', p c) (hrest : ∀ c ∈ rest.head?, ¬p c)
    (hrest' : ∀ c ∈ rest'.head?, ¬p c) (h : text ++ rest = text' ++ rest') :
    text = text' ∧ rest = rest' := by
  have htaken := congrArg (List.takeWhile p) h
  rw [takeWhile_append_of_head htext hrest, takeWhile_append_of_head htext' hrest'] at htaken
  rw [htaken] at h
  exact ⟨htaken, List.append_cancel_left h⟩

theorem repr_append_inj {m n : Nat} {rest rest' : List Char} (hrest : BeginsApart rest)
    (hrest' : BeginsApart rest')
    (h : (Nat.repr m).toList ++ rest = (Nat.repr n).toList ++ rest') : m = n ∧ rest = rest' := by
  obtain ⟨hdigits, hsame⟩ := append_inj_of_head (fun _ => isDigit_of_mem_repr)
    (fun _ => isDigit_of_mem_repr) hrest hrest' h
  exact ⟨Nat.repr_inj.mp (String.toList_inj.mp hdigits), hsame⟩

theorem Predicate.placeholder_append_inj {m n : Nat} {rest rest' : List Char}
    (hrest : BeginsApart rest) (hrest' : BeginsApart rest')
    (h : (placeholder m).toList ++ rest = (placeholder n).toList ++ rest') :
    m = n ∧ rest = rest' := by
  rw [toList_placeholder, toList_placeholder] at h
  obtain ⟨hnumber, hsame⟩ := repr_append_inj hrest hrest' (List.cons.inj h).2
  exact ⟨Nat.succ.inj hnumber, hsame⟩

namespace Text

theorem digitChar_inj {m n : Nat} (hm : m < 16) (hn : n < 16)
    (h : Nat.digitChar m = Nat.digitChar n) : m = n := by
  have hall : ∀ a b : Fin 16, Nat.digitChar a = Nat.digitChar b → a = b := by decide
  exact congrArg Fin.val (hall ⟨m, hm⟩ ⟨n, hn⟩ h)

theorem hexDigits_injective : Function.Injective hexDigits := by
  intro m
  induction m using Nat.strong_induction_on with
  | _ m ih =>
      intro n h
      rw [hexDigits, hexDigits, Nat.toDigits_eq_if (by decide),
        Nat.toDigits_eq_if (n := n) (by decide)] at h
      split at h <;> split at h
      next hm hn => exact digitChar_inj hm hn (List.singleton_inj.mp h)
      next => exact absurd (List.append_eq_singleton_iff.mp h.symm) (by simp [Nat.toDigits_ne_nil])
      next => exact absurd (List.append_eq_singleton_iff.mp h) (by simp [Nat.toDigits_ne_nil])
      next =>
        obtain ⟨hfront, hlast⟩ := List.append_inj' h rfl
        have hdiv := ih (m / 16) (Nat.div_lt_self (by omega) (by decide)) hfront
        have hmod := digitChar_inj (Nat.mod_lt m (by decide)) (Nat.mod_lt n (by decide))
          (List.singleton_inj.mp hlast)
        omega

/-- The characters that a letter after a backslash stands for. -/
def shortEscapes : List (Char × Char) :=
  [('\x00', '0'), ('\t', 't'), ('\n', 'n'), ('\r', 'r'), ('"', '"'), ('\\', '\\')]

/-- How characters are written between quotes. -/
inductive WrittenAs (c : Char) : List Char → Prop
  | shown (hquote : c ≠ '"') (hbackslash : c ≠ '\\') : WrittenAs c [c]
  | short (letter : Char) (hletter : (c, letter) ∈ shortEscapes) : WrittenAs c ['\\', letter]
  | byCode : WrittenAs c (['\\', 'u', '\x7b'] ++ hexDigits c.toNat ++ ['\x7d'])

theorem writtenAs_quotedChar (c : Char) : WrittenAs c (quotedChar c) := by
  unfold quotedChar
  split
  case h_7 hquote hbackslash =>
    split
    · exact .byCode
    · exact .shown hquote hbackslash
  all_goals exact .short _ (by decide)

theorem shortEscapes_injective {c c' letter : Char} (h : (c, letter) ∈ shortEscapes)
    (h' : (c', letter) ∈ shortEscapes) : c = c' := by
  have hall : ∀ e ∈ shortEscapes, ∀ e' ∈ shortEscapes, e.2 = e'.2 → e.1 = e'.1 := by decide
  exact hall _ h _ h' rfl

theorem ne_of_mem_shortEscapes {c letter : Char} (h : (c, letter) ∈ shortEscapes) :
    letter ≠ 'u' := by
  have hall : ∀ e ∈ shortEscapes, e.2 ≠ 'u' := by decide
  exact hall _ h

/-- What stands for a character is told from what follows it. -/
theorem WrittenAs.append_inj {c c' : Char} {chars chars' rest rest' : List Char}
    (hc : WrittenAs c chars) (hc' : WrittenAs c' chars') (h : chars ++ rest = chars' ++ rest') :
    c = c' ∧ rest = rest' := by
  have beforeClosing (c : Char) : ∀ digit ∈ hexDigits c.toNat, digit != '\x7d' := by
    intro digit hdigit
    exact bne_iff_ne.mpr (ne_of_mem_of_not_mem hdigit (not_mem_hexDigits (by decide) _))
  cases hc with
  | shown hquote hbackslash =>
      cases hc' with
      | shown => exact List.cons.inj h
      | short | byCode => exact absurd (List.cons.inj h).1 hbackslash
  | short letter hletter =>
      cases hc' with
      | shown _ hbackslash => exact absurd (List.cons.inj h).1.symm hbackslash
      | short letter' hletter' =>
          obtain ⟨rfl, hrest⟩ := List.cons.inj (List.cons.inj h).2
          exact ⟨shortEscapes_injective hletter hletter', hrest⟩
      | byCode =>
          exact absurd (List.cons.inj (List.cons.inj h).2).1 (ne_of_mem_shortEscapes hletter)
  | byCode =>
      cases hc' with
      | shown _ hbackslash => exact absurd (List.cons.inj h).1.symm hbackslash
      | short letter' hletter' =>
          exact absurd (List.cons.inj (List.cons.inj h).2).1.symm (ne_of_mem_shortEscapes hletter')
      | byCode =>
          simp only [List.append_assoc, List.append_cancel_left_eq, List.singleton_append] at h
          obtain ⟨hcode, hrest⟩ := append_inj_of_head (beforeClosing c) (beforeClosing c') (by simp)
            (by simp) h
          exact ⟨Char.toNat_inj.mp (hexDigits_injective hcode), (List.cons.inj hrest).2⟩

theorem WrittenAs.head_ne_quote {c : Char} {chars : List Char} (hc : WrittenAs c chars)
    (rest more : List Char) : chars ++ rest ≠ '"' :: more := by
  intro h
  cases hc with
  | shown hquote => exact hquote (List.cons.inj h).1
  | short | byCode => exact absurd (List.cons.inj h).1 (by decide)

/-- The first quote that no character wrote is the closing one. -/
theorem flatMap_quotedChar_append_inj {chars chars' rest rest' : List Char}
    (h : chars.flatMap quotedChar ++ '"' :: rest = chars'.flatMap quotedChar ++ '"' :: rest') :
    chars = chars' ∧ rest = rest' := by
  induction chars generalizing chars' with
  | nil =>
      cases chars' with
      | nil => exact ⟨rfl, (List.cons.inj h).2⟩
      | cons c' chars' =>
          rw [List.flatMap_cons, List.append_assoc] at h
          exact absurd h.symm ((writtenAs_quotedChar c').head_ne_quote _ _)
  | cons c chars ih =>
      rw [List.flatMap_cons, List.append_assoc] at h
      cases chars' with
      | nil => exact absurd h ((writtenAs_quotedChar c).head_ne_quote _ _)
      | cons c' chars' =>
          rw [List.flatMap_cons, List.append_assoc] at h
          obtain ⟨rfl, hmore⟩ := (writtenAs_quotedChar c).append_inj (writtenAs_quotedChar c') h
          obtain ⟨rfl, hrest⟩ := ih hmore
          exact ⟨rfl, hrest⟩

theorem quoted_append_inj {s s' rest rest' : String}
    (h : quoted s ++ rest = quoted s' ++ rest') : s = s' ∧ rest = rest' := by
  have hchars := congrArg String.toList h
  simp only [quoted, String.toList_append, String.toList_ofList, List.append_assoc,
    List.cons_append, List.cons.injEq, true_and] at hchars
  obtain ⟨htext, hrest⟩ := flatMap_quotedChar_append_inj hchars
  exact ⟨String.toList_inj.mp htext, String.toList_inj.mp hrest⟩

theorem quoted_injective : Function.Injective quoted := fun _ _ h =>
  (quoted_append_inj (congrArg (· ++ "") h)).1

end Text

end TagQuery

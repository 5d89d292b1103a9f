import Mathlib.Data.List.TakeWhile
import TagQuery.Token.Scanner

/-!
The tokens of a query, said without the scanner. `IsTokenization` lists the rules that relate each
token to the text at its place and to the token before it. The scanner's tokens obey the rules, and
no other list does. Between the rules and the scanner stands `Layout`, which takes the text apart
token by token.
-/

namespace TagQuery

open Text

/-- The characters that end a word wherever they stand. -/
def separators : List Char :=
  ['\x7b', '~', '\x7d', ':']

def operatorChars : List Char :=
  ['>', '<', '=', '!']

/-- A part of a text stands at an offset in bytes, counted on from the offset of the text. -/
def StandsAt (start : Nat) (text part : List Char) (offset : Nat) : Prop :=
  ∃ before after, text = before ++ part ++ after ∧ start + utf8Length before = offset

/-- The values that tokens of a kind can have. A word begins with no symbol and holds no separator
and no white space; no token of a query is implied. -/
def TokenKind.Admits : TokenKind → String → Prop
  | .word, value => ∃ c cs, value.toList = c :: cs ∧ c ≠ '-' ∧
      ∀ d ∈ c :: cs, isWhiteSpace d = false ∧ d ∉ separators
  | .orStart, value => value = "\x7b"
  | .orContinue, value => value = "~"
  | .orEnd, value => value = "\x7d"
  | .negation, value => value = "-"
  | .colon, value => value = ":"
  | .operator, value => ∃ c ∈ operatorChars, value = String.singleton c
  | .endOfQuery, value => value = ""
  | .implied, _ => False

/-- Whether the last of some tokens is a colon. Where there are none, the answer is given. -/
def EndsInColon (afterColon : Bool) (tokens : List Token) : Prop :=
  match tokens.getLast? with
  | some token => token.kind = .colon
  | none => afterColon = true

/-- A token can follow others: an operator only a colon, and a word that follows a colon does not
begin with an operator. -/
def Token.CanFollow (t : Token) (afterColon : Prop) : Prop :=
  (t.kind = .operator → afterColon) ∧
    (t.kind = .word → afterColon → ∀ c ∈ t.value.toList.head?, c ∉ operatorChars)

/-- The rules for the tokens of a text that begins at some offset, perhaps after a colon. -/
structure TokensOf (start : Nat) (afterColon : Bool) (text : List Char) (tokens : List Token) :
    Prop where
  /-- The last token and no other is the end of the query, at the end of the text. -/
  ending : ∃ body, tokens = body ++ [Token.endAt (start + utf8Length text)] ∧
    ∀ t ∈ body, t.kind ≠ .endOfQuery
  nonempty : ∀ t ∈ tokens, t.kind ≠ .endOfQuery → t.value ≠ ""
  ordered : tokens.Pairwise fun a b => a.stop ≤ b.position
  literal : ∀ t ∈ tokens, StandsAt start text t.value.toList t.position
  /-- What no token covers is white space. -/
  covered : ∀ c offset, StandsAt start text [c] offset →
    isWhiteSpace c = true ∨ ∃ t ∈ tokens, t.position ≤ offset ∧ offset < t.stop
  admitted : ∀ t ∈ tokens, t.kind.Admits t.value
  /-- A word runs on until the text ends or a character follows that cannot be in it. -/
  maximal : ∀ t ∈ tokens, t.kind = .word → ∀ c, StandsAt start text [c] t.stop →
    isWhiteSpace c = true ∨ c ∈ separators
  following : ∀ before t after, tokens = before ++ t :: after →
    t.CanFollow (EndsInColon afterColon before)

/-- The rules for the tokens of a query. -/
def IsTokenization (query : String) (tokens : List Token) : Prop :=
  TokensOf 0 false query.toList tokens

theorem StandsAt.bounds {start offset : Nat} {text part : List Char}
    (h : StandsAt start text part offset) :
    start ≤ offset ∧ offset + utf8Length part ≤ start + utf8Length text := by
  obtain ⟨before, after, rfl, rfl⟩ := h
  simp only [utf8Length_append]
  omega

theorem StandsAt.mem {start offset : Nat} {text : List Char} {c : Char}
    (h : StandsAt start text [c] offset) : c ∈ text := by
  obtain ⟨before, after, rfl, -⟩ := h
  simp

/-- A character of two texts in a row stands in the first or in the second. -/
theorem standsAt_append {start offset : Nat} {xs ys : List Char} {c : Char} :
    StandsAt start (xs ++ ys) [c] offset ↔
      StandsAt start xs [c] offset ∨ StandsAt (start + utf8Length xs) ys [c] offset := by
  constructor
  · rintro ⟨before, after, htext, rfl⟩
    rw [List.append_assoc, List.append_eq_append_iff] at htext
    rcases htext with ⟨mid, rfl, rfl⟩ | ⟨mid, rfl, hmid⟩
    · right
      exact ⟨mid, after, by simp, by rw [utf8Length_append]; omega⟩
    · cases mid with
      | nil =>
          right
          exact ⟨[], after, by simpa using hmid.symm, by simp⟩
      | cons d mid =>
          left
          rw [List.singleton_append, List.cons_append] at hmid
          obtain ⟨rfl, rfl⟩ := List.cons.inj hmid
          exact ⟨before, mid, by simp, rfl⟩
  · rintro (⟨before, after, rfl, rfl⟩ | ⟨before, after, rfl, rfl⟩)
    · exact ⟨before, after ++ ys, by simp, rfl⟩
    · exact ⟨xs ++ before, after, by simp, by rw [utf8Length_append]; omega⟩

/-- A part that stands behind a beginning of the text stands in the remainder. -/
theorem StandsAt.of_append {start offset : Nat} {xs ys part : List Char}
    (h : StandsAt start (xs ++ ys) part offset) (hoffset : start + utf8Length xs ≤ offset) :
    StandsAt (start + utf8Length xs) ys part offset := by
  obtain ⟨before, after, htext, rfl⟩ := h
  rw [List.append_assoc, List.append_eq_append_iff] at htext
  rcases htext with ⟨mid, rfl, rfl⟩ | ⟨mid, rfl, hmid⟩
  · exact ⟨mid, after, by simp, by rw [utf8Length_append]; omega⟩
  · rw [utf8Length_append] at hoffset
    have hnil : mid = [] := utf8Length_eq_zero (by omega)
    subst hnil
    exact ⟨[], after, by simpa using hmid.symm, by simp⟩

theorem StandsAt.append_left {start offset : Nat} {ys part : List Char} (xs : List Char)
    (h : StandsAt (start + utf8Length xs) ys part offset) :
    StandsAt start (xs ++ ys) part offset := by
  obtain ⟨before, after, rfl, rfl⟩ := h
  exact ⟨xs ++ before, after, by simp, by rw [utf8Length_append]; omega⟩

/-- A token that fits between what precedes it and the text that is left behind it. -/
structure Lexeme.Fits (lexeme : Lexeme) (afterColon : Bool) : Prop where
  kind_ne : lexeme.kind ≠ .endOfQuery
  admitted : lexeme.kind.Admits (String.ofList lexeme.text)
  canFollow : ∀ position,
    Token.CanFollow ⟨lexeme.kind, String.ofList lexeme.text, position⟩ (afterColon = true)
  maximal : lexeme.kind = .word → ∀ c ∈ lexeme.rest.head?, isWhiteSpace c = true ∨ c ∈ separators

/-- A text taken apart into tokens and the white space between them. -/
inductive Layout : Nat → Bool → List Char → List Token → Prop
  | finish {start : Nat} {afterColon : Bool} {space : List Char}
      (hspace : ∀ c ∈ space, isWhiteSpace c = true) :
      Layout start afterColon space [Token.endAt (start + utf8Length space)]
  | token {start : Nat} {afterColon : Bool} {space : List Char} {lexeme : Lexeme}
      {tokens : List Token} (hspace : ∀ c ∈ space, isWhiteSpace c = true)
      (hfits : lexeme.Fits afterColon)
      (hrest : Layout (start + utf8Length space + utf8Length lexeme.text) (lexeme.kind = .colon)
        lexeme.rest tokens) :
      Layout start afterColon (space ++ (lexeme.text ++ lexeme.rest))
        (⟨lexeme.kind, String.ofList lexeme.text, start + utf8Length space⟩ :: tokens)

theorem TokenKind.Admits.ne_empty {kind : TokenKind} {value : String} (h : kind.Admits value)
    (hkind : kind ≠ .endOfQuery) : value ≠ "" := by
  intro hvalue
  subst hvalue
  cases kind with
  | word =>
      obtain ⟨c, cs, hcs, -⟩ := h
      simp at hcs
  | operator =>
      obtain ⟨c, -, hc⟩ := h
      have hlist := congrArg String.toList hc
      simp at hlist
  | endOfQuery => exact hkind rfl
  | implied => exact h
  | _ => simp [TokenKind.Admits] at h

theorem endsInColon_nil (afterColon : Bool) : EndsInColon afterColon [] ↔ afterColon = true :=
  Iff.rfl

theorem endsInColon_cons (afterColon : Bool) (t : Token) (before : List Token) :
    EndsInColon afterColon (t :: before) ↔ EndsInColon (t.kind = .colon) before := by
  unfold EndsInColon
  cases hlast : before.getLast? with
  | none =>
      rw [List.getLast?_eq_none_iff.mp hlast]
      simp
  | some last => simp [List.getLast?_cons, hlast]

theorem TokensOf.finish {start : Nat} {afterColon : Bool} {space : List Char}
    (hspace : ∀ c ∈ space, isWhiteSpace c = true) :
    TokensOf start afterColon space [Token.endAt (start + utf8Length space)] where
  ending := ⟨[], rfl, by simp⟩
  nonempty t ht hkind := by
    rw [List.mem_singleton.mp ht] at hkind
    exact absurd rfl hkind
  ordered := List.pairwise_singleton _ _
  literal t ht := by
    rw [List.mem_singleton.mp ht]
    exact ⟨space, [], by simp [Token.endAt], rfl⟩
  covered c offset hc := Or.inl (hspace c hc.mem)
  admitted t ht := by
    rw [List.mem_singleton.mp ht]
    exact (rfl : "" = "")
  maximal t ht hkind := by
    rw [List.mem_singleton.mp ht] at hkind
    cases hkind
  following before t after hsplit := by
    have ht : t ∈ [Token.endAt (start + utf8Length space)] := by simp [hsplit]
    rw [List.mem_singleton.mp ht]
    exact ⟨fun h => (TokenKind.noConfusion h), fun h => (TokenKind.noConfusion h)⟩

/-- In white space, a part and a rest, a character is white space, or it lies within the part, or it
stands in the rest. -/
theorem StandsAt.cases_of_append {start offset : Nat} {space part rest : List Char} {c : Char}
    (hspace : ∀ d ∈ space, isWhiteSpace d = true)
    (h : StandsAt start (space ++ (part ++ rest)) [c] offset) :
    isWhiteSpace c = true ∨
      (start + utf8Length space ≤ offset ∧
        offset < start + utf8Length space + utf8Length part) ∨
      StandsAt (start + utf8Length space + utf8Length part) rest [c] offset := by
  rcases standsAt_append.mp h with hc | hc
  · exact Or.inl (hspace c hc.mem)
  · rcases standsAt_append.mp hc with hc | hc
    · have hbounds := hc.bounds
      have hsize := c.utf8Size_pos
      simp only [utf8Length_cons, utf8Length_nil] at hbounds
      exact Or.inr (Or.inl ⟨hbounds.1, by omega⟩)
    · exact Or.inr (Or.inr hc)

/-- A token in front of a text that obeys the rules. -/
theorem TokensOf.token {start : Nat} {afterColon : Bool} {space : List Char} {lexeme : Lexeme}
    {tokens : List Token} (hspace : ∀ c ∈ space, isWhiteSpace c = true)
    (hfits : lexeme.Fits afterColon)
    (h : TokensOf (start + utf8Length space + utf8Length lexeme.text) (lexeme.kind = .colon)
      lexeme.rest tokens) :
    TokensOf start afterColon (space ++ (lexeme.text ++ lexeme.rest))
      (⟨lexeme.kind, String.ofList lexeme.text, start + utf8Length space⟩ :: tokens) := by
  set token : Token := ⟨lexeme.kind, String.ofList lexeme.text, start + utf8Length space⟩
    with htoken
  have hstop : token.stop = start + utf8Length space + utf8Length lexeme.text := by
    rw [htoken, Token.stop, utf8ByteSize_ofList]
  have hplaces : ∀ t ∈ tokens, StandsAt start (space ++ (lexeme.text ++ lexeme.rest))
      t.value.toList t.position := by
    intro t ht
    exact ((h.literal t ht).append_left _).append_left _
  have hafter : ∀ t ∈ tokens, token.stop ≤ t.position := by
    intro t ht
    rw [hstop]
    exact (h.literal t ht).bounds.1
  have hbehind : ∀ c offset, token.stop ≤ offset →
      StandsAt start (space ++ (lexeme.text ++ lexeme.rest)) [c] offset →
      StandsAt token.stop lexeme.rest [c] offset := by
    intro c offset hoffset hc
    rw [hstop] at hoffset ⊢
    exact (hc.of_append (by omega)).of_append hoffset
  rw [← hstop] at h
  constructor
  · obtain ⟨body, hbody, hkinds⟩ := h.ending
    refine ⟨token :: body, ?_, ?_⟩
    · rw [hbody, hstop]
      simp only [utf8Length_append, List.cons_append, ← Nat.add_assoc]
    · intro t ht
      rcases List.mem_cons.mp ht with rfl | ht
      · exact hfits.kind_ne
      · exact hkinds t ht
  · intro t ht hkind
    rcases List.mem_cons.mp ht with rfl | ht
    · exact hfits.admitted.ne_empty hkind
    · exact h.nonempty t ht hkind
  · exact List.pairwise_cons.mpr ⟨hafter, h.ordered⟩
  · intro t ht
    rcases List.mem_cons.mp ht with rfl | ht
    · exact ⟨space, lexeme.rest, by simp [htoken], rfl⟩
    · exact hplaces t ht
  · intro c offset hc
    rcases hc.cases_of_append hspace with hwhite | hwithin | hc
    · exact Or.inl hwhite
    · rw [← hstop] at hwithin
      exact Or.inr ⟨token, List.mem_cons_self, hwithin⟩
    · rw [← hstop] at hc
      rcases h.covered c offset hc with hwhite | ⟨t, ht, hcover⟩
      · exact Or.inl hwhite
      · exact Or.inr ⟨t, List.mem_cons_of_mem _ ht, hcover⟩
  · intro t ht
    rcases List.mem_cons.mp ht with rfl | ht
    · exact hfits.admitted
    · exact h.admitted t ht
  · intro t ht hword c hc
    rcases List.mem_cons.mp ht with rfl | ht
    · obtain ⟨before, after, hrest, hlength⟩ := hbehind c _ (Nat.le_refl _) hc
      have hnil : before = [] := utf8Length_eq_zero (by omega)
      subst hnil
      exact hfits.maximal hword c (by simp [hrest])
    · have hlate := hafter t ht
      exact h.maximal t ht hword c (hbehind c _ (by unfold Token.stop at *; omega) hc)
  · intro before t after hsplit
    cases before with
    | nil =>
        obtain ⟨rfl, rfl⟩ := List.cons.inj hsplit
        exact hfits.canFollow _
    | cons first before =>
        obtain ⟨hfirst, htail⟩ := List.cons.inj hsplit
        rw [← hfirst, endsInColon_cons]
        exact h.following before t after htail

theorem Layout.tokensOf {start : Nat} {afterColon : Bool} {text : List Char} {tokens : List Token}
    (h : Layout start afterColon text tokens) : TokensOf start afterColon text tokens := by
  induction h with
  | finish hspace => exact .finish hspace
  | token hspace hfits _ ih => exact .token hspace hfits ih

/-! ### A text that obeys the rules is laid out -/

section Inverse

variable {start : Nat} {afterColon : Bool} {text : List Char} {t : Token} {tokens : List Token}

/-- Before the first token stands white space. -/
theorem TokensOf.isWhiteSpace_before (h : TokensOf start afterColon text (t :: tokens))
    {before after : List Char} (htext : text = before ++ after)
    (hbefore : start + utf8Length before ≤ t.position) :
    ∀ c ∈ before, isWhiteSpace c = true := by
  intro c hc
  obtain ⟨left, right, rfl⟩ := List.append_of_mem hc
  have hsize := c.utf8Size_pos
  simp only [utf8Length_append, utf8Length_cons] at hbefore
  rcases h.covered c (start + utf8Length left) ⟨left, right ++ after, by simp [htext], rfl⟩ with
    hwhite | ⟨t', ht', hlow, -⟩
  · exact hwhite
  · rcases List.mem_cons.mp ht' with rfl | ht'
    · omega
    · have hordered := (List.pairwise_cons.mp h.ordered).1 t' ht'
      unfold Token.stop at hordered
      omega

theorem TokensOf.fits (h : TokensOf start afterColon text (t :: tokens))
    (hkind : t.kind ≠ .endOfQuery) {before after : List Char}
    (htext : text = before ++ t.value.toList ++ after)
    (hbefore : start + utf8Length before = t.position) :
    (⟨t.kind, t.value.toList, after⟩ : Lexeme).Fits afterColon where
  kind_ne := hkind
  admitted := by
    rw [String.ofList_toList]
    exact h.admitted t List.mem_cons_self
  canFollow position := by
    have hfollow := h.following [] t tokens rfl
    rw [endsInColon_nil] at hfollow
    rw [String.ofList_toList]
    exact hfollow
  maximal hword c hc := by
    obtain ⟨rest, hrest : after = c :: rest⟩ := List.head?_eq_some_iff.mp hc
    refine h.maximal t List.mem_cons_self hword c ⟨before ++ t.value.toList, rest, ?_, ?_⟩
    · simp [htext, hrest]
    · rw [utf8Length_append, utf8Length_toList, Token.stop]
      omega

/-- The tokens behind the first obey the rules of the text behind it. -/
theorem TokensOf.tail (h : TokensOf start afterColon text (t :: tokens))
    (hkind : t.kind ≠ .endOfQuery) {before after : List Char}
    (htext : text = before ++ t.value.toList ++ after)
    (hbefore : start + utf8Length before = t.position) :
    TokensOf t.stop (t.kind = .colon) after tokens := by
  have hstop : start + utf8Length (before ++ t.value.toList) = t.stop := by
    rw [utf8Length_append, utf8Length_toList, Token.stop]
    omega
  have hordered := List.pairwise_cons.mp h.ordered
  have hplace : ∀ {part offset}, StandsAt t.stop after part offset →
      StandsAt start text part offset := by
    intro part offset hpart
    rw [htext]
    rw [← hstop] at hpart
    exact hpart.append_left _
  constructor
  · obtain ⟨body, hbody, hkinds⟩ := h.ending
    cases body with
    | nil =>
        rw [(List.cons.inj hbody).1] at hkind
        exact absurd rfl hkind
    | cons first body =>
        rw [List.cons_append] at hbody
        refine ⟨body, ?_, fun t' ht' => hkinds t' (List.mem_cons_of_mem _ ht')⟩
        rw [(List.cons.inj hbody).2, ← hstop, htext]
        simp only [utf8Length_append, Nat.add_assoc]
  · exact fun t' ht' => h.nonempty t' (List.mem_cons_of_mem _ ht')
  · exact hordered.2
  · intro t' ht'
    have hplaced := h.literal t' (List.mem_cons_of_mem _ ht')
    rw [htext] at hplaced
    rw [← hstop]
    refine hplaced.of_append ?_
    rw [hstop]
    exact hordered.1 t' ht'
  · intro c offset hc
    rcases h.covered c offset (hplace hc) with hwhite | ⟨t', ht', hcover⟩
    · exact Or.inl hwhite
    · rcases List.mem_cons.mp ht' with rfl | ht'
      · have hlow := hc.bounds.1
        omega
      · exact Or.inr ⟨t', ht', hcover⟩
  · exact fun t' ht' => h.admitted t' (List.mem_cons_of_mem _ ht')
  · exact fun t' ht' hword c hc => h.maximal t' (List.mem_cons_of_mem _ ht') hword c (hplace hc)
  · intro front t' back hsplit
    rw [← endsInColon_cons]
    exact h.following (t :: front) t' back (by rw [hsplit, List.cons_append])

end Inverse

theorem TokensOf.layout {start : Nat} {afterColon : Bool} {text : List Char} {tokens : List Token}
    (h : TokensOf start afterColon text tokens) : Layout start afterColon text tokens := by
  induction tokens generalizing start afterColon text with
  | nil =>
      obtain ⟨body, hbody, -⟩ := h.ending
      simp at hbody
  | cons t tokens ih =>
      by_cases hkind : t.kind = .endOfQuery
      · obtain ⟨body, hbody, hkinds⟩ := h.ending
        cases body with
        | nil =>
            obtain ⟨rfl, rfl⟩ := List.cons.inj hbody
            exact .finish (h.isWhiteSpace_before (List.append_nil text).symm (Nat.le_refl _))
        | cons first body =>
            rw [(List.cons.inj hbody).1] at hkind
            exact absurd hkind (hkinds first List.mem_cons_self)
      · obtain ⟨before, after, htext, hbefore⟩ := h.literal t List.mem_cons_self
        have hspace : ∀ c ∈ before, isWhiteSpace c = true :=
          h.isWhiteSpace_before (htext.trans (List.append_assoc ..)) (Nat.le_of_eq hbefore)
        have htail := ih (h.tail hkind htext hbefore)
        rw [Token.stop, ← utf8Length_toList, ← hbefore] at htail
        have hlayout := Layout.token hspace (h.fits hkind htext hbefore) htail
        rw [String.ofList_toList, hbefore] at hlayout
        rw [htext, List.append_assoc]
        exact hlayout

theorem isWordChar_iff (c : Char) :
    isWordChar c = true ↔ isWhiteSpace c = false ∧ c ∉ separators := by
  simp [isWordChar, separators, and_assoc]

theorem isOperatorChar_iff (c : Char) : isOperatorChar c = true ↔ c ∈ operatorChars := by
  simp [isOperatorChar, operatorChars, or_assoc]

theorem symbolKind?_eq_none_iff (c : Char) : symbolKind? c = none ↔ c ≠ '-' ∧ c ∉ separators := by
  unfold symbolKind?
  split <;> simp_all [separators]

/-- A symbol is a token of its kind and no word, operator or end. -/
theorem symbolKind?_eq_some {c : Char} {kind : TokenKind} (h : symbolKind? c = some kind) :
    kind.Admits (String.ofList [c]) ∧ kind ≠ .endOfQuery ∧ kind ≠ .operator ∧ kind ≠ .word := by
  unfold symbolKind? at h
  split at h <;> cases h <;> exact ⟨rfl, by decide, by decide, by decide⟩

/-- What begins with a character that is not white space is read as a token that fits. -/
theorem Lexeme.fits_read (afterColon : Bool) {c : Char} {cs : List Char}
    (hc : isWhiteSpace c = false) : (read afterColon c cs).Fits afterColon := by
  unfold read
  split
  next hoperator =>
    rw [Bool.and_eq_true, isOperatorChar_iff] at hoperator
    exact ⟨nofun, ⟨c, hoperator.2, rfl⟩, fun _ => ⟨fun _ => hoperator.1, nofun⟩, nofun⟩
  next hoperator =>
    split
    next kind hkind =>
      obtain ⟨hadmits, hend, hop, hword⟩ := symbolKind?_eq_some hkind
      exact ⟨hend, hadmits, fun _ => ⟨fun h => absurd h hop, fun h => absurd h hword⟩,
        fun h => absurd h hword⟩
    next hkind =>
      obtain ⟨hdash, hseparator⟩ := (symbolKind?_eq_none_iff c).mp hkind
      refine ⟨nofun, ⟨c, cs.takeWhile isWordChar, String.toList_ofList, hdash, ?_⟩, ?_, ?_⟩
      · intro d hd
        rcases List.mem_cons.mp hd with rfl | hd
        · exact ⟨hc, hseparator⟩
        · exact (isWordChar_iff d).mp (List.mem_takeWhile_imp hd)
      · intro position
        refine ⟨nofun, fun _ hcolon d hd => ?_⟩
        rw [String.toList_ofList, List.head?_cons, Option.mem_some_iff] at hd
        rw [← hd, ← isOperatorChar_iff]
        intro hop
        exact hoperator (by rw [hcolon, hop]; rfl)
      · intro _ d hd
        have hstop := List.head?_dropWhile_not isWordChar cs
        simp only [Option.mem_def] at hd
        rw [hd] at hstop
        by_contra hnot
        rw [not_or] at hnot
        have hwordChar := (isWordChar_iff d).mpr ⟨by simpa using hnot.1, hnot.2⟩
        simp [hwordChar] at hstop

theorem eq_toList_of_ofList_eq {cs : List Char} {s : String} (h : String.ofList cs = s) :
    cs = s.toList := by
  rw [← h, String.toList_ofList]

namespace TokenKind.Admits

variable {kind : TokenKind} {c : Char} {cs : List Char}

theorem word_cons (h : TokenKind.word.Admits (String.ofList (c :: cs))) :
    c ≠ '-' ∧ ∀ d ∈ c :: cs, isWhiteSpace d = false ∧ d ∉ separators := by
  obtain ⟨d, ds, hlist, hdash, hchars⟩ := h
  rw [String.toList_ofList] at hlist
  rw [hlist]
  exact ⟨(List.cons.inj hlist).1 ▸ hdash, hchars⟩

theorem operator_cons (h : TokenKind.operator.Admits (String.ofList (c :: cs))) :
    c ∈ operatorChars ∧ cs = [] := by
  obtain ⟨d, hd, hvalue⟩ := h
  have hlist := eq_toList_of_ofList_eq hvalue
  rw [String.toList_singleton] at hlist
  obtain ⟨rfl, rfl⟩ := List.cons.inj hlist
  exact ⟨hd, rfl⟩

theorem symbol_cons (h : kind.Admits (String.ofList (c :: cs))) (hword : kind ≠ .word)
    (hoperator : kind ≠ .operator) :
    cs = [] ∧ symbolKind? c = some kind ∧ isOperatorChar c = false ∧ isWhiteSpace c = false := by
  cases kind with
  | word => exact absurd rfl hword
  | operator => exact absurd rfl hoperator
  | endOfQuery => cases eq_toList_of_ofList_eq h
  | implied => exact h.elim
  | _ =>
      obtain ⟨rfl, rfl⟩ := List.cons.inj (eq_toList_of_ofList_eq h)
      exact ⟨rfl, rfl, rfl, rfl⟩

theorem isWhiteSpace_head (h : kind.Admits (String.ofList (c :: cs))) : isWhiteSpace c = false := by
  by_cases hword : kind = .word
  · subst hword
    exact (h.word_cons.2 c List.mem_cons_self).1
  · by_cases hoperator : kind = .operator
    · subst hoperator
      have hc : c ∈ operatorChars := h.operator_cons.1
      simp only [operatorChars, List.mem_cons, List.not_mem_nil, or_false] at hc
      rcases hc with rfl | rfl | rfl | rfl <;> rfl
    · exact (h.symbol_cons hword hoperator).2.2.2

end TokenKind.Admits

namespace Lexeme.Fits

variable {kind : TokenKind} {afterColon : Bool} {c : Char} {cs rest : List Char}

/-- What follows a word is no part of it. -/
theorem rest_of_word (h : (⟨.word, c :: cs, rest⟩ : Lexeme).Fits afterColon) :
    rest.takeWhile isWordChar = [] ∧ rest.dropWhile isWordChar = rest := by
  cases rest with
  | nil => exact ⟨rfl, rfl⟩
  | cons d rest =>
      have hstop : isWordChar d = false := by
        by_contra hd
        rw [Bool.not_eq_false, isWordChar_iff] at hd
        rcases h.maximal rfl d rfl with hwhite | hseparator
        · rw [hd.1] at hwhite
          cases hwhite
        · exact hd.2 hseparator
      simp [hstop]

theorem read_eq_word (h : (⟨.word, c :: cs, rest⟩ : Lexeme).Fits afterColon) :
    Lexeme.read afterColon c (cs ++ rest) = ⟨.word, c :: cs, rest⟩ := by
  obtain ⟨hdash, hchars⟩ := h.admitted.word_cons
  have hoperator : (afterColon && isOperatorChar c) = false := by
    by_contra hop
    rw [Bool.not_eq_false, Bool.and_eq_true, isOperatorChar_iff] at hop
    exact (h.canFollow 0).2 rfl hop.1 c (by rw [String.toList_ofList]; rfl) hop.2
  have hsymbol : symbolKind? c = none :=
    (symbolKind?_eq_none_iff c).mpr ⟨hdash, (hchars c List.mem_cons_self).2⟩
  have hcs : ∀ d ∈ cs, isWordChar d = true :=
    fun d hd => (isWordChar_iff d).mpr (hchars d (List.mem_cons_of_mem _ hd))
  unfold Lexeme.read
  rw [if_neg (by rw [hoperator]; exact Bool.false_ne_true), hsymbol]
  simp only [List.takeWhile_append_of_pos hcs, List.dropWhile_append_of_pos hcs, h.rest_of_word,
    List.append_nil]

theorem read_eq_operator (h : (⟨.operator, c :: cs, rest⟩ : Lexeme).Fits afterColon) :
    Lexeme.read afterColon c (cs ++ rest) = ⟨.operator, c :: cs, rest⟩ := by
  obtain ⟨hc, rfl⟩ := h.admitted.operator_cons
  have hoperator : (afterColon && isOperatorChar c) = true := by
    rw [(h.canFollow 0).1 rfl, (isOperatorChar_iff c).mpr hc]
    rfl
  unfold Lexeme.read
  rw [if_pos hoperator]
  rfl

theorem read_eq_symbol (h : (⟨kind, c :: cs, rest⟩ : Lexeme).Fits afterColon)
    (hword : kind ≠ .word) (hoperator : kind ≠ .operator) :
    Lexeme.read afterColon c (cs ++ rest) = ⟨kind, c :: cs, rest⟩ := by
  obtain ⟨rfl, hkind, hchar, -⟩ := h.admitted.symbol_cons hword hoperator
  unfold Lexeme.read
  rw [if_neg (by simp [hchar]), hkind]
  rfl

theorem read_eq (h : (⟨kind, c :: cs, rest⟩ : Lexeme).Fits afterColon) :
    Lexeme.read afterColon c (cs ++ rest) = ⟨kind, c :: cs, rest⟩ := by
  by_cases hword : kind = .word
  · subst hword
    exact h.read_eq_word
  · by_cases hoperator : kind = .operator
    · subst hoperator
      exact h.read_eq_operator
    · exact h.read_eq_symbol hword hoperator

end Lexeme.Fits

theorem Scanner.tokens_of_next {s s' : Scanner} {t : Token} (h : s.next = some (t, s')) :
    s.tokens = t :: s'.tokens := by
  rw [tokens]
  split
  next hnone =>
    rw [h] at hnone
    cases hnone
  next t' s'' hsome =>
    rw [h] at hsome
    cases hsome
    rfl

theorem Scanner.tokens_finished {s : Scanner} (h : s.finished = true) : s.tokens = [] := by
  rw [tokens]
  split
  next => rfl
  next t s' hsome => simp [next, h] at hsome

section Steps

variable {s : Scanner} (h : s.finished = false)

include h

theorem Scanner.next_eq_end (hrest : s.rest.dropWhile isWhiteSpace = []) :
    s.next = some (Token.endAt (s.position + utf8Length (s.rest.takeWhile isWhiteSpace)),
      ⟨[], s.position + utf8Length (s.rest.takeWhile isWhiteSpace), false, true⟩) := by
  simp only [next, h, hrest, Bool.false_eq_true, if_false]

theorem Scanner.next_eq_token {c : Char} {cs : List Char} {lexeme : Lexeme}
    (hrest : s.rest.dropWhile isWhiteSpace = c :: cs)
    (hread : Lexeme.read s.afterColon c cs = lexeme) :
    s.next = some
      (⟨lexeme.kind, String.ofList lexeme.text,
          s.position + utf8Length (s.rest.takeWhile isWhiteSpace)⟩,
        ⟨lexeme.rest, s.position + utf8Length (s.rest.takeWhile isWhiteSpace) +
          utf8Length lexeme.text, lexeme.kind = .colon, false⟩) := by
  simp only [next, h, hrest, hread, Bool.false_eq_true, if_false]

end Steps

/-- The state of a scan, with the tokens that are left, is a layout of the text that is left. -/
theorem Scanner.layout_tokens (s : Scanner) (h : s.finished = false) :
    Layout s.position s.afterColon s.rest s.tokens := by
  induction hsize : s.remaining using Nat.strong_induction_on generalizing s with
  | _ size ih =>
      have hspace : ∀ c ∈ s.rest.takeWhile isWhiteSpace, isWhiteSpace c = true :=
        fun c hc => List.mem_takeWhile_imp hc
      have hsplit := List.takeWhile_append_dropWhile (p := isWhiteSpace) (l := s.rest)
      cases hrest : s.rest.dropWhile isWhiteSpace with
      | nil =>
          rw [tokens_of_next (next_eq_end h hrest), tokens_finished rfl]
          rw [hrest, List.append_nil] at hsplit
          rw [hsplit] at hspace ⊢
          exact .finish hspace
      | cons c cs =>
          have hc : isWhiteSpace c = false := by
            have hstop := List.head?_dropWhile_not isWhiteSpace s.rest
            rw [hrest] at hstop
            exact hstop
          have hnext := next_eq_token h hrest rfl
          have htail := ih _ (hsize ▸ remaining_next_lt hnext) _ rfl rfl
          have hlayout := Layout.token hspace (Lexeme.fits_read s.afterColon hc) htail
          rw [Lexeme.text_append_rest, ← hrest, hsplit] at hlayout
          rw [tokens_of_next hnext]
          exact hlayout

/-- A text is laid out in one way, which is the scanner's. -/
theorem Layout.tokens_eq {start : Nat} {afterColon : Bool} {text : List Char}
    {tokens : List Token} (h : Layout start afterColon text tokens) :
    (⟨text, start, afterColon, false⟩ : Scanner).tokens = tokens := by
  induction h with
  | finish hspace =>
      rw [Scanner.tokens_of_next
        (Scanner.next_eq_end rfl (List.dropWhile_eq_nil_iff.mpr hspace)),
        Scanner.tokens_finished rfl, List.takeWhile_eq_self_iff.mpr hspace]
  | @token start afterColon space lexeme tokens hspace hfits hrest ih =>
      obtain ⟨kind, text, rest⟩ := lexeme
      cases text with
      | nil => exact absurd rfl (hfits.admitted.ne_empty hfits.kind_ne)
      | cons c cs =>
          have hc : isWhiteSpace c = false := hfits.admitted.isWhiteSpace_head
          have htake : (space ++ (c :: cs ++ rest)).takeWhile isWhiteSpace = space := by
            rw [List.takeWhile_append_of_pos hspace]
            simp [hc]
          have hdrop : (space ++ (c :: cs ++ rest)).dropWhile isWhiteSpace = c :: (cs ++ rest) := by
            rw [List.dropWhile_append_of_pos hspace]
            simp [hc]
          rw [Scanner.tokens_of_next (Scanner.next_eq_token rfl hdrop hfits.read_eq), htake, ih]

/-- The tokens of a query obey the rules. -/
theorem isTokenization_tokenize (query : String) : IsTokenization query (tokenize query) :=
  (Scanner.layout_tokens (Scanner.ofQuery query) rfl).tokensOf

/-- A list of tokens obeys the rules for a query exactly if the query is cut into these tokens. -/
theorem isTokenization_iff (query : String) (tokens : List Token) :
    IsTokenization query tokens ↔ tokens = tokenize query := by
  constructor
  · intro h
    exact h.layout.tokens_eq.symm
  · rintro rfl
    exact isTokenization_tokenize query

end TagQuery

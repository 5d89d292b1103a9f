import TagQuery.Proofs.Spacing

/-!
Texts put together at the end of a token, and taken apart there. The tokens of the second text are
those that it has where it begins, in the state in which the first text leaves the scan. Where a
text begins makes no difference to its tokens but for their places.
-/

namespace TagQuery

open Text

/-- The offset where the last of some tokens stops, or else where the text begins. -/
def stopAfter (start : Nat) (tokens : List Token) : Nat :=
  (tokens.getLast?.map Token.stop).getD start

/-- Whether a colon comes last, or else came before. -/
def colonAfter (afterColon : Bool) (tokens : List Token) : Bool :=
  (tokens.getLast?.map fun t => decide (t.kind = .colon)).getD afterColon

theorem map_getLast?_cons_getD {α β : Type} (f : α → β) (x : α) (xs : List α) (y : β) :
    ((x :: xs).getLast?.map f).getD y = (xs.getLast?.map f).getD (f x) := by
  cases hlast : xs.getLast? with
  | none =>
      rw [List.getLast?_eq_none_iff.mp hlast]
      rfl
  | some last => simp [List.getLast?_cons, hlast]

theorem stopAfter_cons (start : Nat) (t : Token) (tokens : List Token) :
    stopAfter start (t :: tokens) = stopAfter t.stop tokens :=
  map_getLast?_cons_getD Token.stop t tokens start

theorem colonAfter_cons (afterColon : Bool) (t : Token) (tokens : List Token) :
    colonAfter afterColon (t :: tokens) = colonAfter (t.kind = .colon) tokens :=
  map_getLast?_cons_getD _ t tokens afterColon

/-- Where the last of some tokens is a word, a text ends it. -/
def EndsWord (tokens : List Token) (rest : List Char) : Prop :=
  ∀ t ∈ tokens.getLast?, t.kind = .word → ∀ c ∈ rest.head?, isWhiteSpace c = true ∨ c ∈ separators

theorem EndsWord.tail {t : Token} {tokens : List Token} {rest : List Char}
    (h : EndsWord (t :: tokens) rest) : EndsWord tokens rest := by
  intro last hlast
  refine h last ?_
  rw [List.getLast?_cons, Option.mem_def.mp hlast]
  rfl

theorem isWhiteSpace_of_mem_nil : ∀ c ∈ ([] : List Char), isWhiteSpace c = true :=
  nofun

theorem Lexeme.Fits.isWhiteSpace_head {kind : TokenKind} {text rest : List Char}
    {afterColon : Bool} (h : (⟨kind, text, rest⟩ : Lexeme).Fits afterColon) :
    ∀ c ∈ (text ++ rest).head?, isWhiteSpace c = false := by
  cases text with
  | nil => exact absurd rfl (h.admitted.ne_empty h.kind_ne)
  | cons d text =>
      rintro c ⟨⟩
      exact h.admitted.isWhiteSpace_head

/-- The white space in front of a text is told from the text by where it ends. -/
theorem white_append_inj {space space' rest rest' : List Char}
    (hspace : ∀ c ∈ space, isWhiteSpace c = true) (hspace' : ∀ c ∈ space', isWhiteSpace c = true)
    (hrest : ∀ c ∈ rest.head?, isWhiteSpace c = false)
    (hrest' : ∀ c ∈ rest'.head?, isWhiteSpace c = false) (h : space ++ rest = space' ++ rest') :
    rest = rest' := by
  have hdrop {text : List Char} (htext : ∀ c ∈ text.head?, isWhiteSpace c = false) :
      text.dropWhile isWhiteSpace = text := by
    cases text with
    | nil => rfl
    | cons c text => exact List.dropWhile_cons_of_neg (by simp [htext c rfl])
  have hdropped := congrArg (List.dropWhile isWhiteSpace) h
  rwa [List.dropWhile_append_of_pos hspace, List.dropWhile_append_of_pos hspace', hdrop hrest,
    hdrop hrest'] at hdropped

namespace Layout

variable {start stop : Nat} {afterColon : Bool} {text before rest : List Char}
  {tokens front back : List Token}

theorem exists_layout (start : Nat) (afterColon : Bool) (text : List Char) :
    ∃ tokens, Layout start afterColon text tokens :=
  ⟨_, Scanner.layout_tokens ⟨text, start, afterColon, false⟩ rfl⟩

theorem ne_nil (h : Layout start afterColon text tokens) : tokens ≠ [] := by
  cases h <;> exact List.cons_ne_nil _ _

theorem of_singleton {t : Token} (h : Layout start afterColon text [t]) :
    (∀ c ∈ text, isWhiteSpace c = true) ∧ t = Token.endAt (start + utf8Length text) := by
  cases h with
  | finish hspace => exact ⟨hspace, rfl⟩
  | token _ _ hrest => exact absurd rfl hrest.ne_nil

/-- A token that others follow stands behind white space, and the others behind it. -/
theorem of_cons {t : Token} (h : Layout start afterColon text (t :: tokens)) (hne : tokens ≠ []) :
    ∃ space rest, text = space ++ (t.value.toList ++ rest) ∧
      (∀ c ∈ space, isWhiteSpace c = true) ∧ start + utf8Length space = t.position ∧
      (⟨t.kind, t.value.toList, rest⟩ : Lexeme).Fits afterColon ∧
      Layout t.stop (t.kind = .colon) rest tokens := by
  cases h with
  | finish _ => exact absurd rfl hne
  | @token _ _ space lexeme _ hspace hfits hrest =>
      refine ⟨space, lexeme.rest, ?_, hspace, rfl, ?_, ?_⟩
      · rw [String.toList_ofList]
      · rw [String.toList_ofList]
        exact hfits
      · rw [Token.stop, utf8ByteSize_ofList]
        exact hrest

theorem of_nil (h : Layout start afterColon [] tokens) : tokens = [Token.endAt start] :=
  h.tokens_eq.symm.trans (Layout.finish isWhiteSpace_of_mem_nil).tokens_eq

/-- A token in front of a text. -/
theorem cons {t : Token} {space : List Char} (hspace : ∀ c ∈ space, isWhiteSpace c = true)
    (hposition : start + utf8Length space = t.position)
    (hfits : (⟨t.kind, t.value.toList, rest⟩ : Lexeme).Fits afterColon)
    (hrest : Layout t.stop (t.kind = .colon) rest tokens) :
    Layout start afterColon (space ++ (t.value.toList ++ rest)) (t :: tokens) := by
  rw [Token.stop, ← utf8Length_toList, ← hposition] at hrest
  have h := Layout.token hspace hfits hrest
  rwa [String.ofList_toList, hposition] at h

theorem space_append {space : List Char} (hspace : ∀ c ∈ space, isWhiteSpace c = true)
    (h : Layout (start + utf8Length space) afterColon text tokens) :
    Layout start afterColon (space ++ text) tokens := by
  have hboth {more : List Char} (hmore : ∀ c ∈ more, isWhiteSpace c = true) :
      ∀ c ∈ space ++ more, isWhiteSpace c = true :=
    fun c hc => (List.mem_append.mp hc).elim (hspace c) (hmore c)
  cases h with
  | finish hmore =>
      rw [Nat.add_assoc, ← utf8Length_append]
      exact .finish (hboth hmore)
  | token hmore hfits hrest =>
      rw [← List.append_assoc, Nat.add_assoc start, ← utf8Length_append]
      rw [Nat.add_assoc start, ← utf8Length_append] at hrest
      exact .token (hboth hmore) hfits hrest

/-- A text begins with the white space before its first token, and then the token stands there. -/
theorem exists_space {next : Token} (h : Layout start afterColon text (next :: back)) :
    ∃ space after, text = space ++ after ∧ (∀ c ∈ space, isWhiteSpace c = true) ∧
      start + utf8Length space = next.position ∧ next.value.toList <+: after ∧
      (∀ c ∈ after.head?, isWhiteSpace c = false) ∧
      Layout next.position afterColon after (next :: back) := by
  by_cases hback : back = []
  · subst hback
    obtain ⟨hspace, rfl⟩ := h.of_singleton
    exact ⟨text, [], (List.append_nil _).symm, hspace, rfl, List.nil_prefix, nofun, .finish nofun⟩
  · obtain ⟨space, rest, rfl, hspace, hposition, hfits, hrest⟩ := h.of_cons hback
    exact ⟨space, _, rfl, hspace, hposition, List.prefix_append _ _, hfits.isWhiteSpace_head,
      .cons isWhiteSpace_of_mem_nil rfl hfits hrest⟩

/-- What a text has behind the value of its first token is what ends that token. -/
theorem fits_first {first : Token} {space after : List Char}
    (h : Layout start afterColon (space ++ (first.value.toList ++ after)) (first :: back))
    (hback : back ≠ []) (hspace : ∀ c ∈ space, isWhiteSpace c = true)
    (hhead : ∀ c ∈ (first.value.toList ++ after).head?, isWhiteSpace c = false) :
    (⟨first.kind, first.value.toList, after⟩ : Lexeme).Fits afterColon := by
  obtain ⟨space', rest, htext, hspace', -, hfits, -⟩ := h.of_cons hback
  have hbody := white_append_inj hspace hspace' hhead hfits.isWhiteSpace_head htext
  rwa [List.append_cancel_left hbody]

theorem moved (h : Layout start afterColon text tokens) (shift : Nat) :
    Layout (shift + start) afterColon text (tokens.map (Token.moved (shift + ·))) := by
  induction h with
  | @finish start afterColon space hspace =>
      have hend : (Token.endAt (start + utf8Length space)).moved (shift + ·) =
          Token.endAt (shift + start + utf8Length space) := by
        rw [Nat.add_assoc]
        rfl
      rw [List.map_singleton, hend]
      exact .finish hspace
  | @token start afterColon space lexeme tokens hspace hfits hrest ih =>
      rw [List.map_cons, Token.moved, ← Nat.add_assoc]
      refine .token hspace hfits ?_
      rwa [← Nat.add_assoc, ← Nat.add_assoc] at ih

/-- A text has the same tokens wherever it begins, but for their places. -/
theorem map_unplaced_eq {start' : Nat} {tokens' : List Token}
    (h : Layout start afterColon text tokens) (h' : Layout start' afterColon text tokens') :
    tokens.map Token.unplaced = tokens'.map Token.unplaced := by
  have hmoved := (h.moved start').tokens_eq
  rw [Nat.add_comm, (h'.moved start).tokens_eq] at hmoved
  have hunplaced := congrArg (List.map Token.unplaced) hmoved.symm
  rwa [List.map_map, List.map_map] at hunplaced

/-- A text goes on with another one in the state in which it is left, if that ends its last word. -/
theorem append (h : Layout start afterColon before (front ++ [Token.endAt stop]))
    (hrest : Layout stop (colonAfter afterColon front) rest back) (hends : EndsWord front rest) :
    Layout start afterColon (before ++ rest) (front ++ back) := by
  induction front generalizing start afterColon before with
  | nil =>
      obtain ⟨hspace, hend⟩ := h.of_singleton
      rw [show stop = start + utf8Length before from congrArg Token.position hend] at hrest
      exact hrest.space_append hspace
  | cons t front ih =>
      obtain ⟨space, middle, rfl, hspace, hposition, hfits, hmiddle⟩ := h.of_cons (by simp)
      rw [colonAfter_cons] at hrest
      rw [List.append_assoc, List.append_assoc, List.cons_append]
      refine .cons hspace hposition { hfits with maximal := ?_ } (ih hmiddle hrest hends.tail)
      intro hword c hc
      cases middle with
      | cons d middle => exact hfits.maximal hword c hc
      | nil =>
          have hfront : front ++ [Token.endAt stop] = [Token.endAt t.stop] := hmiddle.of_nil
          obtain ⟨rfl, -⟩ := List.append_eq_singleton_iff.mp hfront |>.resolve_right (by simp)
          exact hends t rfl hword c hc

/-- A text is cut behind a token. -/
theorem exists_cut (h : Layout start afterColon text (front ++ back)) (hback : back ≠ []) :
    ∃ before rest, text = before ++ rest ∧
      start + utf8Length before = stopAfter start front ∧
      Layout start afterColon before (front ++ [Token.endAt (stopAfter start front)]) ∧
      Layout (stopAfter start front) (colonAfter afterColon front) rest back ∧
      EndsWord front rest := by
  induction front generalizing start afterColon text with
  | nil => exact ⟨[], text, rfl, rfl, .finish nofun, h, nofun⟩
  | cons t front ih =>
      obtain ⟨space, middle, rfl, hspace, hposition, hfits, hmiddle⟩ := h.of_cons (by simp [hback])
      obtain ⟨before, rest, rfl, hlength, hbefore, hrest, hends⟩ := ih hmiddle
      rw [stopAfter_cons, colonAfter_cons]
      refine ⟨space ++ (t.value.toList ++ before), rest, ?_, ?_, ?_, hrest, ?_⟩
      · simp only [List.append_assoc]
      · rw [← hlength, Token.stop, ← hposition, ← utf8Length_toList]
        simp only [utf8Length_append, Nat.add_assoc]
      · refine .cons hspace hposition { hfits with maximal := ?_ } hbefore
        intro hword c hc
        exact hfits.maximal hword c (List.mem_head?_append_of_mem_head? hc)
      · cases front with
        | nil =>
            have hnil : before = [] := utf8Length_eq_zero (Nat.add_left_cancel hlength)
            subst hnil
            intro last hlast hword
            cases Option.mem_some_iff.mp hlast
            exact hfits.maximal hword
        | cons next front =>
            intro last hlast
            exact hends last (by rwa [List.getLast?_cons_cons] at hlast)

end Layout

theorem layout_tokenize (text : String) : Layout 0 false text.toList (tokenize text) :=
  Scanner.layout_tokens (Scanner.ofQuery text) rfl

theorem tokenize_ofList {chars : List Char} {tokens : List Token}
    (h : Layout 0 false chars tokens) : tokenize (String.ofList chars) = tokens := by
  rw [tokenize, Scanner.ofQuery, String.toList_ofList]
  exact h.tokens_eq

theorem tokenize_eq (text : String) :
    tokenize text = beforeEnd (tokenize text) ++ [Token.endAt text.utf8ByteSize] := by
  obtain ⟨body, hbody, hkinds⟩ := (isTokenization_tokenize text).ending
  rw [hbody, beforeEnd_append_endAt hkinds, Nat.zero_add, utf8Length_toList]

theorem kind_ne_of_mem_beforeEnd {t : Token} {tokens : List Token} (h : t ∈ beforeEnd tokens) :
    t.kind ≠ .endOfQuery := by
  simpa using List.mem_takeWhile_imp h

theorem exists_endOfQuery_tokenize (text : String) :
    ∃ t ∈ tokenize text, t.kind = .endOfQuery :=
  ⟨_, tokenize_eq text ▸ List.mem_append_right _ (List.mem_singleton.mpr rfl), rfl⟩

end TagQuery

import Mathlib.Data.List.Chain
import TagQuery.Proofs.Tokenization
import TagQuery.Query.Parser

/-!
Tokens written out as a text. As long as a word is kept apart from a word or a dash that follows it,
a text is cut into the tokens that it was written from, whatever white space stands between them.
-/

namespace TagQuery

open Text

namespace Token

/-- A token moved to another place. -/
def moved (move : Nat → Nat) (t : Token) : Token :=
  { t with position := move t.position }

/-- A token wherever it stands. -/
def unplaced (t : Token) : Token :=
  t.moved fun _ => 0

end Token

/-- A token to be written, with the white space before it. -/
structure Spaced where
  space : List Char
  token : Token

namespace Spaced

/-- A text of tokens and the white space before them. -/
def spell (pieces : List Spaced) : List Char :=
  pieces.flatMap fun piece => piece.space ++ piece.token.value.toList

@[simp] theorem spell_nil : spell [] = [] :=
  rfl

@[simp] theorem spell_cons (piece : Spaced) (pieces : List Spaced) :
    spell (piece :: pieces) = piece.space ++ (piece.token.value.toList ++ spell pieces) := by
  rw [spell, List.flatMap_cons, List.append_assoc]
  rfl

@[simp] theorem spell_append (front back : List Spaced) :
    spell (front ++ back) = spell front ++ spell back :=
  List.flatMap_append

theorem spell_flatMap {α : Type} (pieces : α → List Spaced) (l : List α) :
    spell (l.flatMap pieces) = l.flatMap fun a => spell (pieces a) :=
  List.flatMap_assoc

/-- Nothing but white space stands before a token. -/
def IsWhite (piece : Spaced) : Prop :=
  ∀ c ∈ piece.space, isWhiteSpace c = true

/-- A token that a word before it does not run on into. -/
def IsApart (piece : Spaced) : Prop :=
  piece.space = [] → piece.token.kind ≠ .word ∧ piece.token.kind ≠ .negation

/-- All words among some tokens are apart from what follows them. -/
def WordsApart (pieces : List Spaced) : Prop :=
  pieces.IsChain fun a b => a.token.kind = .word → b.IsApart

/-- Tokens that can be written behind others. -/
structure MayFollow (pieces : List Spaced) : Prop where
  wordsApart : WordsApart pieces
  head : ∀ piece ∈ pieces.head?, piece.IsApart

theorem WordsApart.cons_of_ne {piece : Spaced} {pieces : List Spaced}
    (h : piece.token.kind ≠ .word) (hpieces : WordsApart pieces) : WordsApart (piece :: pieces) :=
  List.isChain_cons.mpr ⟨fun _ _ hword => absurd hword h, hpieces⟩

theorem MayFollow.cons {piece : Spaced} {pieces : List Spaced} (h : piece.IsApart)
    (hpieces : WordsApart (piece :: pieces)) : MayFollow (piece :: pieces) :=
  ⟨hpieces, fun _ hhead => Option.mem_some_iff.mp hhead ▸ h⟩

theorem MayFollow.wordsApart_cons {pieces : List Spaced} (h : MayFollow pieces) (piece : Spaced) :
    WordsApart (piece :: pieces) :=
  List.isChain_cons.mpr ⟨fun next hnext _ => h.head next hnext, h.wordsApart⟩

theorem WordsApart.append {front back : List Spaced} (hfront : WordsApart front)
    (hback : MayFollow back) : WordsApart (front ++ back) :=
  List.isChain_append.mpr
    ⟨hfront, hback.wordsApart, fun _ _ piece hpiece _ => hback.head piece hpiece⟩

theorem MayFollow.append {front back : List Spaced} (hfront : MayFollow front)
    (hback : MayFollow back) : MayFollow (front ++ back) := by
  refine ⟨hfront.wordsApart.append hback, ?_⟩
  cases front with
  | nil => exact hback.head
  | cons piece front => exact hfront.head

theorem MayFollow.flatMap {α : Type} {pieces : α → List Spaced} (h : ∀ a, MayFollow (pieces a))
    (l : List α) : MayFollow (l.flatMap pieces) := by
  induction l with
  | nil => exact ⟨List.isChain_nil, nofun⟩
  | cons a l ih => exact (h a).append ih

/-- What keeps tokens from being read as others: each has a value that its kind admits, it can
follow the one before it, and it is apart from a word. -/
structure AreLegible (afterColon : Bool) (pieces : List Spaced) : Prop where
  white : ∀ piece ∈ pieces, piece.IsWhite
  kind_ne : ∀ piece ∈ pieces, piece.token.kind ≠ .endOfQuery
  admitted : ∀ piece ∈ pieces, piece.token.kind.Admits piece.token.value
  following : ∀ before t after, pieces.map Spaced.token = before ++ t :: after →
    t.CanFollow (EndsInColon afterColon before)
  apart : WordsApart pieces

variable {afterColon : Bool} {piece : Spaced} {pieces : List Spaced}

theorem AreLegible.tail (h : AreLegible afterColon (piece :: pieces)) :
    AreLegible (piece.token.kind = .colon) pieces where
  white other hother := h.white other (List.mem_cons_of_mem _ hother)
  kind_ne other hother := h.kind_ne other (List.mem_cons_of_mem _ hother)
  admitted other hother := h.admitted other (List.mem_cons_of_mem _ hother)
  following before t after hsplit := by
    rw [← endsInColon_cons]
    refine h.following (piece.token :: before) t after ?_
    rw [List.map_cons, hsplit, List.cons_append]
  apart := h.apart.tail

/-- What follows a word on the spot is a separator. -/
theorem AreLegible.mem_separators {next : Spaced} {c : Char}
    (h : AreLegible afterColon (piece :: next :: pieces)) (hword : piece.token.kind = .word)
    (hspace : next.space = []) (hc : c ∈ next.token.value.toList.head?) : c ∈ separators := by
  obtain ⟨hnotWord, hnotDash⟩ := (List.isChain_cons_cons.mp h.apart).1 hword hspace
  have hnotOperator : next.token.kind ≠ .operator := by
    intro hoperator
    have hcolon := (h.following [piece.token] next.token _ rfl).1 hoperator
    rw [endsInColon_cons, endsInColon_nil, hword] at hcolon
    cases of_decide_eq_true hcolon
  have hadmitted := h.admitted next (List.mem_cons_of_mem _ List.mem_cons_self)
  obtain ⟨cs, hvalue⟩ := List.head?_eq_some_iff.mp hc
  rw [← String.ofList_toList (s := next.token.value), hvalue] at hadmitted
  obtain ⟨-, hsymbol, -⟩ := hadmitted.symbol_cons hnotWord hnotOperator
  by_contra hseparator
  have hdash : c = '-' := by
    by_contra hdash
    rw [(symbolKind?_eq_none_iff c).mpr ⟨hdash, hseparator⟩] at hsymbol
    cases hsymbol
  rw [hdash] at hsymbol
  exact hnotDash (Option.some.inj hsymbol).symm

theorem AreLegible.ends_word {final : List Char} (h : AreLegible afterColon (piece :: pieces))
    (hword : piece.token.kind = .word) (hfinal : ∀ c ∈ final, isWhiteSpace c = true) :
    ∀ c ∈ (spell pieces ++ final).head?, isWhiteSpace c = true ∨ c ∈ separators := by
  intro c hc
  cases pieces with
  | nil => exact Or.inl (hfinal c (List.mem_of_head? hc))
  | cons next pieces =>
      cases hspace : next.space with
      | nil =>
          have hadmitted := h.admitted next (List.mem_cons_of_mem _ List.mem_cons_self)
          have hkind := h.kind_ne next (List.mem_cons_of_mem _ List.mem_cons_self)
          cases hvalue : next.token.value.toList with
          | nil => exact absurd (String.toList_eq_nil_iff.mp hvalue) (hadmitted.ne_empty hkind)
          | cons d ds =>
              right
              refine h.mem_separators hword hspace ?_
              rw [spell_cons, hspace, hvalue] at hc
              rw [hvalue]
              exact hc
      | cons d ds =>
          left
          rw [spell_cons, hspace] at hc
          refine h.white next (List.mem_cons_of_mem _ List.mem_cons_self) c ?_
          cases Option.mem_some_iff.mp hc
          exact hspace ▸ List.mem_cons_self

theorem AreLegible.fits {final : List Char} (h : AreLegible afterColon (piece :: pieces))
    (hfinal : ∀ c ∈ final, isWhiteSpace c = true) :
    (⟨piece.token.kind, piece.token.value.toList, spell pieces ++ final⟩ : Lexeme).Fits
      afterColon where
  kind_ne := h.kind_ne piece List.mem_cons_self
  admitted := by
    rw [String.ofList_toList]
    exact h.admitted piece List.mem_cons_self
  canFollow position := by
    rw [String.ofList_toList]
    exact h.following [] piece.token _ rfl
  maximal hword := h.ends_word hword hfinal

/-- A legible text is laid out as the tokens that it was written from, wherever it begins. -/
theorem AreLegible.exists_layout {final : List Char} (h : AreLegible afterColon pieces)
    (hfinal : ∀ c ∈ final, isWhiteSpace c = true) (start : Nat) :
    ∃ tokens, Layout start afterColon (spell pieces ++ final) tokens ∧
      tokens.map Token.unplaced = pieces.map (Token.unplaced ∘ Spaced.token) ++ [Token.endAt 0] := by
  induction pieces generalizing start afterColon with
  | nil => exact ⟨_, .finish hfinal, rfl⟩
  | cons piece pieces ih =>
      obtain ⟨tokens, hlayout, htokens⟩ := ih h.tail
        (start + utf8Length piece.space + utf8Length piece.token.value.toList)
      rw [spell_cons, List.append_assoc, List.append_assoc]
      refine ⟨_, .token (h.white piece List.mem_cons_self) (h.fits hfinal) hlayout, ?_⟩
      rw [List.map_cons, htokens, String.ofList_toList]
      rfl

/-- A legible text has the tokens that it was written from. -/
theorem AreLegible.tokenize_eq {final : List Char} (h : AreLegible false pieces)
    (hfinal : ∀ c ∈ final, isWhiteSpace c = true) :
    (tokenize (String.ofList (spell pieces ++ final))).map Token.unplaced =
      pieces.map (Token.unplaced ∘ Spaced.token) ++ [Token.endAt 0] := by
  obtain ⟨tokens, hlayout, htokens⟩ := h.exists_layout hfinal 0
  rw [← htokens, ← hlayout.tokens_eq, tokenize, Scanner.ofQuery, String.toList_ofList]

end Spaced

theorem beforeEnd_append_endAt {body : List Token} (h : ∀ t ∈ body, t.kind ≠ .endOfQuery)
    (position : Nat) : beforeEnd (body ++ [Token.endAt position]) = body := by
  rw [beforeEnd, List.takeWhile_append_of_pos (by simpa using h)]
  simp [Token.endAt]

theorem exists_tokenize_eq (text : String) :
    ∃ position, tokenize text = beforeEnd (tokenize text) ++ [Token.endAt position] := by
  obtain ⟨body, hbody, hkinds⟩ := (isTokenization_tokenize text).ending
  rw [hbody, beforeEnd_append_endAt hkinds]
  exact ⟨_, rfl⟩

theorem mem_tokenize_of_mem_beforeEnd {text : String} {t : Token}
    (h : t ∈ beforeEnd (tokenize text)) : t ∈ tokenize text :=
  (List.takeWhile_sublist _).subset h

/-- The tokens of a query are legible in any spacing that keeps words apart. -/
theorem areLegible_of_tokenize {text : String} {pieces : List Spaced}
    (hpieces : pieces.map Spaced.token = beforeEnd (tokenize text))
    (hwhite : ∀ piece ∈ pieces, piece.IsWhite)
    (hapart : Spaced.WordsApart pieces) : Spaced.AreLegible false pieces where
  white := hwhite
  kind_ne piece hpiece := by
    have hmem := hpieces ▸ List.mem_map_of_mem hpiece
    simpa using List.mem_takeWhile_imp hmem
  admitted piece hpiece :=
    (isTokenization_tokenize text).admitted _
      (mem_tokenize_of_mem_beforeEnd (hpieces ▸ List.mem_map_of_mem hpiece))
  following before t after hsplit := by
    obtain ⟨position, htokens⟩ := exists_tokenize_eq text
    refine (isTokenization_tokenize text).following before t (after ++ [Token.endAt position]) ?_
    rw [htokens, ← hpieces, hsplit, List.append_assoc, List.cons_append]
  apart := hapart

/-- The spacing of a query makes no difference to its tokens, if words are kept apart from words and
dashes that follow them. -/
theorem tokenize_spell {text : String} {pieces : List Spaced} {final : List Char}
    (hpieces : pieces.map Spaced.token = beforeEnd (tokenize text))
    (hwhite : ∀ piece ∈ pieces, piece.IsWhite)
    (hapart : Spaced.WordsApart pieces) (hfinal : ∀ c ∈ final, isWhiteSpace c = true) :
    (tokenize (String.ofList (Spaced.spell pieces ++ final))).map Token.unplaced =
      (tokenize text).map Token.unplaced := by
  obtain ⟨position, htokens⟩ := exists_tokenize_eq text
  have hlegible := areLegible_of_tokenize hpieces hwhite hapart
  rw [hlegible.tokenize_eq hfinal, htokens, List.map_append, ← hpieces, List.map_map]
  rfl

end TagQuery

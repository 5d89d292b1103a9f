import TagQuery.Compile
import TagQuery.Proofs.Correspondence
import TagQuery.Proofs.Places
import TagQuery.Proofs.Seams

/-!
White space in a query. It cannot be left out between a word and a word or a dash behind it. All else
about it makes no difference to the tokens but for their places, and so none to what the query is
parsed to and compiles to, or to the error if it does not parse.
-/

namespace TagQuery

open Text

theorem TokenKind.Admits.mem_separators_iff {kind : TokenKind} {c : Char} {cs : List Char}
    (h : kind.Admits (String.ofList (c :: cs))) (hoperator : kind ≠ .operator) :
    c ∈ separators ↔ kind ≠ .word ∧ kind ≠ .negation := by
  by_cases hword : kind = .word
  · subst hword
    exact iff_of_false (h.word_cons.2 c List.mem_cons_self).2 fun hne => hne.1 rfl
  · obtain ⟨-, hsymbol, -⟩ := h.symbol_cons hword hoperator
    unfold symbolKind? at hsymbol
    split at hsymbol <;> cases hsymbol <;> decide

/-- Of the tokens that can stand behind a word, all but words and dashes begin with a separator. -/
theorem Layout.mem_separators_iff {start : Nat} {text : List Char} {next : Token}
    {back : List Token} {c : Char} (h : Layout start false text (next :: back))
    (hvalue : next.value.toList <+: text) (hc : c ∈ text.head?) (hwhite : isWhiteSpace c = false) :
    c ∈ separators ↔ next.kind ≠ .word ∧ next.kind ≠ .negation := by
  have hadmitted := h.tokensOf.admitted next List.mem_cons_self
  have hend : next.kind ≠ .endOfQuery := by
    intro hkind
    cases h with
    | finish hspace => cases (hspace c (List.mem_of_mem_head? hc)).symm.trans hwhite
    | token _ hfits _ => exact hfits.kind_ne hkind
  have hoperator : next.kind ≠ .operator := by
    intro hkind
    cases (h.tokensOf.following [] next back rfl).1 hkind
  cases hchars : next.value.toList with
  | nil => exact absurd (String.toList_eq_nil_iff.mp hchars) (hadmitted.ne_empty hend)
  | cons d ds =>
      rw [← String.ofList_toList (s := next.value), hchars] at hadmitted
      obtain ⟨rest, rfl⟩ := hvalue
      rw [hchars] at hc
      cases Option.mem_some_iff.mp hc
      exact hadmitted.mem_separators_iff hoperator

/-- Nothing but white space keeps the last of some tokens apart from the token behind it. Both are
words, or a word and a dash. -/
def RunsTogether (front : List Token) (next : Token) : Prop :=
  ∃ last ∈ front.getLast?, last.kind = .word ∧ (next.kind = .word ∨ next.kind = .negation)

/-- A text cut before and behind the white space that stands in front of one of its tokens. -/
structure Boundary (front : List Token) (next : Token) (back : List Token)
    (before space after : List Char) : Prop where
  white : ∀ c ∈ space, isWhiteSpace c = true
  stop : utf8Length before = stopAfter 0 front
  position : utf8Length (before ++ space) = next.position
  value : next.value.toList <+: after
  head : ∀ c ∈ after.head?, isWhiteSpace c = false
  endsWord : EndsWord front (space ++ after)
  before : Layout 0 false before (front ++ [Token.endAt (stopAfter 0 front)])
  after : Layout next.position (colonAfter false front) after (next :: back)

theorem exists_boundary {text : String} {front back : List Token} {next : Token}
    (h : tokenize text = front ++ next :: back) :
    ∃ before space after, text.toList = before ++ (space ++ after) ∧
      Boundary front next back before space after := by
  have hlayout := layout_tokenize text
  rw [h] at hlayout
  obtain ⟨before, rest, htext, hstop, hbefore, hrest, hends⟩ :=
    hlayout.exists_cut (List.cons_ne_nil next back)
  obtain ⟨space, after, rfl, hspace, hposition, hvalue, hhead, hafter⟩ := hrest.exists_space
  rw [Nat.zero_add] at hstop
  refine ⟨before, space, after, htext, hspace, hstop, ?_, hvalue, hhead, hends, hbefore, hafter⟩
  rw [utf8Length_append, hstop, hposition]

namespace Boundary

variable {front back : List Token} {next : Token} {before space after : List Char}

theorem exists_head (h : Boundary front next back before space after)
    (hnext : next.kind ≠ .endOfQuery) : ∃ c, c ∈ after.head? := by
  have hne := (h.after.tokensOf.admitted next List.mem_cons_self).ne_empty hnext
  obtain ⟨rest, rfl⟩ := h.value
  cases hvalue : next.value.toList with
  | nil => exact absurd (String.toList_eq_nil_iff.mp hvalue) hne
  | cons c cs => exact ⟨c, rfl⟩

/-- Behind a word, all tokens but words and dashes begin with a separator. -/
theorem mem_separators_iff (h : Boundary front next back before space after) {last : Token}
    (hlast : last ∈ front.getLast?) (hword : last.kind = .word) {c : Char} (hc : c ∈ after.head?) :
    c ∈ separators ↔ next.kind ≠ .word ∧ next.kind ≠ .negation := by
  have hcolon : colonAfter false front = false := by
    rw [colonAfter, Option.mem_def.mp hlast, Option.map_some, hword]
    rfl
  have hafter := h.after
  rw [hcolon] at hafter
  exact hafter.mem_separators_iff h.value hc (h.head c hc)

/-- A text with other white space has the same tokens but for their places, if the white space is
not left out where tokens would run together. -/
theorem map_unplaced_eq (h : Boundary front next back before space after) {space' : List Char}
    (hspace : ∀ c ∈ space', isWhiteSpace c = true)
    (hapart : space' = [] → ¬RunsTogether front next) :
    (tokenize (String.ofList (before ++ (space' ++ after)))).map Token.unplaced =
      (front ++ next :: back).map Token.unplaced := by
  have hends : EndsWord front (space' ++ after) := by
    intro last hlast hword c hc
    cases space' with
    | cons d space' => exact .inl (hspace c (List.mem_of_mem_head? hc))
    | nil =>
        right
        refine (h.mem_separators_iff hlast hword hc).mpr ⟨?_, ?_⟩
        · exact fun hnext => hapart rfl ⟨last, hlast, hword, .inl hnext⟩
        · exact fun hnext => hapart rfl ⟨last, hlast, hword, .inr hnext⟩
  obtain ⟨tokens, hafter⟩ := Layout.exists_layout
    (stopAfter 0 front + utf8Length space') (colonAfter false front) after
  have hlayout := h.before.append (hafter.space_append hspace) hends
  rw [tokenize_ofList hlayout, List.map_append, List.map_append, hafter.map_unplaced_eq h.after]

/-- The last token before a boundary stands right before it. -/
theorem exists_last {last : Token} (h : Boundary (front ++ [last]) next back before space after) :
    ∃ first white, before = first ++ (white ++ last.value.toList) ∧
      (∀ c ∈ white, isWhiteSpace c = true) ∧
      (∀ c ∈ last.value.toList.head?, isWhiteSpace c = false) ∧ last.value.toList ≠ [] ∧
      Layout 0 false first (front ++ [Token.endAt (stopAfter 0 front)]) ∧
      EndsWord front (white ++ last.value.toList) := by
  have hbefore := h.before
  rw [List.append_assoc, List.singleton_append] at hbefore
  obtain ⟨first, rest, rfl, -, hfirst, hrest, hends⟩ := hbefore.exists_cut (List.cons_ne_nil _ _)
  obtain ⟨white, tail, rfl, hwhite, -, hfits, htail⟩ := hrest.of_cons (List.cons_ne_nil _ _)
  obtain ⟨-, hend⟩ := htail.of_singleton
  have hstop : stopAfter 0 (front ++ [last]) = last.stop := by simp [stopAfter]
  have hlength : last.stop = last.stop + utf8Length tail :=
    hstop.symm.trans (congrArg Token.position hend)
  obtain rfl : tail = [] := utf8Length_eq_zero (by omega)
  have hhead := hfits.isWhiteSpace_head
  rw [List.append_nil] at hends hhead ⊢
  refine ⟨first, white, rfl, hwhite, hhead, ?_, hfirst, hends⟩
  rw [Ne, String.toList_eq_nil_iff, ← String.ofList_toList (s := last.value)]
  exact hfits.admitted.ne_empty hfits.kind_ne

/-- Without the white space between them, the word goes on with what the token behind it begins
with. -/
theorem map_unplaced_ne (h : Boundary front next back before space after)
    (htogether : RunsTogether front next) :
    (tokenize (String.ofList (before ++ after))).map Token.unplaced ≠
      (front ++ next :: back).map Token.unplaced := by
  obtain ⟨last, hlast, hword, hnext⟩ := htogether
  obtain ⟨front, rfl⟩ := List.getLast?_eq_some_iff.mp hlast
  obtain ⟨first, white, rfl, hwhite, hhead, hne, hfirst, hends⟩ := h.exists_last
  obtain ⟨d, ds, hvalue⟩ := List.exists_cons_of_ne_nil hne
  obtain ⟨tokens, hrest⟩ := Layout.exists_layout (stopAfter 0 front) (colonAfter false front)
    (white ++ (last.value.toList ++ after))
  have hfollows : EndsWord front (white ++ (last.value.toList ++ after)) := by
    intro t ht hkind c hc
    refine hends t ht hkind c ?_
    rw [hvalue] at hc ⊢
    cases white <;> exact hc
  have hlayout := hfirst.append hrest hfollows
  rw [← List.append_assoc white, ← List.append_assoc] at hlayout
  intro heq
  rw [tokenize_ofList hlayout, ← List.append_cons, List.map_append, List.map_append] at heq
  obtain ⟨read, others, rfl, hread, hothers⟩ :=
    List.map_eq_cons_iff.mp (List.append_cancel_left heq)
  have hmore : others ≠ [] := by
    rintro rfl
    cases hothers
  have hkind : read.unplaced.kind = last.unplaced.kind := congrArg Token.kind hread
  have hsame : read.unplaced.value = last.unplaced.value := congrArg Token.value hread
  have hstart : ∀ c ∈ (last.value.toList ++ after).head?, isWhiteSpace c = false := by
    rw [hvalue] at hhead ⊢
    exact hhead
  have hfits : (⟨read.kind, read.value.toList, after⟩ : Lexeme).Fits (colonAfter false front) := by
    rw [← show read.value = last.value from hsame] at hrest hstart
    exact hrest.fits_first hmore hwhite hstart
  obtain ⟨c, hc⟩ := h.exists_head (by rcases hnext with hnext | hnext <;> simp [hnext])
  rcases hfits.maximal (hkind.trans hword) c hc with hblank | hseparator
  · cases hblank.symm.trans (h.head c hc)
  · have hboth := (h.mem_separators_iff (by simp) hword hc).mp hseparator
    exact hnext.elim hboth.1 hboth.2

end Boundary

/-! ### Queries with the same tokens -/

mutual

/-- Trees that are alike but for the places of their tokens are the same tree wherever these stand. -/
theorem Node.Like.unplaced_eq : ∀ (node : Node) {node' : Node},
    node.Like (fun t t' => t.unplaced = t'.unplaced) node' → node.unplaced = node'.unplaced
  | ⟨kind, token, children⟩, _, .mk htoken hchildren => by
    rw [Node.unplaced, Node.unplaced, Node.moved_mk, Node.moved_mk,
      forall₂_unplaced_eq children hchildren]
    exact congrArg (Node.mk kind · _) htoken

theorem forall₂_unplaced_eq : ∀ (nodes : List Node) {nodes' : List Node},
    List.Forall₂ (Node.Like fun t t' => t.unplaced = t'.unplaced) nodes nodes' →
      nodes.map (Node.moved fun _ => 0) = nodes'.map (Node.moved fun _ => 0)
  | [], _, .nil => rfl
  | node :: nodes, _, .cons hfirst hrest => by
    rw [List.map_cons, List.map_cons, forall₂_unplaced_eq nodes hrest]
    exact congrArg (· :: _) (Node.Like.unplaced_eq node hfirst)

end

/-- Two tokens that are the same but for their places, each at the same index of some tokens. -/
def SameIndex (tokens tokens' : List Token) (t t' : Token) : Prop :=
  t.unplaced = t'.unplaced ∧ ∃ index : Nat, tokens[index]? = some t ∧ tokens'[index]? = some t'

section

variable {tokens tokens' : List Token}

theorem forall₂_sameIndex (h : tokens.map Token.unplaced = tokens'.map Token.unplaced) :
    List.Forall₂ (SameIndex tokens tokens') tokens tokens' := by
  refine List.forall₂_iff_get.mpr ⟨by simpa using congrArg List.length h, ?_⟩
  intro index hindex hindex'
  have hsame := congrArg (·[index]?) h
  simp only [List.getElem?_map, List.getElem?_eq_getElem hindex,
    List.getElem?_eq_getElem hindex', Option.map_some, Option.some.injEq] at hsame
  exact ⟨hsame, index, List.getElem?_eq_getElem hindex, List.getElem?_eq_getElem hindex'⟩

namespace SameIndex

variable {t t' : Token}

theorem kind_eq (h : SameIndex tokens tokens' t t') : t.kind = t'.kind := by
  have hkind : t.unplaced.kind = t'.unplaced.kind := congrArg Token.kind h.1
  exact hkind

theorem value_eq (h : SameIndex tokens tokens' t t') : t.value = t'.value := by
  have hvalue : t.unplaced.value = t'.unplaced.value := congrArg Token.value h.1
  exact hvalue

theorem implies : Implies (SameIndex tokens tokens') fun t t' => t.unplaced = t'.unplaced where
  written h := h.1
  implied _ _ := rfl

end SameIndex

theorem FieldTerm.Like.clause_eq {t t' : FieldTerm} (h : t.Like (SameIndex tokens tokens') t') :
    t.clause = t'.clause := by
  have hoperator : t.operator.value = t'.operator.value := by
    rcases h.operator with hwritten | ⟨himplied, himplied'⟩
    · exact hwritten.value_eq
    · rw [himplied, himplied']
      rfl
  unfold clause FieldTerm.id keyword order
  rw [h.name.value_eq, hoperator, h.value.value_eq]

theorem Query.Like.compile_eq {q q' : Query} (h : q.Like (SameIndex tokens tokens') q')
    (services : Services) (config : Config) (viewer : Viewer) :
    compile services config viewer q = compile services config viewer q' := by
  have hwords {t t' : Token} (hsame : SameIndex tokens tokens' t t') :
      Text.lowercase t.value = Text.lowercase t'.value := congrArg Text.lowercase hsame.value_eq
  have hclause (t t' : Term) (hterm : t.Like (SameIndex tokens tokens') t') :
      t.clause = t'.clause := by
    rcases hterm.clause_cases hwords with hclause | ⟨f, f', rfl, rfl, hfield⟩
    · exact hclause
    · exact hfield.clause_eq
  exact compile_congr (h.tagNames_eq hwords) (mapM_congr (h.imp hclause)) services config viewer

end

/-- White space between two tokens can be put in, exchanged and left out without a difference to the
tokens but for their places, only that it cannot be left out between a word and a word or a dash.
Texts with the same tokens have the same tree but for the places of these and compile to the same,
or else they are rejected for the same fault, at tokens with the same index. -/
theorem tokenize_respaced_iff (text : String) :
    (∀ front next back, tokenize text = front ++ next :: back →
      ∃ before space after, text.toList = before ++ (space ++ after) ∧
        utf8Length before = stopAfter 0 front ∧ utf8Length (before ++ space) = next.position ∧
        (∀ c ∈ space, isWhiteSpace c = true) ∧
        ∀ space', (∀ c ∈ space', isWhiteSpace c = true) →
          ((tokenize (String.ofList (before ++ (space' ++ after)))).map Token.unplaced =
              (tokenize text).map Token.unplaced ↔
            (space' = [] → ¬RunsTogether front next))) ∧
    ∀ text', (tokenize text').map Token.unplaced = (tokenize text).map Token.unplaced →
      (∃ q q', Query.parse text = .ok q ∧ Query.parse text' = .ok q' ∧
        q'.tree.unplaced = q.tree.unplaced ∧
        ∀ services config viewer,
          compile services config viewer q' = compile services config viewer q) ∨
      ∃ (fault : Fault) (index : Nat) (t t' : Token), (tokenize text)[index]? = some t ∧
        (tokenize text')[index]? = some t' ∧ Query.parse text = .error ⟨fault, t⟩ ∧
        Query.parse text' = .error ⟨fault, t'⟩ := by
  constructor
  · intro front next back hsplit
    obtain ⟨before, space, after, htext, hboundary⟩ := exists_boundary hsplit
    refine ⟨before, space, after, htext, hboundary.stop, hboundary.position, hboundary.white, ?_⟩
    intro space' hspace'
    rw [hsplit]
    constructor
    · rintro hsame rfl htogether
      exact hboundary.map_unplaced_ne htogether hsame
    · exact hboundary.map_unplaced_eq hspace'
  · intro text' hsame
    have halike := parsesAlike_ofTokens SameIndex.kind_eq (forall₂_sameIndex hsame.symm)
      (exists_endOfQuery_tokenize text)
    unfold Query.parse
    generalize Query.ofTokens (tokenize text) = outcome at halike ⊢
    generalize Query.ofTokens (tokenize text') = outcome' at halike ⊢
    cases halike with
    | @ok q q' hlike =>
        refine Or.inl ⟨q, q', rfl, rfl, ?_, fun services config viewer => ?_⟩
        · exact (Node.Like.unplaced_eq q.tree (hlike.tree SameIndex.implies)).symm
        · exact (hlike.compile_eq services config viewer).symm
    | @error fault t t' htoken =>
        obtain ⟨index, hindex, hindex'⟩ := htoken.2
        exact Or.inr ⟨fault, index, t, t', hindex, hindex', rfl, rfl⟩

/-- An operator may stand anywhere behind its colon, but a dash that follows a word has to stand
apart. -/
theorem tokenize_respaced_iff_of_operator_and_dash :
    (∃ before space after, "a: >b -c".toList = before ++ (space ++ after) ∧
      utf8Length before = 5 ∧ utf8Length (before ++ space) = 6 ∧
      (tokenize (String.ofList (before ++ after))).map Token.unplaced ≠
        (tokenize "a: >b -c").map Token.unplaced) ∧
    ∃ q q', Query.parse "a: >b -c" = .ok q ∧ Query.parse "\ta:\n>  b -\u3000c" = .ok q' ∧
      q'.tree.unplaced = q.tree.unplaced ∧
      ∀ services config viewer,
        compile services config viewer q' = compile services config viewer q := by
  obtain ⟨hcut, hkeep⟩ := tokenize_respaced_iff "a: >b -c"
  constructor
  · let front : List Token :=
      [⟨.word, "a", 0⟩, ⟨.colon, ":", 1⟩, ⟨.operator, ">", 3⟩, ⟨.word, "b", 4⟩]
    have htokens : tokenize "a: >b -c" =
        front ++ ⟨.negation, "-", 6⟩ :: [⟨.word, "c", 7⟩, ⟨.endOfQuery, "", 8⟩] := by
      decide +kernel
    obtain ⟨before, space, after, htext, hstop, hposition, -, hspaced⟩ := hcut _ _ _ htokens
    refine ⟨before, space, after, htext, hstop, hposition, fun hsame => ?_⟩
    exact (hspaced [] nofun).mp hsame rfl ⟨_, rfl, rfl, .inr rfl⟩
  · have hsame : (tokenize "\ta:\n>  b -\u3000c").map Token.unplaced =
        (tokenize "a: >b -c").map Token.unplaced := by
      decide +kernel
    rcases hkeep _ hsame with hparsed | ⟨fault, _, t, _, -, -, herror, -⟩
    · exact hparsed
    · have hok : (Query.parse "a: >b -c").toOption.isSome = true := by decide +kernel
      rw [herror] at hok
      cases hok

end TagQuery

import TagQuery.Proofs.Quotation
import TagQuery.Proofs.Writing

/-!
The text of a compiled query tells all of it but whether its rating and its status are constrained.
A condition is told from what follows it: how its text begins says of which kind it is, its parts
come one after another, and the number of its parameter ends where the digits end.
-/

namespace TagQuery

/-- No two values have texts of which one begins with the other. -/
def PrefixFree {α : Type} (text : α → String) : Prop :=
  ∀ a b, (text a).toList <+: (text b).toList → a = b

namespace PrefixFree

variable {α : Type} {text : α → String}

theorem of_forall_mem (all : List α) (hall : ∀ a, a ∈ all)
    (h : ∀ a ∈ all, ∀ b ∈ all, (text a).toList.isPrefixOf (text b).toList → a = b) :
    PrefixFree text :=
  fun a b hprefix => h a (hall a) b (hall b) (List.isPrefixOf_iff_prefix.mpr hprefix)

theorem append_inj (htext : PrefixFree text) {a b : α} {rest rest' : List Char}
    (h : (text a).toList ++ rest = (text b).toList ++ rest') : a = b ∧ rest = rest' := by
  obtain rfl : a = b := by
    obtain hfirst | hsecond := List.prefix_or_prefix_of_prefix (List.prefix_append _ rest)
      (h ▸ List.prefix_append _ rest')
    · exact htext a b hfirst
    · exact (htext b a hsecond).symm
  exact ⟨rfl, List.append_cancel_left h⟩

end PrefixFree

namespace Predicate

/-- The conditions that look for a post in another table. -/
inductive Selection where
  | hasTag
  | childOf
  | parentOf
  | inPool
  deriving DecidableEq

def Selection.predicate : Selection → Nat → Predicate
  | .hasTag => .hasTag
  | .childOf => .childOf
  | .parentOf => .parentOf
  | .inPool => .inPool

/-- The rows that are selected: the text before the parameter. -/
def Selection.text : Selection → String
  | .hasTag => "post_id FROM post_tags WHERE tag_id = "
  | .childOf => "child_id FROM post_relations WHERE parent_id = "
  | .parentOf => "parent_id FROM post_relations WHERE child_id = "
  | .inPool => "post_id FROM pool_entries WHERE pool_id = "

/-- The conditions on a column. -/
inductive Test where
  | compare (comparator : Comparator)
  | contains
  deriving DecidableEq

def Test.predicate (column : Column) : Test → Nat → Predicate
  | .compare comparator => .compare column comparator
  | .contains => .contains column

/-- The text between the column and the parameter. -/
def Test.text : Test → String
  | .compare comparator => comparator.symbol ++ " "
  | .contains => "ILIKE '%' || "

/-- The text after the parameter. -/
def Test.closing : Test → String
  | .compare _ => ""
  | .contains => " || '%'"

/-- How parts are put together. -/
inductive Junction where
  | and
  | or
  deriving DecidableEq

def Junction.predicate : Junction → List Predicate → Predicate
  | .and => .and
  | .or => .or

/-- The text between two parts. -/
def Junction.text : Junction → String
  | .and => " AND "
  | .or => " OR "

/-- What the text of a condition begins with. -/
inductive Opening where
  | always
  | never
  | junction
  | negation
  | selection
  | column (column : Column)
  deriving DecidableEq

def Opening.text : Opening → String
  | .always => "TRUE"
  | .never => "FALSE"
  | .junction => "("
  | .negation => "NOT "
  | .selection => "id IN (SELECT "
  | .column c => c.name ++ " "

/-- All openings. -/
def openings : List Opening :=
  let columns : List Column :=
    [.accountId, .rating, .status, .md5, .extension, .fileType, .title, .description, .context]
  .always :: .never :: .junction :: .negation :: .selection :: columns.map .column

theorem mem_openings (o : Opening) : o ∈ openings := by
  match o with
  | .always | .never | .junction | .negation | .selection => decide
  | .column c => cases c <;> decide

theorem prefixFree_opening : PrefixFree Opening.text :=
  .of_forall_mem openings mem_openings (by decide +kernel)

theorem prefixFree_selection : PrefixFree Selection.text := by
  refine .of_forall_mem [.hasTag, .childOf, .parentOf, .inPool] ?_ (by decide +kernel)
  intro selection
  cases selection <;> decide

theorem prefixFree_test : PrefixFree Test.text := by
  let comparators : List Comparator := [.equal, .greaterThan, .lessThan, .notEqual]
  refine .of_forall_mem (.contains :: comparators.map .compare) ?_ (by decide +kernel)
  intro test
  match test with
  | .contains => decide
  | .compare comparator => cases comparator <;> decide

theorem prefixFree_junction : PrefixFree Junction.text := by
  refine .of_forall_mem [.and, .or] ?_ (by decide +kernel)
  intro junction
  cases junction <;> decide

theorem Selection.render_predicate (selection : Selection) (param : Nat) :
    (selection.predicate param).render =
      Opening.selection.text ++ selection.text ++ placeholder param ++ ")" := by
  cases selection <;> rfl

theorem Test.render_predicate (column : Column) (test : Test) (param : Nat) :
    (test.predicate column param).render =
      (Opening.column column).text ++ test.text ++ placeholder param ++ test.closing := by
  cases test with
  | compare comparator =>
      show column.name ++ " " ++ comparator.symbol ++ " " ++ placeholder param = _
      simp [Opening.text, text, closing, String.append_assoc]
  | contains =>
      show column.name ++ " ILIKE '%' || " ++ placeholder param ++ " || '%'" = _
      simp [Opening.text, text, closing, String.append_assoc]

theorem Junction.render_predicate (junction : Junction) (parts : List Predicate) :
    (junction.predicate parts).render =
      Opening.junction.text ++ (junction.text.intercalate (renderEach parts) ++ ")") := by
  cases junction <;> exact String.append_assoc

/-- A condition has an opening, with the rest of its text behind it. -/
inductive Opened : Opening → Predicate → List Char → Prop
  | always : Opened .always .always []
  | never : Opened .never .never []
  | junction (junction : Junction) (parts : List Predicate) :
    Opened .junction (junction.predicate parts)
      ((junction.text.intercalate (renderEach parts)).toList ++ ")".toList)
  | negation (part : Predicate) : Opened .negation (.not part) part.render.toList
  | selection (selection : Selection) (param : Nat) :
    Opened .selection (selection.predicate param)
      (selection.text.toList ++ ((placeholder param).toList ++ ")".toList))
  | column (column : Column) (test : Test) (param : Nat) :
    Opened (.column column) (test.predicate column param)
      (test.text.toList ++ ((placeholder param).toList ++ test.closing.toList))

theorem exists_opened (p : Predicate) : ∃ o text, Opened o p text := by
  match p with
  | .always => exact ⟨_, _, .always⟩
  | .never => exact ⟨_, _, .never⟩
  | .and parts => exact ⟨_, _, .junction .and parts⟩
  | .or parts => exact ⟨_, _, .junction .or parts⟩
  | .not part => exact ⟨_, _, .negation part⟩
  | .hasTag param => exact ⟨_, _, .selection .hasTag param⟩
  | .compare column comparator param => exact ⟨_, _, .column column (.compare comparator) param⟩
  | .contains column param => exact ⟨_, _, .column column .contains param⟩
  | .childOf param => exact ⟨_, _, .selection .childOf param⟩
  | .parentOf param => exact ⟨_, _, .selection .parentOf param⟩
  | .inPool param => exact ⟨_, _, .selection .inPool param⟩

variable {p p' : Predicate} {rest rest' : List Char}

theorem Opened.toList_render {o : Opening} {text : List Char} (h : Opened o p text) :
    p.render.toList = o.text.toList ++ text := by
  cases h with
  | always | never => rfl
  | junction junction parts =>
      rw [junction.render_predicate, String.toList_append, String.toList_append]
  | negation part => exact String.toList_append
  | selection selection param =>
      rw [selection.render_predicate]
      simp only [String.toList_append, List.append_assoc]
  | column column test param =>
      rw [test.render_predicate]
      simp only [String.toList_append, List.append_assoc]

/-- Two conditions whose texts are the same for a while begin alike. -/
theorem Opened.exists_opened_of_eq {o : Opening} {text : List Char} (hopened : Opened o p text)
    (h : p.render.toList ++ rest = p'.render.toList ++ rest') :
    ∃ text', Opened o p' text' ∧ text ++ rest = text' ++ rest' := by
  -- one of the two openings begins with the other, so they are one
  obtain ⟨o', text', hopened'⟩ := exists_opened p'
  rw [hopened.toList_render, hopened'.toList_render, List.append_assoc, List.append_assoc] at h
  obtain ⟨rfl, hrest⟩ := prefixFree_opening.append_inj h
  exact ⟨text', hopened', hrest⟩

theorem Selection.append_inj (selection : Selection) {param : Nat}
    (h : (selection.predicate param).render.toList ++ rest = p'.render.toList ++ rest') :
    selection.predicate param = p' ∧ rest = rest' := by
  obtain ⟨_, hopened, hsame⟩ := (Opened.selection selection param).exists_opened_of_eq h
  cases hopened with
  | selection selection' param' =>
      simp only [List.append_assoc] at hsame
      obtain ⟨rfl, hparam⟩ := prefixFree_selection.append_inj hsame
      obtain ⟨rfl, hclosed⟩ := placeholder_append_inj (beginsApart_closing rest)
        (beginsApart_closing rest') hparam
      exact ⟨rfl, List.append_cancel_left hclosed⟩

theorem Test.beginsApart_closing_append (test : Test) (hrest : BeginsApart rest) :
    BeginsApart (test.closing.toList ++ rest) := by
  cases test with
  | compare => exact hrest
  | contains => simp [closing, BeginsApart]

theorem Test.append_inj {column : Column} (test : Test) {param : Nat} (hrest : BeginsApart rest)
    (hrest' : BeginsApart rest')
    (h : (test.predicate column param).render.toList ++ rest = p'.render.toList ++ rest') :
    test.predicate column param = p' ∧ rest = rest' := by
  obtain ⟨_, hopened, hsame⟩ := (Opened.column column test param).exists_opened_of_eq h
  cases hopened with
  | column _ test' param' =>
      simp only [List.append_assoc] at hsame
      obtain ⟨rfl, hparam⟩ := prefixFree_test.append_inj hsame
      obtain ⟨rfl, hclosed⟩ := placeholder_append_inj (test.beginsApart_closing_append hrest)
        (test.beginsApart_closing_append hrest') hparam
      exact ⟨rfl, List.append_cancel_left hclosed⟩

/-- The text of the parts after the first one. -/
def Junction.continued (junction : Junction) (parts : List Predicate) : List Char :=
  parts.flatMap fun part => junction.text.toList ++ part.render.toList

theorem renderEach_eq_map (parts : List Predicate) : renderEach parts = parts.map render := by
  induction parts with
  | nil => rfl
  | cons part parts ih => rw [renderEach, ih, List.map_cons]

theorem Junction.toList_intercalate (junction : Junction) (first : Predicate)
    (others : List Predicate) :
    (junction.text.intercalate (renderEach (first :: others))).toList =
      first.render.toList ++ junction.continued others := by
  rw [renderEach_eq_map, List.map_cons, toList_intercalate_cons, List.flatMap_map, continued]

theorem Junction.text_append_ne_closing (junction : Junction) (text : List Char) :
    junction.text.toList ++ text ≠ ")".toList ++ rest := by
  cases junction <;> exact fun h => absurd (List.cons.inj h).1 (by decide)

theorem Junction.beginsApart_continued (junction : Junction) (parts : List Predicate) :
    BeginsApart (junction.continued parts ++ (")".toList ++ rest)) := by
  cases parts with
  | nil => exact beginsApart_closing rest
  | cons part parts => cases junction <;> simp [continued, text, BeginsApart]

theorem Junction.isBranched_predicate {junction : Junction} {parts : List Predicate} :
    (junction.predicate parts).IsBranched ↔ 2 ≤ parts.length ∧ AreBranched parts := by
  cases junction <;> exact Iff.rfl

mutual

/-- The text of a condition is told from what follows it. -/
theorem render_append_inj (p : Predicate) {p' : Predicate} {rest rest' : List Char}
    (hp : p.IsBranched) (hp' : p'.IsBranched) (hrest : BeginsApart rest)
    (hrest' : BeginsApart rest') (h : p.render.toList ++ rest = p'.render.toList ++ rest') :
    p = p' ∧ rest = rest' := by
  cases p with
  | always =>
      obtain ⟨_, hopened, hsame⟩ := Opened.always.exists_opened_of_eq h
      cases hopened
      exact ⟨rfl, hsame⟩
  | never =>
      obtain ⟨_, hopened, hsame⟩ := Opened.never.exists_opened_of_eq h
      cases hopened
      exact ⟨rfl, hsame⟩
  | and parts => exact junction_append_inj .and parts hp hp' h
  | or parts => exact junction_append_inj .or parts hp hp' h
  | not part =>
      obtain ⟨_, hopened, hsame⟩ := (Opened.negation part).exists_opened_of_eq h
      cases hopened with
      | negation part' =>
          have hpart' : part'.IsBranched := hp'
          obtain ⟨rfl, hafter⟩ := render_append_inj part hp hpart' hrest hrest' hsame
          exact ⟨rfl, hafter⟩
  | hasTag => exact Selection.append_inj .hasTag h
  | childOf => exact Selection.append_inj .childOf h
  | parentOf => exact Selection.append_inj .parentOf h
  | inPool => exact Selection.append_inj .inPool h
  | compare _ comparator => exact Test.append_inj (.compare comparator) hrest hrest' h
  | contains => exact Test.append_inj .contains hrest hrest' h

/-- The first part is told from what follows it, and the text after it tells how the parts are put
together, as there is a second one. -/
theorem junction_append_inj (junction : Junction) (parts : List Predicate) {p' : Predicate}
    {rest rest' : List Char} (hp : (junction.predicate parts).IsBranched) (hp' : p'.IsBranched)
    (h : (junction.predicate parts).render.toList ++ rest = p'.render.toList ++ rest') :
    junction.predicate parts = p' ∧ rest = rest' := by
  obtain ⟨_, hopened, hsame⟩ := (Opened.junction junction parts).exists_opened_of_eq h
  cases hopened with
  | junction junction' parts' =>
      obtain ⟨hlength, hbranched⟩ := Junction.isBranched_predicate.mp hp
      obtain ⟨hlength', hbranched'⟩ := Junction.isBranched_predicate.mp hp'
      match parts, parts' with
      | first :: second :: others, first' :: second' :: others' =>
          simp only [Junction.toList_intercalate, List.append_assoc] at hsame
          obtain ⟨rfl, hcontinued⟩ := render_append_inj first hbranched.1 hbranched'.1
            (junction.beginsApart_continued _) (junction'.beginsApart_continued _) hsame
          obtain ⟨hothers, hsame, hjunction⟩ := continued_append_inj junction (second :: others)
            hbranched.2 hbranched'.2 hcontinued
          rw [hjunction (List.cons_ne_nil _ _), hothers]
          exact ⟨rfl, hsame⟩

/-- The parts after the first one end where the closing parenthesis stands in place of another
separator. -/
theorem continued_append_inj (junction : Junction) {junction' : Junction}
    (parts : List Predicate) {parts' : List Predicate} {rest rest' : List Char}
    (hparts : AreBranched parts) (hparts' : AreBranched parts')
    (h : junction.continued parts ++ (")".toList ++ rest) =
      junction'.continued parts' ++ (")".toList ++ rest')) :
    parts = parts' ∧ rest = rest' ∧ (parts ≠ [] → junction = junction') := by
  match parts, parts' with
  | [], [] => exact ⟨rfl, List.append_cancel_left h, fun hparts => absurd rfl hparts⟩
  | [], part' :: parts' =>
      simp only [Junction.continued, List.flatMap_cons, List.append_assoc] at h
      exact absurd h.symm (junction'.text_append_ne_closing _)
  | part :: parts, [] =>
      simp only [Junction.continued, List.flatMap_cons, List.append_assoc] at h
      exact absurd h (junction.text_append_ne_closing _)
  | part :: parts, part' :: parts' =>
      simp only [Junction.continued, List.flatMap_cons, List.append_assoc] at h
      obtain ⟨rfl, hpart⟩ := prefixFree_junction.append_inj h
      obtain ⟨rfl, hmore⟩ := render_append_inj part hparts.1 hparts'.1
        (junction.beginsApart_continued parts) (junction.beginsApart_continued parts') hpart
      obtain ⟨rfl, hsame, -⟩ := continued_append_inj junction parts hparts.2 hparts'.2 hmore
      exact ⟨rfl, hsame, fun _ => rfl⟩

end

theorem render_inj {p p' : Predicate} (hp : p.IsBranched) (hp' : p'.IsBranched)
    (h : p.render = p'.render) : p = p' := by
  have hend : BeginsApart [] := nofun
  exact (render_append_inj p hp hp' hend hend (congrArg (·.toList ++ []) h)).1

/-- A conjunction of one part would read like a disjunction of it. -/
example : (Predicate.and [.always]).render = (Predicate.or [.always]).render := rfl

end Predicate

open Predicate

/-! ### Compiled queries -/

theorem Param.render_id_ne_render_text (n : Id) (s : String) :
    (Param.id n).render ≠ (Param.text s).render := by
  intro h
  have hquote : '"' ∈ (Param.text s).render.toList := by simp [render, Text.quoted]
  rw [← h] at hquote
  exact not_mem_repr (by decide) _ hquote

theorem Param.render_injective : Function.Injective Param.render := by
  intro param param' h
  match param, param' with
  | .id n, .id n' => exact congrArg Param.id (UInt64.toNat_inj.mp (Nat.repr_inj.mp h))
  | .id n, .text s => exact absurd h (render_id_ne_render_text n s)
  | .text s, .id n => exact absurd h.symm (render_id_ne_render_text n s)
  | .text s, .text s' => exact congrArg Param.text (Text.quoted_injective h)

theorem Param.mapIdx_line_injective : Function.Injective (List.mapIdx Param.line) := by
  intro params params' h
  have hlength : params.length = params'.length := by simpa using congrArg List.length h
  refine List.ext_getElem hlength fun index hindex hindex' => ?_
  have hline := congrArg (·[index]?) h
  simp only [List.getElem?_mapIdx, List.getElem?_eq_getElem hindex,
    List.getElem?_eq_getElem hindex', Option.map_some, Option.some.injEq] at hline
  exact render_injective (String.append_right_inj _ |>.mp hline)

theorem Order.render_injective : Function.Injective Order.render := by
  let keys : List SortKey := [.id, .size, .duration, .width, .height]
  let orders : List Order := keys.flatMap fun key => [⟨key, .ascending⟩, ⟨key, .descending⟩]
  have hmem (o : Order) : o ∈ orders := by
    obtain ⟨key, direction⟩ := o
    cases key <;> cases direction <;> decide
  have hall : ∀ o ∈ orders, ∀ o' ∈ orders, o.render = o'.render → o = o' := by decide +kernel
  exact fun o o' => hall o (hmem o) o' (hmem o')

/-- The text of a compiled query tells its condition, its parameters and its order. A condition is
told from what follows it, and so is a quotation, whatever is quoted. Every parameter has one line,
and no text is taken for a number. Whatever is compiled has a condition that reads so. -/
theorem Compiled.render_eq_render_iff {c c' : Compiled} (hc : c.predicate.IsBranched)
    (hc' : c'.predicate.IsBranched) :
    (c.render = c'.render ↔
      c.predicate = c'.predicate ∧ c.params = c'.params ∧ c.order = c'.order) ∧
    (∀ rest rest' : String, BeginsApart rest.toList → BeginsApart rest'.toList →
      c.predicate.render ++ rest = c'.predicate.render ++ rest' →
        c.predicate = c'.predicate ∧ rest = rest') ∧
    (∀ s s' rest rest' : String,
      (Param.text s).render ++ rest = (Param.text s').render ++ rest' → s = s' ∧ rest = rest') ∧
    (∀ (n : Id) (s : String), (Param.id n).render ≠ (Param.text s).render) ∧
    Text.lines c.render =
      ("WHERE " ++ c.predicate.render) :: ("ORDER BY " ++ c.order.render) ::
        (c.params.mapIdx (fun index param => placeholder index ++ " = " ++ param.render) ++
          [""]) ∧
    (∀ services config viewer q compiled,
      (compile services config viewer q).outcome = .ok compiled →
        compiled.predicate.IsBranched) := by
  refine ⟨⟨fun h => ?_, ?_⟩, ?_, fun _ _ _ _ => Text.quoted_append_inj,
    Param.render_id_ne_render_text, c.lines_render, ?_⟩
  · have hlines := congrArg Text.lines h
    rw [c.lines_render, c'.lines_render] at hlines
    obtain ⟨hpredicate, hlines⟩ := List.cons.inj hlines
    obtain ⟨horder, hparams⟩ := List.cons.inj hlines
    exact ⟨render_inj hc hc' (String.append_right_inj _ |>.mp hpredicate),
      Param.mapIdx_line_injective (List.append_cancel_right hparams),
      Order.render_injective (String.append_right_inj _ |>.mp horder)⟩
  · rintro ⟨hpredicate, hparams, horder⟩
    rw [Compiled.render, hpredicate, hparams, horder, Compiled.render]
  · intro rest rest' hrest hrest' h
    obtain ⟨hpredicate, hafter⟩ := render_append_inj c.predicate hc hc' hrest hrest'
      (by simpa only [String.toList_append] using congrArg String.toList h)
    exact ⟨hpredicate, String.toList_inj.mp hafter⟩
  · intro services config viewer q compiled h
    obtain ⟨d, visibility?, hd, rfl, -⟩ := compile_eq_ok h
    refine Draft.isBranched_finish (fun clause hclause => ?_) config visibility?
    obtain ⟨t, _, hread⟩ := exists_of_mem_right hd.clauses hclause
    exact Term.isTyped_of_clause hread

/-- A text that looks like the end of its line and a line after it is neither. -/
theorem Compiled.render_eq_render_iff_of_forged_line :
    let c : Compiled :=
      ⟨.or [.not (.hasTag 0), .contains .title 1], [.id 7, .text "8\"\n$3 = \\"], .newestFirst,
        false, false⟩
    let d : Compiled := ⟨c.predicate, [.id 7, .text "8", .text "\\"], c.order, false, false⟩
    c.predicate.IsBranched ∧ d.predicate.IsBranched ∧ c.render ≠ d.render ∧
    Text.lines c.render =
      ["WHERE (NOT id IN (SELECT post_id FROM post_tags WHERE tag_id = $1) OR " ++
          "title ILIKE '%' || $2 || '%')",
        "ORDER BY id DESC", "$1 = 7", "$2 = \"8\\\"\\n$3 = \\\\\"", ""] := by
  intro c d
  have hbranched : c.predicate.IsBranched := ⟨le_rfl, trivial, trivial, trivial⟩
  have hbranched' : d.predicate.IsBranched := hbranched
  obtain ⟨htold, -, -, -, hlines, -⟩ := Compiled.render_eq_render_iff hbranched hbranched'
  refine ⟨hbranched, hbranched', fun h => ?_, ?_⟩
  · have hlength := congrArg List.length (htold.mp h).2.1
    exact absurd hlength (by decide)
  · rw [hlines]
    decide +kernel

end TagQuery

import TagQuery.Proofs.Parameters
import TagQuery.Query.Parser
import TagQuery.Store

/-!
Compiled queries as text. The condition mentions each parameter once, in the order of their numbers,
and below the order each parameter has a line of its own, whatever its value is.
-/

namespace TagQuery

/-- What stands between the line breaks of a text. -/
def Text.lines (text : String) : List String :=
  (text.toList.splitOn '\n').map String.ofList

theorem Text.lines_of_not_mem {text : String} (h : '\n' ∉ text.toList) : lines text = [text] := by
  rw [lines, List.splitOn_eq_singleton h, List.map_singleton, String.ofList_toList]

theorem Text.lines_append {first rest : String} (h : '\n' ∉ first.toList) :
    lines (first ++ "\n" ++ rest) = first :: lines rest := by
  have hbreak : (first ++ "\n" ++ rest).toList = first.toList ++ '\n' :: rest.toList := by
    simp
  have hfirst : ∀ c ∈ first.toList, (c == '\n') = false := by
    intro c hc
    exact beq_false_of_ne (ne_of_mem_of_not_mem hc h)
  rw [lines, hbreak, List.splitOn_eq_splitOnP,
    List.splitOnP_append_cons_of_forall_mem hfirst '\n' (beq_self_eq_true _), List.map_cons,
    String.ofList_toList, lines, List.splitOn_eq_splitOnP]

/-- Texts that are each on one line make up a line each. -/
theorem Text.lines_join {texts : List String} (h : ∀ text ∈ texts, '\n' ∉ text.toList) :
    lines (String.join (texts.map (· ++ "\n"))) = texts ++ [""] := by
  induction texts with
  | nil => exact lines_of_not_mem (by simp)
  | cons text texts ih =>
      obtain ⟨htext, htexts⟩ := List.forall_mem_cons.mp h
      rw [List.map_cons, String.join_cons, lines_append htext, ih htexts, List.cons_append]

theorem isDigit_of_mem_repr {n : Nat} {c : Char} (h : c ∈ (Nat.repr n).toList) : c.isDigit := by
  rw [Nat.toList_repr] at h
  exact Nat.isDigit_of_mem_toDigits (by decide) (by decide) h

theorem not_mem_repr {c : Char} (hc : c.isDigit = false) (n : Nat) : c ∉ (Nat.repr n).toList :=
  fun h => Bool.eq_false_iff.mp hc (isDigit_of_mem_repr h)

namespace Predicate

/-- The placeholders of a text: each dollar sign with the digits right after it. -/
def placeholders : List Char → List String
  | [] => []
  | c :: text =>
    if c = '$' then String.ofList (c :: text.takeWhile Char.isDigit) :: placeholders text
    else placeholders text

/-- A text does not begin with a digit, which would belong to a placeholder before it. -/
def BeginsApart (text : List Char) : Prop :=
  ∀ c ∈ text.head?, ¬c.isDigit

theorem takeWhile_append_of_head {p : Char → Bool} {text rest : List Char} (htext : ∀ c ∈ text, p c)
    (hrest : ∀ c ∈ rest.head?, ¬p c) : (text ++ rest).takeWhile p = text := by
  rw [List.takeWhile_append_of_pos htext]
  cases rest with
  | nil => exact List.append_nil _
  | cons c rest => rw [List.takeWhile_cons_of_neg (hrest c rfl), List.append_nil]

theorem placeholders_append_of_not_mem {text : List Char} (h : '$' ∉ text) (rest : List Char) :
    placeholders (text ++ rest) = placeholders rest := by
  induction text with
  | nil => rfl
  | cons c text ih =>
      rw [List.mem_cons, not_or] at h
      obtain ⟨hc, htext⟩ := h
      rw [List.cons_append, placeholders, if_neg (Ne.symm hc), ih htext]

theorem toList_placeholder (param : Nat) :
    (placeholder param).toList = '$' :: (Nat.repr (param + 1)).toList := by
  show ("$" ++ Nat.repr (param + 1)).toList = _
  rw [String.toList_append]
  rfl

theorem placeholders_placeholder (param : Nat) {rest : List Char} (hrest : BeginsApart rest) :
    placeholders ((placeholder param).toList ++ rest) = placeholder param :: placeholders rest := by
  rw [toList_placeholder, List.cons_append, placeholders, if_pos rfl,
    takeWhile_append_of_head (fun _ => isDigit_of_mem_repr) hrest, ← toList_placeholder,
    String.ofList_toList,
    placeholders_append_of_not_mem (not_mem_repr (by decide) _)]

/-- A text without placeholders, on one line. -/
def IsPlain (text : List Char) : Prop :=
  '$' ∉ text ∧ '\n' ∉ text

instance (text : List Char) : Decidable (IsPlain text) :=
  inferInstanceAs (Decidable (_ ∧ _))

theorem isPlain_append {text more : List Char} :
    IsPlain (text ++ more) ↔ IsPlain text ∧ IsPlain more := by
  simp only [IsPlain, List.mem_append, not_or]
  exact and_and_and_comm

/-- A text has one placeholder, and is plain before and after it. -/
def Shows (text : String) (param : Nat) : Prop :=
  ∃ before after : String, text = before ++ placeholder param ++ after ∧
    IsPlain before.toList ∧ IsPlain after.toList ∧ BeginsApart after.toList

theorem shows_selection {result table column : String} (hresult : IsPlain result.toList)
    (htable : IsPlain table.toList) (hcolumn : IsPlain column.toList) (param : Nat) :
    Shows (selection result table column param) param := by
  refine ⟨"id IN (SELECT " ++ result ++ " FROM " ++ table ++ " WHERE " ++ column ++ " = ", ")", rfl,
    ?_, by decide, by simp [BeginsApart]⟩
  simp only [String.toList_append, isPlain_append]
  exact ⟨⟨⟨⟨⟨⟨by decide, hresult⟩, by decide⟩, htable⟩, by decide⟩, hcolumn⟩, by decide⟩

theorem isPlain_columnName (column : Column) : IsPlain column.name.toList := by
  cases column <;> decide

theorem isPlain_symbol (comparator : Comparator) : IsPlain comparator.symbol.toList := by
  cases comparator <;> decide

theorem shows_compare (column : Column) (comparator : Comparator) (param : Nat) :
    Shows (Predicate.compare column comparator param).render param := by
  refine ⟨column.name ++ " " ++ comparator.symbol ++ " ", "", (String.append_empty).symm, ?_,
    by decide, by simp [BeginsApart]⟩
  simp only [String.toList_append, isPlain_append]
  exact ⟨⟨⟨isPlain_columnName column, by decide⟩, isPlain_symbol comparator⟩, by decide⟩

theorem shows_contains (column : Column) (param : Nat) :
    Shows (Predicate.contains column param).render param := by
  refine ⟨column.name ++ " ILIKE '%' || ", " || '%'", rfl, ?_, by decide, by simp [BeginsApart]⟩
  rw [String.toList_append, isPlain_append]
  exact ⟨isPlain_columnName column, by decide⟩

theorem Shows.placeholders_append {text : String} {param : Nat} (h : Shows text param)
    {rest : List Char} (hrest : BeginsApart rest) :
    placeholders (text.toList ++ rest) = placeholder param :: placeholders rest := by
  obtain ⟨before, after, rfl, hbefore, hafter, happart⟩ := h
  have hnext : BeginsApart (after.toList ++ rest) := by
    cases hchars : after.toList with
    | nil => exact hrest
    | cons c chars =>
        rw [hchars] at happart
        exact happart
  simp only [String.toList_append, List.append_assoc]
  rw [placeholders_append_of_not_mem hbefore.1, placeholders_placeholder param hnext,
    placeholders_append_of_not_mem hafter.1]

theorem Shows.not_mem {text : String} {param : Nat} (h : Shows text param) :
    '\n' ∉ text.toList := by
  obtain ⟨before, after, rfl, hbefore, hafter, -⟩ := h
  simp only [String.toList_append, List.mem_append, toList_placeholder, List.mem_cons, not_or]
  exact ⟨⟨hbefore.2, by decide, not_mem_repr (by decide) _⟩, hafter.2⟩

/-- What stands between the parts of a condition: plain text, and not empty. -/
structure Separates (separator : String) : Prop where
  plain : IsPlain separator.toList
  apart (rest : List Char) : BeginsApart (separator.toList ++ rest)

theorem separates_and : Separates " AND " :=
  ⟨by decide, fun rest => by simp [BeginsApart]⟩

theorem separates_or : Separates " OR " :=
  ⟨by decide, fun rest => by simp [BeginsApart]⟩

theorem beginsApart_closing (rest : List Char) : BeginsApart (")".toList ++ rest) := by
  simp [BeginsApart]

/-- The placeholders of some leaves. -/
def placeholdersOf (leaves : List (ParamKind × Nat)) : List String :=
  leaves.map fun leaf => placeholder leaf.2

mutual

/-- A condition mentions the parameters of its leaves from left to right, whatever follows its
text. -/
theorem placeholders_render (p : Predicate) {rest : List Char} (hrest : BeginsApart rest) :
    placeholders (p.render.toList ++ rest) = placeholdersOf p.leaves ++ placeholders rest := by
  match p with
  | .always => exact placeholders_append_of_not_mem (by decide) rest
  | .never => exact placeholders_append_of_not_mem (by decide) rest
  | .and parts =>
      simp only [render, leaves, String.toList_append, List.append_assoc]
      rw [placeholders_append_of_not_mem (by decide),
        placeholders_renderEach separates_and parts (beginsApart_closing rest),
        placeholders_append_of_not_mem (by decide)]
  | .or parts =>
      simp only [render, leaves, String.toList_append, List.append_assoc]
      rw [placeholders_append_of_not_mem (by decide),
        placeholders_renderEach separates_or parts (beginsApart_closing rest),
        placeholders_append_of_not_mem (by decide)]
  | .not part =>
      simp only [render, leaves, String.toList_append, List.append_assoc]
      rw [placeholders_append_of_not_mem (by decide), placeholders_render part hrest]
  | .hasTag param | .childOf param | .parentOf param | .inPool param =>
      exact (shows_selection (by decide) (by decide) (by decide) param).placeholders_append hrest
  | .compare column comparator param =>
      exact (shows_compare column comparator param).placeholders_append hrest
  | .contains column param => exact (shows_contains column param).placeholders_append hrest

theorem placeholders_renderEach {separator : String} (hseparator : Separates separator)
    (parts : List Predicate) {rest : List Char} (hrest : BeginsApart rest) :
    placeholders ((separator.intercalate (renderEach parts)).toList ++ rest) =
      placeholdersOf (leavesOfEach parts) ++ placeholders rest := by
  match parts with
  | [] => rfl
  | [part] =>
      rw [renderEach, renderEach, String.intercalate_singleton, placeholders_render part hrest,
        leavesOfEach, leavesOfEach, List.append_nil]
  | part :: second :: others =>
      rw [renderEach, renderEach, String.intercalate_cons_cons, ← renderEach, leavesOfEach,
        placeholdersOf, List.map_append]
      simp only [String.toList_append, List.append_assoc]
      -- the separator ends the number of a placeholder that the part may end with
      rw [placeholders_render part (hseparator.apart _),
        placeholders_append_of_not_mem hseparator.plain.1,
        placeholders_renderEach hseparator (second :: others) hrest]
      rfl

end

mutual

theorem not_mem_render (p : Predicate) : '\n' ∉ p.render.toList := by
  match p with
  | .always | .never => decide
  | .and parts =>
      simp only [render, String.toList_append, List.mem_append, not_or]
      exact ⟨⟨by decide, not_mem_renderEach separates_and parts⟩, by decide⟩
  | .or parts =>
      simp only [render, String.toList_append, List.mem_append, not_or]
      exact ⟨⟨by decide, not_mem_renderEach separates_or parts⟩, by decide⟩
  | .not part =>
      simp only [render, String.toList_append, List.mem_append, not_or]
      exact ⟨by decide, not_mem_render part⟩
  | .hasTag param | .childOf param | .parentOf param | .inPool param =>
      exact (shows_selection (by decide) (by decide) (by decide) param).not_mem
  | .compare column comparator param => exact (shows_compare column comparator param).not_mem
  | .contains column param => exact (shows_contains column param).not_mem

theorem not_mem_renderEach {separator : String} (hseparator : Separates separator)
    (parts : List Predicate) : '\n' ∉ (separator.intercalate (renderEach parts)).toList := by
  match parts with
  | [] => simp [renderEach]
  | [part] =>
      rw [renderEach, renderEach, String.intercalate_singleton]
      exact not_mem_render part
  | part :: second :: others =>
      rw [renderEach, renderEach, String.intercalate_cons_cons, ← renderEach]
      simp only [String.toList_append, List.mem_append, not_or]
      exact ⟨⟨not_mem_render part, hseparator.plain.2⟩,
        not_mem_renderEach hseparator (second :: others)⟩

end

end Predicate

theorem Text.not_mem_hexDigits {c : Char} (hc : ∀ digit < 16, Nat.digitChar digit ≠ c) (n : Nat) :
    c ∉ hexDigits n := by
  rw [hexDigits]
  induction n using Nat.strong_induction_on with
  | _ n ih =>
      rw [Nat.toDigits_eq_if (by decide)]
      split
      next hlt => exact fun h => hc n hlt (List.mem_singleton.mp h).symm
      next hge =>
        rw [List.mem_append, not_or]
        exact ⟨ih _ (Nat.div_lt_self (by omega) (by decide)),
          fun h => hc _ (Nat.mod_lt n (by decide)) (List.mem_singleton.mp h).symm⟩

theorem Text.not_mem_quotedChar (c : Char) : '\n' ∉ quotedChar c := by
  by_cases hc : c = '\n'
  · subst hc
    decide
  · unfold quotedChar
    split
    case h_7 =>
      split
      · simp [not_mem_hexDigits (c := '\n') (by decide)]
      · exact fun h => hc (List.mem_singleton.mp h).symm
    all_goals decide

theorem Text.not_mem_quoted (s : String) : '\n' ∉ (quoted s).toList := by
  rw [quoted, String.toList_ofList]
  simp [not_mem_quotedChar]

theorem Param.not_mem_render (param : Param) : '\n' ∉ param.render.toList := by
  cases param with
  | id value => exact not_mem_repr (by decide) _
  | text value => exact Text.not_mem_quoted value

theorem Order.not_mem_render (o : Order) : '\n' ∉ o.render.toList := by
  obtain ⟨key, direction⟩ := o
  cases key <;> cases direction <;> decide

/-! ### Compiled queries as text -/

open Predicate

/-- The line of a parameter. -/
def Param.line (index : Nat) (param : Param) : String :=
  placeholder index ++ " = " ++ param.render

theorem Param.not_mem_line (index : Nat) (param : Param) : '\n' ∉ (param.line index).toList := by
  simp only [line, String.toList_append, List.mem_append, toList_placeholder, List.mem_cons, not_or]
  exact ⟨⟨⟨by decide, not_mem_repr (by decide) _⟩, by decide⟩, param.not_mem_render⟩

theorem Param.lines_eq (base : Nat) (params : List Param) :
    lines (base + 1) params =
      (params.mapIdx fun index => line (base + index)).map (· ++ "\n") := by
  induction params generalizing base with
  | nil => rfl
  | cons param params ih =>
      rw [lines, ih, List.mapIdx_cons, List.map_cons]
      simp only [Nat.add_zero, Nat.add_assoc, Nat.add_comm 1]
      rfl

theorem Param.lines_join_lines (base : Nat) (params : List Param) :
    Text.lines (String.join (lines (base + 1) params)) =
      params.mapIdx (fun index => line (base + index)) ++ [""] := by
  rw [lines_eq, Text.lines_join]
  intro text htext
  obtain ⟨index, _, rfl⟩ := List.mem_mapIdx.mp htext
  exact not_mem_line _ _

/-- The lines of a compiled query: one for the condition, one for the order, and one for each
parameter. -/
theorem Compiled.lines_render (c : Compiled) :
    Text.lines c.render =
      ("WHERE " ++ c.predicate.render) :: ("ORDER BY " ++ c.order.render) ::
        (c.params.mapIdx Param.line ++ [""]) := by
  have hpredicate : '\n' ∉ ("WHERE " ++ c.predicate.render).toList := by
    rw [String.toList_append, List.mem_append, not_or]
    exact ⟨by decide, Predicate.not_mem_render _⟩
  have horder : '\n' ∉ ("ORDER BY " ++ c.order.render).toList := by
    rw [String.toList_append, List.mem_append, not_or]
    exact ⟨by decide, Order.not_mem_render _⟩
  have htext : c.render = "WHERE " ++ c.predicate.render ++ "\n" ++
      ("ORDER BY " ++ c.order.render ++ "\n" ++ String.join (Param.lines 1 c.params)) := by
    simp only [String.append_assoc, Compiled.render]
    rfl
  rw [htext, Text.lines_append hpredicate, Text.lines_append horder, Param.lines_join_lines 0]
  simp only [Nat.zero_add]

/-- The leaves of a compiled query take all its parameters, each once and in their order, and each
parameter has the kind of value that its leaf asks for. The text of the condition mentions the
parameters in that order, and so do the lines below it. -/
theorem params_taken_in_order {services : Services} {config : Config} {viewer : Viewer} {q : Query}
    {c : Compiled} (h : (compile services config viewer q).outcome = .ok c) :
    c.predicate.leaves.map Prod.snd = List.range c.params.length ∧
    (∀ leaf ∈ c.predicate.leaves, c.params[leaf.2]?.map Param.kind = some leaf.1) ∧
    c.predicate.IsBranched ∧
    placeholders c.predicate.render.toList = (List.range c.params.length).map placeholder ∧
    Text.lines c.render =
      ("WHERE " ++ c.predicate.render) :: ("ORDER BY " ++ c.order.render) ::
        (c.params.mapIdx (fun index param => placeholder index ++ " = " ++ param.render) ++
          [""]) := by
  obtain ⟨d, visibility?, hd, rfl, -⟩ := compile_eq_ok h
  have htyped : ∀ clause ∈ d.clauses, clause.IsTyped := by
    intro clause hclause
    obtain ⟨t, _, hread⟩ := exists_of_mem_right hd.clauses hclause
    exact Term.isTyped_of_clause hread
  have hleaves := Draft.leaves_finish htyped config visibility?
  have hindexes : (d.finish config visibility?).predicate.leaves.map Prod.snd =
      List.range (d.finish config visibility?).params.length := by
    rw [hleaves, List.zipIdx_map_snd, List.length_map, List.range_eq_range']
  refine ⟨hindexes, ?_, Draft.isBranched_finish htyped config visibility?, ?_,
    Compiled.lines_render _⟩
  · intro leaf hleaf
    rw [hleaves] at hleaf
    rw [← List.getElem?_map]
    exact List.mem_zipIdx_iff_getElem?.mp hleaf
  · have hend : BeginsApart [] := nofun
    have hmentions := placeholders_render (d.finish config visibility?).predicate hend
    rw [List.append_nil] at hmentions
    rw [hmentions, ← hindexes, List.map_map, placeholders, List.append_nil]
    rfl

/-- A value that looks like a placeholder is none. -/
theorem params_taken_in_order_of_repeated_value :
    let services := ({ Store.empty with tags := .ofList [("cat", 3)] } : Store).services
    ∃ q c, Query.parse "-Cat contains:$9 sort:size" = .ok q ∧
      (compile services {} .anonymous q).outcome = .ok c ∧
      c.predicate.leaves.map Prod.snd = [0, 1, 2, 3, 4, 5, 6] ∧ c.predicate.IsBranched ∧
      placeholders c.predicate.render.toList = ["$1", "$2", "$3", "$4", "$5", "$6", "$7"] ∧
      (Text.lines c.render).drop 2 =
        ["$1 = 3", "$2 = \"$9\"", "$3 = \"$9\"", "$4 = \"$9\"", "$5 = \"unsafe\"",
          "$6 = \"explicit\"", "$7 = \"ok\"", ""] := by
  intro services
  let q : Query :=
    ⟨.tag ⟨true, ⟨.word, "Cat", 1⟩⟩,
      [.field ⟨⟨.word, "contains", 5⟩, ⟨.colon, ":", 13⟩, ⟨.implied, "=", 13⟩, ⟨.word, "$9", 14⟩⟩,
        .field ⟨⟨.word, "sort", 17⟩, ⟨.colon, ":", 21⟩, ⟨.implied, "=", 21⟩, ⟨.word, "size", 22⟩⟩]⟩
  have hparse : Query.parse "-Cat contains:$9 sort:size" = .ok q := by decide +kernel
  obtain ⟨c, hc, hparams⟩ : ∃ c, (compile services {} .anonymous q).outcome = .ok c ∧
      c.params = [.id 3, .text "$9", .text "$9", .text "$9", .text "unsafe", .text "explicit",
        .text "ok"] := ⟨_, by cbv, rfl⟩
  obtain ⟨hindexes, -, hbranched, hmentions, hlines⟩ := params_taken_in_order hc
  rw [hparams] at hindexes hmentions hlines
  refine ⟨q, c, hparse, hc, hindexes, hbranched, hmentions, ?_⟩
  rw [hlines, List.drop_succ_cons, List.drop_succ_cons, List.drop_zero]
  decide +kernel

end TagQuery

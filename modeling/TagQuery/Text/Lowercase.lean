import TagQuery.Text.CodePoints
import TagQuery.Text.CasedTable
import TagQuery.Text.LowercaseTable

/-!
Full lower-casing of text. Each character is mapped on its own, with two exceptions: a dotted
capital I becomes two characters, and a capital sigma becomes a final sigma at the end of a word.
-/

namespace TagQuery.Text

/-- Whether the property `Cased` holds of a character. -/
def isCased (c : Char) : Bool :=
  inRanges c.toNat casedRanges

/-- Whether a character is passed over in the search for a neighbouring cased letter. -/
def isCaseIgnorable (c : Char) : Bool :=
  inRanges c.toNat caseIgnorableRanges

/-- The image of a code point under the first run that holds it, and otherwise itself. -/
def lowercaseCode (code : Nat) : List CaseRun → Nat
  | [] => code
  | run :: runs =>
    if code < run.first then code
    else if code ≤ run.last ∧ (code - run.first) % run.step = 0 then run.image + (code - run.first)
    else lowercaseCode code runs

/-- The lower-case form of a character that stands for one character in lower case. -/
def lowercaseChar (c : Char) : Char :=
  Char.ofNat (lowercaseCode c.toNat lowercaseRuns)

/-- Whether the first character that is not case-ignorable is a cased letter. -/
def casedAhead (cs : List Char) : Bool :=
  ((cs.dropWhile isCaseIgnorable).head?.map isCased).getD false

/-- The lower-case form of a character between the text before it, nearest character first, and the
text after it. A capital sigma ends a word if a cased letter stands before it and none after it. -/
def lowercaseAt (before : List Char) (c : Char) (after : List Char) : List Char :=
  if c = 'Σ' then
    if casedAhead before && !casedAhead after then ['ς'] else ['σ']
  else if c = 'İ' then ['i', '\u0307']
  else [lowercaseChar c]

/-- Lower-cases a text whose earlier characters, nearest first, are given. -/
def lowercaseFrom (before : List Char) : List Char → List Char
  | [] => []
  | c :: after => lowercaseAt before c after ++ lowercaseFrom (c :: before) after

/-- The lower-case form of a text. -/
def lowercase (s : String) : String :=
  String.ofList (lowercaseFrom [] s.toList)

end TagQuery.Text

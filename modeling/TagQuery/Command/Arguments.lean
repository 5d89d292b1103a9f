import TagQuery.Text.Decimal
import TagQuery.Viewer

/-!
The arguments of the command line. A word that begins with a dash is an option, unless it is the
dash alone or follows a pair of dashes. Once the first word of a query has been seen all that
follows belongs to the query.
-/

namespace TagQuery

/-- What the command line asks for. -/
inductive Command where
  | init (snapshot : String) (tags : List String)
  | search (snapshot : String) (viewer : Viewer) (query : List String)
  deriving DecidableEq, Repr

/-- What arguments come to. -/
inductive Request where
  | run (command : Command)
  | version
  | help
  | misuse
  deriving DecidableEq, Repr

namespace Arguments

/-- How a word reads where options are expected. -/
inductive Form where
  | separator
  | long (name : List Char) (value? : Option (List Char))
  | short (letters : List Char)
  | value
  deriving DecidableEq, Repr

def form (word : List Char) : Form :=
  match word with
  | ['-', '-'] => .separator
  | '-' :: '-' :: rest =>
    match rest.dropWhile (· ≠ '=') with
    | [] => .long rest none
    | _ :: value => .long (rest.takeWhile (· ≠ '=')) (some value)
  | '-' :: letter :: letters => .short (letter :: letters)
  | _ => .value

/-- Whether a long option asks for help, which takes no value. -/
def helpOrMisuse (name : List Char) (value? : Option (List Char)) : Request :=
  if name = "help".toList ∧ value? = none then .help else .misuse

/-- Reads the names of tags after the snapshot. At least one is needed. -/
def readTags (snapshot : String) (tags : List String) : List String → Request
  | [] => if tags.isEmpty then .misuse else .run (.init snapshot tags.reverse)
  | word :: words =>
    match form word.toList with
    | .separator =>
      let tags := tags.reverse ++ words
      if tags.isEmpty then .misuse else .run (.init snapshot tags)
    | .long name value? => helpOrMisuse name value?
    | .short letters => if letters.head? = some 'h' then .help else .misuse
    | .value => readTags snapshot (word :: tags) words

/-- Reads the arguments of `init`. -/
def readInit : List String → Request
  | [] => .misuse
  | word :: words =>
    match form word.toList with
    | .separator =>
      match words with
      | snapshot :: tag :: tags => if snapshot = "" then .misuse else .run (.init snapshot (tag :: tags))
      | _ => .misuse
    | .long name value? => helpOrMisuse name value?
    | .short letters => if letters.head? = some 'h' then .help else .misuse
    | .value => if word = "" then .misuse else readTags word [] words

/-- What has been read of the arguments of `search`. -/
structure SearchArguments where
  viewer? : Option Id := none
  snapshot? : Option String := none
  deriving Repr

namespace SearchArguments

/-- The viewer that the arguments name, or a visitor. -/
def viewer (a : SearchArguments) : Viewer :=
  match a.viewer? with
  | some id => .user id
  | none => .anonymous

/-- Takes a viewer, which may be named once. -/
def withViewer? (a : SearchArguments) (text : List Char) : Option SearchArguments :=
  match a.viewer?, Text.readDecimal text with
  | none, .ok id => some { a with viewer? := some id }
  | _, _ => none

/-- The request once the words of the query are known. -/
def request (a : SearchArguments) (query : List String) : Request :=
  match a.snapshot?, query with
  | some snapshot, _ :: _ => .run (.search snapshot a.viewer query)
  | _, _ => .misuse

/-- What remains after a pair of dashes. -/
def requestOfValues (a : SearchArguments) (words : List String) : Request :=
  match a.snapshot?, words with
  | some _, query => a.request query
  | none, snapshot :: query =>
    if snapshot = "" then .misuse else { a with snapshot? := some snapshot }.request query
  | none, [] => .misuse

/-- How a word of `search` reads. The text of a viewer can be attached to its option. -/
inductive Reading where
  | separator
  | value
  | help
  | viewer (attached? : Option (List Char))
  | misuse
  deriving DecidableEq, Repr

/-- Whether a letter is that of an option. -/
def isOptionLetter (letter : Char) : Bool :=
  letter = 'v' || letter = 'h'

/-- How a word reads. In the place of the first word of the query, an option that is not known is
that word. -/
def reading (atQuery : Bool) (word : List Char) : Reading :=
  match form word with
  | .separator => .separator
  | .value => .value
  | .long name value? =>
    if name = "viewer".toList then .viewer value?
    else if name = "help".toList then if value? = none then .help else .misuse
    else if atQuery then .value
    else .misuse
  | .short letters =>
    if atQuery && !letters.all isOptionLetter then .value
    else
      match letters with
      | ['v'] => .viewer none
      | 'v' :: '=' :: text => .viewer (some text)
      | 'v' :: text => .viewer (some text)
      | 'h' :: _ => .help
      | _ => .misuse

/-- The text of an option, which is the next word where none is attached, and the words after it. -/
def textOf (attached? : Option (List Char)) (words : List String) :
    Option (List Char × List String) :=
  match attached?, words with
  | some text, words => some (text, words)
  | none, word :: words => some (word.toList, words)
  | none, [] => none

theorem length_textOf_le {attached? : Option (List Char)} {words rest : List String}
    {text : List Char} (h : textOf attached? words = some (text, rest)) :
    rest.length ≤ words.length := by
  unfold textOf at h
  split at h <;> cases h
  · exact Nat.le_refl _
  · exact Nat.le_succ _

/-- Reads the arguments of `search`. -/
def read (a : SearchArguments) : List String → Request
  | [] => .misuse
  | word :: words =>
    match reading a.snapshot?.isSome word.toList with
    | .separator => a.requestOfValues words
    | .help => .help
    | .misuse => .misuse
    | .value =>
      if a.snapshot?.isSome then a.request (word :: words)
      else if word = "" then .misuse
      else { a with snapshot? := some word }.read words
    | .viewer attached? =>
      match _ : textOf attached? words with
      | none => .misuse
      | some (text, rest) =>
        match a.withViewer? text with
        | none => .misuse
        | some a => a.read rest
termination_by words => words.length
decreasing_by
  · exact Nat.lt_succ_self _
  · exact Nat.lt_succ_of_le (length_textOf_le ‹_›)

end SearchArguments

/-- Reads the arguments of a command line without the name of the program. -/
def read : List String → Request
  | [] => .misuse
  | word :: words =>
    match form word.toList with
    | .separator => .misuse
    | .long name value? =>
      if name = "version".toList ∧ value? = none then .version else helpOrMisuse name value?
    | .short letters =>
      match letters.head? with
      | some 'h' => .help
      | some 'V' => .version
      | _ => .misuse
    | .value =>
      match word with
      | "init" => readInit words
      | "search" => SearchArguments.read {} words
      | "help" =>
        match words with
        | [] | ["init"] | ["search"] | ["help"] => .help
        | _ => .misuse
      | _ => .misuse

end Arguments

end TagQuery

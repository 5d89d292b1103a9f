import TagQuery.Command.Arguments
import TagQuery.Config
import TagQuery.Query.Tree
import TagQuery.Search
import TagQuery.Store.Snapshot

/-!
The commands. `init` writes a store that holds the tags it is given, and `search` prints the syntax
tree of a query and what the query compiles to on a store that was written before.
-/

namespace TagQuery

/-- What a program that fails reports, and what is behind that. -/
structure Failure where
  message : String
  cause? : Option String := none
  deriving DecidableEq, Repr

namespace Failure

def render (f : Failure) : String :=
  let cause := (f.cause?.map fun cause => s!"\n\nCaused by:\n    {cause}").getD ""
  s!"Error: {f.message}{cause}\n"

def ofConfig (e : ConfigError) : Failure :=
  ⟨e.message, some e.cause.message⟩

def ofRead (e : MessagePack.ReadError) : Failure :=
  ⟨e.message, e.cause?⟩

end Failure

/-- What a command prints, and how it fails if it does. -/
structure Printed where
  text : String
  failure? : Option Failure := none
  deriving DecidableEq, Repr

namespace Command

/-- The store of a list of tags, whose ids count from zero. -/
def storeOfTags (tags : List String) : Except StoreError Store :=
  tags.foldlM (fun store tag => (store.createTag tag).map Prod.snd) Store.empty

/-- The bytes that `init` writes. -/
def snapshotOfTags (tags : List String) : Except Failure Bytes :=
  match storeOfTags tags with
  | .ok store => .ok store.save
  | .error e => .error ⟨e.message, none⟩

/-- What `search` prints for a query on a store. The tree is printed before the environment is
read. -/
def printSearch (store : Store) (environment : String → Option String) (viewer : Viewer)
    (text : String) : Printed :=
  match Query.parse text with
  | .error e => ⟨"", some ⟨(SearchError.malformed e).message, none⟩⟩
  | .ok q =>
    let tree := q.tree.render
    match Config.ofEnvironment environment with
    | .error e => ⟨tree, some (.ofConfig e)⟩
    | .ok config =>
      match (compile store.services config viewer q).outcome with
      | .error e => ⟨tree, some ⟨e.message, none⟩⟩
      | .ok compiled => ⟨tree ++ compiled.render, none⟩

/-- What `search` prints for the words of a query on the bytes of a store. -/
def printSearchBytes (bytes : Bytes) (environment : String → Option String) (viewer : Viewer)
    (words : List String) : Printed :=
  match Store.load bytes with
  | .error e => ⟨"", some (.ofRead e)⟩
  | .ok store => printSearch store environment viewer (String.intercalate " " words)

/-- The version that the program reports. -/
def versionText : String := "tagsearch 0.1.0\n"

/-- The text that the program shows when it is asked for help. -/
def helpText : String :=
  "Parse and compile tag search queries against a tag snapshot\n\n" ++
  "Usage: tagsearch <COMMAND>\n\n" ++
  "Commands:\n" ++
  "  init    Write a snapshot containing the given tags\n" ++
  "  search  Print the syntax tree and compiled query\n" ++
  "  help    Print this message or the help of the given subcommand(s)\n\n" ++
  "Options:\n" ++
  "  -h, --help     Print help\n" ++
  "  -V, --version  Print version\n"

end Command

end TagQuery

import TagQuery.Cache
import TagQuery.Compile
import TagQuery.Query.Parser

/-!
Searching: a query text is parsed and compiled for a viewer, unless that has been done before and
the outcome is still in the cache. What has failed is not kept.
-/

namespace TagQuery

/-- Why a search fails. -/
inductive SearchError where
  | malformed (e : ParseError)
  | compile (e : CompileError)
  deriving DecidableEq, Repr

namespace SearchError

def message : SearchError → String
  | .malformed e =>
    s!"malformed query near {Text.quoted e.token.value} at {e.token.position}: {e.message}"
  | .compile e => e.message

def isRetryable : SearchError → Bool
  | .malformed _ => false
  | .compile e => e.isRetryable

end SearchError

/-- Parses and compiles a query text, whatever the cache holds. -/
def compileText (services : Services) (config : Config) (viewer : Viewer) (text : String) :
    Except SearchError Compiled :=
  match Query.parse text with
  | .error e => .error (.malformed e)
  | .ok q => (compile services config viewer q).outcome.mapError .compile

/-- One compilation of a query. Two compilations have two numbers even if their queries are equal. -/
structure Stored where
  number : Nat
  compiled : Compiled
  deriving Repr

/-- What a search gives, and whether that was in the cache. -/
structure Found where
  stored : Stored
  cached : Bool
  deriving Repr

structure Searcher where
  config : Config
  cache : Cache Stored
  /-- The number of the next compilation. -/
  nextNumber : Nat := 0

namespace Searcher

/-- Searches for a viewer. -/
def search (s : Searcher) (services : Services) (viewer : Viewer) (text : String) :
    Except SearchError Found × Searcher :=
  let key : CacheKey := ⟨text, viewer⟩
  match s.cache.get? key with
  | some stored => (.ok ⟨stored, true⟩, s)
  | none =>
    match compileText services s.config viewer text with
    | .error e => (.error e, s)
    | .ok compiled =>
      let stored : Stored := ⟨s.nextNumber, compiled⟩
      (.ok ⟨stored, false⟩,
        { s with cache := s.cache.insert key stored, nextNumber := s.nextNumber + 1 })

/-- Forgets what has been compiled, as is due after a change of tags. -/
def invalidate (s : Searcher) : Searcher :=
  { s with cache := s.cache.clear }

end Searcher

end TagQuery

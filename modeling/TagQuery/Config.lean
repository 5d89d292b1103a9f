import TagQuery.Duration
import TagQuery.Order
import TagQuery.Text.Decimal
import TagQuery.Text.Quoted

/-!
The settings of compilation, and how they are read from an environment of named texts.
-/

namespace TagQuery

structure Config where
  /-- The order of a query without a sort term. -/
  defaultOrder : Order := .newestFirst
  /-- Whether deleted posts are left out when a query has no status term. -/
  hideDeleted : Bool := true
  /-- Whether the sign for less-than is read as greater-than. -/
  legacyLessThan : Bool := true
  /-- How long each batch of lookups may take. -/
  lookupTimeout : Option Duration := none
  deriving DecidableEq, Repr

/-- The settings that an environment can change. -/
inductive Setting where
  | hideDeleted
  | legacyLessThan
  | lookupTimeout
  deriving DecidableEq, Repr

/-- The settings in the order in which they are read. -/
def Setting.all : List Setting :=
  [.hideDeleted, .legacyLessThan, .lookupTimeout]

/-- The variable of the environment that holds a setting. -/
def Setting.variableName : Setting → String
  | .hideDeleted => "TAGSEARCH_HIDE_DELETED"
  | .legacyLessThan => "TAGSEARCH_LEGACY_LESS_THAN"
  | .lookupTimeout => "TAGSEARCH_LOOKUP_TIMEOUT_MS"

/-- Why a text is no value for a setting. -/
inductive ValueError where
  | notBoolean
  | decimal (e : Text.DecimalError)
  deriving DecidableEq, Repr

def ValueError.message : ValueError → String
  | .notBoolean => "provided string was not `true` or `false`"
  | .decimal e => e.message

/-- A setting whose text is refused. -/
structure ConfigError where
  setting : Setting
  text : String
  cause : ValueError
  deriving DecidableEq, Repr

def ConfigError.message (e : ConfigError) : String :=
  s!"{e.setting.variableName}={Text.quoted e.text}"

/-- Reads the words for true and false, in these letters only. -/
def readSwitch (text : String) : Except ValueError Bool :=
  if text = "true" then .ok true else if text = "false" then .ok false else .error .notBoolean

/-- A whole number of milliseconds. -/
def readMilliseconds (text : String) : Except ValueError Duration :=
  match Text.readDecimal text.toList with
  | .ok ms => .ok (.ofMilliseconds ms.toNat)
  | .error e => .error (.decimal e)

namespace Config

/-- The settings after one of them has been read from a text. -/
def assign (c : Config) (setting : Setting) (text : String) : Except ValueError Config :=
  match setting with
  | .hideDeleted => (readSwitch text).map ({ c with hideDeleted := · })
  | .legacyLessThan => (readSwitch text).map ({ c with legacyLessThan := · })
  | .lookupTimeout => (readMilliseconds text).map ({ c with lookupTimeout := some · })

/-- The defaults, changed by the settings that the environment holds. The first setting whose text is
refused is reported. -/
def ofEnvironment (get? : String → Option String) : Except ConfigError Config :=
  Setting.all.foldlM (fun config setting =>
    match get? setting.variableName with
    | none => .ok config
    | some text => (config.assign setting text).mapError (⟨setting, text, ·⟩)) {}

end Config

end TagQuery

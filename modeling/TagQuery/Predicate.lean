/-!
Conditions over posts, with numbered parameters in place of values.
-/

namespace TagQuery

/-- The columns of a post. -/
inductive Column where
  | accountId
  | rating
  | status
  | md5
  | extension
  | fileType
  | title
  | description
  | context
  deriving DecidableEq, Repr

def Column.name : Column → String
  | .accountId => "account_id"
  | .rating => "rating"
  | .status => "status"
  | .md5 => "md5"
  | .extension => "extension"
  | .fileType => "file_type"
  | .title => "title"
  | .description => "description"
  | .context => "context"

inductive Comparator where
  | equal
  | greaterThan
  | lessThan
  | notEqual
  deriving DecidableEq, Repr

def Comparator.symbol : Comparator → String
  | .equal => "="
  | .greaterThan => ">"
  | .lessThan => "<"
  | .notEqual => "<>"

/-- A condition over posts. A leaf names its parameter by its index, counted from zero. -/
inductive Predicate where
  | always
  | never
  | and (parts : List Predicate)
  | or (parts : List Predicate)
  | not (part : Predicate)
  | hasTag (param : Nat)
  | compare (column : Column) (comparator : Comparator) (param : Nat)
  | contains (column : Column) (param : Nat)
  | childOf (param : Nat)
  | parentOf (param : Nat)
  | inPool (param : Nat)
  deriving Repr

namespace Predicate

/-- A conjunction. One part stands for itself, and no parts always hold. -/
def all : List Predicate → Predicate
  | [] => .always
  | [part] => part
  | parts => .and parts

/-- A disjunction. One part stands for itself, and no parts never hold. -/
def any : List Predicate → Predicate
  | [] => .never
  | [part] => part
  | parts => .or parts

/-- How a text refers to a parameter, counted from one. -/
def placeholder (param : Nat) : String :=
  s!"${param + 1}"

/-- The rows of a table that hold the parameter in one column, by another column. -/
def selection (result table column : String) (param : Nat) : String :=
  s!"id IN (SELECT {result} FROM {table} WHERE {column} = {placeholder param})"

mutual

/-- The condition as text. -/
def render : Predicate → String
  | .always => "TRUE"
  | .never => "FALSE"
  | .and parts => "(" ++ String.intercalate " AND " (renderEach parts) ++ ")"
  | .or parts => "(" ++ String.intercalate " OR " (renderEach parts) ++ ")"
  | .not part => "NOT " ++ part.render
  | .hasTag param => selection "post_id" "post_tags" "tag_id" param
  | .compare column comparator param =>
    s!"{column.name} {comparator.symbol} {placeholder param}"
  | .contains column param => s!"{column.name} ILIKE '%' || {placeholder param} || '%'"
  | .childOf param => selection "child_id" "post_relations" "parent_id" param
  | .parentOf param => selection "parent_id" "post_relations" "child_id" param
  | .inPool param => selection "post_id" "pool_entries" "pool_id" param

def renderEach : List Predicate → List String
  | [] => []
  | part :: parts => part.render :: renderEach parts

end

end Predicate

end TagQuery

import TagQuery.Command
import TagQuery.SortedMap
import TagQuery.Text.Utf8

/-!
Running commands in a directory of files. A path names a file of the directory, or one of the
directories in which it lies, or else there is nothing to be found under it.
-/

namespace TagQuery

/-- The files of a directory by name. -/
abbrev Directory := SortedMap String Bytes

/-- Why there is no file under a path. -/
inductive PathError where
  | notFound
  | notDirectory
  | isDirectory
  | nameTooLong
  deriving DecidableEq, Repr

def PathError.message : PathError → String
  | .notFound => "No such file or directory (os error 2)"
  | .notDirectory => "Not a directory (os error 20)"
  | .isDirectory => "Is a directory (os error 21)"
  | .nameTooLong => "File name too long (os error 36)"

/-- Cuts a path at its slashes. -/
def pathParts (path : List Char) : List (List Char) :=
  match path with
  | [] => [[]]
  | '/' :: rest => [] :: pathParts rest
  | c :: rest =>
    match pathParts rest with
    | part :: parts => (c :: part) :: parts
    | [] => [[c]]

/-- How many bytes a name has at most. -/
def nameLimit : Nat := 255

/-- How many bytes a path has at most. -/
def pathLimit : Nat := 4095

/-- What a file is wanted for. -/
inductive Access where
  | reading
  | writing
  deriving DecidableEq, Repr

/-- Where a path has led to: the directory of the files, or one in which it lies and of which no
more is known. -/
inductive Place where
  | here
  | above
  deriving DecidableEq, Repr

namespace Directory

/-- The name of the file to which the parts of a path lead. A name before a slash is that of a
directory, and there are none in the directory. Such a name at the end of a path is refused before it
is looked at if the file is to be written. -/
def follow (d : Directory) (access : Access) : Place → List (List Char) → Except PathError String
  | _, [] => .error .isDirectory
  | place, part :: parts =>
    if part = [] ∨ part = ['.'] then d.follow access place parts
    else if part = ['.', '.'] then d.follow access .above parts
    else if access = .writing ∧ parts ≠ [] ∧ parts.all (· = []) then .error .isDirectory
    else if nameLimit < Text.utf8Length part then .error .nameTooLong
    else
      match place, parts with
      | .here, [] => .ok (String.ofList part)
      | .here, _ => .error (if d.contains (String.ofList part) then .notDirectory else .notFound)
      | .above, _ => .error .notFound

/-- The name of the file that a path names. -/
def locate (d : Directory) (access : Access) (path : String) : Except PathError String :=
  if path = "" then .error .notFound
  else if pathLimit < path.utf8ByteSize then .error .nameTooLong
  else
    let place : Place := if path.toList.head? = some '/' then .above else .here
    d.follow access place (pathParts path.toList)

/-- The bytes of a file. -/
def read (d : Directory) (path : String) : Except PathError Bytes :=
  match d.locate .reading path with
  | .error e => .error e
  | .ok name =>
    match d.get? name with
    | some bytes => .ok bytes
    | none => .error .notFound

/-- The directory with a file, in the place of an earlier one. -/
def write (d : Directory) (path : String) (bytes : Bytes) : Except PathError Directory :=
  (d.locate .writing path).map fun name => d.insert name bytes

end Directory

/-- How a run of the program ends: its exit code, and what it prints. Errors of the command line
itself are not kept. -/
structure Exit where
  code : Nat
  output : String := ""
  errors : String := ""
  deriving DecidableEq, Repr

namespace Exit

/-- A run that fails. -/
def failed (output : String) (f : Failure) : Exit :=
  ⟨1, output, f.render⟩

def ofPrinted (p : Printed) : Exit :=
  match p.failure? with
  | none => ⟨0, p.text, ""⟩
  | some f => failed p.text f

end Exit

namespace Command

/-- Why a file cannot be read. A directory can be opened, and fails when its bytes are wanted. -/
def readFailure (path : String) : PathError → Failure
  | .isDirectory =>
    let message := PathError.isDirectory.message
    ⟨s!"IO error while reading marker: {message}", some message⟩
  | e => ⟨s!"cannot open {path}", some e.message⟩

def writeFailure (path : String) (e : PathError) : Failure :=
  ⟨s!"cannot create {path}", some e.message⟩

/-- Runs a command. No file is touched before all tags have been found good. -/
def run (d : Directory) (environment : String → Option String) : Command → Exit × Directory
  | .init path tags =>
    match snapshotOfTags tags with
    | .error f => (.failed "" f, d)
    | .ok bytes =>
      match d.write path bytes with
      | .error e => (.failed "" (writeFailure path e), d)
      | .ok d => (⟨0, "", ""⟩, d)
  | .search path viewer words =>
    match d.read path with
    | .error e => (.failed "" (readFailure path e), d)
    | .ok bytes => (.ofPrinted (printSearchBytes bytes environment viewer words), d)

end Command

/-- Runs the program with its arguments. -/
def Request.perform (d : Directory) (environment : String → Option String) :
    Request → Exit × Directory
  | .run command => command.run d environment
  | .version => (⟨0, Command.versionText, ""⟩, d)
  | .help => (⟨0, Command.helpText, ""⟩, d)
  | .misuse => (⟨2, "", ""⟩, d)

end TagQuery

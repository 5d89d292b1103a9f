/-!
The keywords of search fields. Keywords are read without regard to the case of the letters A to Z.
-/

namespace TagQuery

/-- The value whose keyword is a text, up to the case of ASCII letters. -/
def findKeyword {α : Type} (values : List α) (keyword : α → String) (text : String) : Option α :=
  values.find? fun value => keyword value = text.toLower

/-- How fit for general view a post is. -/
inductive Rating where
  | general
  | notSafe
  | explicit
  deriving DecidableEq, Repr

def Rating.keyword : Rating → String
  | .general => "general"
  | .notSafe => "unsafe"
  | .explicit => "explicit"

def Rating.ofKeyword? : String → Option Rating :=
  findKeyword [.general, .notSafe, .explicit] keyword

inductive PostStatus where
  | ok
  | deleted
  deriving DecidableEq, Repr

def PostStatus.keyword : PostStatus → String
  | .ok => "ok"
  | .deleted => "deleted"

def PostStatus.ofKeyword? : String → Option PostStatus :=
  findKeyword [.ok, .deleted] keyword

inductive FileType where
  | image
  | video
  deriving DecidableEq, Repr

def FileType.keyword : FileType → String
  | .image => "image"
  | .video => "video"

def FileType.ofKeyword? : String → Option FileType :=
  findKeyword [.image, .video] keyword

/-- What posts are sorted by. -/
inductive SortKey where
  | id
  | size
  | duration
  | width
  | height
  deriving DecidableEq, Repr

def SortKey.keyword : SortKey → String
  | .id => "id"
  | .size => "size"
  | .duration => "duration"
  | .width => "width"
  | .height => "height"

def SortKey.ofKeyword? : String → Option SortKey :=
  findKeyword [.id, .size, .duration, .width, .height] keyword

end TagQuery

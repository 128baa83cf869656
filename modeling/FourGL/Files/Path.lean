/-!
# Paths

A path is a text whose segments are divided by slashes. Paths are put together and taken apart as
texts, without a look at what they lead to.
-/

namespace FourGL.Path

/-- The pieces between the slashes of a path. -/
def split : List Char → List (List Char)
  | [] => [[]]
  | c :: cs =>
    if c = '/' then [] :: split cs
    else match split cs with
      | s :: ss => (c :: s) :: ss
      | [] => [[c]]

def segments (path : String) : List String := (split path.toList).map String.ofList

/-- Whether the path starts at the root of all files. -/
def isAbsolute (path : String) : Bool := path.toList.head? == some '/'

/-- `path` as seen from the directory `dir`. -/
def join (dir path : String) : String :=
  if isAbsolute path || dir.isEmpty then path
  else if dir.toList.getLast? == some '/' then dir ++ path
  else dir ++ "/" ++ path

/-- A segment, and whether it is a step of the path: an empty one is not, nor is a dot unless the
path begins with it. -/
structure Segment where
  text : String
  isStep : Bool

/-- The segments of a path; behind the first slash if it is absolute. -/
def body (path : String) : List Segment :=
  let inner (s : String) : Segment := ⟨s, s != "" && s != "."⟩
  match segments path with
  | first :: rest =>
    if isAbsolute path then rest.map inner else ⟨first, first != ""⟩ :: rest.map inner
  | [] => []

/-- The paths of the directories that `back` leads through, nearest first; it holds segments from
the last one to the first. -/
def outer (root : String) : List Segment → List String
  | [] => []
  | s :: back =>
    if s.isStep then
      (root ++ "/".intercalate ((back.dropWhile fun s => !s.isStep).reverse.map Segment.text)) ::
        outer root back
    else outer root back

/-- The path and the directories around it, up to the root or to the beginning of the path. -/
def ancestors (path : String) : List String :=
  path :: outer (if isAbsolute path then "/" else "") (body path).reverse

/-- The directory around the place that a path leads to. -/
def parent? (path : String) : Option String := (ancestors path).tail.head?

end FourGL.Path

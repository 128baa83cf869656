import FourGL.Files.Path

/-!
# Files

What the program does with files, for any way to do it, and file trees as the way that needs no
machine.
-/

namespace FourGL

/-- Access to files by their paths. -/
structure FileSystem (m : Type → Type) where
  /-- The text in a file; `none` if it cannot be read. -/
  read : String → m (Option String)
  isFile : String → m Bool
  /-- Puts a text into a file, in the place of what it held. -/
  write : String → String → m Unit

/-- What a path may lead to. -/
inductive FileEntry where
  | file (content : String)
  | directory
deriving DecidableEq

/-- Files and directories by the steps that lead to them from the root. A directory with something
in it need not be listed. -/
structure FileTree where
  entries : List (List String × FileEntry) := []

namespace FileTree

def get? (t : FileTree) (steps : List String) : Option FileEntry :=
  match t.entries.find? (·.1 == steps) with
  | some (_, e) => some e
  | none =>
    if steps.isEmpty || t.entries.any (fun e => steps.isPrefixOf e.1) then some .directory else none

/-- Follows the segments of a path from the directory `here`. Only directories lead further. -/
def follow (t : FileTree) (here : List String) : List String → Option (List String)
  | [] => some here
  | s :: ss =>
    if t.get? here = some .directory then
      t.follow (if s == "" || s == "." then here else if s == ".." then here.dropLast
        else here ++ [s]) ss
    else none

/-- The steps to the place that a path leads to from the directory `here`; nothing need be there. -/
def locate? (t : FileTree) (here : List String) (path : String) : Option (List String) :=
  if path.isEmpty then none
  else t.follow (if Path.isAbsolute path then [] else here) (Path.segments path)

def read? (t : FileTree) (here : List String) (path : String) : Option String :=
  match (t.locate? here path).bind t.get? with
  | some (.file content) => some content
  | _ => none

/-- The tree with a text in the file at `steps`. -/
def put (t : FileTree) (steps : List String) (content : String) : FileTree :=
  ⟨(steps, .file content) :: t.entries.filter (·.1 != steps)⟩

/-- The tree after writing to a file; a path that leads nowhere changes nothing. -/
def write (t : FileTree) (here : List String) (path content : String) : FileTree :=
  match t.locate? here path with
  | some steps => t.put steps content
  | none => t

/-- A file tree as a file system, seen from the directory `here`. -/
def system (here : List String) : FileSystem (StateM FileTree) where
  read path := do return (← get).read? here path
  isFile path := do return ((← get).read? here path).isSome
  write path content := modify fun t => t.write here path content

end FileTree

end FourGL

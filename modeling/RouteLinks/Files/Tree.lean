import RouteLinks.Files.Path
import RouteLinks.Order
import RouteLinks.Text.Utf8
/-!
# Trees of files

A file system as a value: a directory has entries under names, which are files or directories again.
A place is the list of names that leads to it from the root. A path is walked step by step, and a
step up leads to the directory around the one that was reached; so a path that passes through
something that is no directory leads nowhere, even if a step up takes it back.

Writing makes the directories that are missing, also those that a later step leaves again. What was
made stays if the write fails after that.
-/

namespace RouteLinks

/-- A file, or a directory with its entries. -/
inductive FileTree where
  | file (content : Bytes)
  | directory (entries : List (String × FileTree))
  deriving Inhabited

/-- The names that lead from the root to an entry. -/
abbrev Place := List String

namespace FileTree

def empty : FileTree := .directory []

def entries : FileTree → List (String × FileTree)
  | .file _ => []
  | .directory entries => entries

def isDirectory : FileTree → Bool
  | .directory _ => true
  | .file _ => false

mutual

/-- The same tree, the entries of every directory in the order of their names. -/
def sorted : FileTree → FileTree
  | .file content => .file content
  | .directory entries => .directory (sortBy (fun a b => precedes a.1 b.1) (sortedEntries entries))

/-- Entries in their order, each sorted in itself. -/
def sortedEntries : List (String × FileTree) → List (String × FileTree)
  | [] => []
  | (name, entry) :: rest => (name, entry.sorted) :: sortedEntries rest

end

def get? (t : FileTree) : Place → Option FileTree
  | [] => some t
  | name :: rest => (t.entries.lookup name).bind fun entry => entry.get? rest

/-- Puts an entry at a place. Directories that are missing on the way are made; nothing is put below
a file. -/
def put (t : FileTree) (entry : FileTree) : Place → FileTree
  | [] => entry
  | name :: rest =>
    match t with
    | .file content => .file content
    | .directory entries =>
      .directory (upsert name (fun present => (present.getD empty).put entry rest) entries)

/-- Takes away the entry at a place. -/
def remove (t : FileTree) : Place → FileTree
  | [] => t
  | name :: rest =>
    match t with
    | .file content => .file content
    | .directory entries =>
      if rest.isEmpty then .directory (entries.filter (·.1 != name))
      else
        .directory
          (entries.map fun (n, entry) => (n, if n == name then entry.remove rest else entry))

def hasDirectory (t : FileTree) (place : Place) : Bool :=
  ((t.get? place).map isDirectory).getD false

/-- The place that some steps lead to from another. -/
def walk? (t : FileTree) (here : Place) : List String → Option Place
  | [] => some here
  | step :: rest =>
    if !t.hasDirectory here then none
    else if step == ".." then t.walk? here.dropLast rest
    else if (t.get? (here ++ [step])).isSome then t.walk? (here ++ [step]) rest
    else none

/-- The place that a path from the root leads to. -/
def find? (t : FileTree) (path : String) : Option Place := t.walk? [] (Path.parts path)

def read? (t : FileTree) (path : String) : Option Bytes :=
  match (t.find? path).bind t.get? with
  | some (.file content) => some content
  | _ => none

def directory? (t : FileTree) (path : String) : Option FileTree :=
  ((t.find? path).bind t.get?).filter isDirectory

/-- The number of bytes that a name can have. -/
def nameLimit : Nat := 255

def isTooLong (name : String) : Bool := decide (nameLimit < (Utf8.encode name).length)

/-- Makes the directories on a way that are missing; the place it leads to, if it leads anywhere. -/
def makeDirectories (t : FileTree) (here : Place) : List String → FileTree × Option Place
  | [] => (t, some here)
  | step :: rest =>
    if step == ".." then t.makeDirectories here.dropLast rest
    else
      match t.get? (here ++ [step]) with
      | some (.directory _) => t.makeDirectories (here ++ [step]) rest
      | some (.file _) => (t, none)
      | none =>
        if isTooLong step then (t, none)
        else (t.put empty (here ++ [step])).makeDirectories (here ++ [step]) rest

def isFileName (name : String) : Bool := !(["", ".", ".."].contains name) && !isTooLong name

/-- Writes a file at the end of a path, whether or not it is there already. None if that is not
possible. -/
def write (t : FileTree) (path : String) (content : Bytes) : FileTree × Option Unit :=
  let name := Path.baseName path
  match t.makeDirectories [] (Path.parts (Path.directory path)) with
  | (t, some place) =>
    if isFileName name && !t.hasDirectory (place ++ [name]) then
      (t.put (.file content) (place ++ [name]), some ())
    else (t, none)
  | (t, none) => (t, none)

/-- Whether a path leads to a file with this content. A path that does not end in a name leads to no
file. -/
def holds (t : FileTree) (path : String) (content : Bytes) : Bool :=
  isFileName (Path.baseName path) && t.read? path == some content

/-- Brings a file to a content: true if it was written, false if it had this content, none if it
cannot be written. -/
def persist (t : FileTree) (path : String) (content : Bytes) : FileTree × Option Bool :=
  if t.holds path content then (t, some false)
  else
    let (t, done) := t.write path content
    (t, done.map fun _ => true)

end FileTree

end RouteLinks

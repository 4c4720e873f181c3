import RouteLinks.Files.Tree
import RouteLinks.Source.Selection
import RouteLinks.Symbols.Model
/-!
# Sources of a project

The sources in a directory and the directories below it, each with its path from there. The files of
a directory come before those of its directories, and names are in order. They are read as they are
met, and what was read is put into the order of the paths, so that nothing depends on the order in
which directories list their entries.
-/

namespace RouteLinks.Source

/-- The sources among the entries of a directory. -/
def filesAmong (place : Place) : List (String × FileTree) → List (Place × Bytes)
  | [] => []
  | (name, .file content) :: rest =>
    if isHandWritten name then (place ++ [name], content) :: filesAmong place rest
    else filesAmong place rest
  | (_, .directory _) :: rest => filesAmong place rest

mutual

/-- The sources in a directory, which is at a place, and below it. -/
def filesIn (place : Place) : FileTree → List (Place × Bytes)
  | .file _ => []
  | .directory entries => filesAmong place entries ++ filesBelow place entries

/-- The sources below a directory that has some entries. -/
def filesBelow (place : Place) : List (String × FileTree) → List (Place × Bytes)
  | [] => []
  | (name, entry) :: rest =>
    if entry.isDirectory && !isSkippedDirectory name then
      filesIn (place ++ [name]) entry ++ filesBelow place rest
    else filesBelow place rest

end

/-- The sources of a project, each with its path in the project. -/
def ofTree (t : FileTree) : List (String × Bytes) :=
  (filesIn [] t.sorted).map fun (place, content) => ("/".intercalate place, content)

end RouteLinks.Source

namespace RouteLinks

/-- What is read from the sources of a project, in the order in which they are met. -/
def Source.filesOfTree (g : Grammar) (t : FileTree) : List SourceFile :=
  (Source.ofTree t).map fun (path, bytes) => Source.read g bytes path

/-- The model of a project: its sources in the order of their paths. -/
def Model.ofTree (g : Grammar) (t : FileTree) : Model :=
  ofFiles (sortBy (fun a b => precedes a.filePath b.filePath) (Source.filesOfTree g t))

/-- What is read from a file that cannot be opened. -/
def SourceFile.unreadable (filePath : String) : SourceFile :=
  { filePath, units := [], errors := [⟨filePath, 0, "unreadable", .error⟩] }

end RouteLinks

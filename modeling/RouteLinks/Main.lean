import RouteLinks.CommandLine.Session
import RouteLinks.Parser.Levels
import RouteLinks.Settings.Lenient
/-!
# The program

The thin layer around a session: it reads directories and files of the machine into a tree, writes
files, and prints the summary.
-/

namespace RouteLinks.CommandLine

def usage : String :=
  "usage: linkforge [--project-root DIR] [--config FILE] [--split | --no-split] " ++
    "[--no-rewrite] [--dry-run]"

/-- Reads an entry of the machine with all that is below it; what cannot be read is left out. -/
partial def readEntry (path : String) : IO FileTree := do
  let entry ← IO.FS.realPath path
  if ← entry.isDir then
    let mut entries := []
    for found in ← entry.readDir do
      try
        entries := (found.fileName, ← readEntry found.path.toString) :: entries
      catch _ => pure ()
    return .directory entries
  else
    return .file (← IO.FS.readBinFile entry).toList

/-- Adds what is at a path to a tree, if something can be read there. -/
def addEntry (t : FileTree) (path : String) : IO FileTree := do
  try
    let entry ← readEntry path
    return t.put entry (Path.absoluteParts [] path)
  catch _ => return t

/-- Writes a file of the machine unless it has the content already. -/
def writeEntry (path : String) (content : Bytes) : IO Bool := do
  try
    let wanted : ByteArray := ⟨content.toArray⟩
    let present ← try some <$> IO.FS.readBinFile path catch _ => pure none
    if present.map (·.data) != some wanted.data then
      IO.FS.createDirAll (Path.directory path)
      IO.FS.writeBinFile path wanted
    return true
  catch _ => return false

def thisMachine (workingDirectory : String) : Machine IO where
  files paths := paths.foldlM addEntry .empty
  write := writeEntry
  workingDirectory

end RouteLinks.CommandLine

open RouteLinks.CommandLine in
def main (args : List String) : IO UInt32 := do
  let workingDirectory ← IO.currentDir
  let machine := thisMachine workingDirectory.toString
  let o ← session RouteLinks.Parser.tree .lenient machine args
  match o with
  | .done summary => IO.print summary
  | .help => IO.println usage
  | .refused => IO.eprintln usage
  | .failed => IO.eprintln "linkforge: failed"
  return o.status.toUInt32

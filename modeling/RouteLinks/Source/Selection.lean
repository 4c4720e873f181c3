import RouteLinks.Files.Path
import RouteLinks.Unicode.LetterCase
/-!
# Which files are sources

A file is read if its extension is that of C# and it has not been generated by an earlier run.
Directories that hold the output of builds or belong to tools are not entered.
-/

namespace RouteLinks.Source

def generatedSuffix : String := ".generated.cs"

/-- Whether a path has the extension of C#, in any letter case. -/
def isCSharp (path : String) : Bool := Unicode.toLower (Path.extension path) == ".cs"

/-- Whether a file is a source written by hand. -/
def isHandWritten (path : String) : Bool :=
  !endsWith (Unicode.toLower path) generatedSuffix && isCSharp path

/-- Directories that are not entered, besides those whose names begin with a dot. -/
def skippedDirectories : List String :=
  ["node_modules", "dist", "build", "bin", "obj", "packages", "TestResults"]

def isSkippedDirectory (name : String) : Bool :=
  skippedDirectories.contains name || beginsWith name "."

end RouteLinks.Source

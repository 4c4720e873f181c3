import RouteLinks.Text.Basic
/-!
# Paths

Paths are texts with slashes. Nothing here looks at a file system.
-/

namespace RouteLinks.Path

def baseName (path : String) : String := String.ofList (Text.lastField '/' path.toList)

/-- The part of a path before the last slash; the slash stays where it is the root. -/
def directory (path : String) : String :=
  let cs := path.toList
  let head := cs.take (cs.length - (Text.lastField '/' cs).length)
  if head.all (· == '/') then String.ofList head
  else String.ofList (Text.dropEndWhile (· == '/') head)

/-- The extension of a name, its dot included. Dots at the beginning of a name are no extension. -/
def extension (path : String) : String :=
  let name := (Text.lastField '/' path.toList).dropWhile (· == '.')
  if name.contains '.' then String.ofList ('.' :: Text.lastField '.' name) else ""

def withoutExtension (path : String) : String := dropEnding path (extension path)

def join (directory path : String) : String :=
  if beginsWith path "/" || directory.isEmpty then path
  else if endsWith directory "/" then directory ++ path
  else directory ++ "/" ++ path

/-- The parts of a path that name something: neither empty parts nor the present directory count. -/
def parts (path : String) : List String :=
  (splitAt '/' path).filter fun p => !p.isEmpty && p != "."

/-- A path without what does not count: empty parts, the present directory, a slash at the end. -/
def tidy (path : String) : String :=
  let steps := "/".intercalate (parts path)
  if beginsWith path "/" then "/" ++ steps else if steps.isEmpty then "." else steps

def inside (directory path : String) : String := tidy (join directory path)

/-- Parts from the root, where each step up takes back the step before it. -/
def resolve (steps : List String) : List String :=
  (steps.foldl (fun done p => if p == ".." then done.drop 1 else p :: done) []).reverse

/-- The parts of a path from the root, from a working directory if it does not begin there. -/
def absoluteParts (workingDirectory : List String) (path : String) : List String :=
  resolve (if beginsWith path "/" then parts path else workingDirectory ++ parts path)

/-- What is left of two lists behind what they begin with in common. -/
def afterCommon : List String → List String → List String × List String
  | a :: as, b :: bs => if a == b then afterCommon as bs else (a :: as, b :: bs)
  | as, bs => (as, bs)

/-- The way from one directory to a path: up as often as needed, then down. -/
def relative (path start : List String) : String :=
  let (down, up) := afterCommon path start
  let steps := List.replicate up.length ".." ++ down
  if steps.isEmpty then "." else "/".intercalate steps

end RouteLinks.Path

import RouteLinks.Symbols.Model
/-!
# Ancestry

A base is written by a name that may be short: it is looked up in the namespace of the class, then
in the namespaces around that, then in the namespaces that the class imports. Going from base to
base ends at a class without a base, at a base that the program does not declare, or where a class
would come a second time.
-/

namespace RouteLinks

def withoutArguments (type : String) : String :=
  String.ofList (Text.trim (Text.firstField '<' (Text.replace "global::".toList [] type.toList)))

/-- The beginnings of a list, the longest first. -/
def beginnings (xs : List α) : List (List α) :=
  (List.range (xs.length + 1)).reverse.map fun n => xs.take n

/-- The qualified names that a name can stand for in a class. -/
def Class.candidates (c : Class) (name : String) : List String :=
  let parts := if c.scope.isEmpty then [] else splitAt '.' c.scope
  ((beginnings parts).map fun front => qualify (".".intercalate front) name) ++
    c.usings.map fun using_ => using_ ++ "." ++ name

/-- A class and its bases. -/
structure Ancestry where
  /-- The class itself, then its bases that the program declares, the nearest first. -/
  chain : List Class
  /-- The short name of the base at which the program ends. -/
  external : Option String
  /-- Whether the next base would be one that is in the chain already. -/
  isCyclic : Bool

namespace Model

/-- The class that is the base of a class, if the program declares it. -/
def baseOf? (m : Model) (c : Class) : Option Class := do
  let base ← c.base?
  (c.candidates (withoutArguments base)).findSome? fun name =>
    (m.find? name).filter (·.qualifiedName != c.qualifiedName)

/-- Goes on from the last class of a chain, which is given in reverse. -/
def climb (m : Model) (current : Class) (above : List Class) : Nat → Ancestry
  | 0 => ⟨(current :: above).reverse, none, false⟩
  | fuel + 1 =>
    let chain := (current :: above).reverse
    match current.base? with
    | none => ⟨chain, none, false⟩
    | some written =>
      match m.baseOf? current with
      | none =>
        ⟨chain, some (String.ofList (Text.lastField '.' (withoutArguments written).toList)), false⟩
      | some base =>
        if (current :: above).any (·.qualifiedName == base.qualifiedName) then ⟨chain, none, true⟩
        else climb m base (current :: above) fuel

/-- The ancestry of a class. A chain has no class twice, so the number of classes bounds its
length. -/
def ancestry (m : Model) (c : Class) : Ancestry := m.climb c [] (m.classes.length + 1)

end Model

end RouteLinks

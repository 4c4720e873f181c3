import RouteLinks.Links.Companion
import RouteLinks.Routes.Numbering
/-!
# The registry

The registry has one field for each controller that is not abstract. Controllers are taken namespace
by namespace, in the order in which the namespaces are first met; abstract controllers count for
this order. No field has the name of the registry, and of two controllers with one name the later
gets a number and is reported.
-/

namespace RouteLinks

/-- A controller with the name of its field. -/
structure RegistryEntry where
  controller : Controller
  field : String
  /-- The number in the name, zero if there is none. -/
  index : Nat
  deriving DecidableEq, Repr

namespace Registry

def order (cs : List Controller) : List Controller :=
  (groupBy Controller.scope cs).flatMap fun (_, group) => group.filter (!·.isAbstract)

/-- The fields of controllers, where some names are taken. -/
def entriesFrom (taken : List String) : List Controller → List RegistryEntry
  | [] => []
  | c :: rest =>
    let (field, index) := Numbering.assign taken c.name 0
    ⟨c, field, index⟩ :: entriesFrom (field :: taken) rest

def entries (s : Settings) (cs : List Controller) : List RegistryEntry :=
  entriesFrom [s.namingPrefix] (order cs)

/-- The name of a controller's field, if it has one. -/
def fieldOf? (entries : List RegistryEntry) (c : Controller) : Option String :=
  (entries.find? (·.controller.qualifiedName == c.qualifiedName)).map (·.field)

end Registry

namespace RegistryEntry

def declaration (e : RegistryEntry) : String := e.controller.registryField e.field

/-- The report on a field that has a number. -/
def diagnostic? (e : RegistryEntry) : Option Diagnostic :=
  if e.index == 0 then none
  else
    some
      { kind := .duplicateName, subject := e.controller.qualifiedName
        message :=
          "registry name '" ++ e.controller.name ++ "' already taken, using '" ++ e.field ++ "'"
        filePath := some e.controller.filePath, line := e.controller.symbol.startLine }

end RegistryEntry

end RouteLinks

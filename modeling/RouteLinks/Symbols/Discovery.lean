import RouteLinks.Diagnostic
import RouteLinks.Routes.Naming
import RouteLinks.Symbols.Ancestry
/-!
# Controllers

A class counts as a controller by its name, by its attribute, or because it descends from one. It
gets links if it is public, can be derived from, and is not marked otherwise; a class that looks
like a controller but cannot be used is reported.
-/

namespace RouteLinks

/-- The framework's classes that controllers descend from. -/
def controllerBaseNames : List String := ["Controller", "ControllerBase"]

def looksLikeController (name : String) : Bool :=
  controllerBaseNames.contains name || endsWith name controllerSuffix

/-- Why a controller cannot be used. -/
inductive DiscoveryObstacle where
  | broken
  | isSealed
  | cyclic
  deriving DecidableEq, Repr

def DiscoveryObstacle.message : DiscoveryObstacle → String
  | .broken => "skipped, class declaration contains syntax errors"
  | .isSealed => "skipped, class is sealed and cannot be derived from"
  | .cyclic => "skipped, class has a cyclic inheritance chain"

/-- What becomes of a class. -/
inductive Discovery where
  | controller
  | skipped (reason : DiscoveryObstacle)
  | other
  deriving DecidableEq, Repr

namespace Model

def isCandidate (m : Model) (c : Class) : Bool :=
  if c.isNested then false
  else if endsWith c.name controllerSuffix || c.hasAttribute "Controller" then true
  else
    let a := m.ancestry c
    (a.chain.drop 1).any (looksLikeController ·.name) ||
      (a.external.map looksLikeController).getD false

def discover (m : Model) (c : Class) : Discovery :=
  if !m.isCandidate c then .other
  else if !c.isPublic || c.isStatic || c.isGeneric then .other
  else if c.hasAttribute "NonController" then .other
  else if c.hasError then .skipped .broken
  else if c.isSealed then .skipped .isSealed
  else if (m.ancestry c).isCyclic then .skipped .cyclic
  else .controller

def controllers (m : Model) : List Class := m.classes.filter fun c => m.discover c == .controller

def discoveryDiagnostic? (m : Model) (c : Class) : Option Diagnostic :=
  match m.discover c with
  | .skipped reason =>
    some
      { kind := .discovery, subject := c.qualifiedName, message := reason.message
        filePath := some c.filePath, line := c.startLine }
  | _ => none

def discoveryDiagnostics (m : Model) : List Diagnostic := m.classes.filterMap m.discoveryDiagnostic?

end Model

end RouteLinks

import RouteLinks.Links.Override
import RouteLinks.Settings.Basic
/-!
# Generated halves and companions

Two classes are generated for a controller. The generated half is a part of the controller itself: a
constructor for the companion, the route identity as constants, the names of actions and of their
parameters. The companion derives from the controller and overrides its actions; an instance of it
is what links are made with.
-/

namespace RouteLinks

/-- The class whose only use is to mark the constructor that companions call. -/
def dummyClass : String := "Dummy"

namespace Controller

def firstOfEach (pairs : List (String × String)) : List (String × String) :=
  pairs.foldl (fun found (key, value) => upsert key (fun present => present.getD value) found) []

/-- The names of actions in routes, by method name; of overloads the first counts. -/
def actionNames (c : Controller) : List (String × String) :=
  firstOfEach (c.actions.map fun a => (a.name, a.routeName))

/-- The constructors of the generated half. The one without parameters is there if the class had it
without saying so. -/
def constructors (c : Controller) : List Node :=
  let plain := Node.method ("public " ++ c.className ++ "()") [] [generatedMark]
  let chain := if c.baseController.isSome then " : base(" ++ dummyClass ++ ".Instance)" else ""
  let marked :=
    Node.method ("protected " ++ c.className ++ "(" ++ dummyClass ++ " d)" ++ chain) []
      [generatedMark]
  if c.symbol.hasConstructors then [marked] else [plain, marked]

/-- The controller's own actions that get an accessor without parameters: those whose name belongs
to no method without parameters, each name once. -/
def accessorActions (c : Controller) : List Action :=
  let bare := (c.symbol.methods.filter (·.parameters.isEmpty)).map (·.name)
  let rec go (met : List String) : List Action → List Action
    | [] => []
    | a :: rest =>
      if a.parameters.isEmpty || bare.contains a.name || met.contains a.name then go met rest
      else a :: go (a.name :: met) rest
  go [] c.ownActions

def accessor (a : Action) : Node :=
  .method ("public virtual IActionResult " ++ a.name ++ "()")
    ["return new " ++ a.shape.kind.className ++ "(Area, Name, " ++ actionNamesMember ++ "." ++
      a.name ++ ");"]
    [nonActionMark, generatedMark]

/-- A marked member on two lines. -/
def marked (declaration : String) : Node := .raw (generatedMark ++ "\n" ++ declaration)

/-- A field with an accessor to it. -/
def sharedInstance (className member : String) : Node :=
  .raw ("static readonly " ++ className ++ " s_" ++ member ++ " = new " ++ className ++ "();\n" ++
    generatedMark ++ "\npublic " ++ className ++ " " ++ member ++ " => s_" ++ member ++ ";")

def constantsClass (name keyword : String) (constants : List (String × String)) : Node :=
  .type name ["public"] [] [generatedMark]
    (constants.map fun (member, value) =>
      .raw ("public " ++ keyword ++ " string " ++ member ++ " = " ++ Quoted.regular value ++ ";"))

def actionNameMembers (c : Controller) : List Node :=
  [sharedInstance "ActionNamesClass" actionNamesMember,
    constantsClass "ActionNamesClass" "readonly" c.actionNames,
    constantsClass "ActionNameConstants" "const" c.actionNames]

/-- The members for the names of the parameters of an action. -/
def parameterMembers (a : Action) : List Node :=
  if a.parameters.isEmpty then []
  else
    let className := "ActionParamsClass_" ++ a.memberName
    [sharedInstance className (a.memberName ++ "Params"),
      constantsClass className "readonly" (a.parameters.map fun p => (p.name, p.routeKey))]

/-- The accessor to the companion through the registry, for a controller that has a field there. -/
def registryAccessor (c : Controller) (s : Settings) (field : Option String) : List Node :=
  (field.map fun name =>
    marked
      ("public " ++ c.className ++ " Actions => " ++ s.namingPrefix ++ "." ++ name ++ ";")).toList

def identityMembers (c : Controller) : List Node :=
  [marked ("public readonly string Area = " ++ Quoted.regular c.area ++ ";"),
    marked ("public readonly string Name = " ++ Quoted.regular c.name ++ ";"),
    marked ("public const string NameConst = " ++ Quoted.regular c.name ++ ";")]

/-- The generated half of a controller; `field` is its field in the registry. -/
def generatedHalf (c : Controller) (s : Settings) (field : Option String) : Node :=
  .type c.className ["public", "partial"] [] []
    (c.constructors ++ c.accessorActions.map accessor ++ c.registryAccessor s field ++
      c.identityMembers ++ c.actionNameMembers ++ c.actions.flatMap parameterMembers)

def companion (c : Controller) : Node :=
  .type c.companionName ["public", "partial"] [qualify c.scope c.className] [generatedMark]
    (.method ("public " ++ c.companionName ++ "() : base(" ++ dummyClass ++ ".Instance)") [] [] ::
      c.actions.flatMap fun a => [a.hookDeclaration, a.overrideDeclaration])

/-- The declaration of the field that holds the companion. -/
def registryField (c : Controller) (field : String) : String :=
  "public static " ++ qualify c.scope c.className ++ " " ++ field ++ " = new " ++
    c.companionQualifiedName ++ "();"

end Controller

end RouteLinks

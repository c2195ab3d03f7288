import FhServer.RoutePattern
import FhServer.Table

namespace FhServer
open GoBytes GoText

-- Which handler function it is; a nil handler is not one.
abbrev HandlerFunc := Nat

structure Param where
  key : Bytes := []
  value : Bytes
deriving DecidableEq

structure RouteEndpoint where
  fn : HandlerFunc
  paramKeys : List Bytes
  pattern : Bytes

-- A node of the trie. The node of a wildcard has nothing but its endpoint, and is there only with one.
structure RouteNode where
  static : Bytes → Option RouteNode
  param : Option RouteNode
  paramConstraints : List (ParamConstraint × RouteNode)
  wild : Option (Bytes × RouteEndpoint)
  handler : Option RouteEndpoint

namespace RouteNode

def empty : RouteNode := ⟨fun _ => none,none,[],none,none⟩

instance : Inhabited RouteNode := ⟨empty⟩

def setStatic (n : RouteNode) (seg : Bytes) (child : RouteNode) : RouteNode := {n with static := Function.update n.static seg (some child)}

def findConstraint (c : ParamConstraint) : List (ParamConstraint × RouteNode) → Option RouteNode
  | [] => none
  | (c',child) :: later => if c' = c then some child else findConstraint c later

def setConstraint (c : ParamConstraint) (child : RouteNode) : List (ParamConstraint × RouteNode) → List (ParamConstraint × RouteNode)
  | [] => [(c,child)]
  | (c',old) :: later => if c' = c then (c',child) :: later else (c',old) :: setConstraint c child later
end RouteNode

def wildKey (name : Bytes) : Bytes := if name = [] then [star] else name

section
variable (re : GoRegexp) (method fullPath : Bytes) (h : HandlerFunc)

def insertWild (n : RouteNode) (rest : Bytes) (later paramKeys : List Bytes) : Except RouteError RouteNode :=
  let name := wildKey rest
  (if rest = [] then .ok () else validateParamName method fullPath name).bind fun _ =>
    if later ≠ [] then .error (.wildcardNotFinal method fullPath)
    else match n.wild with
      | none => .ok {n with wild := some (name,⟨h,paramKeys ++ [name],fullPath⟩)}
      | some (existing,_) =>
        if existing ≠ name then .error (.conflictingWildcard method fullPath existing name)
        else .error (.duplicateRoute method fullPath)

def insertRoute (n : RouteNode) (segments : List Bytes) (paramKeys : List Bytes) : Except RouteError RouteNode :=
  match segments with
  | [] =>
    if n.handler.isSome then .error (.duplicateRoute method fullPath)
    else .ok {n with handler := some ⟨h,paramKeys,fullPath⟩}
  | [] :: _ => .error (.emptySegment method fullPath)
  | (c :: rest) :: later =>
    if c = colon then
      let parsed := parseParamConstraint re rest
      (validateParamName method fullPath parsed.cleanName).bind fun _ =>
        -- an optional last parameter also takes the place before it, whoever has it
        let n := if parsed.isOptional = true ∧ later = [] then {n with handler := some ⟨h,paramKeys,fullPath⟩} else n
        if parsed.constraint.kind = .none then
          (insertRoute (n.param.getD .empty) later (paramKeys ++ [parsed.cleanName])).map fun child => {n with param := some child}
        else
          (insertRoute ((RouteNode.findConstraint parsed.constraint n.paramConstraints).getD .empty) later (paramKeys ++ [parsed.cleanName])).map
            fun child => {n with paramConstraints := RouteNode.setConstraint parsed.constraint child n.paramConstraints}
    else if c = star then insertWild method fullPath h n rest later paramKeys
    else
      (validateStaticSegment method fullPath (c :: rest)).bind fun _ =>
        (insertRoute ((n.static (c :: rest)).getD .empty) later paramKeys).map fun child => n.setStatic (c :: rest) child
termination_by structural segments
end

def nextSegment (path : Bytes) : Bytes × Bytes :=
  let seg := path.takeWhile fun c => c != queryMark && c != slash
  match path.drop seg.length with
  | 47 :: rest => (seg,rest.dropWhile (· == slash))
  | _ => (seg,[])

def cleanLookupPath (path : Bytes) : Bytes :=
  match path.dropWhile (· == slash) with
  | 63 :: _ => []
  | path => path

def routeLookupPath (path : Bytes) : Bytes := before path queryMark

-- A search of a part of the trie, over the parameters collected so far. They are shared: a search that fails may leave more
-- behind, and the next one starts after they are cut back to the mark.
abbrev Search := List Param → Option HandlerFunc × List Param

namespace Search

def fail : Search := fun params => (none,params)

def orElse (first second : Search) : Search := fun params =>
  match first params with
  | (some h,found) => (some h,found)
  | (none,left) => second (left.take params.length)

def push (value : Bytes) (search : Search) : Search := fun params => search (params ++ [{value := value}])

def endpointHandler (endpoint : Option RouteEndpoint) : Search := fun params =>
  match endpoint with
  | none => (none,params)
  | some e =>
    if e.paramKeys.length ≠ params.length then (none,params)
    else (some e.fn,List.zipWith (fun p key => {p with key := key}) params e.paramKeys)
end Search
open Search
section
variable (re : GoRegexp)

def matchRoute : Nat → RouteNode → Bytes → Search
  | 0, _, _ => fail
  | fuel + 1, n, path =>
    let wildcard (value : Bytes) : Search :=
      match n.wild with
      | some (_,endpoint) => push value (endpointHandler (some endpoint))
      | none => fail
    if path = [] then (endpointHandler n.handler).orElse ((wildcard []).orElse fail)
    else
      let (seg,rest) := nextSegment path
      let static : Search :=
        match n.static seg with
        | some child => matchRoute fuel child rest
        | none => fail
      let constrained : Search :=
        if seg = [] then fail
        else (n.paramConstraints.map fun (c,child) => if c.matches re seg then push seg (matchRoute fuel child rest) else fail).foldr orElse fail
      let param : Search :=
        match n.param with
        | some child => if seg = [] then fail else push seg (matchRoute fuel child rest)
        | none => fail
      static.orElse (constrained.orElse (param.orElse ((wildcard (routeLookupPath path)).orElse fail)))

def matchNode (n : RouteNode) (path : Bytes) : Search := matchRoute re (path.length+1) n path
end

structure ParamShortcut where
  lead : Bytes
  paramKey : Bytes
  fn : HandlerFunc

structure StaticShortcut where
  path : Bytes
  fn : HandlerFunc

structure NamedRoute where
  method : Bytes
  path : Bytes
deriving DecidableEq

-- The maps of the router by method. The cached pointers for the common methods are the entries of these maps; the shortcuts
-- are kept for the common methods only.
structure Router where
  frozen : Bool := false
  trees : Table Bytes (Option RouteNode) none := .empty
  static : Bytes → Bytes → Option HandlerFunc := fun _ _ => none
  paramShortcuts : Bytes → List ParamShortcut := fun _ => []
  staticShortcuts : Bytes → List StaticShortcut := fun _ => []
  routes : List NamedRoute := []
  named : Table Bytes (Option NamedRoute) none := .empty
  routeNames : Table Bytes (Option Bytes) none := .empty

def maxLinearRouteShortcuts : Nat := 8

def canonicalMethods : List Bytes :=
  ["GET","HEAD","POST","PUT","PATCH","DELETE","CONNECT","OPTIONS","TRACE","QUERY"].map ascii

def canonicalRouteMethod (method : Bytes) : Bool := canonicalMethods.contains method

def GET : Bytes := ascii "GET"
def HEAD : Bytes := ascii "HEAD"

section
variable (re : GoRegexp)

def buildParamShortcut (segments : List Bytes) (h : HandlerFunc) : Option ParamShortcut :=
  match segments with
  | [first,58 :: name] =>
    if first = [] ∨ first.head? = some colon ∨ first.head? = some star ∨ name = [] then none
    else
      let parsed := parseParamConstraint re name
      if parsed.constraint.kind ≠ .none ∨ parsed.isOptional then none
      else some ⟨[slash] ++ first ++ [slash],parsed.cleanName,h⟩
  | _ => none

-- appendParamShortcut and appendStaticShortcut stop one past the bound, where the shortcuts are no longer used.
def appendShortcut (routes : List α) (route : α) : List α := if routes.length > maxLinearRouteShortcuts then routes else routes ++ [route]

def addShortcut (shortcuts : Bytes → List α) (method : Bytes) (route : α) : Bytes → List α :=
  if canonicalRouteMethod method then Function.update shortcuts method (appendShortcut (shortcuts method) route) else shortcuts

def controlCharacter (c : UInt8) : Bool := c < 0x20 || c == 0x7f

def Router.registers (r : Router) (method path : Bytes) (h : HandlerFunc) (root : RouteNode) : Router :=
  let segments := splitRouteSegments path
  {r with
    trees := r.trees.set method (some root)
    paramShortcuts :=
      match buildParamShortcut re segments h with
      | some shortcut => addShortcut r.paramShortcuts method shortcut
      | none => r.paramShortcuts
    static := if routeIsStatic segments then Function.update r.static method (Function.update (r.static method) path (some h)) else r.static
    staticShortcuts := if routeIsStatic segments then addShortcut r.staticShortcuts method ⟨path,h⟩ else r.staticShortcuts
    routes := r.routes ++ [⟨method,path⟩]}

def Router.tree (r : Router) (method : Bytes) : RouteNode := (r.trees.get method).getD .empty

def Router.add (r : Router) (method path : Bytes) (h : HandlerFunc) : Except RouteError Router :=
  let method := toUpper (trimSpace method)
  if !validTokenString method then .error .invalidMethod
  else
    (normalizeRoutePath method path).bind fun path =>
      if path.any controlCharacter then .error .controlCharacter
      else if r.frozen then .error .frozen
      else (insertRoute re method path h (r.tree method) (splitRouteSegments path) []).map (r.registers re method path h)
end
section
variable (re : GoRegexp)

abbrev Found := Option HandlerFunc × List Param

namespace Router

def matchTree (r : Router) (method path : Bytes) : Found :=
  match r.trees.get method with
  | some root => matchNode re root (cleanLookupPath path) []
  | none => (none,[])

def orFound (first second : Found) : Found :=
  match first with
  | (some h,params) => (some h,params)
  | (none,_) => second

def findStatic (r : Router) (method path : Bytes) : Found := (r.static method path,[])

def findNoLockCanonical (r : Router) (method path : Bytes) : Found :=
  orFound (r.findStatic method path) <|
  orFound (if method = HEAD then r.findStatic GET path else (none,[])) <|
  orFound (r.matchTree re method path) <|
  if method = HEAD then r.matchTree re GET path else (none,[])

def find (r : Router) (method path : Bytes) : Found := r.findNoLockCanonical re (toUpper method) path

def matchStaticShortcuts (routes : List StaticShortcut) (path : Bytes) : Option HandlerFunc :=
  (routes.find? fun route => path == route.path).map (·.fn)

-- The linear scan gives up at the first prefix with a query behind it.
def matchParamShortcuts (path : Bytes) : List ParamShortcut → Found
  | [] => (none,[])
  | route :: later =>
    if !route.lead.isPrefixOf path || path.length == route.lead.length then matchParamShortcuts path later
    else
      let value := path.drop route.lead.length
      if value.contains queryMark then (none,[])
      else if value.contains slash then matchParamShortcuts path later
      else (some route.fn,[⟨route.paramKey,value⟩])

def findNoLockBytesCore (r : Router) (method path : Bytes) : Found :=
  orFound (if (r.staticShortcuts method).length ≤ maxLinearRouteShortcuts then (matchStaticShortcuts (r.staticShortcuts method) path,[]) else (none,[])) <|
  orFound (r.findStatic method path) <|
  orFound (if (r.paramShortcuts method).length ≤ maxLinearRouteShortcuts then matchParamShortcuts path (r.paramShortcuts method) else (none,[])) <|
  r.matchTree re method path

def findBytes (r : Router) (method path : Bytes) : Found :=
  if method = HEAD then orFound (r.findNoLockBytesCore re HEAD path) (r.findNoLockBytesCore re GET path)
  else if canonicalRouteMethod method then r.findNoLockBytesCore re method path
  else r.findNoLockCanonical re method path
end Router
end
section
variable (re : GoRegexp)

def matchesPathLoop : Nat → RouteNode → Bytes → Bool
  | 0, _, _ => false
  | fuel + 1, n, path =>
    if path = [] then n.handler.isSome || n.wild.isSome
    else
      let (seg,rest) := nextSegment path
      (n.static seg).any (fun child => matchesPathLoop fuel child rest) ||
        (seg != [] && n.paramConstraints.any fun (c,child) => c.matches re seg && matchesPathLoop fuel child rest) ||
        (seg != [] && n.param.any fun child => matchesPathLoop fuel child rest) ||
        n.wild.isSome

def matchesPath (n : RouteNode) (path : Bytes) : Bool := matchesPathLoop re (path.length+1) n path

def orPattern (first second : Bytes) : Bytes := if first = [] then second else first

def wildPattern (n : RouteNode) : Bytes := (n.wild.map (·.2.pattern)).getD []

def matchPatternLoop : Nat → RouteNode → Bytes → Bytes
  | 0, _, _ => []
  | fuel + 1, n, path =>
    if path = [] then (n.handler.map (·.pattern)).getD (wildPattern n)
    else
      let (seg,rest) := nextSegment path
      let static := ((n.static seg).map fun child => matchPatternLoop fuel child rest).getD []
      let constrained := if seg = [] then [] else
        (n.paramConstraints.map fun (c,child) => if c.matches re seg then matchPatternLoop fuel child rest else []).foldr orPattern []
      let param := if seg = [] then [] else (n.param.map fun child => matchPatternLoop fuel child rest).getD []
      orPattern static (orPattern constrained (orPattern param (wildPattern n)))

def matchPattern (n : RouteNode) (path : Bytes) : Bytes := matchPatternLoop re (path.length+1) n path

namespace Router

def seen (r : Router) (path method : Bytes) : Bool :=
  (r.trees.get method).any fun root => matchesPath re root (cleanLookupPath (routeLookupPath path))

def seenMethods (r : Router) (path : Bytes) : List Bytes :=
  let head := if r.seen re path GET && !r.seen re path HEAD then [HEAD] else []
  let extra := (r.trees.keys.filter fun method => !canonicalRouteMethod method && r.seen re path method).insertionSort (· ≤ ·)
  canonicalMethods.filter (r.seen re path) ++ head ++ extra

def addsOptions (r : Router) (path : Bytes) : Bool := !(r.seenMethods re path).isEmpty && !r.seen re path (ascii "OPTIONS")

def allowed (r : Router) (path : Bytes) : List Bytes :=
  if r.addsOptions re path then r.seenMethods re path ++ [ascii "OPTIONS"] else r.seenMethods re path

def patternIn (r : Router) (method lookup : Bytes) : Bytes := ((r.trees.get method).map fun root => matchPattern re root lookup).getD []

def pattern (r : Router) (method path : Bytes) : Bytes :=
  let method := toUpper method
  let lookup := cleanLookupPath (routeLookupPath path)
  orPattern (r.patternIn re method lookup) (if method = HEAD then r.patternIn re GET lookup else [])
end Router
end
end FhServer

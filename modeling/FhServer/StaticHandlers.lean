import FhServer.Router
import FhServer.Transitions

namespace FhServer
open GoBytes GoText Transitions List

-- The function literal a handler is a closure of, which is its code pointer.
inductive StaticKind where
  | staticText
  | staticJSON
  | staticJSONBytes
deriving DecidableEq

structure StaticHandler where
  kind : StaticKind
  body : Bytes
deriving DecidableEq

-- The configuration as New leaves it, of an app to which no middleware is added. Without DisablePanicRecovery New adds one
-- itself; ModeFast clears SendDateHeader.
structure StaticConfig where
  disablePanicRecovery : Bool
  sendDateHeader : Bool
  sendKeepAliveHeader : Bool := false

structure PrebuiltResponse where
  method : Bytes
  path : Bytes
  resp : StaticHandler

-- The handler that a HandlerFunc is, is the one created at that place. The routes are kept for the specification, with
-- method and path as the router has them.
structure StaticApp where
  created : List StaticHandler := []
  staticHandlerResponses : StaticKind → Option Bytes := fun _ => none
  router : Router := {}
  prebuilt : List PrebuiltResponse := []
  routes : List (NamedRoute × HandlerFunc) := []

inductive StaticEvent where
  | create (h : StaticHandler)
  | add (method path : Bytes) (fn : HandlerFunc)

structure StaticRequest where
  method : Bytes
  path : Bytes
  keepAlive : Bool := true

-- What canStaticPrebuilt and canRouteStaticPrebuilt ask of a context that nothing was set on.
def StaticConfig.canRouteStaticPrebuilt (cfg : StaticConfig) (r : StaticRequest) : Bool :=
  r.keepAlive && !cfg.sendDateHeader && !cfg.sendKeepAliveHeader

-- The body that the handler writes: its own prebuilt response, or SendString, which leaves it out for HEAD.
def StaticHandler.answer (cfg : StaticConfig) (r : StaticRequest) (h : StaticHandler) : Bytes :=
  if cfg.canRouteStaticPrebuilt r || !bytesEqualFold r.method HEAD then h.body else []

namespace StaticApp
section
variable (cfg : StaticConfig) (re : GoRegexp)

def prebuiltResponseForHandler (s : StaticApp) (h : StaticHandler) : Option StaticHandler :=
  (s.staticHandlerResponses h.kind).map fun body => ⟨h.kind,body⟩

def prebuilds (s : StaticApp) (route : NamedRoute) (h : StaticHandler) : List PrebuiltResponse :=
  if cfg.disablePanicRecovery && canonicalRouteMethod route.method then
    ((s.prebuiltResponseForHandler h).map fun resp => ⟨route.method,route.path,resp⟩).toList
  else []

-- Add panics where the router does not take the route.
def step (s : StaticApp) : StaticEvent → Option StaticApp
  | .create h =>
    some {s with
      created := s.created ++ [h]
      staticHandlerResponses := Function.update s.staticHandlerResponses h.kind (some h.body)}
  | .add method path fn =>
    match s.created[fn]?,normalizeRoutePath (toUpper (trimSpace method)) path,s.router.add re method path fn with
    | some h,.ok path,.ok router =>
      let route : NamedRoute := ⟨toUpper (trimSpace method),path⟩
      some {s with
        router := router
        prebuilt := s.prebuilt ++ s.prebuilds cfg route h
        routes := s.routes ++ [(route,fn)]}
    | _,_,_ => none

def findHandler (s : StaticApp) (r : StaticRequest) : Option HandlerFunc :=
  match (s.router.findBytes re r.method r.path).1 with
  | some fn => some fn
  | none => if bytesEqualFold r.method HEAD then (s.router.findBytes re GET r.path).1 else none

-- The handler that is registered is the last one of its kind that was created.
def latest (s : StaticApp) : StaticEvent → Prop
  | .create _ => True
  | .add _ _ fn => ∀ h ∈ s.created[fn]?, s.staticHandlerResponses h.kind = some h.body

instance (s : StaticApp) (e : StaticEvent) : Decidable (s.latest e) := by
  unfold latest
  split <;> infer_instance
end
section
variable {cfg : StaticConfig} {re : GoRegexp} {s t : StaticApp} {e : StaticEvent}

def Own (s : StaticApp) : Prop := ∀ p ∈ s.prebuilt, ∃ fn h, (⟨p.method,p.path⟩,fn) ∈ s.routes ∧ s.created[fn]? = some h ∧ h.body = p.resp.body

theorem Own.step (own : Own s) (last : s.latest e) (does : s.step cfg re e = some t) : Own t := by
  cases e with
  | create h =>
    cases does
    intro p inside
    obtain ⟨fn,h',there,is,body⟩ := own p inside
    exact ⟨fn,h',there,(getElem?_append_left (List.getElem?_eq_some_iff.mp is).1).trans is,body⟩
  | add method path fn =>
    rw [StaticApp.step] at does
    split at does
    · rename_i h path router is _ _
      cases does
      intro p inside
      rcases mem_append.mp inside with old | new
      · obtain ⟨fn,h',there,is,body⟩ := own p old
        exact ⟨fn,h',mem_append_left _ there,is,body⟩
      · rw [prebuilds,prebuiltResponseForHandler,last h is] at new
        split at new
        · cases mem_singleton.mp new
          exact ⟨fn,h,mem_append_right _ (mem_singleton_self _),is,rfl⟩
        · cases new
    · cases does

end

def plainRegexp : GoRegexp := ⟨fun _ => true,fun _ _ => false⟩
def one : StaticHandler := ⟨.staticText,ascii "one"⟩

end StaticApp
end FhServer

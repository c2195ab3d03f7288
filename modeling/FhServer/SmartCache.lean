import FhServer.RoutePattern
import FhServer.Transitions
import FhServer.Webhook

namespace FhServer.SmartCache
open GoBytes GoText Transitions Webhook

-- The last max-age that is a number, in seconds, and the directives that forbid storing.
structure CacheControl where
  maxAge : Option Int := none
  refuses : Bool := false

def CacheControl.directive (cc : CacheControl) (token : Bytes) : CacheControl :=
  match indexByte token 61 with
  | none => if toLower (trimSpace token) ∈ ["no-cache","no-store","private"].map ascii then {cc with refuses := true} else cc
  | some eq =>
    if toLower (trimSpace (token.take eq)) = ascii "max-age" then
      match parseInt10 (trimSpace (token.drop (eq+1))) with
      | some v => {cc with maxAge := some v}
      | none => cc
    else cc

def parseCacheControl (header : Bytes) : CacheControl := (header.splitOn 44).foldl .directive {}

-- time.Duration(v) * time.Second.
def CacheControl.nanos (cc : CacheControl) : Int64 := cc.maxAge.elim 0 fun v => .ofInt v*1000000000

structure Config where
  methods : List Bytes := [ascii "GET",ascii "HEAD"]
  statuses : List Int := [200,203,204,206,300,301,404,405,410,414,501]
  defaultTTL : Int := 300*10^9
  maxBodySize : Nat := 1048576
  allowRequestCookies : Bool := false

structure Exchange where
  method : Bytes := ascii "GET"
  key : Bytes := []
  authorization : Bytes := []
  cookie : Bytes := []
  requestExpires : Bytes := []
  failed : Bool := false
  status : Int := 200
  body : Bytes := []
  setsCookie : Bool := false
  cacheControl : Bytes := []
  responseExpires : Bytes := []
  now : Int := 0

-- The lifetime that the response gives itself goes with it for the specification.
structure Stored where
  stored : Int
  life : Int
deriving DecidableEq

section
variable (parseTime : Bytes → Option Int) (cfg : Config) (x : Exchange)

def zeroTime : Int := -62135596800*10^9

-- The source reads the Expires field of the request.
def expires : Option Int := if x.requestExpires = [] then some (x.now+cfg.defaultTTL) else (parseTime x.requestExpires).filter (· ≠ zeroTime)

def ttl : Int :=
  let cc := parseCacheControl x.cacheControl
  if 0 < cc.nanos then cc.nanos.toInt
  else
    match expires parseTime cfg x with
    | some t => max 0 (SecureTransport.sub t x.now)
    | none => cfg.defaultTTL

def lifetime : Int :=
  match (parseCacheControl x.cacheControl).maxAge with
  | some v => v*10^9
  | none => (parseTime x.responseExpires).elim cfg.defaultTTL (· - x.now)

def joins : Bool := x.method ∈ cfg.methods ∧ x.authorization = [] ∧ (cfg.allowRequestCookies ∨ x.cookie = [])

def stores : Bool :=
  !x.failed && x.status ∈ cfg.statuses && decide (x.body.length ≤ cfg.maxBodySize) && !x.setsCookie && !(parseCacheControl x.cacheControl).refuses

def step (store : TimedStore Bytes Stored) (x : Exchange) : Option (TimedStore Bytes Stored) :=
  if joins cfg x && (store.find x.key x.now).isNone && stores cfg x then
    some (store.put x.key ⟨x.now,lifetime parseTime cfg x⟩ (ttl parseTime cfg x) x.now)
  else some store

-- A max-age is positive; where it is none that a Duration holds, the request's Expires or else the default ends within the lifetime.
def Bounded : Prop :=
  (∀ v ∈ (parseCacheControl x.cacheControl).maxAge, 0 < v) ∧
    (0 < (parseCacheControl x.cacheControl).nanos ∨
      match expires parseTime cfg x with
      | some t => x.now < t ∧ t ≤ x.now+lifetime parseTime cfg x
      | none => 0 < cfg.defaultTTL ∧ cfg.defaultTTL ≤ lifetime parseTime cfg x)
end
variable {parseTime : Bytes → Option Int} {cfg : Config} {x : Exchange}

theorem nanos_le {cc : CacheControl} (positive : ∀ v ∈ cc.maxAge, 0 < v) (some : 0 < cc.nanos) :
    ∃ v, cc.maxAge = .some v ∧ cc.nanos.toInt ≤ v*10^9 := by
  cases found : cc.maxAge with
  | none => simp [CacheControl.nanos,found] at some
  | some v =>
    refine ⟨v,rfl,?_⟩
    have more := positive v found
    have nanos : (1000000000 : Int64).toInt = 10^9 := rfl
    simp only [CacheControl.nanos,found,Option.elim_some,Int64.toInt_mul,Int64.toInt_ofInt,nanos,Int.bmod_mul_bmod]
    lia

theorem Bounded.ttl (bounded : Bounded parseTime cfg x) :
    0 < ttl parseTime cfg x ∧ ttl parseTime cfg x ≤ lifetime parseTime cfg x := by
  unfold SmartCache.ttl
  dsimp only
  split
  · rename_i some
    obtain ⟨v,found,le⟩ := nanos_le bounded.1 some
    refine ⟨Int64.lt_iff_toInt_lt.mp some,?_⟩
    rw [lifetime,found]
    exact le
  · rename_i none
    have rest := bounded.2.resolve_left none
    split at rest
    · simp only [SecureTransport.sub]
      lia
    · exact rest

def Timely (store : TimedStore Bytes Stored) : Prop :=
  ∀ key e, store.data.get key = some e → 0 < e.value.life ∧ ∃ ends, e.ends = some ends ∧ ends ≤ e.value.stored+e.value.life

theorem Timely.step (timely : Timely store) (bounded : Bounded parseTime cfg x)
    (does : step parseTime cfg store x = some after) : Timely after := by
  unfold SmartCache.step at does
  split at does
  · cases does
    obtain ⟨positive,within⟩ := bounded.ttl
    intro key e there
    by_cases same : key = x.key
    · subst same
      rw [TimedStore.get_put_self,if_pos positive] at there
      cases there
      exact ⟨by dsimp only; lia,_,rfl,by dsimp only; lia⟩
    · rw [TimedStore.get_put_ne _ _ same] at there
      exact timely key e there
  · cases does
    exact timely

end FhServer.SmartCache

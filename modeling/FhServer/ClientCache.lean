import FhServer.GoBytes
import FhServer.Table
import FhServer.Transitions

namespace FhServer.ClientCache
open GoBytes Transitions List

structure ClientRequest where
  method : Bytes
  url : Bytes
  authorization : List Bytes := []
  cookie : List Bytes := []
deriving DecidableEq

-- contentLength is -1 when it is not known, broken says that reading the body fails after these bytes, and marked that the
-- header has the no-store or the private directive.
structure OriginResponse where
  status : Int := 200
  contentLength : Int := -1
  marked : Bool := false
  body : Bytes
  broken : Bool := false
deriving DecidableEq

-- A response for a caller or for the cache, with the request and the response of the origin that it comes from; its status
-- and header are those of that response.
structure Reply where
  request : ClientRequest
  response : OriginResponse
  body : Bytes
  broken : Bool := false
deriving DecidableEq

structure CacheItem where
  reply : Reply
  expires : Int

structure MemoryHTTPCache where
  ttl : Int
  maxBody : Int

-- A limit of 0 or less reads nothing.
def MemoryHTTPCache.limit (c : MemoryHTTPCache) : Nat := ((c.maxBody+1).bmod (2^64)).toNat

abbrev Items := Table Bytes (Option CacheItem) none

namespace ClientRequest

def cacheable (r : ClientRequest) : Bool := r.method == ascii "GET" || r.method == ascii "HEAD"

def key (r : ClientRequest) : Bytes := r.method ++ ascii " " ++ r.url
end ClientRequest

def getFresh (items : Items) (key : Bytes) (now : Int) : Option CacheItem := (items.get key).filter fun it => now < it.expires

structure Exchange where
  request : ClientRequest
  now : Int := 0
  later : Int := 0
  answer : Option OriginResponse := none

structure Served where
  reply : Reply
  cached : Bool
deriving DecidableEq

def keep (c : MemoryHTTPCache) (items : Items) (x : Exchange) (res : OriginResponse) : Items × Option Served :=
  match if res.status = 304 then items.get x.request.key else none with
  | some it => (items,some ⟨it.reply,true⟩)
  | none =>
    if res.status ≠ 200 ∨ c.maxBody < res.contentLength then (items,some ⟨⟨x.request,res,res.body,res.broken⟩,false⟩)
    else if res.broken ∧ res.body.length < c.limit then (items,none)
    else
      let reply : Reply := ⟨x.request,res,res.body.take c.limit,false⟩
      (if c.maxBody < reply.body.length then items else items.set x.request.key (some ⟨reply,x.later+c.ttl⟩),some ⟨reply,false⟩)

def roundTrip (c : MemoryHTTPCache) (items : Items) (x : Exchange) : Items × Option Served :=
  if x.request.cacheable then
    match getFresh items x.request.key x.now,x.answer with
    | some it,_ => (items,some ⟨it.reply,true⟩)
    | none,some res => keep c items x res
    | none,none => (items,(getFresh items x.request.key x.later).map fun it => ⟨it.reply,true⟩)
  else (items,x.answer.map fun res => ⟨⟨x.request,res,res.body,res.broken⟩,false⟩)

-- served keeps what callers have got without an error, for the specification.
structure State where
  items : Items := .empty
  served : List (ClientRequest × Served) := []

def step (c : MemoryHTTPCache) (s : State) (x : Exchange) : Option State :=
  let (items,served) := roundTrip c s.items x
  some ⟨items,(served.map fun got => (x.request,got)).toList ++ s.served⟩

def fits (c : MemoryHTTPCache) (x : Exchange) : Bool :=
  x.answer.all fun res => res.status != 200 || decide (c.maxBody < res.contentLength) ||
    if res.broken then decide (res.body.length < c.limit) else decide (res.body.length ≤ c.limit)

-- What the origin has answered with 200 to the method and the URL of a request went to requests with the same credentials,
-- and is not marked.
def sharesNothing (s : State) (x : Exchange) : Bool :=
  !x.request.cacheable || s.served.all fun (r,got) =>
    got.cached || r.key != x.request.key || got.reply.response.status != 200 ||
      r.authorization == x.request.authorization && r.cookie == x.request.cookie && !got.reply.response.marked

section
variable {c : MemoryHTTPCache} {items : Items} {x : Exchange} {res : OriginResponse} {it : CacheItem} {key : Bytes} {got : Served}

def Reply.Whole (reply : Reply) (r : ClientRequest) : Prop :=
  reply.request.method = r.method ∧ reply.request.url = r.url ∧
    (reply.broken = false → reply.response.broken = false ∧ reply.response.body = reply.body)

def Reply.Direct (c : MemoryHTTPCache) (x : Exchange) (reply : Reply) : Prop :=
  reply.request = x.request ∧ (fits c x = true → reply.Whole x.request)

theorem getFresh_found (fresh : getFresh items key now = some it) : items.get key = some it :=
  (Option.filter_eq_some_iff.mp fresh).1

theorem read_direct (answer : x.answer = some res) (kept : ¬(res.status ≠ 200 ∨ c.maxBody < res.contentLength))
    (read : ¬(res.broken = true ∧ res.body.length < c.limit)) : Reply.Direct c x ⟨x.request,res,res.body.take c.limit,false⟩ := by
  refine ⟨rfl,fun fit => ⟨rfl,rfl,fun _ => ?_⟩⟩
  rw [not_or,not_not] at kept
  simp only [fits,answer,Option.all_some,kept.1,kept.2,bne_self_eq_false,decide_false,Bool.false_or] at fit
  split at fit
  · rename_i broken
    exact absurd ⟨broken,of_decide_eq_true fit⟩ read
  · rename_i sound
    exact ⟨by simpa using sound,(take_of_length_le (of_decide_eq_true fit)).symm⟩

theorem roundTrip_cases (c : MemoryHTTPCache) (items : Items) (x : Exchange) :
    ((roundTrip c items x).1 = items ∧ ∀ got ∈ (roundTrip c items x).2, got.cached = false ∧ got.reply.Direct c x ∨
      got.cached = true ∧ x.request.cacheable = true ∧ ∃ it, items.get x.request.key = some it ∧ got.reply = it.reply) ∨
    x.request.cacheable = true ∧ ∃ reply expires, reply.Direct c x ∧ reply.response.status = 200 ∧
      roundTrip c items x = (items.set x.request.key (some ⟨reply,expires⟩),some ⟨reply,false⟩) := by
  have direct : ∀ {res}, Reply.Direct c x ⟨x.request,res,res.body,res.broken⟩ := ⟨rfl,fun _ => ⟨rfl,rfl,fun sound => ⟨sound,rfl⟩⟩⟩
  unfold roundTrip
  split
  · rename_i cacheable
    split
    · rename_i _ _ it fresh
      refine .inl ⟨rfl,fun got same => .inr ?_⟩
      cases same
      exact ⟨rfl,cacheable,it,getFresh_found fresh,rfl⟩
    · rename_i res fresh answer
      unfold keep
      split
      · rename_i it found
        refine .inl ⟨rfl,fun got same => .inr ?_⟩
        cases same
        split at found
        · exact ⟨rfl,cacheable,it,found,rfl⟩
        · cases found
      · split_ifs with other broken
        · exact .inl ⟨rfl,fun got same => .inl (by cases same; exact ⟨rfl,direct⟩)⟩
        · exact .inl ⟨rfl,by simp⟩
        dsimp only
        split
        · exact .inl ⟨rfl,fun got same => .inl (by cases same; exact ⟨rfl,read_direct answer other broken⟩)⟩
        · exact .inr ⟨cacheable,_,_,read_direct answer other broken,not_not.mp (not_or.mp other).1,rfl⟩
    · refine .inl ⟨rfl,fun got same => .inr ?_⟩
      obtain ⟨it,fresh,rfl⟩ := Option.map_eq_some_iff.mp same
      exact ⟨rfl,cacheable,it,getFresh_found fresh,rfl⟩
  · refine .inl ⟨rfl,fun got same => .inl ?_⟩
    obtain ⟨res,-,rfl⟩ := Option.map_eq_some_iff.mp same
    exact ⟨rfl,direct⟩

-- GET and HEAD have no blank, so that the key names the method and the URL.
theorem key_names {r r' : ClientRequest} (one : r.cacheable = true) (two : r'.cacheable = true) (same : r.key = r'.key) :
    r.method = r'.method ∧ r.url = r'.url := by
  simp only [ClientRequest.cacheable,Bool.or_eq_true,beq_iff_eq] at one two
  simp only [ClientRequest.key] at same
  rcases one with one | one <;> rcases two with two | two <;> rw [one,two] at same ⊢
  · exact ⟨rfl,append_cancel_left same⟩
  · simp [ascii] at same
  · simp [ascii] at same
  · exact ⟨rfl,append_cancel_left same⟩

structure Good (s : State) : Prop where
  kept : ∀ r it, r.cacheable = true → s.items.get r.key = some it → it.reply.Whole r
  served : ∀ r got, (r,got) ∈ s.served → got.reply.Whole r

theorem mem_served (does : step c s x = some t) (mem : (r,got) ∈ t.served) :
    (r = x.request ∧ got ∈ (roundTrip c s.items x).2) ∨ (r,got) ∈ s.served := by
  cases does
  refine (mem_append.mp mem).imp_left fun new => ?_
  obtain ⟨got',does,same⟩ := Option.map_eq_some_iff.mp (Option.mem_toList.mp new)
  cases same
  exact ⟨rfl,does⟩

theorem Good.step {t : State} (good : Good s) (fit : fits c x = true) (does : step c s x = some t) : Good t := by
  have items : t.items = (roundTrip c s.items x).1 := by cases does; rfl
  rcases roundTrip_cases c s.items x with ⟨same,each⟩ | ⟨cacheable,reply,expires,direct,-,trip⟩
  · refine ⟨fun r it named found => good.kept r it named (same ▸ items ▸ found),fun r got mem => ?_⟩
    rcases mem_served does mem with ⟨rfl,new⟩ | old
    · rcases each got new with ⟨-,direct⟩ | ⟨-,cacheable,it,found,same⟩
      · exact direct.2 fit
      · exact same ▸ good.kept _ it cacheable found
    · exact good.served r got old
  · refine ⟨fun r it named found => ?_,fun r got mem => ?_⟩
    · rw [items,trip,Table.get_set] at found
      split at found
      · rename_i here
        cases found
        obtain ⟨method,url⟩ := key_names cacheable named here.symm
        obtain ⟨method',url',whole⟩ := direct.2 fit
        exact ⟨method'.trans method,url'.trans url,whole⟩
      · exact good.kept r it named found
    · rcases mem_served does mem with ⟨rfl,new⟩ | old
      · rw [trip] at new
        cases new
        exact direct.2 fit
      · exact good.served r got old

theorem served_whole {s : State} (run : Reached (step c) (fun _ x => fits c x = true) {} s) :
    ∀ r got, (r,got) ∈ s.served → got.reply.Whole r :=
  (run.keeps Good ⟨by simp,by simp⟩ fun good fit does => good.step fit does).served

def Served.Isolated (got : Served) (r : ClientRequest) : Prop :=
  got.reply.request.authorization = r.authorization ∧ got.reply.request.cookie = r.cookie ∧
    (got.cached = true → got.reply.response.marked = false)

-- Whatever is kept was once given to the request that it answers.
structure Sourced (s : State) : Prop where
  kept : ∀ key it, s.items.get key = some it → it.reply.response.status = 200 ∧ it.reply.request.key = key ∧
    (it.reply.request,⟨it.reply,false⟩) ∈ s.served
  served : ∀ r got, (r,got) ∈ s.served → got.Isolated r

theorem Sourced.step {t : State} (sourced : Sourced s) (alone : sharesNothing s x = true) (does : step c s x = some t) : Sourced t := by
  have items : t.items = (roundTrip c s.items x).1 := by cases does; rfl
  have served : t.served = ((roundTrip c s.items x).2.map fun got => (x.request,got)).toList ++ s.served := by cases does; rfl
  have own : ∀ {reply : Reply}, reply.request = x.request → Served.Isolated ⟨reply,false⟩ x.request := fun asked =>
    ⟨congrArg _ asked,congrArg _ asked,by simp⟩
  rcases roundTrip_cases c s.items x with ⟨same,each⟩ | ⟨-,reply,expires,direct,status,trip⟩
  · refine ⟨fun key it found => ?_,fun r got mem => ?_⟩
    · obtain ⟨status,named,given⟩ := sourced.kept key it (same ▸ items ▸ found)
      exact ⟨status,named,served ▸ mem_append_right _ given⟩
    · rcases mem_served does mem with ⟨rfl,new⟩ | old
      · obtain ⟨reply,cached⟩ := got
        rcases each _ new with ⟨rfl,direct⟩ | ⟨rfl,cacheable,it,found,rfl⟩
        · exact own direct.1
        -- the reply of the item went to its own request first, which the condition compares with this one
        · obtain ⟨status,named,given⟩ := sourced.kept _ it found
          rw [sharesNothing,cacheable,Bool.not_true,Bool.false_or,all_eq_true] at alone
          simpa [named,status,Served.Isolated,and_assoc] using alone _ given
      · exact sourced.served r got old
  · refine ⟨fun key it found => ?_,fun r got mem => ?_⟩
    · rw [items,trip,Table.get_set] at found
      rw [served,trip]
      split at found
      · rename_i here
        cases found
        refine ⟨status,?_,?_⟩
        · rw [here,direct.1]
        · rw [direct.1]
          exact mem_cons_self
      · obtain ⟨status,named,given⟩ := sourced.kept key it found
        exact ⟨status,named,mem_append_right _ given⟩
    · rcases mem_served does mem with ⟨rfl,new⟩ | old
      · rw [trip] at new
        cases new
        exact own direct.1
      · exact sourced.served r got old

theorem served_isolated {s : State} (run : Reached (step c) (fun s x => sharesNothing s x = true) {} s) :
    ∀ r got, (r,got) ∈ s.served → got.Isolated r :=
  (run.keeps Sourced ⟨by simp,by simp⟩ fun sourced alone does => sourced.step alone does).served
end

def smallCache : MemoryHTTPCache := ⟨10,1⟩

def fetch : ClientRequest := ⟨ascii "GET",ascii "http://a/",[],[]⟩

def login : ClientRequest := {fetch with authorization := [ascii "t"]}

theorem short_body_whole : ∃ s, Reached (step smallCache) (fun _ x => fits smallCache x = true) {} s ∧
    ∃ got : Served, got.cached = true ∧ got.reply.body = [97] ∧ got.reply.Whole fetch := by
  obtain ⟨s,run,served⟩ := play_reaches (step smallCache) (fun _ x => fits smallCache x = true) {}
    (fun s => (fetch,⟨⟨fetch,{body := [97]},[97],false⟩,true⟩) ∈ s.served)
    [{request := fetch, answer := some {body := [97]}},{request := fetch, now := 5}] (by decide)
  exact ⟨s,run,_,rfl,rfl,served_whole run _ _ served⟩

theorem long_body_cut : ∃ s, Reached (step smallCache) (fun _ _ => True) {} s ∧
    s.served = [(fetch,⟨⟨fetch,{body := [97,98,99]},[97,98],false⟩,false⟩)] :=
  play_reaches (step smallCache) (fun _ _ => True) {} (fun s => s.served = [(fetch,⟨⟨fetch,{body := [97,98,99]},[97,98],false⟩,false⟩)])
    [{request := fetch, answer := some {body := [97,98,99]}}] (by decide)

theorem same_login_served : ∃ s, Reached (step smallCache) (fun s x => sharesNothing s x = true) {} s ∧
    ∃ got : Served, got.cached = true ∧ got.reply.request = login ∧ got.Isolated login := by
  obtain ⟨s,run,served⟩ := play_reaches (step smallCache) (fun s x => sharesNothing s x = true) {}
    (fun s => (login,⟨⟨login,{body := [97]},[97],false⟩,true⟩) ∈ s.served)
    [{request := login, answer := some {body := [97]}},{request := login, now := 5}] (by decide)
  exact ⟨s,run,_,rfl,rfl,served_isolated run _ _ served⟩

theorem login_served_to_all : ∃ s, Reached (step smallCache) (fun _ _ => True) {} s ∧
    (fetch,⟨⟨login,{body := [97], marked := true},[97],false⟩,true⟩) ∈ s.served :=
  play_reaches (step smallCache) (fun _ _ => True) {} (fun s => (fetch,⟨⟨login,{body := [97], marked := true},[97],false⟩,true⟩) ∈ s.served)
    [{request := login, answer := some {body := [97], marked := true}},{request := fetch, now := 5}] (by decide)
end FhServer.ClientCache

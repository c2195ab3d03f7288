import FhServer.ResponseReplay
import FhServer.Transitions

namespace FhServer
open GoBytes Transitions List Function DefaultCtx

-- How the first request's handler returned: the context and body of its answer, and what ResponseBody then holds.
structure HandlerEnd (ε : Type) where
  ctx : DefaultCtx := {}
  responded : Bool := true
  body : Bytes := []
  responseBody : Bytes := []
  err : Option ε := none

structure CoalesceEntry (ε : Type) where
  statusCode : Int
  headers : List Header
  body : Bytes
  err : Option ε

namespace CoalesceEntry
variable {ε : Type}

def capture (h : HandlerEnd ε) : CoalesceEntry ε where
  statusCode := h.ctx.status
  headers := h.ctx.keys.dedup.filterMap fun key => (h.ctx.getRespHeaders key).head?.map (Header.mk key)
  body := if h.responded then h.responseBody else []
  err := h.err

-- The order is that of the loop over the map. The dispatcher answers 200 where the middleware sends nothing.
def receive (e : CoalesceEntry ε) (order : List Header) (c : DefaultCtx) : Except ε (DefaultCtx × Bytes) :=
  match e.err with
  | some err => .error err
  | none =>
    if e.body ≠ [] then .ok (c.setAll order,e.body)
    else if e.statusCode ≠ 200 then .ok ((c.setAll order).putStatus e.statusCode,[])
    else .ok ((c.setAll order).putStatus 200,[])
end CoalesceEntry

inductive Leader (ε : Type) where
  | running
  | done (h : HandlerEnd ε) (e : CoalesceEntry ε) (ticks : Nat)
  | panicked

namespace Leader
variable {ε : Type}

def isRunning : Leader ε → Bool
  | running => true
  | _ => false

def closed : Leader ε → Option Nat
  | done _ _ ticks => some ticks
  | _ => none
end Leader

-- An entry, with the requests that found it and have yet to count themselves.
structure Flight (ε : Type) where
  leader : Leader ε := .running
  refs : Nat := 0
  joining : Nat := 0

-- After reuse the leader's context has captured a later answer in the array that the entry's body is a slice of.
inductive FlightAct (ε : Type) where
  | count
  | finish (h : HandlerEnd ε)
  | panic
  | reuse (text : Bytes)

def Flight.after {ε : Type} (ticks : Nat) (f : Flight ε) : FlightAct ε → Option (Flight ε)
  | .count => if 0 < f.joining then some {f with refs := f.refs+1, joining := f.joining-1} else none
  | .finish h => if f.leader.isRunning then some {f with leader := .done h (.capture h) ticks} else none
  | .panic => if f.leader.isRunning then some {f with leader := .panicked} else none
  | .reuse text =>
    match f.leader with
    | .done h e ended => some {f with leader := .done h {e with body := (text ++ e.body.drop text.length).take e.body.length} ended}
    | _ => none

structure Waiter where
  entry : Nat
  ticks : Nat
  early : Bool

structure CoalesceCache (κ ε : Type) where
  entries : List (κ × Nat) := []
  pool : Nat → Flight ε := fun _ => {}
  made : Nat := 0
  waiting : List Waiter := []
  ticks : Nat := 0

inductive CoalesceEvent (κ ε : Type) where
  | request (key : κ) (order : List κ)
  | act (id : Nat) (act : FlightAct ε)
  | serve (i : Nat)
  | tick

namespace CoalesceCache
variable {κ ε : Type} [DecidableEq κ]

def put (s : CoalesceCache κ ε) (id : Nat) (f : Flight ε) : CoalesceCache κ ε := {s with pool := update s.pool id f}

def evict (s : CoalesceCache κ ε) (max : Nat) : List κ → List (κ × Nat) → List (κ × Nat)
  | [],entries => entries
  | key :: order,entries =>
    let left := if (entries.find? (·.1 = key)).any fun e => (s.pool e.2).leader.closed.isSome then entries.filter (·.1 ≠ key) else entries
    if left.length < max then left else s.evict max order left

def step (max : Nat) (s : CoalesceCache κ ε) : CoalesceEvent κ ε → Option (CoalesceCache κ ε)
  | .request key order =>
    match s.entries.find? (·.1 = key) with
    | some (_,id) =>
      let f := s.pool id
      some {s.put id {f with joining := f.joining+1} with waiting := ⟨id,s.ticks,f.leader.isRunning⟩ :: s.waiting}
    | none =>
      if order.Perm (s.entries.map Prod.fst) then
        let entries := if max ≤ s.entries.length then s.evict max order s.entries else s.entries
        some {s.put s.made {} with entries := (key,s.made) :: entries, made := s.made+1}
      else none
  | .act id act => if id < s.made then ((s.pool id).after s.ticks act).map (s.put id) else none
  | .serve i => if s.waiting[i]?.any fun w => (s.pool w.entry).leader.closed.isSome then some {s with waiting := s.waiting.eraseIdx i} else none
  | .tick =>
    some {s with
      entries := s.entries.filter fun e => !((s.pool e.2).leader.closed.isSome && decide ((s.pool e.2).refs ≤ 1)), ticks := s.ticks+1}

theorem evict_subset (s : CoalesceCache κ ε) (max : Nat) (order : List κ) (entries : List (κ × Nat)) : s.evict max order entries ⊆ entries := by
  induction order generalizing entries with
  | nil => exact List.Subset.refl _
  | cons key order ih =>
    unfold evict
    dsimp only
    split <;> split
    · exact filter_subset_self _
    · exact List.Subset.trans (ih _) (filter_subset_self _)
    · exact List.Subset.refl _
    · exact ih _

def Unshared (s : CoalesceCache κ ε) : CoalesceEvent κ ε → Prop
  | .request key _ => ∀ e ∈ s.entries.find? (·.1 = key), (s.pool e.2).refs+(s.pool e.2).joining ≤ 1
  | _ => True

instance (s : CoalesceCache κ ε) : ∀ event, Decidable (s.Unshared event)
  | .request key _ => inferInstanceAs (Decidable (∀ e ∈ s.entries.find? (·.1 = key), (s.pool e.2).refs+(s.pool e.2).joining ≤ 1))
  | .act _ _ | .serve _ | .tick => .isTrue trivial

structure Fresh (s : CoalesceCache κ ε) : Prop where
  mapped : ∀ entry ∈ s.entries, ∀ ticks ∈ (s.pool entry.2).leader.closed, (s.pool entry.2).refs+(s.pool entry.2).joining ≤ 1 → ticks = s.ticks
  waiting : ∀ w ∈ s.waiting, w.ticks ≤ s.ticks ∧ ∀ ticks ∈ (s.pool w.entry).leader.closed, w.ticks ≤ ticks

theorem closed_after {now : Nat} {f next : Flight ε} {act : FlightAct ε} (goes : f.after now act = some next) :
    ∀ ticks ∈ next.leader.closed, ticks = now ∨ ticks ∈ f.leader.closed ∧ f.refs+f.joining ≤ next.refs+next.joining := by
  intro ticks ended
  cases act with
  | count =>
    obtain ⟨some,⟨⟩⟩ := Option.ite_none_right_eq_some.mp goes
    exact .inr ⟨ended,by dsimp only; lia⟩
  | finish h =>
    obtain ⟨-,⟨⟩⟩ := Option.ite_none_right_eq_some.mp goes
    exact .inl (Option.some.inj ended).symm
  | panic =>
    obtain ⟨-,⟨⟩⟩ := Option.ite_none_right_eq_some.mp goes
    exact nomatch ended
  | reuse text =>
    simp only [Flight.after] at goes
    split at goes
    · rename_i leader
      cases goes
      exact .inr ⟨leader ▸ ended,Nat.le_refl _⟩
    · cases goes

omit [DecidableEq κ] in
theorem Fresh.put {s : CoalesceCache κ ε} (fresh : s.Fresh) (id : Nat) (f : Flight ε) (closed : ∀ ticks ∈ f.leader.closed, ticks = s.ticks ∨
      ticks ∈ (s.pool id).leader.closed ∧ (s.pool id).refs+(s.pool id).joining ≤ f.refs+f.joining) : (s.put id f).Fresh where
  mapped entry mem ticks ended few := by
    simp only [CoalesceCache.put] at ended few ⊢
    by_cases same : entry.2 = id
    · subst same
      rw [update_self] at ended few
      rcases closed ticks ended with now | ⟨old,more⟩
      · exact now
      · exact fresh.mapped entry mem ticks old (more.trans few)
    · rw [update_of_ne same] at ended few
      exact fresh.mapped entry mem ticks ended few
  waiting w mem := by
    refine ⟨(fresh.waiting w mem).1,fun ticks ended => ?_⟩
    simp only [CoalesceCache.put] at ended
    by_cases same : w.entry = id
    · subst same
      rw [update_self] at ended
      rcases closed ticks ended with now | ⟨old,-⟩
      · exact now ▸ (fresh.waiting w mem).1
      · exact (fresh.waiting w mem).2 ticks old
    · rw [update_of_ne same] at ended
      exact (fresh.waiting w mem).2 ticks ended

theorem Fresh.step {max : Nat} {s t : CoalesceCache κ ε} {event : CoalesceEvent κ ε} (fresh : s.Fresh) (meets : s.Unshared event)
    (does : s.step max event = some t) : t.Fresh := by
  cases event with
  | request key order =>
    simp only [CoalesceCache.step] at does
    split at does
    · rename_i id found
      cases does
      have joined := fresh.put id {s.pool id with joining := (s.pool id).joining+1} fun ticks ended => .inr ⟨ended,by dsimp only; lia⟩
      refine ⟨joined.mapped,forall_mem_cons.mpr ⟨⟨Nat.le_refl _,fun ticks ended => ?_⟩,joined.waiting⟩⟩
      simp only [CoalesceCache.put,update_self] at ended
      exact (fresh.mapped _ (mem_of_find?_eq_some found) ticks ended (meets _ found)).ge
    · obtain ⟨-,⟨⟩⟩ := Option.ite_none_right_eq_some.mp does
      have made := fresh.put s.made {} nofun
      refine ⟨forall_mem_cons.mpr ⟨fun ticks ended => ?_,fun entry mem => made.mapped entry ?_⟩,made.waiting⟩
      · simp only [CoalesceCache.put,update_self] at ended
        exact nomatch ended
      · split at mem
        · exact s.evict_subset max order s.entries mem
        · exact mem
  | act id act =>
    obtain ⟨-,acts⟩ := Option.ite_none_right_eq_some.mp does
    obtain ⟨next,goes,rfl⟩ := Option.map_eq_some_iff.mp acts
    exact fresh.put id next (closed_after goes)
  | serve i =>
    obtain ⟨-,⟨⟩⟩ := Option.ite_none_right_eq_some.mp does
    exact ⟨fresh.mapped,fun w mem => fresh.waiting w (mem_of_mem_eraseIdx mem)⟩
  | tick =>
    cases does
    refine ⟨fun entry mem ticks ended few => ?_,fun w mem => ?_⟩
    · obtain ⟨-,kept⟩ := mem_filter.mp mem
      have shut : (s.pool entry.2).leader.closed.isSome = true := Option.isSome_of_mem ended
      lia
    · exact ⟨(fresh.waiting w mem).1.trans (Nat.le_succ _),(fresh.waiting w mem).2⟩

theorem received_after_last_ticks (max : Nat) (s : CoalesceCache κ ε) (run : Reached (step max) Unshared {} s) :
    ∀ w ∈ s.waiting, ∀ ticks ∈ (s.pool w.entry).leader.closed, w.ticks ≤ ticks+1 := by
  have fresh := run.keeps Fresh ⟨forall_mem_nil _,forall_mem_nil _⟩ fun fresh meets does => fresh.step meets does
  intro w mem ticks ended
  exact ((fresh.waiting w mem).2 ticks ended).trans (Nat.le_succ _)

def twoReaders : List (CoalesceEvent Unit Unit) :=
  [.request () [],.request () [],.act 0 .count,.request () [],.act 0 .count,.act 0 (.finish {}),.tick,.tick,.request () []]

theorem received_after_last_ticks_joined : ∃ s : CoalesceCache Unit Unit, s.waiting ≠ [] ∧
    ∀ w ∈ s.waiting, ∀ ticks ∈ (s.pool w.entry).leader.closed, w.ticks ≤ ticks+1 := by
  obtain ⟨s,run,some⟩ := play_reaches (step 4096) (fun s e => s.Unshared e) {} (fun s => s.waiting ≠ []) (twoReaders.take 6) (by decide)
  exact ⟨s,some,received_after_last_ticks 4096 s run⟩

theorem received_before_last_ticks : ∃ s : CoalesceCache Unit Unit, Reached (step 4096) (fun _ _ => True) {} s ∧
    ∃ w ∈ s.waiting, ∃ ticks ∈ (s.pool w.entry).leader.closed, ticks+1 < w.ticks :=
  play_reaches _ _ _ _ twoReaders (by decide)
end CoalesceCache

-- Why a request that waits gets the answer: Set keeps every field of it, it has no trailers, which the entry does not take, and
-- its body is with the entry and sent with status 200.
structure HandlerEnd.Repeatable {ε : Type} (h : HandlerEnd ε) : Prop where
  err : h.err = none
  body : h.responseBody = h.body
  status : h.body = [] ∨ h.ctx.status = 200
  trailers : h.ctx.trailers = []
  apart : h.ctx.keys.Nodup
  kept : ∀ f ∈ h.ctx.fields, Kept ⟨canonicalMIMEHeaderKey f.key,f.value⟩

def Leader.answers {ε : Type} : Leader ε → Prop
  | running => True
  | done h e _ => h.responded = true → ∀ order, order.Perm e.headers → ∃ c, e.receive order {} = .ok (c,h.body) ∧
      c.status = h.ctx.status ∧ c.getRespHeaders = h.ctx.getRespHeaders ∧ c.trailers = h.ctx.trailers
  | panicked => False

theorem keyValues_one {headers : List Header} (apart : (headers.map fun h => canonicalMIMEHeaderKey h.key).Nodup) :
    ∀ h ∈ headers, keyValues (canonicalMIMEHeaderKey h.key) headers = [h.value] := by
  induction headers with
  | nil => exact forall_mem_nil _
  | cons first rest ih =>
    rw [map_cons,nodup_cons] at apart
    refine forall_mem_cons.mpr ⟨?_,fun h mem => ?_⟩
    · have none : keyValues (canonicalMIMEHeaderKey first.key) rest = [] :=
        keyValues_eq_nil.mpr fun h mem same => apart.1 (same ▸ mem_map_of_mem mem)
      rw [← singleton_append,keyValues_append,none]
      simp [keyValues]
    · have unlike : canonicalMIMEHeaderKey first.key ≠ canonicalMIMEHeaderKey h.key := fun same => apart.1 (same ▸ mem_map_of_mem mem)
      rw [← singleton_append,keyValues_append,ih apart.2 h mem]
      simp [keyValues,unlike]

theorem received_fields {c : DefaultCtx} (apart : c.keys.Nodup) (kept : ∀ f ∈ c.fields, Kept ⟨canonicalMIMEHeaderKey f.key,f.value⟩)
    (visits : order.Perm (c.keys.dedup.filterMap fun key => (c.getRespHeaders key).head?.map (Header.mk key))) :
    (({} : DefaultCtx).setAll order).getRespHeaders = c.getRespHeaders := by
  have single := keyValues_one apart
  have all : (c.keys.dedup.filterMap fun key => (c.getRespHeaders key).head?.map (Header.mk key)) =
      c.fields.map fun f => ⟨canonicalMIMEHeaderKey f.key,f.value⟩ := by
    rw [dedup_eq_self.mpr apart,DefaultCtx.keys,filterMap_map,← filterMap_eq_map]
    refine filterMap_congr fun f inside => ?_
    simp [getRespHeaders,single f inside]
  rw [all] at visits
  funext key
  rw [getRespHeaders_setAll]
  · have same : (keyValues key order).Perm (c.getRespHeaders key) := by
      have moved := (visits.filter fun h => canonicalMIMEHeaderKey h.key = key).map Header.value
      simpa [keyValues,getRespHeaders,filter_map,comp_def,canonical_canonical] using moved
    by_cases listed : key ∈ c.keys
    · obtain ⟨f,inside,rfl⟩ := mem_map.mp listed
      have one : c.getRespHeaders (canonicalMIMEHeaderKey f.key) = [f.value] := single f inside
      rw [one] at same ⊢
      rw [perm_singleton.mp same]
      rfl
    · have none : c.getRespHeaders key = [] := keyValues_eq_nil.mpr fun f inside same => listed (same ▸ mem_map_of_mem inside)
      rw [none] at same ⊢
      rw [perm_nil.mp same]
      rfl
  · intro h inside
    obtain ⟨f,mem,rfl⟩ := mem_map.mp (visits.mem_iff.mp inside)
    exact ⟨kept f mem,canonical_canonical f.key⟩
  · have names := (visits.map Header.key).nodup_iff
    rw [map_map] at names
    exact names.mpr apart
  · intro h _
    rfl

theorem HandlerEnd.Repeatable.answers {ε : Type} {h : HandlerEnd ε} (repeatable : h.responded = true → h.Repeatable) (ticks : Nat) :
    (Leader.done h (.capture h) ticks).answers := by
  intro responded order visits
  have good := repeatable responded
  have fields := received_fields good.apart good.kept visits
  obtain ⟨status,trailers⟩ := setAll_frame order {}
  have bare : (({} : DefaultCtx).setAll order).trailers = h.ctx.trailers := trailers.trans good.trailers.symm
  have body : (CoalesceEntry.capture h).body = h.body := by simp [CoalesceEntry.capture,responded,good.body]
  have err : (CoalesceEntry.capture h).err = none := good.err
  unfold CoalesceEntry.receive
  rw [err,body]
  by_cases empty : h.body = []
  · simp only [empty,ne_eq,not_true,if_false]
    split
    · refine ⟨_,rfl,?_⟩
      rw [← fields,← bare]
      unfold putStatus
      split <;> exact ⟨rfl,rfl,rfl⟩
    · rename_i same
      rw [← fields,← bare]
      exact ⟨_,rfl,(not_not.mp same).symm,rfl,rfl⟩
  · have ok := good.status.resolve_left empty
    exact ⟨_,if_pos empty,status.trans ok.symm,fields,bare⟩

namespace CoalesceCache
variable {κ ε : Type} [DecidableEq κ]

def awaited (s : CoalesceCache κ ε) (id : Nat) : Prop := ∃ w ∈ s.waiting, w.early = true ∧ w.entry = id

def Undisturbed (s : CoalesceCache κ ε) : CoalesceEvent κ ε → Prop
  | .act id (.finish h) => s.awaited id → h.responded = true → h.Repeatable
  | .act id .panic | .act id (.reuse _) => ¬s.awaited id
  | _ => True

def Answered (s : CoalesceCache κ ε) : Prop := ∀ w ∈ s.waiting, w.early = true → (s.pool w.entry).leader.answers

omit [DecidableEq κ] in
theorem Answered.put {s : CoalesceCache κ ε} (answered : s.Answered) (id : Nat) (f : Flight ε)
    (keeps : s.awaited id → (s.pool id).leader.answers → f.leader.answers) : (s.put id f).Answered := by
  intro w mem early
  have old := answered w mem early
  simp only [CoalesceCache.put]
  by_cases same : w.entry = id
  · subst same
    rw [update_self]
    exact keeps ⟨w,mem,early,rfl⟩ old
  · rw [update_of_ne same]
    exact old

theorem Answered.step {max : Nat} {s : CoalesceCache κ ε} (answered : s.Answered) (meets : s.Undisturbed event)
    (does : s.step max event = some t) : t.Answered := by
  cases event with
  | request key order =>
    simp only [CoalesceCache.step] at does
    split at does
    · rename_i id _
      cases does
      have others := answered.put id {s.pool id with joining := (s.pool id).joining+1} fun _ old => old
      refine forall_mem_cons.mpr ⟨fun early => ?_,others⟩
      simp only [CoalesceCache.put,update_self]
      cases leader : (s.pool id).leader with
      | running => trivial
      | done h e ticks | panicked => simp [leader,Leader.isRunning] at early
    · obtain ⟨-,⟨⟩⟩ := Option.ite_none_right_eq_some.mp does
      exact answered.put s.made {} fun _ _ => trivial
  | act id act =>
    obtain ⟨-,acts⟩ := Option.ite_none_right_eq_some.mp does
    obtain ⟨next,goes,rfl⟩ := Option.map_eq_some_iff.mp acts
    refine answered.put id next fun awaited old => ?_
    cases act with
    | count =>
      obtain ⟨-,⟨⟩⟩ := Option.ite_none_right_eq_some.mp goes
      exact old
    | finish h =>
      obtain ⟨-,⟨⟩⟩ := Option.ite_none_right_eq_some.mp goes
      exact HandlerEnd.Repeatable.answers (meets awaited) s.ticks
    | panic | reuse text => exact absurd awaited meets
  | serve i =>
    obtain ⟨-,⟨⟩⟩ := Option.ite_none_right_eq_some.mp does
    exact fun w mem => answered w (mem_of_mem_eraseIdx mem)
  | tick =>
    cases does
    exact answered

end CoalesceCache
end FhServer

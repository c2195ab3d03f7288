import FhServer.FileQueue

namespace FhServer
open Transitions List

-- The maps jobs and state always have the same keys and are one list here, keyed by the job's id. The last three fields are
-- kept for the specification: the ids that were enqueued, those not completed or failed since, and the jobs that Claim returned.
structure MemoryQueue where
  maxEntries : Nat
  stored : List (QueueJob × QueueDir) := []
  insertOrder : List Bytes := []
  enqueued : List Bytes := []
  unfinished : List Bytes := []
  claimed : List QueueJob := []

inductive MemoryQueueEvent where
  | enqueue (job : QueueJob) (now : Int)
  | claim (now : Int) (selected : QueueJob)
  | complete (job : QueueJob)
  | retry (job : QueueJob) (cause : Option Bytes) (backoff now : Int)
  | fail (job : QueueJob) (cause : Option Bytes)
  | recover

namespace MemoryQueue

def newQueueStorageWithLimit (maxEntries : Int) : MemoryQueue := ⟨if maxEntries ≤ 0 then 50000 else maxEntries.toNat,[],[],[],[],[]⟩

def put (job : QueueJob) (state : QueueDir) (stored : List (QueueJob × QueueDir)) : List (QueueJob × QueueDir) :=
  if stored.any fun e => e.1.id = job.id then stored.map fun e => if e.1.id = job.id then (job,state) else e
  else stored ++ [(job,state)]

def evict (maxEntries : Nat) : List (QueueJob × QueueDir) → List Bytes → List (QueueJob × QueueDir) × List Bytes
  | stored,[] => (stored,[])
  | stored,oldest :: order =>
    if maxEntries ≤ stored.length then evict maxEntries (stored.filter fun e => e.1.id ≠ oldest) order else (stored,oldest :: order)

def makeRoom (s : MemoryQueue) : MemoryQueue :=
  let (stored,order) := evict s.maxEntries s.stored s.insertOrder
  {s with stored := stored,insertOrder := order}

def add (s : MemoryQueue) (job : QueueJob) : MemoryQueue :=
  {s with
    stored := put job .pending s.stored
    insertOrder := s.insertOrder ++ [job.id]
    enqueued := job.id :: s.enqueued
    unfinished := job.id :: s.unfinished}

def visible (now : Int) (job : QueueJob) : Bool :=
  let vis := if job.visibleAt = 0 then job.runAt else job.visibleAt
  vis = 0 || vis ≤ now

def precedes (a b : QueueJob) : Bool := if a.priority ≠ b.priority then a.priority > b.priority else a.visibleAt < b.visibleAt

-- The jobs that sort.Slice can put first, whatever the order in which the map is walked.
def selectable (s : MemoryQueue) (now : Int) (selected : QueueJob) : Bool :=
  let list := (s.stored.filter fun e => e.2 = .pending && visible now e.1).map (·.1)
  list.contains selected && list.all fun job => !precedes job selected

def settle (s : MemoryQueue) (job : QueueJob) (state : QueueDir) : MemoryQueue :=
  {s with
    stored := put job state s.stored
    unfinished := if state = .pending then s.unfinished else s.unfinished.filter (· ≠ job.id)}

def retried (job : QueueJob) (cause : Option Bytes) (backoff now : Int) : QueueJob :=
  {job with
    attempts := job.attempts+1
    visibleAt := now+backoff*max 1 (job.attempts+1)
    lastError := cause.getD job.lastError
    maxAttempts := if job.maxAttempts ≤ 0 then 5 else job.maxAttempts}

def step (s : MemoryQueue) : MemoryQueueEvent → Option MemoryQueue
  | .enqueue job now =>
    if job.id ∈ s.enqueued then none
    else some (s.makeRoom.add {job with visibleAt := if job.visibleAt = 0 then now else job.visibleAt})
  | .claim now selected =>
    if s.selectable now selected then
      some {s with
        stored := s.stored.map fun e => if e.1.id = selected.id then (e.1,.processing) else e
        claimed := selected :: s.claimed}
    else none
  | .complete job => if job ∈ s.claimed then some (s.settle job .done) else none
  | .retry job cause backoff now =>
    let cp := retried job cause backoff now
    if job ∈ s.claimed then some (s.settle cp (if cp.maxAttempts ≤ cp.attempts then .failed else .pending)) else none
  | .fail job cause => if job ∈ s.claimed then some (s.settle {job with lastError := cause.getD job.lastError} .failed) else none
  | .recover => some {s with stored := s.stored.map fun e => if e.2 = .processing then (e.1,.pending) else e}

def Keeps (s : MemoryQueue) : Prop :=
  s.stored.length ≤ s.maxEntries ∧ ∀ id ∈ s.unfinished, ∃ e ∈ s.stored, e.1.id = id ∧ (e.2 = .pending ∨ e.2 = .processing)

-- A full store evicts a job that is done or failed, and a settled job is still stored.
def Spares (s : MemoryQueue) : MemoryQueueEvent → Prop
  | .enqueue _ _ => s.maxEntries ≤ s.stored.length → ∀ e ∈ s.stored, s.insertOrder.head? = some e.1.id → e.2 = .done ∨ e.2 = .failed
  | .complete job | .retry job _ _ _ | .fail job _ => job.id ∈ s.stored.map (·.1.id)
  | _ => True

instance (s : MemoryQueue) (e : MemoryQueueEvent) : Decidable (Spares s e) := by
  cases e <;> dsimp only [Spares] <;> infer_instance

structure Sound (s : MemoryQueue) : Prop where
  some : 0 < s.maxEntries
  within : s.stored.length ≤ s.maxEntries
  order : s.stored.map (·.1.id) = s.insertOrder
  nodup : s.insertOrder.Nodup
  known : ∀ id ∈ s.insertOrder, id ∈ s.enqueued
  kept : ∀ id ∈ s.unfinished, ∃ e ∈ s.stored, e.1.id = id ∧ (e.2 = .pending ∨ e.2 = .processing)

variable {s t : MemoryQueue}

-- Everything but Enqueue changes the stored jobs one by one.
theorem Sound.mapped (sound : Sound s) {claimed : List QueueJob}
    (ids : ∀ e, (f e).1.id = e.1.id) (fewer : ∀ id ∈ todo, id ∈ s.unfinished)
    (live : ∀ e, e.1.id ∈ todo → e.2 = .pending ∨ e.2 = .processing → (f e).2 = .pending ∨ (f e).2 = .processing) :
    Sound {s with stored := s.stored.map f,unfinished := todo,claimed := claimed} where
  some := sound.some
  within := by simpa using sound.within
  order := by simp [Function.comp_def,ids,sound.order]
  nodup := sound.nodup
  known := sound.known
  kept := by
    intro id mem
    obtain ⟨e,there,rfl,alive⟩ := sound.kept id (fewer id mem)
    exact ⟨f e,mem_map_of_mem there,ids e,live e mem alive⟩

theorem settle_sound (sound : Sound s) (there : job.id ∈ s.stored.map (·.1.id)) (state : QueueDir) : Sound (s.settle job state) := by
  have found : (s.stored.any fun e => e.1.id = job.id) = true := by simpa using there
  rw [settle,put,if_pos found]
  refine sound.mapped ?_ ?_ ?_
  · intro e
    split <;> simp_all
  · intro id mem
    split at mem
    · exact mem
    · exact mem_of_mem_filter mem
  · intro e mem alive
    split
    · rename_i same
      split at mem
      · exact .inl ‹_›
      · simp [same] at mem
    · exact alive

theorem evict_room {maxEntries : Nat} {stored : List (QueueJob × QueueDir)} (room : stored.length < maxEntries) (order : List Bytes) :
    evict maxEntries stored order = (stored,order) := by
  cases order with
  | nil => rfl
  | cons oldest order => rw [evict,if_neg (by lia)]

theorem makeRoom_sound (sound : Sound s) (spares : Spares s (.enqueue job now)) :
    s.makeRoom.stored.length < s.makeRoom.maxEntries ∧ Sound s.makeRoom := by
  by_cases room : s.stored.length < s.maxEntries
  · rw [makeRoom,evict_room room]
    exact ⟨room,sound⟩
  have full := Nat.le_of_not_lt room
  cases stored : s.stored with
  | nil => exact absurd (stored ▸ sound.some) room
  | cons first rest =>
    have order : s.insertOrder = first.1.id :: rest.map (·.1.id) := by rw [← sound.order,stored,map_cons]
    obtain ⟨apart,nodup⟩ := nodup_cons.mp (order ▸ sound.nodup)
    have others : s.stored.filter (fun e => e.1.id ≠ first.1.id) = rest := by
      rw [stored,filter_cons_of_neg (by simp),filter_eq_self]
      intro e mem
      simpa using fun same => apart (mem_map.mpr ⟨e,mem,same⟩)
    have fits : rest.length < s.maxEntries := by simpa [stored,Nat.succ_le_iff] using sound.within
    have made : s.makeRoom = {s with stored := rest,insertOrder := rest.map (·.1.id)} := by
      rw [makeRoom,order,evict,if_pos full,others,evict_room fits]
    rw [made]
    refine ⟨fits,sound.some,fits.le,rfl,nodup,fun id mem => sound.known id (order ▸ mem_cons_of_mem _ mem),?_⟩
    intro id mem
    obtain ⟨e,there,same,alive⟩ := sound.kept id mem
    rcases mem_cons.mp (stored ▸ there) with rfl | later
    · have ended := spares full e there (by rw [order,List.head?_cons])
      rcases ended with ended | ended <;> simp [ended] at alive
    · exact ⟨e,later,same,alive⟩

theorem add_sound (sound : Sound s) (room : s.stored.length < s.maxEntries) (fresh : job.id ∉ s.enqueued) : Sound (s.add job) := by
  have apart : job.id ∉ s.insertOrder := fun listed => fresh (sound.known _ listed)
  have absent : (s.stored.any fun e => e.1.id = job.id) = false := by
    rw [← sound.order] at apart
    simpa using apart
  rw [add,put,absent]
  refine ⟨sound.some,by simpa using Nat.succ_le_of_lt room,by simp [sound.order],?_,?_,?_⟩
  · exact nodup_append.mpr ⟨sound.nodup,nodup_singleton _,by grind⟩
  · exact forall_mem_append.mpr ⟨fun id old => mem_cons_of_mem _ (sound.known id old),forall_mem_singleton.mpr mem_cons_self⟩
  · intro id mem
    rcases mem_cons.mp mem with rfl | old
    · exact ⟨_,mem_append_right _ mem_cons_self,rfl,.inl rfl⟩
    · obtain ⟨e,there,alive⟩ := sound.kept id old
      exact ⟨e,mem_append_left _ there,alive⟩

theorem step_sound (sound : Sound s) (spares : Spares s e) (does : s.step e = some t) : Sound t := by
  cases e with
  | enqueue job now =>
    simp only [step,Option.ite_none_left_eq_some,Option.some.injEq] at does
    obtain ⟨fresh,rfl⟩ := does
    obtain ⟨room,made⟩ := makeRoom_sound sound spares
    exact add_sound made room fresh
  | claim now selected =>
    simp only [step,Option.ite_none_right_eq_some,Option.some.injEq] at does
    obtain ⟨-,rfl⟩ := does
    refine sound.mapped ?_ (fun _ => id) ?_
    · intro e
      split <;> rfl
    · intro e _ alive
      split
      · exact .inr rfl
      · exact alive
  | complete job | fail job cause | retry job cause backoff now =>
    simp only [step,Option.ite_none_right_eq_some,Option.some.injEq] at does
    obtain ⟨-,rfl⟩ := does
    refine settle_sound sound ?_ _
    exact spares
  | recover =>
    simp only [step,Option.some.injEq] at does
    subst does
    refine sound.mapped ?_ (fun _ => id) ?_
    · intro e
      split <;> rfl
    · intro e _ alive
      split
      · exact .inl rfl
      · exact alive

theorem new_sound (maxEntries : Int) : Sound (newQueueStorageWithLimit maxEntries) := by
  have some : 0 < (newQueueStorageWithLimit maxEntries).maxEntries := by
    dsimp only [newQueueStorageWithLimit]
    split <;> lia
  exact ⟨some,Nat.zero_le _,rfl,nodup_nil,forall_mem_nil _,forall_mem_nil _⟩

theorem unfinished_kept (maxEntries : Int) (run : Reached step Spares (newQueueStorageWithLimit maxEntries) s) : Keeps s := by
  have sound := run.keeps Sound (new_sound maxEntries) step_sound
  exact ⟨sound.within,sound.kept⟩

theorem finished_job_replaced : ∃ s, s.enqueued = [[2],[1]] ∧ Reached step Spares (newQueueStorageWithLimit 1) s ∧ Keeps s := by
  let job id : QueueJob := {id := id,visibleAt := 1}
  obtain ⟨s,run,both⟩ := play_reaches step Spares (newQueueStorageWithLimit 1) (·.enqueued = [[2],[1]])
    [.enqueue (job [1]) 1,.claim 1 (job [1]),.complete (job [1]),.enqueue (job [2]) 1] (by decide)
  exact ⟨s,both,run,unfinished_kept 1 run⟩

theorem pending_job_evicted : ∃ s, Reached step (fun _ _ => True) (newQueueStorageWithLimit 1) s ∧ ¬Keeps s := by
  refine ⟨_,.step (.step .start trivial (e := .enqueue ⟨[1],[],[],0,0,0,[],0,0,[]⟩ 1) rfl) trivial (e := .enqueue ⟨[2],[],[],0,0,0,[],0,0,[]⟩ 1) rfl,?_⟩
  intro kept
  obtain ⟨e,there,same,-⟩ := kept.2 [1] (by decide)
  revert e
  decide
end MemoryQueue
end FhServer

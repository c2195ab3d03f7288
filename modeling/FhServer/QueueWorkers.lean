import FhServer.FileQueueCalls

namespace FhServer
open GoText Transitions QueueState Option

-- `quote` is the %q of fmt, and the backoff is in nanoseconds.
structure DurableQueueConfig where
  queue : QueueConfig := {}
  concurrencyLimitByKey : Bool := false
  backoff : Int := 1000000000
  quote : Bytes → Bytes := id

-- Where a worker is in processOne, outside the storage: with a job it has claimed, with the job's concurrency key if it has to
-- be alone, with a handler, in the handler, with an error, with a job that is done, and at the deferred release of the key.
inductive WorkerStage where
  | storage
  | keyed (key : Option Bytes)
  | ready (key : Option Bytes)
  | running (key : Option Bytes)
  | retrying (key : Option Bytes) (cause : Bytes)
  | completing (key : Option Bytes)
  | leaving (key : Option Bytes)
deriving DecidableEq

def WorkerStage.key : WorkerStage → Option Bytes
  | .storage => none
  | .keyed key | .ready key | .running key | .retrying key _ | .completing key | .leaving key => key

-- The last field is kept for the specification: how often a handler was called with a job.
structure DurableQueue where
  store : QueueState := {}
  handlers : List Bytes := []
  activeKeys : List Bytes := []
  stages : Table Nat WorkerStage .storage := .empty
  invoked : Table Bytes Nat 0 := .empty

inductive WorkerEvent where
  | register (type : Bytes)
  | enqueue (job : QueueJob)
  | list (w : Nat) (now : Int)
  | read (w : Nat)
  | drop (w : Nat)
  | sort (w : Nat) (order : List Cand)
  | rename (w : Nat)
  | checkKey (w : Nat)
  | findHandler (w : Nat)
  | invoke (w : Nat)
  | returns (w : Nat) (error : Option Bytes)
  | retry (w : Nat) (now : Int)
  | complete (w : Nat)
  | remove (w : Nat)
  | release (w : Nat)
  | stop (w : Nat)
  | recover (name : Bytes)
  | requeue (id : Bytes) (now : Int)
  | removeFailed (id : Bytes)

def busyCause : Bytes := ascii "concurrency key is busy"

def missingCause (cfg : DurableQueueConfig) (type : Bytes) : Bytes := ascii "no handler registered for job type " ++ cfg.quote type

namespace DurableQueue

def goto (s : DurableQueue) (w : Nat) (stage : WorkerStage) : DurableQueue := {s with stages := s.stages.set w stage}

def claims (cfg : DurableQueueConfig) (s : DurableQueue) (w : Nat) (e : QueueEvent) : Option DurableQueue :=
  if s.stages.get w = .storage then (s.store.step cfg.queue e).map fun store => {s with store := store} else none

def unlock (s : DurableQueue) (key : Option Bytes) : DurableQueue := {s with activeKeys := s.activeKeys.filter fun k => some k ≠ key}

def step (cfg : DurableQueueConfig) (s : DurableQueue) : WorkerEvent → Option DurableQueue
  | .register type => some {s with handlers := type :: s.handlers}
  | .enqueue job => (s.store.step cfg.queue (.enqueue job)).map fun store => {s with store := store}
  | .list w now => s.claims cfg w (.list w now)
  | .read w => s.claims cfg w (.read w)
  | .drop w => s.claims cfg w (.drop w)
  | .sort w order => s.claims cfg w (.sort w order)
  | .rename w => s.claims cfg w (.rename w)
  | .checkKey w =>
    match s.stages.get w,s.store.workers.get w with
    | .storage,.holding job _ =>
      if cfg.concurrencyLimitByKey && job.concurrencyKey ≠ [] then
        if job.concurrencyKey ∈ s.activeKeys then some (s.goto w (.retrying none busyCause))
        else some ({s with activeKeys := job.concurrencyKey :: s.activeKeys}.goto w (.keyed (some job.concurrencyKey)))
      else some (s.goto w (.keyed none))
    | _,_ => none
  | .findHandler w =>
    match s.stages.get w,s.store.workers.get w with
    | .keyed key,.holding job _ =>
      if job.type ∈ s.handlers then some (s.goto w (.ready key)) else some (s.goto w (.retrying key (missingCause cfg job.type)))
    | _,_ => none
  | .invoke w =>
    match s.stages.get w,s.store.workers.get w with
    | .ready key,.holding job _ => some ({s with invoked := s.invoked.update job.id (· + 1)}.goto w (.running key))
    | _,_ => none
  | .returns w error =>
    match s.stages.get w,error with
    | .running key,some cause => some (s.goto w (.retrying key cause))
    | .running key,none => some (s.goto w (.completing key))
    | _,_ => none
  | .retry w now =>
    match s.stages.get w with
    | .retrying key cause =>
      (s.store.step cfg.queue (.retry w (some cause) cfg.backoff now)).map fun store => {s with store := store}.goto w (.leaving key)
    | _ => none
  | .complete w =>
    match s.stages.get w with
    | .completing key => (s.store.step cfg.queue (.complete w)).map fun store => {s with store := store}.goto w (.leaving key)
    | _ => none
  | .remove w => (s.store.step cfg.queue (.remove w)).map fun store => {s with store := store}
  | .release w =>
    match s.stages.get w,s.store.workers.get w with
    | .leaving key,.idle => some ((s.unlock key).goto w .storage)
    | _,_ => none
  -- the context is done or the handler panics; the deferred release still runs
  | .stop w => (s.store.step cfg.queue (.stop w)).map fun store => ({s with store := store}.unlock (s.stages.get w).key).goto w .storage
  -- Recover moves one file, RequeueFailed writes and then removes one
  | .recover name => some {s with store := s.store.moveBack name}
  | .requeue id now =>
    match readJob cfg.queue (s.store.file .failed id) with
    | none => none
    | some job => some {s with store := s.store.writeJobAtomic cfg.queue .pending {job with visibleAt := now}}
  | .removeFailed id => some {s with store := s.store.put .failed id none}

example (cfg : DurableQueueConfig) (s : DurableQueue) (w : Nat) : s.step cfg (.list w 0) = s.claims cfg w (.list w 0) := by rw [step]

def deadLetters (s : DurableQueue) : WorkerEvent → Option QueueJob
  | .retry w _ =>
    match s.stages.get w,s.store.workers.get w with
    | .retrying _ cause,.holding job _ => if job.retryDir (some cause) = .failed then some (job.again (some cause)) else none
    | _,_ => none
  | _ => none
end DurableQueue

-- A job starts with no attempts and an id of its own, a claimed job finds its key free, and its type has a handler.
def unrefused (cfg : DurableQueueConfig) (s : DurableQueue) : WorkerEvent → Bool
  | .enqueue job => decide (job.attempts ≤ 0) && decide (jsonText job.id = job.id) && decide (job.id ∉ s.store.enqueued)
  | .checkKey w =>
    match s.store.workers.get w with
    | .holding job _ => !(cfg.concurrencyLimitByKey && decide (job.concurrencyKey ∈ s.activeKeys))
    | _ => true
  | .findHandler w =>
    match s.store.workers.get w with
    | .holding job _ => decide (job.type ∈ s.handlers)
    | _ => true
  | _ => true

def PhaseAll (P : QueueJob → Prop) : QueuePhase → Prop
  | .scanning _ _ candidates | .dropping _ _ _ candidates | .claiming candidates => ∀ c ∈ candidates, P c.job
  | .holding job _ => P job
  | _ => True

structure JobsAll (P : QueueJob → Prop) (s : QueueState) : Prop where
  files : ∀ d name f, s.file d name = some f → P f.job
  phases : ∀ w, PhaseAll P (s.workers.get w)

section
variable {P Q : QueueJob → Prop} {cfg : QueueConfig} {s t : QueueState} {e : QueueEvent} {w : Nat} {phase : QueuePhase} {d : QueueDir} {name : Bytes}

theorem PhaseAll.mono (imp : ∀ job, P job → Q job) (all : PhaseAll P phase) : PhaseAll Q phase := by
  cases phase with
  | idle => trivial
  | scanning now names candidates | dropping now name names candidates | claiming candidates => exact fun c mem => imp c.job (all c mem)
  | holding job claim => exact imp job all
  | finishing id claim wrote => trivial

theorem JobsAll.mono (imp : ∀ job, P job → Q job) (all : JobsAll P s) : JobsAll Q s :=
  ⟨fun d name f found => imp f.job (all.files d name f found),fun w => (all.phases w).mono imp⟩

theorem workers_goto : (s.goto w phase).workers.get w' = if w' = w then phase else s.workers.get w' := Table.get_set ..

theorem JobsAll.goto (all : JobsAll P s) (fine : PhaseAll P phase) : JobsAll P (s.goto w phase) where
  files := all.files
  phases w' := by
    rw [workers_goto]
    split
    · exact fine
    · exact all.phases w'

theorem JobsAll.write (all : JobsAll P s) (is : P job) : JobsAll P (s.writeJobAtomic cfg d job) :=
  ⟨FilesAll.write all.files is,all.phases⟩

theorem JobsAll.remove (all : JobsAll P s) : JobsAll P (s.put d name none) := ⟨FilesAll.remove all.files,all.phases⟩

theorem JobsAll.claimFile (all : JobsAll P s) (found : s.file .pending name = some f) : JobsAll P (s.claimFile name f) :=
  ⟨FilesAll.claimFile all.files (all.files .pending name f found),all.phases⟩

theorem workers_moveBack : (s.moveBack name).workers = s.workers := by
  rw [QueueState.moveBack]
  split <;> rfl

theorem JobsAll.moveBack (all : JobsAll P s) : JobsAll P (s.moveBack name) :=
  ⟨FilesAll.moveBack all.files fun _ _ is => is,fun w => workers_moveBack (s := s) ▸ all.phases w⟩

theorem PhaseAll.candidate (all : PhaseAll P phase) : ∀ c ∈ phase.candidates, P c.job := by
  cases phase with
  | scanning now names candidates => exact all
  | dropping now name names candidates => exact all
  | claiming candidates => exact all
  | _ => exact List.forall_mem_nil _

theorem PhaseAll.free (free : phase.free = true) (all : ∀ c ∈ phase.candidates, P c.job) : PhaseAll P phase := by
  cases phase with
  | idle => trivial
  | holding => cases free
  | finishing => trivial
  | _ => exact all

theorem JobsAll.step (readBack : ∀ job, P job → P job.readBack) (visible : ∀ job, P job → P job.visible) (all : JobsAll P s)
    (new : ∀ job, s.written e = some job → P job) (does : s.step cfg e = some t) : JobsAll P t := by
  cases step_cases does with
  | enqueue job =>
    have wrote : JobsAll P (s.writeJobAtomic cfg .pending job) := all.write (new job rfl)
    exact ⟨wrote.files,wrote.phases⟩
  | @goes _ w _ _ free copies =>
    refine all.goto (PhaseAll.free free fun c mem => ?_)
    rcases copies c mem with before | ⟨name,f,found,same⟩
    · exact (all.phases w).candidate c before
    · rw [same]
      exact visible _ (readBack _ (all.files .pending name f found))
  | @drops w _ _ _ _ is =>
    have before := all.phases w
    rw [is] at before
    exact all.remove.goto before
  | @claims w item _ _ is found =>
    have before := (all.phases w).candidate item (is ▸ List.mem_cons_self)
    exact (all.claimFile found).goto before
  | writes _ _ is => exact (all.write (new _ is)).goto trivial
  | removes => exact all.remove.goto trivial

theorem step_worker (does : s.step cfg e = some t) (other : e.worker ≠ some w) : t.workers.get w = s.workers.get w := by
  have away : ∀ {w' phase} {u : QueueState}, u.workers = s.workers → e.worker = some w' → (u.goto w' phase).workers.get w = s.workers.get w := by
    intro w' phase u same own
    rw [workers_goto,if_neg fun is => other (own.trans (congrArg some is.symm)),same]
  cases step_cases does with
  | enqueue job => rfl
  | goes own | writes own => exact away rfl own
  | drops | claims | removes => exact away rfl rfl

theorem step_gone (does : s.step cfg e = some t) (own : e.worker = some w) (other : e ≠ .rename w) (job : QueueJob) (claim : Nat) :
    t.workers.get w ≠ .holding job claim := by
  have away : ∀ {w' phase} {u : QueueState}, e.worker = some w' → phase ≠ .holding job claim → (u.goto w' phase).workers.get w ≠ .holding job claim := by
    intro w' phase u is differ
    rw [workers_goto,if_pos (some.inj (own.symm.trans is))]
    exact differ
  cases step_cases does with
  | enqueue => cases own
  | goes is free =>
    refine away is ?_
    rintro rfl
    cases free
  | drops | removes => exact away rfl nofun
  | claims => exact absurd (congrArg _ (some.inj own)) other
  | writes is => exact away is nofun
end

def Counted (invoked : Table Bytes Nat 0) (job : QueueJob) : Prop := jsonText job.id = job.id ∧ job.attempts ≤ (invoked.get job.id : Int)

def WorkerStage.called : WorkerStage → Bool
  | .running _ | .retrying _ _ | .completing _ => true
  | _ => false

structure Spent (s : DurableQueue) : Prop where
  jobs : JobsAll (Counted s.invoked) s.store
  worked : ∀ w job claim, s.store.workers.get w = .holding job claim → (s.stages.get w).called = true → job.attempts + 1 ≤ (s.invoked.get job.id : Int)

section
variable {cfg : DurableQueueConfig} {s t : DurableQueue} {w : Nat} {stage : WorkerStage} {invoked : Table Bytes Nat 0} {job : QueueJob}

theorem Counted.readBack (counted : Counted invoked job) : Counted invoked job.readBack := by
  obtain ⟨text,attempts⟩ := counted
  have same : job.readBack.id = job.id := text
  refine ⟨?_,?_⟩
  · rw [same]
    exact text
  · rw [same]
    exact attempts

theorem Counted.visible (counted : Counted invoked job) : Counted invoked job.visible := by
  rw [QueueJob.visible]
  split <;> exact counted

theorem stages_goto : (s.goto w stage).stages.get w' = if w' = w then stage else s.stages.get w' := Table.get_set ..

theorem Spent.goto (spent : Spent s) (before : ∀ job claim, s.store.workers.get w = .holding job claim → stage.called = true →
    job.attempts + 1 ≤ (s.invoked.get job.id : Int)) : Spent (s.goto w stage) where
  jobs := spent.jobs
  worked w' job claim held called := by
    rw [stages_goto] at called
    split at called
    · rename_i here
      exact before job claim (here ▸ held) called
    · exact spent.worked w' job claim held called

theorem Spent.leave (spent : Spent s) (idle : stage.called = false) : Spent (s.goto w stage) := spent.goto fun _ _ _ called => by
  rw [idle] at called
  cases called

theorem Spent.store {store : QueueState} (spent : Spent s) (new : ∀ job, s.store.written e = some job → Counted s.invoked job)
    (does : s.store.step cfg.queue e = some store)
    (own : ∀ w, e.worker = some w → (s.stages.get w).called = false ∨ ∀ job claim, store.workers.get w ≠ .holding job claim) :
    Spent {s with store := store} where
  jobs := spent.jobs.step (fun _ counted => counted.readBack) (fun _ counted => counted.visible) new does
  worked w job claim held called := by
    by_cases here : e.worker = some w
    · rcases own w here with before | gone
      · cases before.symm.trans called
      · exact absurd held (gone job claim)
    · rw [step_worker does here] at held
      exact spent.worked w job claim held called

theorem Spent.claims {e : QueueEvent} (spent : Spent s) (own : e.worker = some w) (copies : s.store.written e = none)
    (does : s.claims cfg w e = some t) : Spent t := by
  rw [DurableQueue.claims] at does
  split at does
  · rename_i stage
    obtain ⟨store,step,rfl⟩ := map_eq_some_iff.mp does
    refine spent.store (fun job is => nomatch copies.symm.trans is) step fun w' is => .inl ?_
    cases own.symm.trans is
    rw [stage]
    rfl
  · cases does

-- A call that ends the worker's job: it does not hold one afterwards.
theorem Spent.ends {e : QueueEvent} {store : QueueState} (spent : Spent s) (does : s.store.step cfg.queue e = some store)
    (own : e.worker = some w) (other : e ≠ .rename w) (new : ∀ job, s.store.written e = some job → Counted s.invoked job) :
    Spent {s with store := store} := by
  refine spent.store new does fun w' is => .inr ?_
  cases own.symm.trans is
  exact step_gone does own other

theorem Spent.held (spent : Spent s) (held : s.store.workers.get w = .holding job claim) : Counted s.invoked job := by
  have fine := spent.jobs.phases w
  rw [held] at fine
  exact fine

theorem Spent.enqueue (spent : Spent s) (meets : unrefused cfg s (.enqueue job) = true) (does : s.step cfg (.enqueue job) = some t) : Spent t := by
  rw [DurableQueue.step] at does
  obtain ⟨store,step,rfl⟩ := map_eq_some_iff.mp does
  refine spent.store (fun job' is => ?_) step (by simp [QueueEvent.worker])
  cases is
  obtain ⟨⟨attempts,text⟩,-⟩ := (Bool.and_eq_true_iff.mp meets).imp_left Bool.and_eq_true_iff.mp
  exact ⟨of_decide_eq_true text,(of_decide_eq_true attempts).trans (Int.natCast_nonneg _)⟩

theorem Spent.checkKey (spent : Spent s) (meets : unrefused cfg s (.checkKey w) = true) (does : s.step cfg (.checkKey w) = some t) : Spent t := by
  rw [DurableQueue.step] at does
  split at does
  · rename_i held
    simp only [unrefused,held] at meets
    split at does
    · rename_i limited
      split at does
      · rename_i busy
        simp [(Bool.and_eq_true_iff.mp limited).1,busy] at meets
      · cases does
        exact Spent.leave ⟨spent.jobs,spent.worked⟩ rfl
    · cases does
      exact spent.leave rfl
  · cases does

theorem Spent.findHandler (spent : Spent s) (meets : unrefused cfg s (.findHandler w) = true) (does : s.step cfg (.findHandler w) = some t) : Spent t := by
  rw [DurableQueue.step] at does
  split at does
  · rename_i held
    simp only [unrefused,held,decide_eq_true_eq] at meets
    rw [if_pos meets] at does
    cases does
    exact spent.leave rfl
  · cases does

theorem Spent.invoke (spent : Spent s) (does : s.step cfg (.invoke w) = some t) : Spent t := by
  rw [DurableQueue.step] at does
  split at does
  · rename_i key job claim _ held
    cases does
    have more : ∀ id, s.invoked.get id ≤ (s.invoked.update job.id (· + 1)).get id := by
      intro id
      rw [Table.get_update]
      split
      · rename_i here
        rw [here]
        exact Nat.le_succ _
      · exact Nat.le_refl _
    refine Spent.goto ⟨spent.jobs.mono fun other is => ⟨is.1,is.2.trans (Int.ofNat_le.mpr (more other.id))⟩,?_⟩ ?_
    · intro w' other claim' held' called
      exact (spent.worked w' other claim' held' called).trans (Int.ofNat_le.mpr (more other.id))
    intro other claim' held' _
    cases held.symm.trans held'
    rw [Table.get_update_self]
    have := (spent.held held).2
    lia
  · cases does

theorem Spent.returns (spent : Spent s) (does : s.step cfg (.returns w error) = some t) : Spent t := by
  cases stage : s.stages.get w with
  | running key =>
    have before : ∀ job claim, s.store.workers.get w = .holding job claim → job.attempts + 1 ≤ (s.invoked.get job.id : Int) :=
      fun job claim held => spent.worked w job claim held (by rw [stage]; rfl)
    cases error with
    | none | some cause =>
      simp only [DurableQueue.step,stage,some.injEq] at does
      exact does ▸ spent.goto fun job claim held _ => before job claim held
  | _ => simp [DurableQueue.step,stage] at does

theorem Spent.retry (spent : Spent s) (does : s.step cfg (.retry w now) = some t) : Spent t := by
  rw [DurableQueue.step] at does
  split at does
  · rename_i key cause stage
    obtain ⟨store,step,rfl⟩ := map_eq_some_iff.mp does
    refine Spent.leave (spent.ends step rfl nofun fun job is => ?_) rfl
    rw [written] at is
    split at is
    · rename_i claimed claim held
      have more := spent.worked w claimed claim held (by rw [stage]; rfl)
      cases is
      split
      · exact ⟨(spent.held held).1,more⟩
      · exact ⟨(spent.held held).1,more⟩
    · cases is
  · cases does

theorem Spent.complete (spent : Spent s) (does : s.step cfg (.complete w) = some t) : Spent t := by
  rw [DurableQueue.step] at does
  split at does
  · obtain ⟨store,step,rfl⟩ := map_eq_some_iff.mp does
    refine Spent.leave (spent.ends step rfl nofun fun job is => ?_) rfl
    rw [written] at is
    split at is
    · rename_i held
      have counted := spent.held held
      cases is
      exact counted
    · cases is
  · cases does

theorem Spent.stop (spent : Spent s) (does : s.step cfg (.stop w) = some t) : Spent t := by
  rw [DurableQueue.step] at does
  obtain ⟨store,step,rfl⟩ := map_eq_some_iff.mp does
  have after : Spent {s with store := store} := spent.ends step rfl nofun fun job is => by cases is
  exact Spent.leave ⟨after.jobs,after.worked⟩ rfl

theorem Spent.requeue {id : Bytes} (spent : Spent s) (does : s.step cfg (.requeue id now) = some t) : Spent t := by
  rw [DurableQueue.step] at does
  split at does
  · cases does
  rename_i job read
  cases does
  obtain ⟨f,found,rfl⟩ := read_file read
  exact ⟨spent.jobs.write (spent.jobs.files .failed id f found).readBack,spent.worked⟩

theorem Spent.step {e : WorkerEvent} (spent : Spent s) (meets : unrefused cfg s e = true) (does : s.step cfg e = some t) : Spent t := by
  cases e with
  | register type =>
    cases does
    exact ⟨spent.jobs,spent.worked⟩
  | enqueue job => exact spent.enqueue meets does
  | list w now | read w | drop w | sort w order | rename w => exact spent.claims rfl rfl does
  | checkKey w => exact spent.checkKey meets does
  | findHandler w => exact spent.findHandler meets does
  | invoke w => exact spent.invoke does
  | returns w error => exact spent.returns does
  | retry w now => exact spent.retry does
  | complete w => exact spent.complete does
  | remove w =>
    obtain ⟨store,step,rfl⟩ := map_eq_some_iff.mp does
    exact spent.ends step rfl nofun fun job is => by cases is
  | release w =>
    rw [DurableQueue.step] at does
    split at does
    · cases does
      exact Spent.leave ⟨spent.jobs,spent.worked⟩ rfl
    · cases does
  | stop w => exact spent.stop does
  | recover name =>
    cases does
    refine ⟨spent.jobs.moveBack,fun w job claim held called => spent.worked w job claim ?_ called⟩
    rw [← workers_moveBack]
    exact held
  | requeue id now => exact spent.requeue does
  | removeFailed id =>
    cases does
    exact ⟨spent.jobs.remove,spent.worked⟩

theorem spent_start : Spent {} where
  jobs := ⟨by simp [QueueState.file],fun _ => trivial⟩
  worked := by simp

theorem dead_letters_spent (run : Reached (DurableQueue.step cfg) (fun s e => unrefused cfg s e = true) {} s) :
    ∀ e job, s.deadLetters e = some job → job.maxAttempts ≤ (s.invoked.get job.id : Int) := by
  have spent : Spent s := run.keeps Spent spent_start Spent.step
  intro e job dead
  unfold DurableQueue.deadLetters at dead
  split at dead
  · rename_i w now
    split at dead
    · rename_i key cause claimed claim stage held
      split at dead
      · rename_i failed
        cases dead
        have more := spent.worked w claimed claim held (by rw [stage]; rfl)
        have limit : (claimed.again (some cause)).attempts ≥ (claimed.again (some cause)).maxAttempts := by
          rw [QueueJob.retryDir] at failed
          by_contra left
          rw [if_neg left] at failed
          cases failed
        exact limit.trans more
      · cases dead
    · cases dead
  · cases dead
end

def limited : DurableQueueConfig := {concurrencyLimitByKey := true}

def keyedJob (id : String) (maxAttempts : Int) : QueueJob := {id := ascii id, type := ascii "mail", concurrencyKey := ascii "k", maxAttempts := maxAttempts}

def picks (w : Nat) (order : List QueueJob) : List WorkerEvent :=
  [.list w 0] ++ order.map (fun _ => .read w) ++ [.sort w (order.map fun job => ⟨job.id,job⟩),.rename w,.checkKey w]

def dead (s : DurableQueue) (w : Nat) (check : QueueJob → Bool) : Bool := (s.deadLetters (.retry w 0)).any check

theorem spent_job_failed : ∃ s, Reached (DurableQueue.step limited) (fun s e => unrefused limited s e = true) {} s ∧
    ∃ job, s.deadLetters (.retry 1 0) = some job ∧ job.maxAttempts = 1 ∧ job.maxAttempts ≤ (s.invoked.get job.id : Int) := by
  obtain ⟨s,run,fails⟩ := play_reaches (DurableQueue.step limited) (fun s e => unrefused limited s e = true) {}
    (fun s => dead s 1 (fun job => decide (job.maxAttempts = 1)) = true)
    ([.register (ascii "mail"),.enqueue (keyedJob "a" 1)] ++ picks 1 [keyedJob "a" 1] ++ [.findHandler 1,.invoke 1,.returns 1 (some (ascii "down"))])
    (by decide)
  obtain ⟨job,dead,limit⟩ := (any_eq_true ..).mp fails
  exact ⟨s,run,job,dead,of_decide_eq_true limit,dead_letters_spent run _ job dead⟩

-- While one worker runs a job, another claims a second job with the same key: the job is moved to failed, and its handler
-- was never called.
theorem busy_key_failed : ∃ s, Reached (DurableQueue.step limited) (fun _ _ => True) {} s ∧
    ∃ job, s.deadLetters (.retry 2 0) = some job ∧ job.maxAttempts = 1 ∧ job.type ∈ s.handlers ∧ s.invoked.get job.id = 0 ∧
      ∃ t, s.step limited (.retry 2 0) = some t ∧ (t.store.file .failed job.id).isSome = true := by
  let fails (s : DurableQueue) (job : QueueJob) : Bool := decide (job.maxAttempts = 1) && decide (job.type ∈ s.handlers) &&
    decide (s.invoked.get job.id = 0) && (s.step limited (.retry 2 0)).any fun t => (t.store.file .failed job.id).isSome
  obtain ⟨s,run,lost⟩ := play_reaches (DurableQueue.step limited) (fun _ _ => True) {} (fun s => dead s 2 (fails s) = true)
    ([.register (ascii "mail"),.enqueue (keyedJob "a" 3),.enqueue (keyedJob "b" 1)] ++ picks 1 [keyedJob "a" 3,keyedJob "b" 1] ++
      [.findHandler 1,.invoke 1] ++ picks 2 [keyedJob "b" 1]) (by decide)
  obtain ⟨job,dead,facts⟩ := (any_eq_true ..).mp lost
  simp only [fails,Bool.and_eq_true,decide_eq_true_eq] at facts
  obtain ⟨t,does,failed⟩ := (any_eq_true ..).mp facts.2
  exact ⟨s,run,job,dead,facts.1.1.1,facts.1.1.2,facts.1.2,t,does,failed⟩
end FhServer

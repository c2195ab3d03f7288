import FhServer.FileQueueJobs

namespace FhServer
open GoText Transitions QueueState List Function Option

-- The calls of a FileQueueStorage when nothing runs beside them, each from its first file operation to its last.

namespace QueueState
variable (cfg : QueueConfig)

def scanPending (now : Int) : List Bytes → QueueState → QueueState × List Cand
  | [],s => (s,[])
  | name :: names,s =>
    match readJob cfg (s.file .pending name) with
    | none => scanPending now names (s.put .pending name none)
    | some job =>
      let (t,candidates) := scanPending now names s
      if job.visible.visibleAt > now then (t,candidates) else (t,⟨name,job.visible⟩ :: candidates)

def claimFirst : List Cand → QueueState → QueueState
  | [],s => s
  | item :: candidates,s =>
    match s.file .pending item.name with
    | none => claimFirst candidates s
    | some file => s.claimFile item.name file

def finishJob (s : QueueState) (d : QueueDir) (job : QueueJob) : QueueState := (s.writeJobAtomic cfg d job).put .processing job.id none

def moveBack (s : QueueState) (name : Bytes) : QueueState :=
  match s.file .processing name with
  | none => s
  | some file => (s.put .processing name none).put .pending name (some file)
end QueueState

def queueIdByte (c : UInt8) : Bool := (97 ≤ c && c ≤ 122) || (65 ≤ c && c ≤ 90) || (48 ≤ c && c ≤ 57) || c == 95 || c == 45

def validQueueJobID (id : Bytes) : Bool := !id.isEmpty && decide (id.length ≤ 128) && id.all queueIdByte

def QueueJob.retryDir (job : QueueJob) (cause : Option Bytes) : QueueDir :=
  if (job.again cause).attempts ≥ (job.again cause).maxAttempts then .failed else .pending

-- The ids and payloads of the jobs enqueued and not discarded are kept for the specification.
structure FileQueueStorage where
  disk : QueueState := {}
  jobs : List (Bytes × Bytes) := []

inductive QueueCall where
  | enqueue (job : QueueJob)
  | claim (now : Int) (order : List Cand)
  | complete (job : QueueJob)
  | retry (job : QueueJob) (cause : Option Bytes) (backoff now : Int)
  | fail (job : QueueJob) (cause : Option Bytes)
  | recover
  | requeueFailed (id : Bytes) (now : Int)
  | discardFailed (id : Bytes)

namespace FileQueueStorage

def call (cfg : QueueConfig) (s : FileQueueStorage) : QueueCall → Option FileQueueStorage
  | .enqueue job => some ⟨s.disk.writeJobAtomic cfg .pending job,(job.id,job.payload) :: s.jobs⟩
  | .claim now order =>
    let (disk,candidates) := s.disk.scanPending cfg now (s.disk.readDir .pending)
    -- sort.Slice leaves the order of equal candidates open
    if order.isPerm candidates ∧ order.Pairwise (fun a b => b.before a = false) then some {s with disk := disk.claimFirst order} else none
  | .complete job => some {s with disk := s.disk.finishJob cfg .done {job with lastError := []}}
  | .retry job cause backoff now =>
    let job' := job.again cause
    if job'.attempts ≥ job'.maxAttempts then some {s with disk := s.disk.finishJob cfg .failed (job'.caused cause)}
    else some {s with disk := s.disk.finishJob cfg .pending {job' with visibleAt := now+backoff*job'.attempts}}
  | .fail job cause => some {s with disk := s.disk.finishJob cfg .failed (job.caused cause)}
  | .recover => some {s with disk := (s.disk.readDir .processing).foldl moveBack s.disk}
  | .requeueFailed id now =>
    if validQueueJobID id then
      match readJob cfg (s.disk.file .failed id) with
      | none => some s
      | some job => some {s with disk := (s.disk.writeJobAtomic cfg .pending {job with visibleAt := now}).put .failed id none}
    else some s
  | .discardFailed id =>
    if validQueueJobID id && (s.disk.file .failed id).isSome then
      some ⟨s.disk.put .failed id none,s.jobs.filter fun job => job.1 ≠ id⟩
    else some s

def spot (s : QueueState) (id : Bytes) (d : QueueDir) : Option Bytes := (s.file d id).map fun f => f.job.payload

def only (d : QueueDir) (payload : Bytes) (d' : QueueDir) : Option Bytes := if d' = d then some payload else none

structure Conserved (s : FileQueueStorage) : Prop where
  own : (s.jobs.map Prod.fst).Nodup
  placed : ∀ job ∈ s.jobs, ∃ d, spot s.disk job.1 = only d job.2

def finishes (s : FileQueueStorage) (job : QueueJob) (d : QueueDir) : Prop :=
  ∀ other ∈ s.jobs, other.1 = job.id → job.payload = other.2 ∧ ∀ d', d' ≠ d → d' ≠ .processing → s.disk.file d' job.id = none

def plainCall : QueueCall → Bool
  | .enqueue job | .complete job | .retry job _ _ _ | .fail job _ => plainName job.id
  | _ => true

def keepsCall (cfg : QueueConfig) (s : FileQueueStorage) : QueueCall → Prop
  | .enqueue job => (∀ other ∈ s.jobs, other.1 ≠ job.id) ∧ ∀ d, d ≠ .pending → s.disk.file d job.id = none
  | .claim _ _ => ∀ job ∈ s.jobs, (s.disk.file .pending job.1).all (fun f => decide (cfg.fileSize f.job ≤ maxJobFileSize)) = true
  | .complete job => s.finishes job .done
  | .retry job cause _ _ => s.finishes job (job.retryDir cause)
  | .fail job _ => s.finishes job .failed
  | _ => True

instance {P : QueueDir → Prop} [DecidablePred P] : Decidable (∀ d, P d) :=
  decidable_of_iff (P .pending ∧ P .processing ∧ P .done ∧ P .failed)
    ⟨fun ⟨pending,processing,done,failed⟩ d => by cases d <;> assumption,fun each => ⟨each _,each _,each _,each _⟩⟩

instance (s : FileQueueStorage) (job : QueueJob) (d : QueueDir) : Decidable (s.finishes job d) := by
  unfold finishes
  infer_instance

instance (cfg : QueueConfig) (s : FileQueueStorage) (c : QueueCall) : Decidable (keepsCall cfg s c) := by
  unfold keepsCall
  split <;> infer_instance
end FileQueueStorage
open FileQueueStorage
section
variable {cfg : QueueConfig} {s : QueueState} {d d' : QueueDir} {id name : Bytes} {now : Int}

theorem scanPending_file (names : List Bytes) : (s.scanPending cfg now names).1.file d id =
    if d = .pending ∧ id ∈ names ∧ readJob cfg (s.file .pending id) = none then none else s.file d id := by
  induction names generalizing s with
  | nil =>
    rw [if_neg fun all => nomatch all.2.1]
    rfl
  | cons name names ih =>
    rw [scanPending]
    cases read : readJob cfg (s.file .pending name) with
    | none =>
      rw [ih]
      by_cases here : id = name
      · subst here
        by_cases pending : d = .pending
        · subst pending
          have gone : (s.put .pending id none).file .pending id = none := file_put.trans (if_pos ⟨rfl,rfl⟩)
          rw [gone,ite_self,if_pos ⟨rfl,mem_cons_self,read⟩]
        · rw [if_neg fun all => pending all.1,if_neg fun all => pending all.1,file_put,if_neg fun both => pending both.1]
      · have same : ∀ d, (s.put .pending name none).file d id = s.file d id := fun d => file_put.trans (if_neg fun both => here both.2)
        simp [same,here]
    | some job =>
      have step : ∀ {found : QueueState × List Cand},
          (if job.visible.visibleAt > now then (found.1,found.2) else (found.1,⟨name,job.visible⟩ :: found.2)).1 = found.1 := by
        intro found
        split <;> rfl
      rw [step,ih]
      by_cases here : id = name
      · subst here
        simp [read]
      · simp [here]

theorem claimFirst_cases (candidates : List Cand) : s.claimFirst candidates = s ∨
    ∃ name f, s.file .pending name = some f ∧ s.claimFirst candidates = s.claimFile name f := by
  induction candidates with
  | nil => exact .inl rfl
  | cons item candidates ih =>
    rw [claimFirst]
    cases found : s.file .pending item.name with
    | none => exact ih
    | some f => exact .inr ⟨item.name,f,found,rfl⟩

theorem moveBack_file : (s.moveBack name).file d id =
    if id = name ∧ (s.file .processing id).isSome = true then
      if d = .pending then s.file .processing id else if d = .processing then none else s.file d id
    else s.file d id := by
  rw [moveBack]
  cases found : s.file .processing name with
  | none =>
    rw [if_neg]
    rintro ⟨rfl,there⟩
    rw [found] at there
    cases there
  | some f =>
    rw [file_put,file_put]
    by_cases here : id = name
    · subst here
      simp [found]
    · simp [here]

theorem recover_file (names : List Bytes) : (names.foldl moveBack s).file d id =
    if id ∈ names ∧ (s.file .processing id).isSome = true then
      if d = .pending then s.file .processing id else if d = .processing then none else s.file d id
    else s.file d id := by
  induction names generalizing s with
  | nil =>
    rfl
  | cons name names ih =>
    rw [foldl_cons,ih]
    by_cases here : id = name
    · subst here
      simp only [moveBack_file,true_and,mem_cons_self]
      cases found : s.file .processing id with
      | none => simp
      | some f => simp
    · simp only [moveBack_file,here,false_and,if_false,mem_cons,false_or]

theorem FilesAll.moveBack (all : FilesAll P s) (moves : ∀ name f, P .processing name f → P .pending name f) :
    FilesAll P (s.moveBack name) := by
  intro d id f found
  rw [moveBack_file] at found
  split_ifs at found with _ pending
  · exact pending ▸ moves id f (all .processing id f found)
  · exact all d id f found
  · exact all d id f found

theorem mem_readDir : name ∈ s.readDir d ↔ (s.file d name).isSome = true := by
  rw [readDir,mem_insertionSort,mem_filter]
  refine ⟨fun both => both.2,fun there => ⟨?_,there⟩⟩
  by_contra outside
  have none := (s.files d).outside name outside
  rw [QueueState.file,none] at there
  cases there
end
section
variable {cfg : QueueConfig} {s : QueueState} {d : QueueDir} {id name payload : Bytes} {job : QueueJob}

theorem spot_none : spot s id d = none ↔ s.file d id = none := map_eq_none_iff

theorem only_self : only d payload d = some payload := if_pos rfl

theorem only_other (other : d' ≠ d) : only d payload d' = none := if_neg other

theorem spot_put {file : Option QueueFile} :
    spot (s.put d name file) id = if id = name then update (spot s id) d (file.map (·.job.payload)) else spot s id := by
  funext d'
  rw [spot,file_put]
  by_cases here : id = name
  · subst here
    rw [if_pos rfl,update_apply]
    by_cases there : d' = d
    · rw [if_pos ⟨there,rfl⟩,if_pos there]
    · rw [if_neg fun both => there both.1,if_neg there]
      rfl
  · rw [if_neg fun both => here both.2,if_neg here]
    rfl

theorem spot_write : spot (s.writeJobAtomic cfg d job) id = if id = job.id then update (spot s id) d (some job.payload) else spot s id := spot_put

theorem spot_remove : spot (s.put d name none) id = if id = name then update (spot s id) d none else spot s id := spot_put

theorem spot_finish : spot (s.finishJob cfg d job) id =
    if id = job.id then update (update (spot s id) d (some job.payload)) .processing none else spot s id := by
  rw [finishJob,spot_remove,spot_write]
  split <;> rfl

theorem finished_iff (elsewhere : d ≠ .processing) :
    (∃ d', update (update at_ d (some data)) .processing none = only d' payload) ↔
      data = payload ∧ ∀ d', d' ≠ d → d' ≠ .processing → at_ d' = none := by
  constructor
  · rintro ⟨d',same⟩
    have here := congrFun same d
    rw [update_of_ne elsewhere,update_self] at here
    have is : d = d' := by
      by_contra other
      rw [only_other other] at here
      cases here
    subst is
    rw [only_self,some.injEq] at here
    refine ⟨here,fun d' other moved => ?_⟩
    have there := congrFun same d'
    rwa [update_of_ne moved,update_of_ne other,only_other other] at there
  · rintro ⟨rfl,rest⟩
    refine ⟨d,funext fun d' => ?_⟩
    by_cases here : d' = d
    · subst here
      rw [update_of_ne elsewhere,update_self,only_self]
    rw [only_other here]
    by_cases moved : d' = .processing
    · rw [moved,update_self]
    · rw [update_of_ne moved,update_of_ne here,rest d' here moved]

theorem spot_claim (found : s.file .pending name = some f) : spot (s.claimFile name f) id =
    if id = name then update (update (spot s id) .pending none) .processing (spot s id .pending) else spot s id := by
  funext d'
  rw [spot,file_claim]
  by_cases here : id = name
  · subst here
    simp only [and_true,if_true,update_apply]
    cases d' with
    | pending => rfl
    | processing =>
      rw [spot,found]
      rfl
    | done => rfl
    | failed => rfl
  · simp only [here,and_false,if_false]
    rfl

theorem only_update : update (update (only d payload) d none) d' (some payload) = only d' payload := by
  funext e
  by_cases here : e = d'
  · rw [here,update_self,only_self]
  rw [update_of_ne here,only_other here]
  by_cases before : e = d
  · rw [before,update_self]
  · rw [update_of_ne before,only_other before]

theorem only_spot (placed : spot s id = only d payload) (found : s.file d' id = some f) :
    d' = d ∧ f.job.payload = payload := by
  have here := congrFun placed d'
  rw [spot,found,map_some] at here
  by_cases same : d' = d
  · rw [same,only_self,some.injEq] at here
    exact ⟨same,here⟩
  · rw [only_other same] at here
    cases here

theorem scan_small (small : ∀ f, s.file .pending id = some f → cfg.fileSize f.job ≤ maxJobFileSize) :
    spot (s.scanPending cfg now (s.readDir .pending)).1 id = spot s id := by
  funext d
  rw [spot,scanPending_file]
  split
  · rename_i unread
    obtain ⟨rfl,listed,none⟩ := unread
    obtain ⟨f,found⟩ := isSome_iff_exists.mp (mem_readDir.mp listed)
    rw [found,readJob,if_neg (Nat.not_lt.mpr (small f found))] at none
    cases none
  · rfl

theorem scan_big (found : s.file .pending id = some f) (big : maxJobFileSize < cfg.fileSize f.job) :
    spot (s.scanPending cfg now (s.readDir .pending)).1 id = update (spot s id) .pending none := by
  have listed : id ∈ s.readDir .pending := mem_readDir.mpr (found ▸ rfl)
  have unread : readJob cfg (s.file .pending id) = none := by rw [found,readJob,if_pos big]
  funext d
  rw [spot,scanPending_file,update_apply]
  by_cases pending : d = .pending
  · rw [if_pos ⟨pending,listed,unread⟩,if_pos pending]
    rfl
  · rw [if_neg fun all => pending all.1,if_neg pending]
    rfl

theorem claimFirst_spot (placed : spot s id = only d payload) : ∃ d', spot (s.claimFirst candidates) id = only d' payload := by
  rcases claimFirst_cases (s := s) candidates with same | ⟨name,f,found,moved⟩
  · rw [same]
    exact ⟨d,placed⟩
  rw [moved,spot_claim found]
  split
  · rename_i here
    subst here
    obtain ⟨rfl,-⟩ := only_spot placed found
    rw [placed,only_self,only_update]
    exact ⟨.processing,rfl⟩
  · exact ⟨d,placed⟩

theorem claimFirst_none (none : spot s id = fun _ => none) : spot (s.claimFirst candidates) id = fun _ => Option.none := by
  rcases claimFirst_cases (s := s) candidates with same | ⟨name,f,found,moved⟩
  · rw [same]
    exact none
  rw [moved,spot_claim found,if_neg]
  · exact none
  rintro rfl
  have here := spot_none.mp (congrFun none .pending)
  rw [found] at here
  cases here
end

def Named (s : QueueState) : Prop := ∀ d name f, s.file d name = some f → f.job.id = name

section
variable {cfg : QueueConfig} {s t : QueueState} {d : QueueDir} {name : Bytes}

theorem Named.write (named : Named s) : Named (s.writeJobAtomic cfg d job) := FilesAll.write named rfl

theorem Named.remove (named : Named s) : Named (s.put d name none) := FilesAll.remove named

theorem Named.scan (named : Named s) : Named (s.scanPending cfg now names).1 := by
  intro d name f found
  rw [scanPending_file] at found
  split at found
  · cases found
  · exact named d name f found

theorem Named.claim (named : Named s) : Named (s.claimFirst candidates) := by
  rcases claimFirst_cases (s := s) candidates with same | ⟨name,f,found,moved⟩
  · rw [same]
    exact named
  · rw [moved]
    exact FilesAll.claimFile named (named .pending name f found)

theorem Named.recover {names : List Bytes} (named : Named s) : Named (names.foldl moveBack s) := by
  induction names generalizing s with
  | nil => exact named
  | cons name names ih => exact ih (FilesAll.moveBack named fun _ _ is => is)
end

theorem queueId_ascii : ∀ c, queueIdByte c = true → c < 0x80 := GoBytes.eachByte (by decide +kernel)

section
open FileQueueStorage
variable {cfg : QueueConfig} {s t : FileQueueStorage} {job : QueueJob} {id : Bytes} {d : QueueDir}

theorem conserved_disk {disk : QueueState} (conserved : Conserved s) :
    Conserved {s with disk := disk} ↔ ∀ job ∈ s.jobs, ∃ d, spot disk job.1 = only d job.2 :=
  ⟨fun after => after.placed,fun placed => ⟨conserved.own,placed⟩⟩

section
variable (conserved : Conserved s)
include conserved

theorem enqueue_iff : Conserved ⟨s.disk.writeJobAtomic cfg .pending job,(job.id,job.payload) :: s.jobs⟩ ↔
    keepsCall cfg s (.enqueue job) := by
  constructor
  · intro after
    have own := (nodup_cons.mp after.own).1
    have fresh : ∀ other ∈ s.jobs, other.1 ≠ job.id := fun other mem same => own (mem_map.mpr ⟨other,mem,same⟩)
    obtain ⟨d,placed⟩ := after.placed _ mem_cons_self
    rw [spot_write,if_pos rfl] at placed
    have here := congrFun placed .pending
    have is : QueueDir.pending = d := by
      by_contra other
      rw [only_other other] at here
      cases here
    subst is
    refine ⟨fresh,fun d other => ?_⟩
    have there := congrFun placed d
    rw [update_of_ne other,only_other other] at there
    exact spot_none.mp there
  · rintro ⟨fresh,alone⟩
    refine ⟨nodup_cons.mpr ⟨?_,conserved.own⟩,forall_mem_cons.mpr ⟨⟨.pending,?_⟩,?_⟩⟩
    · intro inside
      obtain ⟨other,mem,same⟩ := mem_map.mp inside
      exact fresh other mem same
    · rw [spot_write,if_pos rfl]
      funext d
      by_cases here : d = .pending
      · rw [here,update_self,only_self]
      · rw [update_of_ne here,only_other here]
        exact spot_none.mpr (alone d here)
    · intro other mem
      rw [spot_write,if_neg (fresh other mem)]
      exact conserved.placed other mem

theorem finish_iff (elsewhere : d ≠ .processing) : Conserved {s with disk := s.disk.finishJob cfg d job} ↔ s.finishes job d := by
  rw [conserved_disk conserved]
  constructor
  · intro placed other mem same
    have after := placed other mem
    rw [spot_finish,if_pos same,finished_iff elsewhere] at after
    exact ⟨after.1,fun d' away moved => spot_none.mp (same ▸ after.2 d' away moved)⟩
  · intro finishes other mem
    rw [spot_finish]
    split
    · rename_i same
      obtain ⟨payload,rest⟩ := finishes other mem same
      refine (finished_iff elsewhere).mpr ⟨payload,fun d' away moved => ?_⟩
      rw [same]
      exact spot_none.mpr (rest d' away moved)
    · exact conserved.placed other mem

theorem claim_iff :
    Conserved {s with disk := (s.disk.scanPending cfg now (s.disk.readDir .pending)).1.claimFirst order} ↔ keepsCall cfg s (.claim now order) := by
  rw [conserved_disk conserved]
  constructor
  · intro after job mem
    refine Option.all_eq_true _ _ |>.mpr fun f found => decide_eq_true ?_
    by_contra big
    obtain ⟨d,placed⟩ := conserved.placed job mem
    obtain ⟨rfl,-⟩ := only_spot placed found
    have gone : spot (s.disk.scanPending cfg now (s.disk.readDir .pending)).1 job.1 = fun _ => none := by
      rw [scan_big found (Nat.not_le.mp big),placed]
      funext e
      by_cases here : e = .pending
      · rw [here,update_self]
      · rw [update_of_ne here,only_other here]
    obtain ⟨d,there⟩ := after job mem
    have nowhere := congrFun ((claimFirst_none gone).symm.trans there) d
    rw [only_self] at nowhere
    cases nowhere
  · intro small job mem
    obtain ⟨d,placed⟩ := conserved.placed job mem
    have each := (Option.all_eq_true _ _).mp (small job mem)
    exact claimFirst_spot ((scan_small fun f found => of_decide_eq_true (each f found)).trans placed)

theorem recover_conserved : Conserved {s with disk := (s.disk.readDir .processing).foldl moveBack s.disk} := by
  rw [conserved_disk conserved]
  intro job mem
  obtain ⟨d,placed⟩ := conserved.placed job mem
  by_cases held : (s.disk.file .processing job.1).isSome = true
  · obtain ⟨f,found⟩ := isSome_iff_exists.mp held
    obtain ⟨rfl,payload⟩ := only_spot placed found
    refine ⟨.pending,funext fun d => ?_⟩
    rw [spot,recover_file,if_pos ⟨mem_readDir.mpr held,held⟩]
    by_cases pending : d = .pending
    · rw [if_pos pending,found,pending,only_self,map_some,payload]
    rw [if_neg pending,only_other pending]
    by_cases processing : d = .processing
    · rw [if_pos processing]
      rfl
    · rw [if_neg processing]
      exact (congrFun placed d).trans (only_other processing)
  · refine ⟨d,Eq.trans (funext fun e => ?_) placed⟩
    rw [spot,recover_file,if_neg fun both => held both.2]
    rfl

theorem requeue_conserved (named : Named s.disk) (valid : validQueueJobID id = true)
    (read : readJob cfg (s.disk.file .failed id) = some job) :
    Conserved {s with disk := (s.disk.writeJobAtomic cfg .pending {job with visibleAt := now}).put .failed id none} := by
  obtain ⟨f,found,rfl⟩ := read_file read
  have same : f.job.readBack.id = id := by
    rw [← named .failed id f found] at valid ⊢
    exact jsonText_ascii fun c inside => queueId_ascii c (all_eq_true.mp (Bool.and_eq_true_iff.mp valid).2 c inside)
  rw [conserved_disk conserved]
  intro other mem
  obtain ⟨d,placed⟩ := conserved.placed other mem
  rw [spot_remove,spot_write]
  by_cases here : other.1 = id
  · obtain ⟨rfl,payload⟩ := only_spot placed (here ▸ found)
    rw [if_pos here,if_pos (here.trans same.symm),placed]
    refine ⟨.pending,?_⟩
    show update (update (only .failed other.2) .pending (some f.job.payload)) .failed none = only .pending other.2
    have apart : QueueDir.pending ≠ .failed := nofun
    rw [payload,update_comm apart,only_update]
  · rw [if_neg here,if_neg fun is => here (is.trans same)]
    exact ⟨d,placed⟩

theorem discard_conserved : Conserved ⟨s.disk.put .failed id none,s.jobs.filter fun job => job.1 ≠ id⟩ where
  own := conserved.own.sublist (filter_sublist.map Prod.fst)
  placed job mem := by
    obtain ⟨inside,other⟩ := mem_filter.mp mem
    rw [spot_remove,if_neg (of_decide_eq_true other)]
    exact conserved.placed job inside

theorem call_iff (named : Named s.disk) (does : s.call cfg c = some t) :
    Conserved t ↔ keepsCall cfg s c := by
  cases c with
  | enqueue job =>
    cases does
    exact enqueue_iff conserved
  | claim now order =>
    rw [call] at does
    dsimp only at does
    split at does
    · cases does
      exact claim_iff conserved
    · cases does
  | complete job | fail job cause =>
    cases does
    exact finish_iff conserved nofun
  | retry job cause backoff now =>
    rw [call] at does
    rw [keepsCall,QueueJob.retryDir]
    split at does
    · rename_i spent
      cases does
      rw [if_pos spent]
      exact finish_iff conserved nofun
    · rename_i left
      cases does
      rw [if_neg left]
      exact finish_iff conserved nofun
  | recover =>
    cases does
    exact iff_of_true (recover_conserved conserved) trivial
  | requeueFailed id now =>
    refine iff_of_true ?_ trivial
    rw [call] at does
    split at does
    · rename_i valid
      split at does
      · cases does
        exact conserved
      · rename_i job read
        cases does
        exact requeue_conserved conserved named valid read
    · cases does
      exact conserved
  | discardFailed id =>
    refine iff_of_true ?_ trivial
    rw [call] at does
    split at does
    · cases does
      exact discard_conserved conserved
    · cases does
      exact conserved
end

theorem call_named (named : Named s.disk) (does : s.call cfg c = some t) : Named t.disk := by
  cases c with
  | enqueue job =>
    cases does
    exact named.write
  | claim now order =>
    rw [call] at does
    dsimp only at does
    split at does
    · cases does
      exact named.scan.claim
    · cases does
  | complete job | fail job cause =>
    cases does
    exact named.write.remove
  | retry job cause backoff now =>
    rw [call] at does
    split at does <;> cases does <;> exact named.write.remove
  | recover =>
    cases does
    exact named.recover
  | requeueFailed id now =>
    rw [call] at does
    split at does
    · split at does <;> cases does
      · exact named
      · exact named.write.remove
    · cases does
      exact named
  | discardFailed id =>
    rw [call] at does
    split at does <;> cases does
    · exact named.remove
    · exact named

theorem conserved_start : Conserved {} ∧ Named (disk {}) :=
  ⟨⟨nodup_nil,by simp⟩,by simp [Named,QueueState.file]⟩

theorem queue_conserves (run : Reached (call cfg) (fun s c => plainCall c = true ∧ keepsCall cfg s c) {} s) :
    Conserved s ∧ ∀ c t, plainCall c = true → s.call cfg c = some t → (Conserved t ↔ keepsCall cfg s c) := by
  obtain ⟨conserved,named⟩ := run.keeps (fun s => Conserved s ∧ Named s.disk) conserved_start
    fun ⟨conserved,named⟩ meets does => ⟨(call_iff conserved named does).mpr meets.2,call_named named does⟩
  exact ⟨conserved,fun c t _ does => call_iff conserved named does⟩
end
section
variable {cfg : QueueConfig}

theorem scanPending_unread {s : QueueState} (unread : ∀ name ∈ names, readJob cfg (s.file .pending name) = none) :
    (s.scanPending cfg now names).2 = [] := by
  induction names generalizing s with
  | nil => rfl
  | cons name names ih =>
    rw [scanPending,unread name mem_cons_self]
    refine ih fun other mem => ?_
    rw [file_put]
    split
    · rfl
    · exact unread other (mem_cons_of_mem name mem)

theorem oversized_lost {job : QueueJob} (big : maxJobFileSize < cfg.fileSize job) :
    ∃ s, Reached (FileQueueStorage.call cfg) (fun _ _ => True) {} s ∧ s.jobs = [(job.id,job.payload)] ∧ ¬ Conserved s := by
  let s : FileQueueStorage := ⟨writeJobAtomic cfg {} .pending job,[(job.id,job.payload)]⟩
  have enqueues : FileQueueStorage.call cfg {} (.enqueue job) = some s := rfl
  have conserved : Conserved s := (enqueue_iff conserved_start.1).mpr ⟨nofun,fun _ _ => rfl⟩
  have stored : s.disk.file .pending job.id = some {job := job} := file_write.trans (if_pos ⟨rfl,rfl⟩)
  have unread : ∀ name ∈ s.disk.readDir .pending, readJob cfg (s.disk.file .pending name) = none := by
    intro name _
    by_cases here : name = job.id
    · rw [here,stored,readJob,if_pos big]
    · have none : s.disk.file .pending name = none := file_write.trans (if_neg fun both => here both.2)
      rw [none]
      rfl
  have claims : s.call cfg (.claim 0 []) = some {s with disk := (s.disk.scanPending cfg 0 (s.disk.readDir .pending)).1.claimFirst []} := by
    have none : (s.disk.scanPending cfg 0 (s.disk.readDir .pending)).2 = [] := scanPending_unread unread
    simp only [FileQueueStorage.call,none]
    rfl
  refine ⟨_,.step (.step .start trivial enqueues) trivial claims,rfl,fun after => ?_⟩
  have small := (claim_iff conserved).mp after (job.id,job.payload) mem_cons_self
  rw [stored,all_some,decide_eq_true_eq] at small
  exact absurd big (Nat.not_lt.mpr small)
end

def payloadSize : QueueConfig := {fileSize := fun job => job.payload.length}

theorem large_job_lost : ∃ s, Reached (FileQueueStorage.call payloadSize) (fun _ _ => True) {} s ∧
    s.jobs = [(ascii "a",replicate (2^20+1) 49)] ∧ ¬ Conserved s := by
  have big : maxJobFileSize < payloadSize.fileSize {id := ascii "a", payload := replicate (2^20+1) 49} := by
    show 2^20 < (replicate (2^20+1) (49 : UInt8)).length
    rw [length_replicate]
    decide
  exact oversized_lost big

def smallJob : QueueJob := {id := ascii "a", payload := ascii "{}", maxAttempts := 3}

theorem retried_job_conserved : ∃ s, Reached (FileQueueStorage.call payloadSize) (fun s c => plainCall c = true ∧ keepsCall payloadSize s c) {} s ∧
    s.jobs = [(ascii "a",ascii "{}")] ∧ (s.disk.file .done (ascii "a")).isSome = true ∧ Conserved s := by
  let again : QueueJob := {smallJob with attempts := 1, visibleAt := 7}
  obtain ⟨s,run,jobs,done⟩ := play_reaches (FileQueueStorage.call payloadSize) (fun s c => plainCall c = true ∧ keepsCall payloadSize s c) {}
    (fun s => s.jobs = [(ascii "a",ascii "{}")] ∧ (s.disk.file .done (ascii "a")).isSome = true)
    [.enqueue smallJob,.claim 0 [⟨ascii "a",smallJob⟩],.retry smallJob none 2 5,.claim 9 [⟨ascii "a",again⟩],.complete again] (by decide)
  exact ⟨s,run,jobs,done,(queue_conserves run).1⟩
end FhServer

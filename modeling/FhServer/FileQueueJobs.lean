import FhServer.FileQueue

namespace FhServer
open Transitions List QueueState

-- Two removals go by name alone. Claim's is safe when what it removes could not have been read, Retry's when what it removes
-- is the file its own claim moved there.
def keepsJobs (cfg : QueueConfig) (s : QueueState) : QueueEvent → Bool
  | .enqueue job => QueueState.plainName job.id
  | .drop w =>
    match s.workers.get w with
    | .dropping _ name _ _ => (s.file .pending name).all fun file => decide (cfg.fileSize file.job > maxJobFileSize)
    | _ => true
  | .remove w =>
    match s.workers.get w with
    | .finishing id claim .pending => (s.file .processing id).all fun file => file.claim == some claim
    | _ => true
  | _ => true

namespace QueueState

def FilesAll (P : QueueDir → Bytes → QueueFile → Prop) (s : QueueState) : Prop := ∀ d name f, s.file d name = some f → P d name f

section
variable {cfg : QueueConfig} {s : QueueState} {w : Nat} {d d' : QueueDir} {name name' : Bytes} {file : Option QueueFile}
  {P : QueueDir → Bytes → QueueFile → Prop}

theorem file_put : (s.put d name file).file d' name' = if d' = d ∧ name' = name then file else s.file d' name' := by
  rw [QueueState.file,put]
  by_cases here : d' = d
  · subst here
    simp only [Function.update_self,Table.get_set,true_and]
    rfl
  · rw [if_neg fun both => here both.1]
    simp only [Function.update_of_ne here]
    rfl

theorem file_write :
    (s.writeJobAtomic cfg d job).file d' name' = if d' = d ∧ name' = job.id then some {job := job} else s.file d' name' :=
  file_put

theorem file_claim :
    (s.claimFile name f).file d' name' =
      if d' = .processing ∧ name' = name then some {f with claim := some s.claims}
      else if d' = .pending ∧ name' = name then none
      else s.file d' name' :=
  file_put.trans (if_congr Iff.rfl rfl file_put)

theorem present_write (there : (s.file d' name').isSome = true) : ((s.writeJobAtomic cfg d job).file d' name').isSome = true := by
  rw [file_write]
  split
  · rfl
  · exact there

theorem written_present : ((s.writeJobAtomic cfg d job).file d job.id).isSome = true := by
  rw [file_write,if_pos ⟨rfl,rfl⟩]
  rfl

theorem oversized_write {id : Bytes} (big : id ∈ s.oversized) : id ∈ (s.writeJobAtomic cfg d job).oversized := by
  rw [writeJobAtomic]
  split
  · exact mem_cons_of_mem _ big
  · exact big

theorem FilesAll.write (all : FilesAll P s) (new : P d job.id {job := job}) : FilesAll P (s.writeJobAtomic cfg d job) := by
  intro d' name f found
  rw [file_write] at found
  split at found
  · rename_i here
    cases found
    obtain ⟨rfl,rfl⟩ := here
    exact new
  · exact all d' name f found

theorem FilesAll.remove (all : FilesAll P s) : FilesAll P (s.put d name none) := by
  intro d' name' f found
  rw [file_put] at found
  split at found
  · cases found
  · exact all d' name' f found

theorem FilesAll.claimFile (all : FilesAll P s) (new : P .processing name {f with claim := some s.claims}) :
    FilesAll P (s.claimFile name f) := by
  intro d' name' f' there
  rw [file_claim] at there
  split at there
  · rename_i here
    cases there
    obtain ⟨rfl,rfl⟩ := here
    exact new
  · split at there
    · cases there
    · exact all d' name' f' there
end
end QueueState
open QueueState

def QueueEvent.worker : QueueEvent → Option Nat
  | .enqueue _ => none
  | .list w _ | .read w | .drop w | .sort w _ | .rename w | .complete w | .retry w _ _ _ | .fail w _ | .remove w | .stop w => some w

def QueueState.written (s : QueueState) : QueueEvent → Option QueueJob
  | .enqueue job => some job
  | .complete w =>
    match s.workers.get w with
    | .holding job _ => some {job with lastError := []}
    | _ => none
  | .retry w cause backoff now =>
    match s.workers.get w with
    | .holding job _ =>
      let job := job.again cause
      some (if job.attempts ≥ job.maxAttempts then job.caused cause else {job with visibleAt := now+backoff*job.attempts})
    | _ => none
  | .fail w cause =>
    match s.workers.get w with
    | .holding job _ => some (job.caused cause)
    | _ => none
  | _ => none

def QueuePhase.free : QueuePhase → Bool
  | .holding _ _ | .finishing _ _ _ => false
  | _ => true

def QueuePhase.candidates : QueuePhase → List Cand
  | .scanning _ _ candidates | .dropping _ _ _ candidates | .claiming candidates => candidates
  | _ => []

inductive QueueStep (cfg : QueueConfig) (s : QueueState) : QueueEvent → QueueState → Prop
  | enqueue (job : QueueJob) : QueueStep cfg s (.enqueue job) {s.writeJobAtomic cfg .pending job with enqueued := job.id :: s.enqueued}
  | goes {e : QueueEvent} {w : Nat} {phase : QueuePhase} (own : e.worker = some w) (free : phase.free = true)
      (copies : ∀ c ∈ phase.candidates, c ∈ (s.workers.get w).candidates ∨ ∃ name f, s.file .pending name = some f ∧ c.job = f.job.readBack.visible) :
      QueueStep cfg s e (s.goto w phase)
  | drops {w : Nat} {now : Int} {name : Bytes} {names : List Bytes} {candidates : List Cand} (is : s.workers.get w = .dropping now name names candidates) :
      QueueStep cfg s (.drop w) ((s.put .pending name none).goto w (.scanning now names candidates))
  | claims {w : Nat} {item : Cand} {candidates : List Cand} {f : QueueFile} (is : s.workers.get w = .claiming (item :: candidates))
      (found : s.file .pending item.name = some f) : QueueStep cfg s (.rename w) ((s.claimFile item.name f).goto w (.holding item.job s.claims))
  | writes {e : QueueEvent} {w : Nat} {held job : QueueJob} {claim : Nat} {d : QueueDir} (own : e.worker = some w)
      (is : s.workers.get w = .holding held claim) (new : s.written e = some job) (elsewhere : d ≠ .processing) :
      QueueStep cfg s e (s.wrote cfg w claim d job)
  | removes {w : Nat} {id : Bytes} {claim : Nat} {d : QueueDir} (is : s.workers.get w = .finishing id claim d) :
      QueueStep cfg s (.remove w) ((s.put .processing id none).goto w .idle)

theorem read_file {file : Option QueueFile} (read : readJob cfg file = some job) :
    ∃ f, file = some f ∧ job = f.job.readBack := by
  cases file with
  | none => cases read
  | some f =>
    rw [readJob] at read
    split at read
    · cases read
    · exact ⟨f,rfl,(Option.some.inj read).symm⟩

theorem step_cases {t : QueueState} (does : s.step cfg e = some t) : QueueStep cfg s e t := by
  cases e with
  | enqueue job =>
    cases does
    exact .enqueue job
  | list w now =>
    rw [step] at does
    split at does <;> cases does
    exact .goes rfl rfl (forall_mem_nil _)
  | read w =>
    rw [step] at does
    split at does
    · rename_i name _ _ is
      split at does
      · cases does
        exact .goes rfl rfl fun _ mem => .inl (is ▸ mem)
      rename_i read
      obtain ⟨f,found,rfl⟩ := read_file read
      split at does <;> cases does
      · exact .goes rfl rfl fun _ mem => .inl (is ▸ mem)
      refine .goes rfl rfl fun c mem => ?_
      rcases mem_append.mp mem with old | last
      · exact .inl (is ▸ old)
      · exact .inr ⟨name,f,found,congrArg Cand.job (mem_singleton.mp last)⟩
    · cases does
  | drop w =>
    rw [step] at does
    split at does <;> cases does
    exact .drops ‹_›
  | sort w order =>
    rw [step] at does
    split at does
    · rename_i is
      split at does <;> cases does
      rename_i sorted
      exact .goes rfl rfl fun _ mem => .inl (is ▸ (isPerm_iff.mp sorted.1).mem_iff.mp mem)
    · cases does
  | rename w =>
    rw [step] at does
    split at does
    · cases does
      exact .goes rfl rfl (forall_mem_nil _)
    · rename_i item _ is
      split at does <;> cases does
      · exact .goes rfl rfl fun _ mem => .inl (is ▸ mem_cons_of_mem item mem)
      · exact .claims is ‹_›
    · cases does
  | complete w | fail w cause =>
    rw [step] at does
    split at does <;> cases does
    rename_i is
    exact .writes rfl is (by rw [written,is]) (by simp)
  | retry w cause backoff now =>
    rw [step] at does
    split at does
    · rename_i is
      dsimp only at does
      split at does <;> cases does
      · exact .writes rfl is (by simp only [written,is]; rw [if_pos ‹_›]) (by simp)
      · exact .writes rfl is (by simp only [written,is]; rw [if_neg ‹_›]) (by simp)
    · cases does
  | remove w =>
    rw [step] at does
    split at does <;> cases does
    exact .removes ‹_›
  | stop w =>
    cases does
    exact .goes rfl rfl (forall_mem_nil _)

-- A file that a worker has written before it removes the processing file. A retried job's file may be claimed by another
-- worker, and then what is being processed is that claim's.
def Written (s : QueueState) (id : Bytes) (claim : Nat) : QueueDir → Prop
  | .pending => ∀ f, s.file .processing id = some f → f.claim = some claim → (s.file .pending id).isSome = true ∨ id ∈ s.oversized
  | .processing => False
  | d => (s.file d id).isSome = true

def PhaseFine (s : QueueState) : QueuePhase → Prop
  | .holding _ claim => claim < s.claims
  | .finishing id claim d => claim < s.claims ∧ Written s id claim d
  | _ => True

structure JobsKept (cfg : QueueConfig) (s : QueueState) : Prop where
  kept : ∀ id ∈ s.enqueued, id ∉ s.oversized → ∃ d, (s.file d id).isSome = true
  sizes : ∀ d id f, s.file d id = some f → cfg.fileSize f.job > maxJobFileSize → id ∈ s.oversized
  claimed : ∀ d id f claim, s.file d id = some f → f.claim = some claim → claim < s.claims
  phases : ∀ w, PhaseFine s (s.workers.get w)

section
variable {cfg : QueueConfig} {s t : QueueState} {w : Nat} {phase : QueuePhase} {id name : Bytes} {claim : Nat} {d : QueueDir}

theorem PhaseFine.later (fine : PhaseFine s phase) (claims : s.claims ≤ t.claims)
    (kept : ∀ id, ((s.file .done id).isSome = true → (t.file .done id).isSome = true) ∧
      ((s.file .failed id).isSome = true → (t.file .failed id).isSome = true))
    (again : ∀ id claim, claim < s.claims → Written s id claim .pending → Written t id claim .pending) : PhaseFine t phase := by
  cases phase with
  | holding job claim =>
    have before : claim < s.claims := fine
    exact lt_of_lt_of_le before claims
  | finishing id claim d =>
    obtain ⟨number,written⟩ := fine
    refine ⟨lt_of_lt_of_le number claims,?_⟩
    cases d with
    | pending => exact again id claim number written
    | processing => cases written
    | done => exact (kept id).1 written
    | failed => exact (kept id).2 written
  | _ => trivial

theorem JobsKept.write (inv : JobsKept cfg s) (elsewhere : d ≠ .processing) : JobsKept cfg (s.writeJobAtomic cfg d job) where
  kept id enqueued small := by
    obtain ⟨d',there⟩ := inv.kept id enqueued fun big => small (oversized_write big)
    exact ⟨d',present_write there⟩
  sizes := FilesAll.write (fun d' id f found big => oversized_write (inv.sizes d' id f found big)) fun big => by
    rw [writeJobAtomic,if_pos big]
    exact mem_cons_self ..
  claimed d' id f claim := FilesAll.write (fun d' id f => inv.claimed d' id f claim) nofun d' id f
  phases w := by
    refine (inv.phases w).later (Nat.le_refl _) (fun id => ⟨present_write,present_write⟩) fun id claim _ fine f found own => ?_
    rw [file_write,if_neg fun both => elsewhere both.1.symm] at found
    exact (fine f found own).imp present_write oversized_write

theorem JobsKept.claimFile (inv : JobsKept cfg s) (found : s.file .pending name = some f) :
    JobsKept cfg (s.claimFile name f) where
  kept := by
    intro id enqueued small
    by_cases here : id = name
    · exact ⟨.processing,by rw [file_claim,if_pos ⟨rfl,here⟩]; rfl⟩
    · obtain ⟨d,there⟩ := inv.kept id enqueued small
      exact ⟨d,by rwa [file_claim,if_neg fun both => here both.2,if_neg fun both => here both.2]⟩
  sizes := FilesAll.claimFile inv.sizes (inv.sizes .pending name f found)
  claimed d id f' claim := FilesAll.claimFile (fun d id f' there own => Nat.lt_succ_of_lt (inv.claimed d id f' claim there own))
    (fun own => Option.some.inj own ▸ Nat.lt_succ_self _) d id f'
  phases w := by
    refine (inv.phases w).later (Nat.le_succ _) (fun id => ?_) fun id claim before fine f' there own => ?_
    · simp only [file_claim,reduceCtorEq,false_and,if_false]
      exact ⟨fun there => there,fun there => there⟩
    rw [file_claim] at there
    split at there
    · cases there
      cases own
      exact absurd before (Nat.lt_irrefl _)
    · rename_i other
      rw [file_claim,if_neg fun both => QueueDir.noConfusion both.1,if_neg fun both => other ⟨rfl,both.2⟩]
      exact fine f' there own

theorem JobsKept.holds (inv : JobsKept cfg s) (held : s.workers.get w = .holding job claim) : claim < s.claims := by
  have fine := inv.phases w
  rw [held] at fine
  exact fine

section
variable (inv : JobsKept cfg s)
include inv

theorem JobsKept.goto (fine : PhaseFine s phase) : JobsKept cfg (s.goto w phase) where
  kept := inv.kept
  sizes := inv.sizes
  claimed := inv.claimed
  phases w' := by
    have here : (s.goto w phase).workers.get w' = if w' = w then phase else s.workers.get w' := Table.get_set ..
    rw [here]
    split
    · exact fine
    · exact inv.phases w'

theorem JobsKept.dropPending (unread : (s.file .pending name).all (fun file => decide (cfg.fileSize file.job > maxJobFileSize)) = true) :
    JobsKept cfg (s.put .pending name none) := by
  have big : (s.file .pending name).isSome = true → name ∈ s.oversized := by
    intro there
    obtain ⟨f,found⟩ := Option.isSome_iff_exists.mp there
    rw [found,Option.all_some,decide_eq_true_eq] at unread
    exact inv.sizes .pending name f found unread
  have other : ∀ {d id}, (s.file d id).isSome = true → id ∉ s.oversized → ((s.put .pending name none).file d id).isSome = true := by
    intro d id there small
    rw [file_put,if_neg]
    · exact there
    · rintro ⟨rfl,rfl⟩
      exact small (big there)
  refine ⟨?_,?_,?_,?_⟩
  · intro id enqueued small
    obtain ⟨d,there⟩ := inv.kept id enqueued small
    exact ⟨d,other there small⟩
  · exact FilesAll.remove inv.sizes
  · intro d id f claim
    exact FilesAll.remove (fun d id f => inv.claimed d id f claim) d id f
  · intro w
    refine (inv.phases w).later (Nat.le_refl _) (fun id => ?_) fun id claim _ fine f found own => ?_
    · simp only [file_put,reduceCtorEq,false_and,if_false]
      exact ⟨fun there => there,fun there => there⟩
    by_cases small : id ∈ s.oversized
    · exact .inr small
    · exact (fine f found own).imp_left fun there => other there small

theorem JobsKept.removeProcessing (elsewhere : id ∈ s.enqueued → id ∉ s.oversized → ∃ d ≠ .processing, (s.file d id).isSome = true) :
    JobsKept cfg (s.put .processing id none) where
  kept := by
    intro id' enqueued small
    by_cases here : id' = id
    · subst here
      obtain ⟨d,other,there⟩ := elsewhere enqueued small
      exact ⟨d,by rwa [file_put,if_neg fun both => other both.1]⟩
    · obtain ⟨d,there⟩ := inv.kept id' enqueued small
      exact ⟨d,by rwa [file_put,if_neg fun both => here both.2]⟩
  sizes := FilesAll.remove inv.sizes
  claimed d' id' f claim := FilesAll.remove (fun d' id' f => inv.claimed d' id' f claim) d' id' f
  phases w := by
    refine (inv.phases w).later (Nat.le_refl _) (fun id => ?_) fun id' claim _ fine f found own => ?_
    · simp only [file_put,reduceCtorEq,false_and,if_false]
      exact ⟨fun there => there,fun there => there⟩
    simp only [file_put,reduceCtorEq,false_and,if_false,true_and] at found ⊢
    split at found
    · cases found
    · exact fine f found own

theorem JobsKept.removes (at_end : s.workers.get w = .finishing id claim d) (keeps : keepsJobs cfg s (.remove w) = true) :
    JobsKept cfg (s.put .processing id none) := by
  have fine := inv.phases w
  rw [at_end] at fine
  obtain ⟨-,written⟩ := fine
  cases d with
  | pending =>
    rw [keepsJobs,at_end] at keeps
    refine inv.removeProcessing fun enqueued small => ?_
    cases there : s.file .processing id with
    | none =>
      obtain ⟨d,found⟩ := inv.kept id enqueued small
      refine ⟨d,?_,found⟩
      rintro rfl
      rw [there] at found
      cases found
    | some f =>
      dsimp only at keeps
      rw [there,Option.all_some] at keeps
      exact ⟨.pending,by simp,(written f there (eq_of_beq keeps)).resolve_right small⟩
  | processing => cases written
  | done => exact inv.removeProcessing fun _ _ => ⟨.done,by simp,written⟩
  | failed => exact inv.removeProcessing fun _ _ => ⟨.failed,by simp,written⟩

theorem JobsKept.free (none : phase.free = true) : JobsKept cfg (s.goto w phase) := by
  refine inv.goto ?_
  cases phase with
  | holding => cases none
  | finishing => cases none
  | _ => trivial
end

theorem JobsKept.wrote (inv : JobsKept cfg s) (number : claim < s.claims) (elsewhere : d ≠ .processing) :
    JobsKept cfg (s.wrote cfg w claim d job) := by
  refine (inv.write elsewhere).goto ⟨number,?_⟩
  have there : ((s.writeJobAtomic cfg d job).file d job.id).isSome = true := written_present
  cases d with
  | pending => exact fun _ _ _ => .inl there
  | processing => exact absurd rfl elsewhere
  | done => exact there
  | failed => exact there

theorem JobsKept.step (inv : JobsKept cfg s) (keeps : keepsJobs cfg s e = true) (does : s.step cfg e = some t) : JobsKept cfg t := by
  cases step_cases does with
  | enqueue job =>
    have written : JobsKept cfg (s.writeJobAtomic cfg .pending job) := inv.write (by simp)
    have there : ((s.writeJobAtomic cfg .pending job).file .pending job.id).isSome = true := written_present
    refine ⟨?_,written.sizes,written.claimed,written.phases⟩
    intro id enqueued small
    rcases mem_cons.mp enqueued with rfl | before
    · exact ⟨.pending,there⟩
    · exact written.kept id before small
  | goes _ free _ => exact inv.free free
  | drops is =>
    rw [keepsJobs,is] at keeps
    exact (inv.dropPending keeps).free rfl
  | claims _ found => exact (inv.claimFile found).goto (Nat.lt_succ_self _)
  | writes _ held _ elsewhere => exact inv.wrote (inv.holds held) elsewhere
  | removes is => exact (inv.removes is keeps).free rfl

theorem jobsKept_start (cfg : QueueConfig) : JobsKept cfg {} where
  kept _ enqueued := nomatch enqueued
  sizes _ _ _ found := nomatch found
  claimed _ _ _ _ found := nomatch found
  phases _ := trivial

theorem jobs_kept (run : Reached (step cfg) (fun s e => keepsJobs cfg s e = true) {} s) :
    ∀ id ∈ s.enqueued, id ∉ s.oversized → ∃ d, (s.file d id).isSome = true := by
  exact (run.keeps (JobsKept cfg) (jobsKept_start cfg) JobsKept.step).kept
end

def oneJob : QueueJob := {id := ascii "a", maxAttempts := 3}

def takes (w : Nat) : List QueueEvent := [.list w 0,.read w,.sort w [⟨ascii "a",oneJob⟩],.rename w]

theorem retried_job_kept :
    ∃ s, Reached (step {}) (fun s e => keepsJobs {} s e = true) {} s ∧ ascii "a" ∈ s.enqueued ∧
      s.file .processing (ascii "a") = none ∧ ∃ d, (s.file d (ascii "a")).isSome = true := by
  obtain ⟨s,run,enqueued,small,removed⟩ := play_reaches (step {}) (fun s e => keepsJobs {} s e = true) {}
    (fun s => ascii "a" ∈ s.enqueued ∧ ascii "a" ∉ s.oversized ∧ s.file .processing (ascii "a") = none)
    ([.enqueue oneJob] ++ takes 1 ++ [.retry 1 none 0 0,.remove 1]) (by decide)
  exact ⟨s,run,enqueued,removed,jobs_kept run (ascii "a") enqueued small⟩

-- The second worker claims the job between the first one's two steps of Retry, and loses the file it has just moved.
theorem retried_job_lost :
    ∃ s, Reached (step {}) (fun _ _ => True) {} s ∧ ascii "a" ∈ s.enqueued ∧ ascii "a" ∉ s.oversized ∧
      ∀ d, s.file d (ascii "a") = none := by
  obtain ⟨s,run,enqueued,small,gone⟩ := play_reaches (step {}) (fun _ _ => True) {}
    (fun s => ascii "a" ∈ s.enqueued ∧ ascii "a" ∉ s.oversized ∧
      [QueueDir.pending,.processing,.done,.failed].all (fun d => (s.file d (ascii "a")).isNone) = true)
    ([.enqueue oneJob] ++ takes 1 ++ [.retry 1 none 0 0,.list 2 0,.read 2,.sort 2 [⟨ascii "a",{oneJob with attempts := 1}⟩],.rename 2,.remove 1])
    (by decide)
  refine ⟨s,run,enqueued,small,fun d => Option.isNone_iff_eq_none.mp (all_eq_true.mp gone d ?_)⟩
  cases d <;> decide
end FhServer

import FhServer.GoText
import FhServer.Table
import FhServer.Transitions

namespace FhServer
open GoText Transitions

inductive QueueDir where
  | pending | processing | done | failed
deriving DecidableEq

-- Times are in nanoseconds from Go's zero time.
structure QueueJob where
  id : Bytes
  type : Bytes := []
  payload : Bytes := []
  attempts : Int := 0
  maxAttempts : Int := 0
  visibleAt : Int := 0
  lastError : Bytes := []
  priority : Int := 0
  runAt : Int := 0
  concurrencyKey : Bytes := []
deriving DecidableEq

-- A job's file, in the directory's table under the name id.json; the claim that moved it there is kept for the specification.
structure QueueFile where
  job : QueueJob
  claim : Option Nat := none

-- The length of the file that json.MarshalIndent makes of a job.
structure QueueConfig where
  fileSize : QueueJob → Nat := fun _ => 0

def maxJobFileSize : Nat := 2^20

-- A job as json.Unmarshal returns it. The payload is a JSON value, and what is left of its text does not matter here.
def QueueJob.readBack (job : QueueJob) : QueueJob :=
  {job with
    id := jsonText job.id
    type := jsonText job.type
    lastError := jsonText job.lastError
    concurrencyKey := jsonText job.concurrencyKey}

def readJob (cfg : QueueConfig) (file : Option QueueFile) : Option QueueJob :=
  match file with
  | none => none
  | some file => if cfg.fileSize file.job > maxJobFileSize then none else some file.job.readBack

structure Cand where
  name : Bytes
  job : QueueJob
deriving DecidableEq

-- Where a worker is between two file operations: in Claim reading the listed files, about to remove one it could not read,
-- or going through the sorted candidates; with a job it has claimed; about to remove the job's processing file.
inductive QueuePhase where
  | idle
  | scanning (now : Int) (names : List Bytes) (candidates : List Cand)
  | dropping (now : Int) (name : Bytes) (names : List Bytes) (candidates : List Cand)
  | claiming (candidates : List Cand)
  | holding (job : QueueJob) (claim : Nat)
  | finishing (id : Bytes) (claim : Nat) (wrote : QueueDir)

-- The last three fields are kept for the specification: the jobs that were enqueued, those of which a file over the limit
-- was ever written, and the number of claims so far.
structure QueueState where
  files : QueueDir → Table Bytes (Option QueueFile) none := fun _ => .empty
  workers : Table Nat QueuePhase .idle := .empty
  enqueued : List Bytes := []
  oversized : List Bytes := []
  claims : Nat := 0

inductive QueueEvent where
  | enqueue (job : QueueJob)
  | list (w : Nat) (now : Int)
  | read (w : Nat)
  | drop (w : Nat)
  | sort (w : Nat) (order : List Cand)
  | rename (w : Nat)
  | complete (w : Nat)
  | retry (w : Nat) (cause : Option Bytes) (backoff now : Int)
  | fail (w : Nat) (cause : Option Bytes)
  | remove (w : Nat)
  | stop (w : Nat)

namespace QueueState

def file (s : QueueState) (d : QueueDir) (name : Bytes) : Option QueueFile := (s.files d).get name

def put (s : QueueState) (d : QueueDir) (name : Bytes) (file : Option QueueFile) : QueueState :=
  {s with files := Function.update s.files d ((s.files d).set name file)}

def goto (s : QueueState) (w : Nat) (phase : QueuePhase) : QueueState := {s with workers := s.workers.set w phase}

def writeJobAtomic (cfg : QueueConfig) (s : QueueState) (d : QueueDir) (job : QueueJob) : QueueState :=
  {s.put d job.id (some {job := job}) with
    oversized := if cfg.fileSize job > maxJobFileSize then job.id :: s.oversized else s.oversized}

-- The id names a file of the directory. A slash in it is part of the path that filepath.Join cleans, and an empty id is
-- replaced by a new one.
def plainName (id : Bytes) : Bool := !id.isEmpty && !id.contains 47

def claimFile (s : QueueState) (name : Bytes) (file : QueueFile) : QueueState :=
  {(s.put .pending name none).put .processing name (some {file with claim := some s.claims}) with claims := s.claims+1}
end QueueState

-- Claim takes the earliest time at which the job may run from RunAt where VisibleAt is zero.
def QueueJob.visible (job : QueueJob) : QueueJob := if job.visibleAt = 0 ∧ job.runAt ≠ 0 then {job with visibleAt := job.runAt} else job

def Cand.before (a b : Cand) : Bool :=
  if a.job.priority ≠ b.job.priority then decide (a.job.priority > b.job.priority) else decide (a.job.visibleAt < b.job.visibleAt)

def QueueJob.caused (job : QueueJob) (cause : Option Bytes) : QueueJob := {job with lastError := cause.getD job.lastError}

def QueueJob.again (job : QueueJob) (cause : Option Bytes) : QueueJob :=
  {job.caused cause with
    attempts := job.attempts+1
    maxAttempts := if job.maxAttempts ≤ 0 then 5 else job.maxAttempts}

namespace QueueState

def readDir (s : QueueState) (d : QueueDir) : List Bytes :=
  ((s.files d).keys.filter fun name => (s.file d name).isSome).insertionSort (· ≤ ·)

def wrote (cfg : QueueConfig) (s : QueueState) (w : Nat) (claim : Nat) (d : QueueDir) (job : QueueJob) : QueueState :=
  (s.writeJobAtomic cfg d job).goto w (.finishing job.id claim d)

def failJob (cfg : QueueConfig) (s : QueueState) (w : Nat) (claim : Nat) (job : QueueJob) (cause : Option Bytes) : QueueState :=
  s.wrote cfg w claim .failed (job.caused cause)

def step (cfg : QueueConfig) (s : QueueState) : QueueEvent → Option QueueState
  | .enqueue job =>
    let s := s.writeJobAtomic cfg .pending job
    some {s with enqueued := job.id :: s.enqueued}
  | .list w now =>
    match s.workers.get w with
    | .idle => some (s.goto w (.scanning now (s.readDir .pending) []))
    | _ => none
  | .read w =>
    match s.workers.get w with
    | .scanning now (name :: names) candidates =>
      match readJob cfg (s.file .pending name) with
      | none => some (s.goto w (.dropping now name names candidates))
      | some job =>
        if job.visible.visibleAt > now then some (s.goto w (.scanning now names candidates))
        else some (s.goto w (.scanning now names (candidates ++ [⟨name,job.visible⟩])))
    | _ => none
  | .drop w =>
    match s.workers.get w with
    | .dropping now name names candidates => some ((s.put .pending name none).goto w (.scanning now names candidates))
    | _ => none
  | .sort w order =>
    match s.workers.get w with
    | .scanning _ [] candidates =>
      -- sort.Slice leaves the order of equal candidates open
      if order.isPerm candidates ∧ order.Pairwise (fun a b => b.before a = false) then some (s.goto w (.claiming order)) else none
    | _ => none
  | .rename w =>
    match s.workers.get w with
    | .claiming [] => some (s.goto w .idle)
    | .claiming (item :: candidates) =>
      match s.file .pending item.name with
      | none => some (s.goto w (.claiming candidates))
      | some file => some ((s.claimFile item.name file).goto w (.holding item.job s.claims))
    | _ => none
  | .complete w =>
    match s.workers.get w with
    | .holding job claim => some (s.wrote cfg w claim .done {job with lastError := []})
    | _ => none
  | .retry w cause backoff now =>
    match s.workers.get w with
    | .holding job claim =>
      let job := job.again cause
      if job.attempts ≥ job.maxAttempts then some (s.failJob cfg w claim job cause)
      else some (s.wrote cfg w claim .pending {job with visibleAt := now+backoff*job.attempts})
    | _ => none
  | .fail w cause =>
    match s.workers.get w with
    | .holding job claim => some (s.failJob cfg w claim job cause)
    | _ => none
  | .remove w =>
    match s.workers.get w with
    | .finishing id _ _ => some ((s.put .processing id none).goto w .idle)
    | _ => none
  -- a context that is done, an operation that fails, or the end of the worker
  | .stop w => some (s.goto w .idle)
end QueueState
end FhServer

import FhServer.GoText
import FhServer.Table

namespace FhServer
open GoText

-- Times and durations are in nanoseconds, times from Go's zero time.
def second : Int := 1000000000

inductive IdempotencyDecision where
  | idemNew | idemReplay | idemConflict | idemProcessing
deriving DecidableEq

inductive IdemState where
  | processing | completed | aborted
deriving DecidableEq

structure IdempotencyRecord where
  key : Bytes
  requestHash : Bytes
  method : Bytes := []
  path : Bytes := []
  state : IdemState
  statusCode : Int := 0
  contentType : Bytes := []
  headers : List (Bytes × List Bytes) := []
  response : Bytes := []
  createdAt : Int
  updatedAt : Int
  expiresAt : Int

-- What OpenIdempotencyStore is given, with the length of the line that json.Marshal makes of a record.
structure IdemConfig where
  ttl : Int := 0
  processingTimeout : Int := 0
  lineSize : IdempotencyRecord → Nat := fun _ => 0

def IdemConfig.storeTtl (cfg : IdemConfig) : Int := if cfg.ttl ≤ 0 then 86400*second else cfg.ttl
def IdemConfig.procTimeout (cfg : IdemConfig) : Int := if cfg.processingTimeout ≤ 0 then 60*second else cfg.processingTimeout

abbrev IdemRecords := Table Bytes (Option IdempotencyRecord) none

structure IdemStore where
  records : IdemRecords := .empty
  log : List IdempotencyRecord := []

def replayDropped : List Bytes := [ascii "Content-Length",ascii "Connection",ascii "Transfer-Encoding",ascii "Date",ascii "Set-Cookie"]

def cleanReplayHeaders (headers : List (Bytes × List Bytes)) : List (Bytes × List Bytes) :=
  headers.filter fun h => !replayDropped.any fun name => equalFold h.1 name

def cloneIdem (r : IdempotencyRecord) : IdempotencyRecord := {r with headers := cleanReplayHeaders r.headers}

namespace IdempotencyRecord

def expired (r : IdempotencyRecord) (now : Int) : Bool := r.expiresAt != 0 && decide (r.expiresAt < now)

def complete (r : IdempotencyRecord) (status : Int) (contentType : Bytes) (headers : List (Bytes × List Bytes)) (response : Bytes)
    (now : Int) : IdempotencyRecord :=
  {cloneIdem r with
    state := .completed
    statusCode := status
    contentType := contentType
    headers := cleanReplayHeaders headers
    response := response
    updatedAt := now}

def abort (r : IdempotencyRecord) (now : Int) : IdempotencyRecord :=
  {cloneIdem r with
    state := .aborted
    updatedAt := now
    expiresAt := now}
end IdempotencyRecord

def resolveIdem (cfg : IdemConfig) (rec : Option IdempotencyRecord) (reqHash : Bytes) (now : Int) : Option IdempotencyDecision :=
  match rec with
  | none => none
  | some rec =>
    if rec.expired now then none
    else if rec.requestHash ≠ reqHash then some .idemConflict
    else match rec.state with
      | .completed => some .idemReplay
      | .processing => if now-rec.updatedAt > cfg.procTimeout then none else some .idemProcessing
      | .aborted => some .idemProcessing

namespace IdemStore

def put (s : IdemStore) (key : Bytes) (rec : IdempotencyRecord) : IdemStore := ⟨s.records.set key (some rec),s.log ++ [rec]⟩

def beginIdem (cfg : IdemConfig) (s : IdemStore) (key reqHash method path : Bytes) (now : Int) :
    IdempotencyDecision × IdempotencyRecord × IdemStore :=
  let fresh : IdempotencyRecord :=
    {key := key
     requestHash := reqHash
     method := method
     path := path
     state := .processing
     createdAt := now
     updatedAt := now
     expiresAt := now+cfg.storeTtl}
  match resolveIdem cfg (s.records.get key) reqHash now with
  | some .idemConflict => (.idemConflict,(s.records.get key).getD fresh,s)
  | some decision => (decision,cloneIdem ((s.records.get key).getD fresh),s)
  | none => (.idemNew,cloneIdem fresh,s.put key fresh)

-- The errors of Complete and Abort: a hash that is not the record's, with the key it was for.
inductive IdemError where
  | hashMismatch (key : Bytes)

def completeIdem (s : IdemStore) (key reqHash : Bytes) (status : Int) (contentType : Bytes) (headers : List (Bytes × List Bytes))
    (response : Bytes) (now : Int) : Option IdemError × IdemStore :=
  match s.records.get key with
  | none => (none,s)
  | some rec =>
    if rec.requestHash ≠ reqHash then (some (.hashMismatch key),s)
    else (none,s.put key (rec.complete status contentType headers response now))

def abortIdem (s : IdemStore) (key reqHash : Bytes) (now : Int) : Option IdemError × IdemStore :=
  match s.records.get key with
  | none => (none,s)
  | some rec =>
    if rec.requestHash ≠ reqHash then (some (.hashMismatch key),s)
    else if rec.state ≠ .processing then (none,s)
    else (none,⟨s.records.set key none,s.log ++ [rec.abort now]⟩)

def outdated (now : Int) (rec : IdempotencyRecord) : Bool := rec.expiresAt != 0 && decide (rec.expiresAt ≤ now)

-- The caller's time is taken as it is, unless it is the zero time.
def purgeExpired (s : IdemStore) (asked clock : Int) : Nat × IdemStore :=
  let now := if asked = 0 then clock else asked
  ((s.records.keys.filter fun k => (s.records.get k).any (outdated now)).length,
    {s with records := s.records.mapAll (fun _ rec => rec.filter fun r => !outdated now r) fun _ => rfl})
end IdemStore

theorem storeTtl_pos (cfg : IdemConfig) : 0 < cfg.storeTtl := by
  rw [IdemConfig.storeTtl]
  split
  · decide
  · lia

section
variable (cfg : IdemConfig)

theorem resolve_not_new (rec : Option IdempotencyRecord) (reqHash : Bytes) (now : Int) : resolveIdem cfg rec reqHash now ≠ some .idemNew := by
  unfold resolveIdem
  split
  · exact nofun
  split
  · exact nofun
  split
  · exact nofun
  split
  · exact nofun
  · split <;> exact nofun
  · exact nofun

theorem begin_cases (s : IdemStore) (key reqHash method path : Bytes) (now : Int) :
    (∃ decision, resolveIdem cfg (s.records.get key) reqHash now = some decision ∧ decision ≠ .idemNew ∧
      (s.beginIdem cfg key reqHash method path now).1 = decision ∧ (s.beginIdem cfg key reqHash method path now).2.2 = s) ∨
    resolveIdem cfg (s.records.get key) reqHash now = none ∧ (s.beginIdem cfg key reqHash method path now).1 = .idemNew ∧
      ∃ rec, (s.beginIdem cfg key reqHash method path now).2.2 = s.put key rec ∧ rec.key = key ∧ rec.requestHash = reqHash ∧
        rec.state = .processing ∧ rec.expiresAt = now+cfg.storeTtl := by
  have old := resolve_not_new cfg (s.records.get key) reqHash now
  unfold IdemStore.beginIdem
  cases resolved : resolveIdem cfg (s.records.get key) reqHash now with
  | none => exact .inr ⟨rfl,rfl,_,rfl,rfl,rfl,rfl,rfl⟩
  | some decision =>
    refine .inl ⟨decision,rfl,fun same => old (resolved.trans (congrArg some same)),?_⟩
    cases decision <;> exact ⟨rfl,rfl⟩

theorem begin_decision (s : IdemStore) (key reqHash method path : Bytes) (now : Int) :
    (s.beginIdem cfg key reqHash method path now).1 = (resolveIdem cfg (s.records.get key) reqHash now).getD .idemNew := by
  rcases begin_cases cfg s key reqHash method path now with ⟨decision,resolved,-,answer,-⟩ | ⟨resolved,answer,-⟩ <;>
    rw [answer,resolved] <;> rfl

theorem resolve_replay_iff :
    resolveIdem cfg found reqHash now = some .idemReplay ↔
      ∃ rec, found = some rec ∧ rec.expired now = false ∧ rec.requestHash = reqHash ∧ rec.state = .completed := by
  constructor
  · intro replay
    unfold resolveIdem at replay
    split at replay
    · cases replay
    rename_i rec
    split at replay
    · cases replay
    rename_i valid
    split at replay
    · cases replay
    rename_i hash
    refine ⟨rec,rfl,Bool.eq_false_iff.mpr valid,not_not.mp hash,?_⟩
    split at replay
    · assumption
    · split at replay <;> cases replay
    · cases replay
  · rintro ⟨rec,rfl,valid,hash,state⟩
    rw [resolveIdem,valid,if_neg Bool.false_ne_true,if_neg (not_not.mpr hash),state]

theorem begin_replay_iff {s : IdemStore} :
    (s.beginIdem cfg key reqHash method path now).1 = .idemReplay ↔
      ∃ rec, s.records.get key = some rec ∧ rec.expired now = false ∧ rec.requestHash = reqHash ∧ rec.state = .completed := by
  rw [begin_decision,← resolve_replay_iff cfg]
  cases resolveIdem cfg (s.records.get key) reqHash now with
  | none => exact ⟨nofun,nofun⟩
  | some decision => exact ⟨congrArg some,Option.some.inj⟩

variable {cfg} in
theorem begin_replay_record {s : IdemStore}
    (there : s.records.get key = some rec) (valid : rec.expired now = false) (hash : rec.requestHash = reqHash) (state : rec.state = .completed) :
    s.beginIdem cfg key reqHash method path now = (.idemReplay,cloneIdem rec,s) := by
  rw [IdemStore.beginIdem,(resolve_replay_iff cfg).mpr ⟨rec,there,valid,hash,state⟩,there]
  rfl
end

def maxScannerBufSize : Nat := 2^18

def IdempotencyRecord.readBack (r : IdempotencyRecord) : IdempotencyRecord :=
  {r with
    key := jsonText r.key
    requestHash := jsonText r.requestHash
    method := jsonText r.method
    path := jsonText r.path
    contentType := jsonText r.contentType
    headers := r.headers.map fun h => (jsonText h.1,h.2.map jsonText)}

-- One line of load: the scanner gives up on a line that does not fit its buffer, and load on a record without a key.
def loadLine (cfg : IdemConfig) (now : Int) (records : IdemRecords) (line : IdempotencyRecord) : Option IdemRecords :=
  if cfg.lineSize line ≥ maxScannerBufSize then none
  else if line.readBack.key = [] then none
  else if line.expiresAt = 0 ∨ line.expiresAt > now then some (records.set line.readBack.key (some line.readBack))
  else some records

def loadIdem (cfg : IdemConfig) (log : List IdempotencyRecord) (now : Int) : Option IdemRecords :=
  log.foldlM (loadLine cfg now) .empty

inductive IdemCall where
  | begin (key reqHash method path : Bytes)
  | complete (key reqHash : Bytes) (status : Int) (contentType : Bytes) (headers : List (Bytes × List Bytes)) (response : Bytes)
  | abort (key reqHash : Bytes)
  | purge (asked : Int)

def IdemCall.run (cfg : IdemConfig) (now : Int) (s : IdemStore) : IdemCall → IdemStore
  | .begin key reqHash method path => (s.beginIdem cfg key reqHash method path now).2.2
  | .complete key reqHash status contentType headers response => (s.completeIdem key reqHash status contentType headers response now).2
  | .abort key reqHash => (s.abortIdem key reqHash now).2
  | .purge asked => (s.purgeExpired asked now).2

def runIdem (cfg : IdemConfig) : IdemStore → List (Int × IdemCall) → IdemStore
  | s, [] => s
  | s, (now,call) :: later => runIdem cfg (call.run cfg now s) later
end FhServer

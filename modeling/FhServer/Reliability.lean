import FhServer.GoNumbers
import FhServer.Idempotency

namespace FhServer
open GoBytes List
section
-- What the journal and the queue storage have accepted so far, and how many calls they have had.
structure OutsideStores (α : Type) where
  accepted : List α := []
  calls : Nat := 0

structure MemoryReliabilityTx (ε ι : Type) where
  journal : List ε
  jobs : List ι
  committed : Bool := false

namespace MemoryReliabilityTx

-- The loops of Commit; answers n says whether the storage call number n succeeds.
def saveAll (answers : Nat → Bool) : List α → OutsideStores α → OutsideStores α × Bool
  | [],s => (s,true)
  | x :: rest,s =>
    if answers s.calls then saveAll answers rest ⟨s.accepted ++ [x],s.calls+1⟩
    else (⟨s.accepted,s.calls+1⟩,false)

def commit (answers : Nat → Bool) (tx : MemoryReliabilityTx ε ι) (s : OutsideStores (ε ⊕ ι)) :
    MemoryReliabilityTx ε ι × OutsideStores (ε ⊕ ι) × Bool :=
  if tx.committed then (tx,s,true)
  else
    let tx := {tx with committed := true}
    match saveAll answers (tx.journal.map .inl) s with
    | (s,false) => (tx,s,false)
    | (s,true) => (tx,saveAll answers (tx.jobs.map .inr) s)

def commits (answers : Nat → Bool) : Nat → MemoryReliabilityTx ε ι → OutsideStores (ε ⊕ ι) → OutsideStores (ε ⊕ ι) × List Bool
  | 0,_,s => (s,[])
  | n+1,tx,s =>
    let (tx,s,ok) := commit answers tx s
    let (s,later) := commits answers n tx s
    (s,ok :: later)

def items (tx : MemoryReliabilityTx ε ι) : List (ε ⊕ ι) := tx.journal.map .inl ++ tx.jobs.map .inr

variable {answers : Nat → Bool} {tx : MemoryReliabilityTx ε ι} {s : OutsideStores (ε ⊕ ι)}

theorem saveAll_append (one two : List α) (s : OutsideStores α) : saveAll answers (one ++ two) s =
    match saveAll answers one s with
    | (s,false) => (s,false)
    | (s,true) => saveAll answers two s := by
  induction one generalizing s with
  | nil => rfl
  | cons x one ih =>
    rw [cons_append,saveAll,saveAll]
    split
    · exact ih _
    · rfl

theorem saveAll_all {items : List α} {s : OutsideStores α} (every : ∀ k < items.length, answers (s.calls+k) = true) :
    saveAll answers items s = (⟨s.accepted ++ items,s.calls+items.length⟩,true) := by
  induction items generalizing s with
  | nil => simp [saveAll]
  | cons x items ih =>
    have first : answers s.calls = true := every 0 (Nat.zero_lt_succ _)
    rw [saveAll,if_pos first,ih]
    · simp [Nat.add_comm,Nat.add_left_comm]
    · intro k mem
      have later := every (k+1) (Nat.succ_lt_succ mem)
      rwa [Nat.add_right_comm s.calls 1 k]

theorem saveAll_some (answers : Nat → Bool) (items : List α) {s : OutsideStores α} (missed : ∃ k < items.length, answers (s.calls+k) = false) :
    (saveAll answers items s).2 = false ∧ (saveAll answers items s).1.accepted.length < s.accepted.length+items.length := by
  obtain ⟨k,mem,failed⟩ := missed
  induction items generalizing s k with
  | nil => cases mem
  | cons x items ih =>
    rw [saveAll]
    split
    · rename_i first
      cases k with
      | zero => exact absurd (first.symm.trans failed) (by decide)
      | succ k =>
        have rest := ih (s := ⟨s.accepted ++ [x],s.calls+1⟩) k (Nat.lt_of_succ_lt_succ mem) (by rwa [Nat.add_right_comm])
        simp only [length_append,length_singleton] at rest
        exact ⟨rest.1,by rw [length_cons]; lia⟩
    · exact ⟨rfl,by simp⟩

theorem commit_first (opened : tx.committed = false) : commit answers tx s = ({tx with committed := true},saveAll answers tx.items s) := by
  simp only [commit,opened,Bool.false_eq_true,if_false,items,saveAll_append]
  split <;> rename_i saved <;> rw [saved]

theorem commits_again (tx : MemoryReliabilityTx ε ι) (closed : tx.committed = true) : ∀ n, commits answers n tx s = (s,replicate n true) := by
  intro n
  induction n with
  | zero => rfl
  | succ n ih => simp [commits,commit,closed,ih,replicate_succ]

theorem commits_first (opened : tx.committed = false) (n : Nat) : commits answers (n+1) tx s =
    ((saveAll answers tx.items s).1,(saveAll answers tx.items s).2 :: replicate n true) := by
  simp [commits,commit_first opened,commits_again {tx with committed := true} rfl]

-- A later Commit returns nil whatever the first one left unsaved.
theorem commits_lossless_iff (answers : Nat → Bool) (journal : List ε) (jobs : List ι) (n : Nat) :
    (true ∈ (commits answers n ⟨journal,jobs,false⟩ {}).2 →
      (commits answers n ⟨journal,jobs,false⟩ {}).1.accepted.Perm (journal.map .inl ++ jobs.map .inr)) ↔
    n ≤ 1 ∨ ∀ k < journal.length+jobs.length, answers k = true := by
  have size : (items ⟨journal,jobs,false⟩).length = journal.length+jobs.length := by simp [items]
  cases n with
  | zero => simp [commits]
  | succ n =>
    rw [commits_first rfl]
    by_cases every : ∀ k < journal.length+jobs.length, answers k = true
    · rw [saveAll_all (by simpa [size] using every)]
      exact iff_of_true (fun _ => .refl _) (.inr every)
    · obtain ⟨refused,short⟩ := saveAll_some answers (items ⟨journal,jobs,false⟩) (s := {}) (by simpa [size] using every)
      have lost : ¬(saveAll answers (items ⟨journal,jobs,false⟩) {}).1.accepted.Perm (items ⟨journal,jobs,false⟩) := by
        intro all
        have length := all.length_eq
        rw [length_nil,Nat.zero_add] at short
        lia
      rw [refused,or_iff_left every]
      cases n with
      | zero => simp
      | succ n => exact iff_of_false (fun kept => lost (kept (by simp))) (by lia)

theorem failed_commit_lost : (commits (fun n => n != 0) 2 ⟨[7],([] : List Nat),false⟩ {}).2 = [false,true] ∧
    ¬(commits (fun n => n != 0) 2 ⟨[7],([] : List Nat),false⟩ {}).1.accepted.Perm [.inl 7] := by decide
end MemoryReliabilityTx
end
section
def externalByte (c : UInt8) : Bool :=
  (97 ≤ c && c ≤ 122) || (65 ≤ c && c ≤ 90) || (48 ≤ c && c ≤ 57) || c == 45 || c == 95 || c == 46 || c == 58

def validExternalID (s : Bytes) : Bool := !s.isEmpty && decide (s.length ≤ 128) && s.all externalByte

structure InboxEvent where
  source : Bytes
  eventID : Bytes
  -- What json.Marshal makes of the whole event.
  json : Bytes
deriving DecidableEq

namespace InboxEvent

def valid (ev : InboxEvent) : Bool := validExternalID ev.eventID && (ev.source.isEmpty || validExternalID ev.source)

def key (ev : InboxEvent) : Bytes :=
  itoa ev.source.length ++ ascii ":" ++ ev.source ++ ascii ":" ++ itoa ev.eventID.length ++ ascii ":" ++ ev.eventID

abbrev Same (a b : InboxEvent) : Prop := a.source = b.source ∧ a.eventID = b.eventID

theorem key_inj {a : InboxEvent} (same : a.key = b.key) : a.Same b := by
  simp only [key,append_assoc] at same
  obtain ⟨length,(rest : a.source ++ 58 :: (itoa a.eventID.length ++ 58 :: a.eventID) = b.source ++ 58 :: (itoa b.eventID.length ++ 58 :: b.eventID))⟩ :=
    colon_inj same
  obtain ⟨source,rest⟩ := append_inj rest length
  exact ⟨source,(colon_inj (List.cons.inj rest).2).2⟩

theorem Same.key {a : InboxEvent} (same : a.Same b) : a.key = b.key := by rw [InboxEvent.key,InboxEvent.key,same.1,same.2]

theorem Same.valid {a : InboxEvent} (same : a.Same b) : a.valid = b.valid := by rw [InboxEvent.valid,InboxEvent.valid,same.1,same.2]
end InboxEvent

structure InboxRecord where
  requestHash : Bytes
  completed : Bool

abbrev InboxRecords := Table Bytes (Option InboxRecord) none

-- An idempotency repository that works and forgets nothing.
def InboxRecords.start (records : InboxRecords) (key requestHash : Bytes) : IdempotencyDecision × InboxRecords :=
  match records.get key with
  | none => (.idemNew,records.set key (some ⟨requestHash,false⟩))
  | some r => (if r.requestHash ≠ requestHash then .idemConflict else if r.completed then .idemReplay else .idemProcessing,records)

def InboxRecords.complete (records : InboxRecords) (key requestHash : Bytes) : InboxRecords := records.set key (some ⟨requestHash,true⟩)

-- A call of Accept, with the error or the job id that Enqueue has for it.
structure AcceptCall where
  ev : InboxEvent
  queueType : Bytes := []
  enqueue : Except Bytes Bytes

def AcceptCall.job (c : AcceptCall) : Bytes × InboxEvent := (if c.queueType = [] then ascii "inbox." ++ c.ev.source else c.queueType,c.ev)

-- Accept's error, an empty job id without an error, or the job id of the queue.
inductive AcceptResult where
  | failed (text : Bytes)
  | ignored
  | queued (id : Bytes)
deriving DecidableEq

structure Inbox where
  records : InboxRecords := .empty
  jobs : List (Bytes × InboxEvent) := []

namespace Inbox
variable (hashBody : Bytes → Bytes)

def accept (i : Inbox) (c : AcceptCall) : Inbox × AcceptResult :=
  if c.ev.eventID = [] then (i,.failed (ascii "fh: inbox event id required"))
  else if !c.ev.valid then (i,.failed (ascii "fh: invalid inbox source or event id"))
  else
    let (dec,records) := i.records.start c.ev.key (hashBody c.ev.json)
    if dec ≠ .idemNew then (⟨records,i.jobs⟩,.ignored)
    else
      -- The deferred Complete runs after Enqueue, whatever that returns.
      let records := records.complete c.ev.key (hashBody c.ev.json)
      match c.enqueue with
      | .ok id => (⟨records,i.jobs ++ [c.job]⟩,.queued id)
      | .error text => (⟨records,i.jobs⟩,.failed text)

def run (calls : List AcceptCall) : Inbox := calls.foldl (fun i c => (i.accept hashBody c).1) {}

def first (calls : List AcceptCall) (ev : InboxEvent) : Option AcceptCall := calls.find? fun c => c.ev.Same ev

def Taken (c : AcceptCall) : Prop := ∃ id, c.enqueue = .ok id

def delivered (c : AcceptCall) : List (Bytes × InboxEvent) :=
  match c.enqueue with
  | .ok _ => [c.job]
  | .error _ => []

structure Delivers (calls : List AcceptCall) : Prop where
  ignored : ∀ before c, before ++ [c] <+: calls → ((run hashBody before).accept hashBody c).2 = .ignored →
    ∃ job ∈ (run hashBody before).jobs, job.2.Same c.ev
  once : (run hashBody calls).jobs.Pairwise fun a b => ¬a.2.Same b.2

structure Stands (calls : List AcceptCall) (i : Inbox) : Prop where
  known : ∀ ev, ev.valid = true → (i.records.get ev.key = none ↔ first calls ev = none)
  jobs : ∀ ev, ev.valid = true → ((∃ job ∈ i.jobs, job.2.Same ev) ↔ ∃ c, first calls ev = some c ∧ Taken c)
  once : i.jobs.Pairwise fun a b => ¬a.2.Same b.2

variable {hashBody : Bytes → Bytes} {i : Inbox} {c : AcceptCall} {calls : List AcceptCall} {ev : InboxEvent}

theorem accept_invalid (bad : c.ev.valid = false) : (i.accept hashBody c).1 = i ∧ (i.accept hashBody c).2 ≠ .ignored := by
  unfold accept
  split
  · exact ⟨rfl,by simp⟩
  · rw [bad]
    exact ⟨rfl,by simp⟩

theorem valid_named (good : c.ev.valid = true) : c.ev.eventID ≠ [] := by
  intro empty
  simp [InboxEvent.valid,validExternalID,empty] at good

theorem accept_known (good : c.ev.valid = true) (known : i.records.get c.ev.key ≠ none) : i.accept hashBody c = (i,.ignored) := by
  obtain ⟨r,kept⟩ := Option.ne_none_iff_exists'.mp known
  have old : (if r.requestHash ≠ hashBody c.ev.json then IdempotencyDecision.idemConflict
      else if r.completed then .idemReplay else .idemProcessing) ≠ .idemNew := by
    split
    · simp
    · split <;> simp
  simp only [accept,if_neg (valid_named good),good,InboxRecords.start,kept,if_pos old]
  rfl

-- The first call for an event leaves its record whether or not Enqueue takes the job.
theorem accept_fresh (hashBody : Bytes → Bytes) (good : c.ev.valid = true) (fresh : i.records.get c.ev.key = none) :
    (∀ k, (i.accept hashBody c).1.records.get k = none ↔ k ≠ c.ev.key ∧ i.records.get k = none) ∧
      (i.accept hashBody c).1.jobs = i.jobs ++ delivered c ∧ (i.accept hashBody c).2 ≠ .ignored := by
  have kept : ∀ k, (InboxRecords.complete (i.records.set c.ev.key (some ⟨hashBody c.ev.json,false⟩)) c.ev.key (hashBody c.ev.json)).get k = none ↔
      k ≠ c.ev.key ∧ i.records.get k = none := by
    intro k
    by_cases here : k = c.ev.key
    · simp [InboxRecords.complete,here]
    · simp [InboxRecords.complete,Table.get_set,here]
  simp only [accept,if_neg (valid_named good),good,InboxRecords.start,fresh,delivered]
  cases c.enqueue with
  | ok id => exact ⟨kept,rfl,by simp⟩
  | error text => exact ⟨kept,(append_nil _).symm,by simp⟩

theorem mem_delivered : job ∈ delivered c ↔ job = c.job ∧ Taken c := by
  unfold delivered Taken
  cases c.enqueue <;> simp

theorem first_same (same : c.ev.Same ev) : first calls ev = first calls c.ev := by
  rw [first,first]
  simp [same.1,same.2]

theorem first_snoc : first (calls ++ [c]) ev = (first calls ev).or (if c.ev.Same ev then some c else none) := by
  simp [first]

theorem Stands.snoc (stands : Stands calls i) : Stands (calls ++ [c]) (i.accept hashBody c).1 := by
  have unchanged (still : ∀ ev, ev.valid = true → c.ev.Same ev → first calls ev ≠ none) : Stands (calls ++ [c]) i := by
    have same : ∀ ev, ev.valid = true → first (calls ++ [c]) ev = first calls ev := by
      intro ev good
      rw [first_snoc]
      split
      · obtain ⟨d,is⟩ := Option.ne_none_iff_exists'.mp (still ev good ‹_›)
        rw [is,Option.some_or]
      · exact Option.or_none
    exact ⟨fun ev good => same ev good ▸ stands.known ev good,fun ev good => same ev good ▸ stands.jobs ev good,stands.once⟩
  cases valid : c.ev.valid with
  | false =>
    rw [(accept_invalid valid).1]
    exact unchanged fun ev good same => absurd (valid.symm.trans (same.valid.trans good)) (by simp)
  | true =>
    by_cases fresh : i.records.get c.ev.key = none
    · have absent := (stands.known c.ev valid).mp fresh
      obtain ⟨records,jobs,-⟩ := accept_fresh hashBody valid fresh
      have new : ∀ job ∈ i.jobs, ¬job.2.Same c.ev := by
        intro job mem same
        obtain ⟨d,is,-⟩ := (stands.jobs c.ev valid).mp ⟨job,mem,same⟩
        cases absent.symm.trans is
      refine ⟨fun ev good => ?_,fun ev good => ?_,?_⟩
      · rw [records,stands.known ev good,first_snoc,Option.or_eq_none_iff,and_comm]
        refine and_congr_right fun _ => ?_
        simp only [ne_eq,ite_eq_right_iff,reduceCtorEq,imp_false,not_iff_not]
        exact ⟨fun same => InboxEvent.key_inj same.symm,fun same => same.key.symm⟩
      · have both : (∃ job ∈ i.jobs ++ delivered c, job.2.Same ev) ↔ (∃ job ∈ i.jobs, job.2.Same ev) ∨ Taken c ∧ c.ev.Same ev := by
          simp only [mem_append,mem_delivered,or_and_right,exists_or,and_assoc,exists_eq_left]
          rfl
        rw [jobs,both,stands.jobs ev good,first_snoc]
        by_cases same : c.ev.Same ev
        · simp [first_same same,absent,and_comm]
        · simp [same]
      · rw [jobs,pairwise_append]
        refine ⟨stands.once,?_,fun old mem job mine => ?_⟩
        · unfold delivered
          split <;> simp
        · exact (mem_delivered.mp mine).1 ▸ new old mem
    · rw [accept_known valid fresh]
      exact unchanged fun ev _ same absent => fresh ((stands.known c.ev valid).mpr (first_same same ▸ absent))

theorem run_stands (hashBody : Bytes → Bytes) (calls : List AcceptCall) : Stands calls (run hashBody calls) := by
  induction calls using List.reverseRecOn with
  | nil => exact ⟨by simp [run,first],by simp [run,first],.nil⟩
  | append_singleton calls c ih =>
    rw [run,foldl_concat]
    exact ih.snoc

-- An event is swallowed exactly when the call that failed to enqueue it is repeated.
theorem accept_delivers_iff (hashBody : Bytes → Bytes) (calls : List AcceptCall) : Delivers hashBody calls ↔
    ∀ before d, before ++ [d] <+: calls → d.ev.valid = true → ∀ c, first before d.ev = some c → Taken c := by
  constructor
  · intro all before d within good c is
    have stands := run_stands hashBody before
    have known : (run hashBody before).records.get d.ev.key ≠ none := by
      rw [ne_eq,stands.known d.ev good,is]
      simp
    obtain ⟨c',is',taken⟩ := (stands.jobs d.ev good).mp (all.ignored before d within (by rw [accept_known good known]))
    exact Option.some.inj (is'.symm.trans is) ▸ taken
  · refine fun met => ⟨fun before d within ignored => ?_,(run_stands hashBody calls).once⟩
    have stands := run_stands hashBody before
    have good : d.ev.valid = true := by
      by_contra bad
      exact (accept_invalid (by simpa using bad)).2 ignored
    have known : first before d.ev ≠ none := fun absent => (accept_fresh hashBody good ((stands.known d.ev good).mpr absent)).2.2 ignored
    obtain ⟨c,is⟩ := Option.ne_none_iff_exists'.mp known
    exact (stands.jobs d.ev good).mpr ⟨c,is,met before d within good c is⟩

-- The queue fails once, and the retry of the same event is answered as a duplicate.
theorem failed_event_swallowed : ¬Delivers (fun b => b)
    [⟨⟨ascii "shop",ascii "e1",[]⟩,[],.error []⟩,⟨⟨ascii "shop",ascii "e1",[]⟩,[],.ok (ascii "j1")⟩] := by
  intro all
  obtain ⟨job,mem,-⟩ := all.ignored [_] _ prefix_rfl (by decide)
  revert job
  decide
end Inbox
end
end FhServer

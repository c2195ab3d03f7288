import FhServer.MerkleAudit
import FhServer.Transitions

namespace FhServer.Audit
open GoBytes Transitions List Option

-- A checkpoint between the critical sections of createCheckpoint.
structure Cut where
  leaves : List AuditLeaf
  sequence : UInt64
  prevRoot : Bytes

structure MerkleSink where
  bucketMax : Nat
  bucket : List AuditLeaf := []
  prevRoot : Bytes := []
  sequence : UInt64 := 0
  -- The goroutines that have filled the bucket and are on their way to createCheckpoint.
  due : Nat := 0
  cuts : List Cut := []
  produced : List (MerkleCheckpoint × List AuditLeaf) := []
  recorded : List AuditLeaf := []

def MerkleSink.new (bucketSize : Int) : MerkleSink := { bucketMax := if bucketSize ≤ 0 then 100 else bucketSize.toNat }

inductive SinkEvent
  | write (e : AuditEvent)
  | full
  -- The timer and Close call createCheckpoint at any time.
  | flush
  | publish (i : Nat)

def MerkleSink.take (s : MerkleSink) : MerkleSink :=
  if s.bucket = [] then s
  else { s with bucket := [], sequence := s.sequence+1, cuts := s.cuts ++ [⟨s.bucket,s.sequence+1,s.prevRoot⟩] }

section
variable (hash : Bytes → Bytes)

def MerkleSink.write (s : MerkleSink) (leaf : AuditLeaf) : MerkleSink :=
  { s with
    bucket := s.bucket ++ [leaf]
    due := if s.bucketMax ≤ s.bucket.length+1 then s.due+1 else s.due
    recorded := s.recorded ++ [leaf] }

def MerkleSink.publish (s : MerkleSink) (i : Nat) (cut : Cut) : MerkleSink :=
  let cp := checkpoint hash cut.leaves cut.sequence cut.prevRoot
  { s with
    prevRoot := cp.rootHash
    cuts := s.cuts.eraseIdx i
    produced := s.produced ++ [(cp,cut.leaves)] }

def sinkStep (s : MerkleSink) : SinkEvent → Option MerkleSink
  | .write e => (auditLeaf hash e).map s.write
  | .full => if s.due = 0 then none else some { s.take with due := s.due-1 }
  | .flush => some s.take
  | .publish i => (s.cuts[i]?).map (s.publish hash i)
end

def verifyLink (before cp : MerkleCheckpoint) : Option Bytes :=
  if cp.prevCheckpointHash ≠ before.rootHash then some (ascii "checkpoint " ++ itoa cp.sequence.toNat ++ ascii ": prev hash mismatch")
  else if cp.sequence ≠ before.sequence+1 then
    some (ascii "checkpoint " ++ itoa cp.sequence.toNat ++ ascii ": sequence gap (expected " ++ itoa (before.sequence+1).toNat ++ ascii ")")
  else none

def verifyChain : List MerkleCheckpoint → Option Bytes
  | before :: cp :: rest => verifyLink before cp <|> verifyChain (cp :: rest)
  | _ => none

def Follows (before cp : MerkleCheckpoint) : Prop := cp.prevCheckpointHash = before.rootHash ∧ cp.sequence = before.sequence+1

theorem verifyLink_none {before : MerkleCheckpoint} : verifyLink before cp = none ↔ Follows before cp := by
  unfold verifyLink Follows
  split
  · simp_all
  · split <;> simp_all

theorem verifyChain_none {l : List MerkleCheckpoint} : verifyChain l = none ↔ l.IsChain Follows := by
  induction l using verifyChain.induct with
  | case1 before cp rest ih => simp [verifyChain,verifyLink_none,ih]
  | case2 l short =>
    rcases l with _ | ⟨a,_ | ⟨b,rest⟩⟩
    · simp [verifyChain]
    · simp [verifyChain]
    · exact absurd rfl (short a b rest)

def MerkleSink.ordered (s : MerkleSink) : List MerkleCheckpoint :=
  (s.produced.map Prod.fst).insertionSort fun a b => a.sequence.toNat ≤ b.sequence.toNat

structure Conserved (hash : Bytes → Bytes) (s : MerkleSink) : Prop where
  events : s.recorded.Perm (s.produced.flatMap Prod.snd ++ s.cuts.flatMap Cut.leaves ++ s.bucket)
  made : ∀ p ∈ s.produced, p.1 = checkpoint hash p.2 p.1.sequence p.1.prevCheckpointHash

-- A bucket is taken only when no other checkpoint is being made, and its number is not the last one.
def Serial (s : MerkleSink) : SinkEvent → Prop
  | .write _ => True
  | .publish _ => True
  | _ => s.bucket = [] ∨ (s.cuts = [] ∧ s.sequence+1 ≠ 0)

instance (s : MerkleSink) (e : SinkEvent) : Decidable (Serial s e) := by
  cases e <;> unfold Serial <;> infer_instance

section
variable {hash : Bytes → Bytes} {s : MerkleSink}

theorem Conserved.take (good : Conserved hash s) : Conserved hash s.take := by
  unfold MerkleSink.take
  split
  · exact good
  · refine ⟨?_,good.made⟩
    simpa using good.events

theorem Conserved.publish (good : Conserved hash s) (found : s.cuts[i]? = some cut) : Conserved hash (s.publish hash i cut) := by
  refine ⟨?_,?_⟩
  · apply good.events.trans
    obtain ⟨mem,same⟩ := List.getElem?_eq_some_iff.mp found
    have taken : s.cuts.Perm (cut :: s.cuts.eraseIdx i) := by
      subst same
      exact (getElem_cons_eraseIdx_perm mem).symm
    have moved := (taken.flatMap_right Cut.leaves).append_left (s.produced.flatMap Prod.snd)
    simpa [MerkleSink.publish] using moved.append_right s.bucket
  · exact forall_mem_append.mpr ⟨good.made,forall_mem_singleton.mpr rfl⟩

theorem Conserved.step (good : Conserved hash s) (does : sinkStep hash s e = some t) : Conserved hash t := by
  cases e with
  | write e =>
    obtain ⟨leaf,-,rfl⟩ := map_eq_some_iff.mp does
    refine ⟨?_,good.made⟩
    simpa [MerkleSink.write] using good.events.append_right [leaf]
  | full =>
    simp only [sinkStep] at does
    split at does
    · cases does
    · cases does
      exact ⟨good.take.events,good.take.made⟩
  | flush =>
    cases some.inj does
    exact good.take
  | publish i =>
    obtain ⟨cut,found,rfl⟩ := map_eq_some_iff.mp does
    exact good.publish found

theorem reached_conserved (size : Int) (run : Reached (sinkStep hash) allowed (.new size) s) : Conserved hash s := by
  apply run.keeps (Conserved hash)
  · exact ⟨by simp [MerkleSink.new],by simp [MerkleSink.new]⟩
  · intro s e t good _ does
    exact good.step does

structure Chained (s : MerkleSink) : Prop where
  numbered : s.produced.map (fun p => p.1.sequence.toNat) = List.range' 1 s.produced.length
  linked : (s.produced.map Prod.fst).IsChain Follows
  last : ∀ p ∈ s.produced.getLast?, p.1.rootHash = s.prevRoot ∧ p.1.sequence.toNat = s.produced.length
  next : (s.cuts = [] ∧ s.sequence.toNat = s.produced.length) ∨
    ∃ cut, s.cuts = [cut] ∧ cut.sequence = s.sequence ∧ cut.prevRoot = s.prevRoot ∧ s.sequence.toNat = s.produced.length+1

theorem succ_toNat {n : UInt64} (wraps : n+1 ≠ 0) : (n+1).toNat = n.toNat+1 := by
  have bound := n.toNat_lt
  have one : (1 : UInt64).toNat = 1 := rfl
  apply Nat.mod_eq_of_lt
  rcases Nat.lt_or_ge (n.toNat+1) (2^64) with small | large
  · exact small
  apply absurd _ wraps
  apply UInt64.toNat_inj.mp
  rw [UInt64.toNat_add,one]
  have top : n.toNat+1 = 2^64 := by lia
  rw [top]
  rfl

theorem Chained.take (good : Chained s) (serial : s.bucket = [] ∨ (s.cuts = [] ∧ s.sequence+1 ≠ 0)) : Chained s.take := by
  unfold MerkleSink.take
  split
  · exact good
  rename_i some
  obtain ⟨alone,wraps⟩ := serial.resolve_left some
  refine ⟨good.numbered,good.linked,good.last,.inr ⟨_,by rw [alone]; rfl,rfl,rfl,?_⟩⟩
  rcases good.next with ⟨-,count⟩ | ⟨cut,busy,-⟩
  · rw [← count]
    exact succ_toNat wraps
  · rw [alone] at busy
    cases busy

theorem Chained.publish (good : Chained s) (found : s.cuts[i]? = some cut) : Chained (s.publish hash i cut) := by
  rcases good.next with ⟨none,-⟩ | ⟨only,alone,number,prev,count⟩
  · simp [none] at found
  have first : i = 0 ∧ cut = only := by
    rw [alone] at found
    cases i with
    | zero => exact ⟨rfl,(some.inj found).symm⟩
    | succ i => simp at found
  obtain ⟨rfl,rfl⟩ := first
  refine ⟨?_,?_,?_,.inl ?_⟩
  · simp only [MerkleSink.publish,checkpoint,map_append,map_cons,map_nil,length_append,length_cons,length_nil,
      good.numbered,number,count]
    rw [Nat.zero_add,range'_concat]
    simp [Nat.add_comm]
  · simp only [MerkleSink.publish,checkpoint,map_append,map_cons,map_nil]
    apply isChain_append.mpr
    refine ⟨good.linked,by simp,?_⟩
    intro before before_last cp new
    cases some.inj new
    rw [List.getLast?_map] at before_last
    obtain ⟨p,lastOne,rfl⟩ := map_eq_some_iff.mp before_last
    obtain ⟨root,length⟩ := good.last p lastOne
    refine ⟨prev.trans root.symm,?_⟩
    apply UInt64.toNat_inj.mp
    have bound := s.sequence.toNat_lt
    have one : (1 : UInt64).toNat = 1 := rfl
    rw [number,count,UInt64.toNat_add,length,one]
    lia
  · intro p new
    simp only [MerkleSink.publish,List.getLast?_append,List.getLast?_singleton,some_or,mem_def,some.injEq] at new
    simp [← new,MerkleSink.publish,checkpoint,number,count]
  · simp [MerkleSink.publish,alone,count]

theorem Chained.step (good : Chained s) (serial : Serial s e) (does : sinkStep hash s e = some t) : Chained t := by
  cases e with
  | write e =>
    obtain ⟨leaf,-,rfl⟩ := map_eq_some_iff.mp does
    exact ⟨good.numbered,good.linked,good.last,good.next⟩
  | full =>
    simp only [sinkStep] at does
    split at does
    · cases does
    · cases does
      have taken := good.take serial
      exact ⟨taken.numbered,taken.linked,taken.last,taken.next⟩
  | flush =>
    cases some.inj does
    exact good.take serial
  | publish i =>
    obtain ⟨cut,found,rfl⟩ := map_eq_some_iff.mp does
    exact good.publish found

theorem Chained.verifies (good : Chained s) : verifyChain s.ordered = none := by
  have sorted : (s.produced.map Prod.fst).Pairwise fun a b => a.sequence.toNat ≤ b.sequence.toNat := by
    have numbers : (s.produced.map fun p => p.1.sequence.toNat).Pairwise (· ≤ ·) := by
      rw [good.numbered]
      exact pairwise_le_range'
    rw [pairwise_map] at numbers ⊢
    exact numbers
  rw [verifyChain_none,MerkleSink.ordered,sorted.insertionSort_eq]
  exact good.linked
end

theorem serial_checkpoints_chain (hash : Bytes → Bytes) (size : Int) :
    (∀ s, Reached (sinkStep hash) Serial (.new size) s → verifyChain s.ordered = none) ∧
      ∀ s, Reached (sinkStep hash) (fun _ _ => True) (.new size) s → Conserved hash s := by
  constructor
  · intro s run
    apply Chained.verifies
    apply run.keeps Chained
    · exact ⟨by simp [MerkleSink.new],by simp [MerkleSink.new],by simp [MerkleSink.new],.inl ⟨rfl,rfl⟩⟩
    · exact Chained.step
  · intro s run
    exact reached_conserved size run

def oneByOne : List SinkEvent := [.write login,.full,.publish 0,.write logout,.full,.publish 0]

theorem two_checkpoints_chain : ∃ s, Reached (sinkStep lengthHash) Serial (.new 1) s ∧ s.produced.length = 2 ∧ verifyChain s.ordered = none := by
  obtain ⟨s,run,two⟩ := play_reaches (sinkStep lengthHash) Serial (.new 1) (fun s => s.produced.length = 2) oneByOne (by decide)
  exact ⟨s,run,two,(serial_checkpoints_chain lengthHash 1).1 s run⟩

def overlapping : List SinkEvent := [.write login,.full,.write logout,.full,.publish 0,.publish 0]

theorem overlapping_checkpoints_break : ∃ s, Reached (sinkStep lengthHash) (fun _ _ => True) (.new 1) s ∧ s.due = 0 ∧ s.cuts = [] ∧
    verifyChain s.ordered = some (ascii "checkpoint 2: prev hash mismatch") :=
  play_reaches (sinkStep lengthHash) (fun _ _ => True) (.new 1) _ overlapping (by decide)
end FhServer.Audit

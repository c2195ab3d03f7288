import FhServer.MerkleAudit
import FhServer.Transitions

namespace FhServer.Audit
open GoBytes Transitions AuditEvent

structure Attempt where
  cancelled : Bool := false
  written : Bool := true
  requestID : Bytes := []
  now : Time

def stringsTrimReq (s : Bytes) : Bytes := if 4 < s.length ∧ s.take 4 = ascii "req_" then s.drop 4 else s

def AuditEvent.filled (e : AuditEvent) (a : Attempt) : AuditEvent :=
  { e with
    id := if e.id = [] then ascii "aud_" ++ stringsTrimReq a.requestID else e.id
    time := if e.time.isZero then a.now else e.time }

-- FileAuditSink.WriteAudit: the record that the file has got, if any.
def fileWriteAudit (e : AuditEvent) (a : Attempt) : Option AuditEvent :=
  if a.cancelled then none
  else if (e.filled a).marshal.isSome && a.written then some (e.filled a) else none

def auditHash : Bytes := ascii "audit_hash"
def auditPrevHash : Bytes := ascii "audit_prev_hash"

-- The last field is kept for the specification: the call whose hash was taken last did not reach the file.
structure HashChain where
  prev : Bytes := []
  file : List AuditEvent := []
  lost : Bool := false

def AuditEvent.mark (e : AuditEvent) (key value : Bytes) : AuditEvent := { e with metadata := e.metadata.set key (.string value) }

def HashChain.writeAudit (hash : Bytes → Bytes) (s : HashChain) (e : AuditEvent) (a : Attempt) : HashChain :=
  let e := e.mark auditPrevHash s.prev
  match e.marshal with
  | none => s
  | some b =>
    let persisted := fileWriteAudit (e.mark auditHash (hash b)) a
    ⟨hash b,s.file ++ persisted.toList,persisted.isNone⟩

def chainStep (hash : Bytes → Bytes) (s : HashChain) (call : AuditEvent × Attempt) : Option HashChain := some (s.writeAudit hash call.1 call.2)

def AuditEvent.unsealed (e : AuditEvent) : AuditEvent := { e with metadata := e.metadata.erase auditHash }

def Sealed (hash : Bytes → Bytes) (r : AuditEvent) : Prop :=
  r.unsealed.marshal.isSome ∧ r.metadata.get auditHash = r.unsealed.marshal.map fun b => .string (hash b)

def Succeeds (before r : AuditEvent) : Prop := r.metadata.get auditPrevHash = before.metadata.get auditHash

structure ValidTrail (hash : Bytes → Bytes) (file : List AuditEvent) : Prop where
  each : ∀ r ∈ file, Sealed hash r
  chain : file.IsChain Succeeds

instance (hash : Bytes → Bytes) (r : AuditEvent) : Decidable (Sealed hash r) := by unfold Sealed; infer_instance

instance : DecidableRel Succeeds := fun before r => by unfold Succeeds; infer_instance

def Traced (s : HashChain) (call : AuditEvent × Attempt) : Prop :=
  call.2.cancelled = false → call.2.written = true →
    call.1.id ≠ [] ∧ call.1.time.isZero = false ∧ call.1.metadata.get auditHash = none ∧ (s.lost = false ∨ s.file = [])

instance (s : HashChain) (call : AuditEvent × Attempt) : Decidable (Traced s call) := by unfold Traced; infer_instance

theorem filled_complete {e : AuditEvent} (id : e.id ≠ []) (time : e.time.isZero = false) (a : Attempt) : e.filled a = e := by
  simp [filled,id,time]

theorem fileWriteAudit_some (persisted : fileWriteAudit e a = some r) :
    a.cancelled = false ∧ a.written = true ∧ r = e.filled a := by
  unfold fileWriteAudit at persisted
  split at persisted
  · cases persisted
  rename_i going
  split at persisted
  · rename_i reached
    simp only [Bool.and_eq_true] at reached
    exact ⟨by simpa using going,reached.2,(Option.some.inj persisted).symm⟩
  · cases persisted

variable {hash : Bytes → Bytes}

theorem sealed_mark {e : AuditEvent} (fresh : e.metadata.get auditHash = none) (text : e.marshal = some b) : Sealed hash (e.mark auditHash (hash b)) := by
  have back : (e.mark auditHash (hash b)).unsealed = e := by
    simp [unsealed,mark,OrderedMap.erase_set,OrderedMap.erase_absent fresh]
  unfold Sealed
  rw [back,text]
  refine ⟨rfl,?_⟩
  simp [mark]

def PrevKept (s : HashChain) : Prop := s.lost = false → ∀ r ∈ s.file.getLast?, r.metadata.get auditHash = some (.string s.prev)

theorem PrevKept.write (kept : PrevKept s) (e : AuditEvent) (a : Attempt) : PrevKept (s.writeAudit hash e a) := by
  unfold HashChain.writeAudit
  cases text : (e.mark auditPrevHash s.prev).marshal with
  | none => simpa [text] using kept
  | some b =>
    cases persisted : fileWriteAudit ((e.mark auditPrevHash s.prev).mark auditHash (hash b)) a with
    | none => simp [PrevKept,text,persisted]
    | some r =>
      obtain ⟨-,-,rfl⟩ := fileWriteAudit_some persisted
      simp only [PrevKept,text,persisted,Option.toList_some,List.getLast?_concat]
      rintro - r ⟨⟩
      exact OrderedMap.get_set_self ..

theorem ValidTrail.write (good : ValidTrail hash s.file) (kept : PrevKept s) (traced : Traced s (e,a)) :
    ValidTrail hash (s.writeAudit hash e a).file := by
  have other : auditHash ≠ auditPrevHash := by decide
  unfold HashChain.writeAudit
  cases text : (e.mark auditPrevHash s.prev).marshal with
  | none => simpa [text] using good
  | some b =>
    simp only [text]
    cases persisted : fileWriteAudit ((e.mark auditPrevHash s.prev).mark auditHash (hash b)) a with
    | none => simpa using good
    | some r =>
      obtain ⟨going,written,rfl⟩ := fileWriteAudit_some persisted
      obtain ⟨id,time,fresh,last⟩ := traced going written
      rw [filled_complete (e := (e.mark auditPrevHash s.prev).mark auditHash (hash b)) id time]
      have unmarked : (e.mark auditPrevHash s.prev).metadata.get auditHash = none := by
        simp only [mark]
        rw [OrderedMap.get_set_ne _ _ other]
        exact fresh
      refine ⟨?_,?_⟩
      · exact List.forall_mem_append.mpr ⟨good.each,List.forall_mem_singleton.mpr (sealed_mark unmarked text)⟩
      · apply List.isChain_append.mpr
        refine ⟨good.chain,by simp,?_⟩
        intro before before_last r new
        cases Option.some.inj new
        have hashed : before.metadata.get auditHash = some (.string s.prev) := by
          rcases last with reached | empty
          · exact kept reached before before_last
          · rw [empty] at before_last
            cases before_last
        unfold Succeeds
        rw [hashed]
        simp only [mark]
        rw [OrderedMap.get_set_ne _ _ other.symm,OrderedMap.get_set_self]

theorem traced_trail_valid {s : HashChain} (run : Reached (chainStep hash) Traced {} s) : ValidTrail hash s.file := by
  refine (run.keeps (fun s => ValidTrail hash s.file ∧ PrevKept s) ⟨⟨by simp,by simp⟩,by simp [PrevKept]⟩ ?_).1
  rintro s call t ⟨good,kept⟩ traced does
  cases Option.some.inj does
  exact ⟨good.write kept traced,kept.write call.1 call.2⟩

def traced : List (AuditEvent × Attempt) := [(login,{ now := noon }),(logout,{ now := noon }),(login,{ now := noon, written := false })]

theorem two_records_valid : ∃ s, Reached (chainStep lengthHash) Traced {} s ∧ s.file.length = 2 ∧ ValidTrail lengthHash s.file := by
  obtain ⟨s,run,two⟩ := play_reaches (chainStep lengthHash) Traced {} (fun s => s.file.length = 2) traced (by decide +kernel)
  exact ⟨s,run,two,traced_trail_valid run⟩

def interrupted : List (AuditEvent × Attempt) := [(login,{ now := noon }),(logout,{ now := noon, written := false }),(login,{ now := noon })]

def unnamed : AuditEvent := { login with id := [] }

def undated : AuditEvent := { login with time := ⟨true,some (ascii "0001-01-01T00:00:00Z")⟩, action := [] }

def reused : AuditEvent := { login with action := [], metadata := login.metadata.set auditHash (.string (ascii "00")) }

theorem interrupted_trail_broken :
    (∃ s, Reached (chainStep lengthHash) (fun _ _ => True) {} s ∧ s.file.length = 2 ∧ ¬ s.file.IsChain Succeeds) ∧
    (∃ s, Reached (chainStep lengthHash) (fun _ _ => True) {} s ∧ ∃ r ∈ s.file, r.id = ascii "aud_7" ∧ ¬ Sealed lengthHash r) ∧
    (∃ s, Reached (chainStep lengthHash) (fun _ _ => True) {} s ∧ ∃ r ∈ s.file, r.time.isZero = false ∧ ¬ Sealed lengthHash r) ∧
    ∃ s, Reached (chainStep lengthHash) (fun _ _ => True) {} s ∧ s.file ≠ [] ∧ ∀ r ∈ s.file, ¬ Sealed lengthHash r := by
  have run {P : HashChain → Prop} [DecidablePred P] := play_reaches (chainStep lengthHash) (fun _ _ => True) {} P
  refine ⟨?_,?_,?_,?_⟩
  · exact run interrupted (by decide +kernel)
  · exact run [(unnamed,{ now := noon, requestID := ascii "req_7" })] (by decide +kernel)
  · exact run [(undated,{ now := ⟨false,some (ascii "2026-01-02T12:00:00.5Z")⟩ })] (by decide +kernel)
  · exact run [(reused,{ now := noon })] (by decide +kernel)
end FhServer.Audit

import FhServer.RoutePattern
import FhServer.Table
import FhServer.Transitions

namespace FhServer.ApiKey
open GoBytes GoText Transitions

structure KeyRecord where
  id : Bytes
  hash : Bytes := []
  start : Bytes := []
  scopes : List Bytes := []
  expiresAt : Option Int := none
  revoked : Bool := false
  allowedIPs : List Bytes := []
deriving DecidableEq

def KeyRecord.readBack (r : KeyRecord) : KeyRecord :=
  {r with
    id := jsonText r.id
    hash := jsonText r.hash
    start := jsonText r.start
    scopes := r.scopes.map jsonText
    allowedIPs := r.allowedIPs.map jsonText}

def find (id : Bytes) (records : List KeyRecord) : Option KeyRecord := records.find? fun r => r.id == id

-- The records are as decodeRegistry returns them, so that only a new one is changed by its way through JSON, and not in its
-- id when that is the id of a record that has been there before.
def setIn (r : KeyRecord) : List KeyRecord → List KeyRecord
  | [] => [r.readBack]
  | other :: records => if other.id = r.id then {r.readBack with id := r.id} :: records else other :: setIn r records

def revokeIn (id : Bytes) : List KeyRecord → Option (List KeyRecord)
  | [] => none
  | r :: records => if r.id = id then some ({r with revoked := true} :: records) else (revokeIn id records).map (r :: ·)

inductive RegistryCall where
  | set (r : KeyRecord)
  | revoke (id : Bytes)

def RegistryCall.saves (records : List KeyRecord) : RegistryCall → Option (List KeyRecord)
  | .set r => if r.id = [] then none else some (setIn r records)
  | .revoke id => revokeIn id records

-- A call has loaded the records or is not under way. The ids that Revoke has returned nil for, with no Set of them since,
-- are kept for the specification.
structure State where
  registry : List KeyRecord
  calls : Table Nat (Option (RegistryCall × List KeyRecord)) none := .empty
  revoked : List Bytes := []

inductive Event where
  | load (p : Nat) (call : RegistryCall)
  | save (p : Nat) (fails : Bool)

def RegistryCall.returned (revoked : List Bytes) : RegistryCall → List Bytes
  | .set r => revoked.filter fun id => id ≠ r.id
  | .revoke id => id :: revoked

def State.step (s : State) : Event → Option State
  | .load p call => if (s.calls.get p).isNone then some {s with calls := s.calls.set p (some (call,s.registry))} else none
  | .save p fails =>
    match s.calls.get p with
    | none => none
    | some (call,records) =>
      let left := {s with calls := s.calls.set p none}
      match call.saves records with
      | some saved => some (if fails then left else {left with registry := saved, revoked := call.returned s.revoked})
      | none => some left

-- Nothing was saved since the call loaded the records.
def undisturbed (s : State) : Event → Bool
  | .load _ _ => true
  | .save p _ => (s.calls.get p).all fun call => call.2 == s.registry

-- ConstantTimeHashEqual and ipAllowed.
structure Checks where
  hashEqual : Bytes → Bytes → Bool
  ipAllowed : Bytes → List Bytes → Bool

def splitKey (key : Bytes) : Bytes :=
  match indexByte (trimSpace key) 46,lastIndexByte (trimSpace key) 95 with
  | some (i+1),_ => (trimSpace key).take (i+1)
  | _,some (i+1) => (trimSpace key).take (i+1)
  | _,_ => trimSpace key

def verifyRecord (checks : Checks) (key ip : Bytes) (now : Int) (r : KeyRecord) : Bool :=
  !r.revoked && !r.hash.isEmpty && checks.hashEqual key r.hash && r.expiresAt.all (fun time => decide (now ≤ time)) &&
    r.start.isPrefixOf key && (r.allowedIPs.isEmpty || checks.ipAllowed ip r.allowedIPs)

-- The record with which New lets a request through, when the store is its only source of keys.
def authenticates (checks : Checks) (requiredScopes : List Bytes) (s : State) (key ip : Bytes) (now : Int) : Option KeyRecord :=
  if key = [] ∨ splitKey key = [] then none
  else (find (splitKey key) s.registry).filter fun r => verifyRecord checks key ip now r && requiredScopes.all r.scopes.contains

def Barred (records : List KeyRecord) (id : Bytes) : Prop := (find id records).any (·.revoked) = true

section
variable {s t : State} {id gone : Bytes} {r : KeyRecord} {records saved : List KeyRecord} {e : Event}

theorem barred_cons : Barred (r :: records) id ↔ if r.id = id then r.revoked = true else Barred records id := by
  by_cases here : r.id = id <;> simp [Barred,find,here]

theorem Barred.setIn (barred : Barred records id) (other : id ≠ r.id) : Barred (setIn r records) id := by
  induction records with
  | nil => cases barred
  | cons first records ih =>
    rw [ApiKey.setIn]
    split <;> grind [barred_cons]

theorem Barred.revokeIn (saves : revokeIn gone records = some saved) (before : id = gone ∨ Barred records id) : Barred saved id := by
  induction records generalizing saved with
  | nil => cases saves
  | cons first records ih =>
    rw [ApiKey.revokeIn] at saves
    split at saves
    · cases saves
      grind [barred_cons]
    · obtain ⟨later,does,rfl⟩ := Option.map_eq_some_iff.mp saves
      grind [barred_cons]

theorem barred_step (barred : ∀ id ∈ s.revoked, Barred s.registry id) (meets : undisturbed s e = true) (does : s.step e = some t) :
    ∀ id ∈ t.revoked, Barred t.registry id := by
  cases e with
  | load p call =>
    obtain ⟨-,⟨⟩⟩ := Option.ite_none_right_eq_some.mp does
    exact barred
  | save p fails =>
    rw [State.step] at does
    split at does
    · cases does
    rename_i call records loaded
    rw [undisturbed,loaded] at meets
    cases beq_iff_eq.mp meets
    split at does <;> cases does
    · rename_i saved saves
      split
      · exact barred
      intro id mem
      cases call with
      | set r =>
        obtain ⟨mem,other⟩ := List.mem_filter.mp mem
        obtain ⟨-,same⟩ := Option.ite_none_left_eq_some.mp saves
        exact Option.some.inj same ▸ (barred id mem).setIn (of_decide_eq_true other)
      | revoke gone => exact .revokeIn saves ((List.mem_cons.mp mem).imp_right (barred id))
    · exact barred

theorem revoked_key_refused {registry : List KeyRecord} (run : Reached State.step (fun s e => undisturbed s e = true) ⟨registry,.empty,[]⟩ s) :
    ∀ id ∈ s.revoked, ∀ checks scopes key ip now r, authenticates checks scopes s key ip now = some r → r.id ≠ id := by
  have barred : ∀ id ∈ s.revoked, Barred s.registry id := run.keeps (fun s => ∀ id ∈ s.revoked, Barred s.registry id) (by simp) barred_step
  rintro id mem checks scopes key ip now r passes rfl
  rw [authenticates] at passes
  split at passes
  · cases passes
  obtain ⟨found,verified⟩ := Option.filter_eq_some_iff.mp passes
  have is : r.id = splitKey key := by simpa using List.find?_some found
  have revoked := barred r.id mem
  rw [Barred,is,found] at revoked
  simp_all [verifyRecord]
end

def takesAll : Checks := ⟨fun _ _ => true,fun _ _ => true⟩

def oneKey : State := ⟨[{id := [97], hash := [1]}],.empty,[]⟩

def addOther : RegistryCall := .set {id := [98], hash := [1]}

theorem revoked_key_gone : ∃ s, Reached State.step (fun s e => undisturbed s e = true) oneKey s ∧ [97] ∈ s.revoked ∧
    ∀ key r, authenticates takesAll [] s key [] 0 = some r → r.id ≠ [97] := by
  obtain ⟨s,run,gone⟩ := play_reaches State.step (fun s e => undisturbed s e = true) oneKey (fun s => [97] ∈ s.revoked)
    [.load 0 (.revoke [97]),.save 0 false,.load 1 addOther,.save 1 false] (by decide)
  exact ⟨s,run,gone,fun key => revoked_key_refused run [97] gone takesAll [] key [] 0⟩

theorem revoked_key_back : ∃ s, Reached State.step (fun _ _ => True) oneKey s ∧ [97] ∈ s.revoked ∧
    (authenticates takesAll [] s [97,46,120] [] 0).any (·.id == [97]) = true :=
  play_reaches State.step (fun _ _ => True) oneKey (fun s => [97] ∈ s.revoked ∧ (authenticates takesAll [] s [97,46,120] [] 0).any (·.id == [97]) = true)
    [.load 1 addOther,.load 0 (.revoke [97]),.save 0 false,.save 1 false] (by decide)
end FhServer.ApiKey

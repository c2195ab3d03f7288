import FhServer.Idempotency
import FhServer.Transitions

namespace FhServer
open IdemStore Transitions

-- Requests that go through the middleware: Begin, and for one that is new a Complete before its response. The deferred Abort
-- comes first where the handlers have sent none; the error handler's response completes the request even then.

structure IdemRequest where
  key : Bytes
  reqHash : Bytes
  working : Bool
  aborted : Bool := false

-- The last two fields are kept for the specification: the request that Begin last gave a key to, and the request whose
-- call last wrote the key's record.
structure IdemServer where
  now : Int := 1
  store : IdemStore := {}
  requests : Table Nat (Option IdemRequest) none := .empty
  owners : Table Bytes (Option Nat) none := .empty
  writers : Table Bytes (Option Nat) none := .empty

inductive IdemEvent where
  | passes (time : Nat)
  | begin (q : Nat) (key reqHash method path : Bytes)
  | complete (q : Nat) (status : Int) (contentType : Bytes) (headers : List (Bytes × List Bytes)) (response : Bytes)
  | abort (q : Nat)
  | purge (asked : Int)

namespace IdemServer

def calls (s : IdemServer) (q : Nat) (r : IdemRequest) (store : IdemStore) (writers : Table Bytes (Option Nat) none) : IdemServer :=
  {s with
    store := store
    requests := s.requests.set q (some r)
    writers := writers}

def finds (s : IdemServer) (r : IdemRequest) : Bool := (s.store.records.get r.key).any fun rec => rec.requestHash == r.reqHash

def step (cfg : IdemConfig) (s : IdemServer) : IdemEvent → Option IdemServer
  | .passes time => some {s with now := s.now+time}
  | .begin q key reqHash method path =>
    if (s.requests.get q).isSome then none
    else
      let (decision,_,store) := s.store.beginIdem cfg key reqHash method path s.now
      let isNew := decision == .idemNew
      some
        {s with
          store := store
          requests := s.requests.set q (some ⟨key,reqHash,isNew,false⟩)
          owners := if isNew then s.owners.set key (some q) else s.owners
          writers := if isNew then s.writers.set key (some q) else s.writers}
  | .complete q status contentType headers response =>
    match s.requests.get q with
    | some r =>
      if r.working then
        some (s.calls q {r with working := false} (s.store.completeIdem r.key r.reqHash status contentType headers response s.now).2
          (if s.finds r then s.writers.set r.key (some q) else s.writers))
      else none
    | none => none
  | .abort q =>
    match s.requests.get q with
    | some r =>
      if r.working && !r.aborted then some (s.calls q {r with aborted := true} (s.store.abortIdem r.key r.reqHash s.now).2 s.writers)
      else none
    | none => none
  | .purge asked => some {s with store := (s.store.purgeExpired asked s.now).2}
end IdemServer

def takenOver (s : IdemServer) (q : Nat) : Bool :=
  match s.requests.get q with
  | some r => s.owners.get r.key != some q
  | none => false

-- A request whose key was taken over finds, when it ends, no record with its own hash; to an Abort a record that is not
-- being processed is as good as none.
def keepsOwner (s : IdemServer) : IdemEvent → Bool
  | .complete q _ _ _ _ => !takenOver s q || !(s.requests.get q).any fun r => s.finds r
  | .abort q =>
    !takenOver s q || !(s.requests.get q).any fun r =>
      (s.store.records.get r.key).any fun rec => rec.requestHash == r.reqHash && rec.state == .processing
  | _ => true

def IdemEvent.endsRequest (q : Nat) : IdemEvent → Prop
  | .complete q' _ _ _ _ | .abort q' => q' = q
  | _ => False

section
variable {cfg : IdemConfig} {s t : IdemServer} {e : IdemEvent} {q : Nat} {r : IdemRequest} {store : IdemStore}

theorem complete_same_iff :
    (store.completeIdem key reqHash status contentType headers response now).2 = store ↔
      (store.records.get key).any (fun rec => rec.requestHash == reqHash) = false := by
  rw [completeIdem]
  split
  · simp [*]
  rename_i rec found
  rw [found,Option.any_some,beq_eq_false_iff_ne]
  split_ifs with other
  · exact ⟨fun _ => other,fun _ => rfl⟩
  · refine ⟨fun same => ?_,fun differ => absurd differ other⟩
    simpa [IdemStore.put] using congrArg (fun s => s.log.length) same

theorem abort_same_iff :
    (store.abortIdem key reqHash now).2 = store ↔
      (store.records.get key).any (fun rec => rec.requestHash == reqHash && rec.state == .processing) = false := by
  rw [abortIdem]
  split
  · simp [*]
  rename_i rec found
  rw [found,Option.any_some]
  split_ifs with other state
  · simp [other]
  · simp [state]
  refine ⟨fun same => ?_,fun unfound => ?_⟩
  · simpa using congrArg (fun s => s.log.length) same
  · simp only [ne_eq,Decidable.not_not] at other state
    simp [other,state] at unfound

theorem complete_step
    (does : s.step cfg (.complete q status contentType headers response) = some t) :
    ∃ r, s.requests.get q = some r ∧
      t = s.calls q {r with working := false} (s.store.completeIdem r.key r.reqHash status contentType headers response s.now).2
        (if s.finds r then s.writers.set r.key (some q) else s.writers) ∧
      (keepsOwner s (.complete q status contentType headers response) = true ↔ s.owners.get r.key = some q ∨ s.finds r = false) := by
  rw [IdemServer.step] at does
  split at does
  · rename_i r found
    split at does <;> cases does
    refine ⟨r,found,rfl,?_⟩
    simp [keepsOwner,takenOver,found]
  · cases does

theorem abort_step (does : s.step cfg (.abort q) = some t) :
    ∃ r, s.requests.get q = some r ∧ t = s.calls q {r with aborted := true} (s.store.abortIdem r.key r.reqHash s.now).2 s.writers ∧
      (keepsOwner s (.abort q) = true ↔ s.owners.get r.key = some q ∨
        (s.store.records.get r.key).any (fun rec => rec.requestHash == r.reqHash && rec.state == .processing) = false) := by
  rw [IdemServer.step] at does
  split at does
  · rename_i r found
    split at does <;> cases does
    refine ⟨r,found,rfl,?_⟩
    simp [keepsOwner,takenOver,found]
  · cases does

theorem taken_over_harmless_iff (does : s.step cfg e = some t) (ends : e.endsRequest q) (gone : takenOver s q = true) :
    t.store = s.store ↔ keepsOwner s e = true := by
  cases e with
  | complete q' status contentType headers response =>
    cases ends
    obtain ⟨r,found,rfl,keeps⟩ := complete_step does
    have other : s.owners.get r.key ≠ some q := by simpa [takenOver,found] using gone
    rw [keeps,or_iff_right other]
    exact complete_same_iff
  | abort q' =>
    cases ends
    obtain ⟨r,found,rfl,keeps⟩ := abort_step does
    have other : s.owners.get r.key ≠ some q := by simpa [takenOver,found] using gone
    rw [keeps,or_iff_right other]
    exact abort_same_iff
  | _ => cases ends

def OwnersWrite (s : IdemServer) : Prop := ∀ key, (s.store.records.get key).isSome = true → s.writers.get key = s.owners.get key

theorem complete_present
    (there : ((store.completeIdem key reqHash status contentType headers response now).2.records.get key').isSome = true) :
    (store.records.get key').isSome = true := by
  rw [completeIdem] at there
  split at there
  · exact there
  rename_i rec found
  split at there
  · exact there
  rw [IdemStore.put,Table.get_set] at there
  split_ifs at there with here
  · rw [here,found]
    rfl
  · exact there

theorem abort_present
    (there : ((store.abortIdem key reqHash now).2.records.get key').isSome = true) : (store.records.get key').isSome = true := by
  rw [abortIdem] at there
  split at there
  · exact there
  split_ifs at there
  · exact there
  · exact there
  rw [Table.get_set] at there
  split_ifs at there
  · cases there
  · exact there

theorem purge_present (there : ((store.purgeExpired asked now).2.records.get key).isSome = true) :
    (store.records.get key).isSome = true := by
  obtain ⟨rec,kept⟩ := Option.isSome_iff_exists.mp there
  exact Option.isSome_iff_exists.mpr ⟨rec,(Option.filter_eq_some_iff.mp kept).1⟩

theorem OwnersWrite.begins (write : OwnersWrite s) (does : s.step cfg (.begin q key reqHash method path) = some t) :
    OwnersWrite t := by
  rw [IdemServer.step] at does
  split at does
  · cases does
  rw [Option.some.injEq] at does
  subst does
  rcases begin_cases cfg s.store key reqHash method path s.now with ⟨decision,-,old,answer,same⟩ | ⟨-,answer,rec,wrote,-⟩
  · have notNew : (decision == .idemNew) = false := beq_eq_false_iff_ne.mpr old
    simpa [OwnersWrite,answer,same,notNew] using write
  intro key' there
  simp only [answer,wrote,IdemStore.put,beq_self_eq_true,if_true,Table.get_set] at there ⊢
  split_ifs at there ⊢ with here
  · rfl
  · exact write key' there

theorem OwnersWrite.step (write : OwnersWrite s) (keeps : keepsOwner s e = true) (does : s.step cfg e = some t) : OwnersWrite t := by
  cases e with
  | passes time =>
    cases does
    exact write
  | begin q key reqHash method path => exact write.begins does
  | complete q status contentType headers response =>
    obtain ⟨r,-,rfl,owns⟩ := complete_step does
    intro key there
    have before := write key (complete_present there)
    change (if s.finds r then s.writers.set r.key (some q) else s.writers).get key = s.owners.get key
    split_ifs with finds
    · have owner := (owns.mp keeps).resolve_right (by simp [finds])
      rw [Table.get_set]
      split_ifs with here
      · rw [here,owner]
      · exact before
    · exact before
  | abort q =>
    obtain ⟨r,-,rfl,-⟩ := abort_step does
    exact fun key there => write key (abort_present there)
  | purge asked =>
    cases does
    exact fun key there => write key (purge_present there)

theorem key_exclusive (run : Reached (IdemServer.step cfg) (fun s e => keepsOwner s e = true) {} s) :
    OwnersWrite s ∧ ∀ e q t, s.step cfg e = some t → e.endsRequest q → takenOver s q = true → (t.store = s.store ↔ keepsOwner s e = true) := by
  refine ⟨run.keeps OwnersWrite (fun _ there => Bool.noConfusion there) OwnersWrite.step,?_⟩
  intro e q t does ends gone
  exact taken_over_harmless_iff does ends gone
end

def takeover (time : Nat) (reqHash : Bytes) : List IdemEvent :=
  [.begin 1 (ascii "k") (ascii "h") (ascii "POST") (ascii "/"),.passes time,.begin 2 (ascii "k") reqHash (ascii "POST") (ascii "/")]

-- The record of the first request has expired, and the second is another request: the first ends without effect.
theorem expired_owner_harmless :
    ∃ s, Reached (IdemServer.step {}) (fun s e => keepsOwner s e = true) {} s ∧ takenOver s 1 = true ∧
      ∃ t, s.step {} (.complete 1 200 [] [] []) = some t ∧ t.store = s.store := by
  obtain ⟨s,run,gone,keeps,enabled⟩ := play_reaches (IdemServer.step {}) (fun s e => keepsOwner s e = true) {}
    (fun s => takenOver s 1 = true ∧ keepsOwner s (.complete 1 200 [] [] []) = true ∧ (s.step {} (.complete 1 200 [] [] [])).isSome = true)
    (takeover 86401000000000 (ascii "other")) (by decide)
  obtain ⟨t,does⟩ := Option.isSome_iff_exists.mp enabled
  exact ⟨s,run,gone,t,does,((key_exclusive run).2 _ 1 t does rfl gone).mpr keeps⟩

-- The first request outlives the processing timeout and its Complete overwrites the record of the second: a third request,
-- told that the key was being processed, is then given the first one's response.
theorem late_complete_overwrites :
    ∃ s, Reached (IdemServer.step {}) (fun _ _ => True) {} s ∧ takenOver s 1 = true ∧
      (s.store.beginIdem {} (ascii "k") (ascii "h") [] [] s.now).1 = .idemProcessing ∧
      ∃ t, s.step {} (.complete 1 200 [] [] []) = some t ∧ (t.store.beginIdem {} (ascii "k") (ascii "h") [] [] t.now).1 = .idemReplay := by
  obtain ⟨s,run,gone,before,after⟩ := play_reaches (IdemServer.step {}) (fun _ _ => True) {}
    (fun s => takenOver s 1 = true ∧ (s.store.beginIdem {} (ascii "k") (ascii "h") [] [] s.now).1 = .idemProcessing ∧
      (s.step {} (.complete 1 200 [] [] [])).any (fun t => (t.store.beginIdem {} (ascii "k") (ascii "h") [] [] t.now).1 == .idemReplay) = true)
    (takeover 61000000000 (ascii "h")) (by decide)
  obtain ⟨t,does,replayed⟩ := (Option.any_eq_true ..).mp after
  exact ⟨s,run,gone,before,t,does,eq_of_beq replayed⟩
end FhServer

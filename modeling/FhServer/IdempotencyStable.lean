import FhServer.IdempotencyOwner

namespace FhServer
open GoText IdemStore Transitions IdemServer Bool

inductive ReplayCall where
  | set (key value : Bytes)
  | type (mime : Bytes)

def setReplayHeader (k v : Bytes) : Option ReplayCall :=
  if (replayDropped ++ [ascii "Trailer"]).any fun name => equalFold k name then none
  else if equalFold k (ascii "Content-Type") then some (.type v)
  else some (.set k v)

structure ReplayAnswer where
  calls : List ReplayCall
  status : Int
  body : Bytes

def replayAnswer (replayHeaderValue : Bytes) (rec : IdempotencyRecord) : ReplayAnswer where
  calls := .set (ascii "X-Idempotency-Replayed") replayHeaderValue ::
    (rec.headers.flatMap (fun h => h.2.filterMap (setReplayHeader h.1)) ++ if rec.contentType ≠ [] then [.type rec.contentType] else [])
  status := rec.statusCode
  body := rec.response

def IdemServer.replays (cfg : IdemConfig) (s : IdemServer) (key reqHash method path : Bytes) : Option IdempotencyRecord :=
  match s.store.beginIdem cfg key reqHash method path s.now with
  | (.idemReplay,rec,_) => some rec
  | _ => none

-- A replay before and a replay after give the same answer, unless the record of the first has expired in between.
def ReplayStable (cfg : IdemConfig) (value : Bytes) (s t : IdemServer) : Prop :=
  ∀ key reqHash method path method' path' rec rec', s.replays cfg key reqHash method path = some rec → outdated t.now rec = false →
    t.replays cfg key reqHash method' path' = some rec' → replayAnswer value rec' = replayAnswer value rec

def unreplayed (s : IdemServer) (q : Nat) : Bool :=
  !(s.requests.get q).any fun r => (s.store.records.get r.key).any fun rec =>
    rec.requestHash == r.reqHash && rec.state == .completed && !outdated s.now rec

def completesOnce (s : IdemServer) : IdemEvent → Prop
  | .complete q _ _ _ _ => unreplayed s q = true
  | .purge asked => asked ≤ s.now
  | _ => True

instance (s : IdemServer) (e : IdemEvent) : Decidable (completesOnce s e) := by
  unfold completesOnce
  split <;> infer_instance

section
variable {cfg : IdemConfig} {s t u : IdemServer} {e : IdemEvent} {key reqHash method path : Bytes} {rec : IdempotencyRecord}

theorem outdated_earlier {now : Int} (order : now ≤ later) (valid : outdated later rec = false) : outdated now rec = false := by
  rw [outdated,and_eq_false_iff] at valid ⊢
  refine valid.imp_right fun future => decide_eq_false ?_
  lia

theorem expired_valid {now : Int} (valid : outdated now rec = false) : rec.expired now = false := by
  rw [outdated,and_eq_false_iff] at valid
  rw [IdempotencyRecord.expired,and_eq_false_iff]
  refine valid.imp_right fun future => decide_eq_false ?_
  lia

theorem replays_iff : s.replays cfg key reqHash method path = some rec ↔
    ∃ found, s.store.records.get key = some found ∧ found.expired s.now = false ∧ found.requestHash = reqHash ∧
      found.state = .completed ∧ rec = cloneIdem found := by
  rw [replays]
  constructor
  · intro replay
    split at replay
    · rename_i answered
      cases replay
      obtain ⟨found,there,valid,hash,state⟩ := (begin_replay_iff cfg).mp (congrArg Prod.fst answered)
      refine ⟨found,there,valid,hash,state,?_⟩
      rw [begin_replay_record there valid hash state] at answered
      exact (congrArg (fun result => result.2.1) answered).symm
    · cases replay
  · rintro ⟨found,there,valid,hash,state,rfl⟩
    rw [begin_replay_record there valid hash state]

section
variable {store : IdemStore} {now : Int} {key' : Bytes}
section
variable (there : store.records.get key = some rec)
include there

theorem begin_kept (state : rec.state = .completed) (valid : outdated now rec = false) :
    (store.beginIdem cfg key' reqHash method path now).2.2.records.get key = some rec := by
  rcases begin_cases cfg store key' reqHash method path now with ⟨_,-,-,-,same⟩ | ⟨resolved,-,fresh,wrote,-⟩
  · rw [same]
    exact there
  have other : key ≠ key' := by
    rintro rfl
    rw [there,resolveIdem,expired_valid valid,if_neg Bool.false_ne_true,state] at resolved
    split at resolved <;> cases resolved
  rw [wrote,IdemStore.put,Table.get_set,if_neg other]
  exact there

theorem complete_kept (other : key' = key → rec.requestHash ≠ reqHash) :
    (store.completeIdem key' reqHash status contentType headers response now).2.records.get key = some rec := by
  rw [completeIdem]
  split
  · exact there
  rename_i found at_
  split
  · exact there
  rename_i hash
  have elsewhere : key ≠ key' := by
    rintro rfl
    cases there.symm.trans at_
    exact hash (other rfl)
  rw [IdemStore.put,Table.get_set,if_neg elsewhere]
  exact there

theorem abort_kept (state : rec.state = .completed) :
    (store.abortIdem key' reqHash now).2.records.get key = some rec := by
  rw [abortIdem]
  split
  · exact there
  rename_i found at_
  split_ifs with hash ended
  · exact there
  · exact there
  have elsewhere : key ≠ key' := by
    rintro rfl
    cases there.symm.trans at_
    exact ended fun processing => by cases state.symm.trans processing
  rw [Table.get_set,if_neg elsewhere]
  exact there

theorem purge_kept (valid : outdated now rec = false) (past : asked ≤ now) :
    (store.purgeExpired asked now).2.records.get key = some rec := by
  refine Option.filter_eq_some_iff.mpr ⟨there,?_⟩
  split
  · rw [valid]
    rfl
  · rw [outdated_earlier past valid]
    rfl
end
end

theorem record_kept (there : s.store.records.get key = some rec) (state : rec.state = .completed) (valid : outdated s.now rec = false)
    (meets : completesOnce s e) (does : s.step cfg e = some t) : t.store.records.get key = some rec := by
  cases e with
  | passes time =>
    cases does
    exact there
  | begin q key' reqHash method path =>
    rw [step] at does
    split at does
    · cases does
    · cases does
      exact begin_kept there state valid
  | complete q status contentType headers response =>
    obtain ⟨r,found,rfl,-⟩ := complete_step does
    refine complete_kept there fun here same => ?_
    have unmet : unreplayed s q = true := meets
    simp [unreplayed,found,here,there,same,state,valid] at unmet
  | abort q =>
    obtain ⟨r,-,rfl,-⟩ := abort_step does
    exact abort_kept there state
  | purge asked =>
    cases does
    exact purge_kept there valid meets

theorem step_clock (does : s.step cfg e = some t) : s.now ≤ t.now := by
  cases e with
  | passes time =>
    cases does
    exact Int.le_add_of_nonneg_right (Int.natCast_nonneg time)
  | begin q key reqHash method path =>
    rw [step] at does
    split at does
    · cases does
    · cases does
      exact Int.le_refl _
  | complete q status contentType headers response =>
    obtain ⟨r,-,rfl,-⟩ := complete_step does
    exact Int.le_refl _
  | abort q =>
    obtain ⟨r,-,rfl,-⟩ := abort_step does
    exact Int.le_refl _
  | purge asked =>
    cases does
    exact Int.le_refl _

theorem record_stays (there : s.store.records.get key = some rec) (state : rec.state = .completed)
    (run : Reached (step cfg) completesOnce s t) : outdated t.now rec = false → t.store.records.get key = some rec := by
  refine run.keeps (fun t => outdated t.now rec = false → t.store.records.get key = some rec) (fun _ => there) ?_
  intro t e u kept meets does valid
  have before := outdated_earlier (step_clock does) valid
  exact record_kept (kept before) state before meets does

theorem stable_of_kept (kept : ∀ key rec, s.store.records.get key = some rec → rec.state = .completed →
    outdated t.now rec = false → t.store.records.get key = some rec) : ReplayStable cfg value s t := by
  intro key reqHash method path method' path' rec rec' first valid second
  obtain ⟨found,there,-,-,state,rfl⟩ := replays_iff.mp first
  obtain ⟨found',there',-,-,-,rfl⟩ := replays_iff.mp second
  cases (kept key found there state valid).symm.trans there'
  rfl

theorem complete_changes (asked : s.requests.get q = some r) (working : r.working = true)
    (there : s.store.records.get r.key = some rec) (hash : rec.requestHash = r.reqHash) (state : rec.state = .completed)
    (valid : outdated s.now rec = false) :
    ∃ t, s.step cfg (.complete q (rec.statusCode + 1) [] [] []) = some t ∧ ¬ ReplayStable cfg value s t := by
  let late := rec.complete (rec.statusCode + 1) [] [] [] s.now
  let t := s.calls q {r with working := false} (s.store.completeIdem r.key r.reqHash (rec.statusCode + 1) [] [] [] s.now).2
    (if s.finds r then s.writers.set r.key (some q) else s.writers)
  have does : s.step cfg (.complete q (rec.statusCode + 1) [] [] []) = some t := by simp [step,asked,working,t]
  have wrote : t.store.records.get r.key = some late := by
    show (s.store.completeIdem r.key r.reqHash (rec.statusCode + 1) [] [] [] s.now).2.records.get r.key = some late
    rw [completeIdem,there]
    simp only [hash,ne_eq,not_true_eq_false,if_false]
    rw [IdemStore.put,Table.get_set,if_pos rfl]
  have fresh := expired_valid valid
  have first : s.replays cfg r.key r.reqHash [] [] = some (cloneIdem rec) := replays_iff.mpr ⟨rec,there,fresh,hash,state,rfl⟩
  have second : t.replays cfg r.key r.reqHash [] [] = some (cloneIdem late) := replays_iff.mpr ⟨late,wrote,fresh,hash,rfl,rfl⟩
  refine ⟨t,does,fun stable => ?_⟩
  have same := congrArg ReplayAnswer.status (stable _ _ _ _ _ _ _ _ first valid second)
  have status : rec.statusCode + 1 = rec.statusCode := same
  lia

-- Replays are stable along every run in which no request completes a record that is replayed already, and one that does can
-- change them.
theorem replay_stable (cfg : IdemConfig) (value : Bytes) (s : IdemServer) :
    (∀ t, Reached (step cfg) completesOnce s t → ReplayStable cfg value s t) ∧
    ∀ q r, s.requests.get q = some r → r.working = true →
      ((∀ status contentType headers response t, s.step cfg (.complete q status contentType headers response) = some t → ReplayStable cfg value s t) ↔
        unreplayed s q = true) := by
  refine ⟨fun t run => stable_of_kept fun key rec there state valid => record_stays there state run valid,?_⟩
  intro q r asked working
  constructor
  · intro stable
    by_contra replayed
    rw [unreplayed,not_eq_true,not_eq_false',asked,Option.any_some,Option.any_eq_true] at replayed
    obtain ⟨rec,there,found⟩ := replayed
    simp only [and_eq_true,beq_iff_eq,not_eq_true'] at found
    obtain ⟨t,does,changes⟩ := complete_changes asked working there found.1.1 found.1.2 found.2
    exact changes (stable _ _ _ _ t does)
  · intro meets status contentType headers response t does
    refine stable_of_kept fun key rec there state valid => ?_
    have once : completesOnce s (.complete q status contentType headers response) := meets
    exact record_kept there state (outdated_earlier (step_clock does) valid) once does
end
section
def bothReplay (s t : IdemServer) (check : ReplayAnswer → ReplayAnswer → Bool) : Bool :=
  (s.replays {} (ascii "k") (ascii "h") [] []).any fun rec => !outdated t.now rec &&
    (t.replays {} (ascii "k") (ascii "h") [] []).any fun rec' => check (replayAnswer (ascii "true") rec) (replayAnswer (ascii "true") rec')

theorem bothReplay_iff : bothReplay s t check = true ↔
    ∃ rec rec', s.replays {} (ascii "k") (ascii "h") [] [] = some rec ∧ outdated t.now rec = false ∧
      t.replays {} (ascii "k") (ascii "h") [] [] = some rec' ∧ check (replayAnswer (ascii "true") rec) (replayAnswer (ascii "true") rec') = true := by
  simp only [bothReplay,Option.any_eq_true,and_eq_true,not_eq_true']
  constructor
  · rintro ⟨rec,first,valid,rec',second,holds⟩
    exact ⟨rec,rec',first,valid,second,holds⟩
  · rintro ⟨rec,rec',first,valid,second,holds⟩
    exact ⟨rec,first,valid,rec',second,holds⟩

theorem replay_hour_later : ∃ s t, Reached (step {}) (fun _ _ => True) {} s ∧ Reached (step {}) completesOnce s t ∧
    ∃ rec rec', s.replays {} (ascii "k") (ascii "h") [] [] = some rec ∧ t.replays {} (ascii "k") (ascii "h") [] [] = some rec' ∧
      replayAnswer (ascii "true") rec' = replayAnswer (ascii "true") rec := by
  obtain ⟨s,run,after⟩ := play_reaches (step {}) (fun _ _ => True) {}
    (fun s => (play (step {}) completesOnce s [.passes 3600000000000]).any (fun t => decide (bothReplay s t (fun _ _ => true) = true)) = true)
    [.begin 1 (ascii "k") (ascii "h") [] [],.complete 1 201 [] [] (ascii "made")] (by decide)
  obtain ⟨t,later,both⟩ := play_reaches (step {}) completesOnce s (fun t => bothReplay s t (fun _ _ => true) = true) _ after
  obtain ⟨rec,rec',first,valid,second,-⟩ := bothReplay_iff.mp both
  exact ⟨s,t,run,later,rec,rec',first,second,(replay_stable {} (ascii "true") s).1 t later _ _ _ _ _ _ rec rec' first valid second⟩

-- The first request outlives the processing timeout. The second takes the key and completes, and its response is replayed;
-- then the first completes, and from there on its own response is replayed.
theorem late_complete_replayed : ∃ s t, Reached (step {}) (fun _ _ => True) {} s ∧ Reached (step {}) (fun _ _ => True) s t ∧
    ∃ rec rec', s.replays {} (ascii "k") (ascii "h") [] [] = some rec ∧ outdated t.now rec = false ∧
      t.replays {} (ascii "k") (ascii "h") [] [] = some rec' ∧ (replayAnswer (ascii "true") rec).status = 201 ∧
      (replayAnswer (ascii "true") rec').status = 200 := by
  let check (one two : ReplayAnswer) := decide (one.status = 201) && decide (two.status = 200)
  obtain ⟨s,run,after⟩ := play_reaches (step {}) (fun _ _ => True) {}
    (fun s => (play (step {}) (fun _ _ => True) s [.complete 1 200 [] [] []]).any (fun t => decide (bothReplay s t check = true)) = true)
    (takeover 61000000000 (ascii "h") ++ [.complete 2 201 [] [] (ascii "made")]) (by decide)
  obtain ⟨t,later,both⟩ := play_reaches (step {}) (fun _ _ => True) s (fun t => bothReplay s t check = true) _ after
  obtain ⟨rec,rec',first,valid,second,statuses⟩ := bothReplay_iff.mp both
  obtain ⟨one,two⟩ := and_eq_true_iff.mp statuses
  exact ⟨s,t,run,later,rec,rec',first,valid,second,of_decide_eq_true one,of_decide_eq_true two⟩
end
end FhServer

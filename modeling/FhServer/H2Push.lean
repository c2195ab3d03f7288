import FhServer.H2Send

namespace FhServer
open Transitions SendState

-- A push that the peer does not want is stopped only by the handler's own SetEnablePush(false).
def keepsPeace (s : SendState) : SendEvent → Bool
  | .pushStep p => (s.pushes.get p).phase != .starts || !(s.pushes.get p).unwelcome || s.pushState.disabled
  | _ => true

def PushPhase.passed : PushPhase → Bool
  | .unused | .starts | .returned _ => false
  | _ => true

structure PushSafe (s : SendState) : Prop where
  calls : ∀ p, (s.pushes.get p).unwelcome = true → (s.pushes.get p).phase.passed = false
  promises : ∀ q ∈ s.promises, q.unwelcome = false

section
variable {cfg : SendConfig} {s t : SendState} {e : SendEvent} {p : Nat}

theorem PushSafe.congr (safe : PushSafe s) (pushes : t.pushes = s.pushes) (promises : t.promises = s.promises) : PushSafe t where
  calls := pushes ▸ safe.calls
  promises := promises ▸ safe.promises

theorem PushSafe.onPush (safe : PushSafe s)
    (one : (g (s.pushes.get p)).unwelcome = true → (g (s.pushes.get p)).phase.passed = false) : PushSafe (s.onPush p g) where
  calls := s.pushes.update_all (k := p) (f := g) (P := fun _ c => c.unwelcome = true → c.phase.passed = false) safe.calls one
  promises := safe.promises

theorem PushSafe.goes_on (safe : PushSafe s) (passed : (s.pushes.get p).phase.passed = true) : PushSafe (s.toPhase p phase) := by
  refine safe.onPush fun unwelcome => ?_
  exact nomatch passed.symm.trans (safe.calls p unwelcome)

theorem resetStream_pushes (s : SendState) (k : Nat) : (s.resetStream k).pushes = s.pushes ∧ (s.resetStream k).promises = s.promises := by
  unfold resetStream
  split <;> split <;> exact ⟨rfl,rfl⟩

theorem shiftWindows_pushes (delta : Int) : ∀ (order : List Nat) (s : SendState),
    (shiftWindows delta order s).1.pushes = s.pushes ∧ (shiftWindows delta order s).1.promises = s.promises := by
  intro order
  induction order with
  | nil => exact fun _ => ⟨rfl,rfl⟩
  | cons k rest ih =>
    intro s
    unfold shiftWindows
    dsimp only
    split
    · exact ⟨rfl,rfl⟩
    · exact ih _

theorem PushSafe.recordEnablePush (safe : PushSafe s) (enabled : Bool) : PushSafe (s.recordEnablePush enabled) := by
  cases enabled with
  | true => exact ⟨nofun,safe.promises⟩
  | false => exact ⟨safe.calls,safe.promises⟩

theorem PushSafe.applySetting (safe : PushSafe s) (order : List Nat) (id value : Nat) : PushSafe (s.applySetting order id value).1 := by
  unfold SendState.applySetting
  split
  · split
    · exact safe
    · exact safe.recordEnablePush _
  · exact safe.congr rfl rfl
  · split
    · exact safe
    · obtain ⟨pushes,promises⟩ := shiftWindows_pushes (value-s.peerInitialWindow) order {s with peerInitialWindow := value}
      exact safe.congr pushes promises
  · split
    · exact safe
    · exact safe.congr rfl rfl
  · exact safe

theorem PushSafe.handleFrame (safe : PushSafe s) (f : PeerFrame) : PushSafe (s.handleFrame f) := by
  cases f with
  | settings payload =>
    rw [SendState.handleFrame]
    split <;> exact safe.congr rfl rfl
  | windowUpdate k payload =>
    rw [SendState.handleFrame,SendState.handleWindowUpdate]
    split
    · exact safe.congr rfl rfl
    · split_ifs <;> exact safe.congr rfl rfl
  | headers k accepted =>
    rw [SendState.handleFrame]
    split_ifs <;> exact safe.congr rfl rfl
  | rstStream k =>
    rw [SendState.handleFrame]
    split
    · exact safe.congr rfl rfl
    · exact safe.congr (resetStream_pushes s k).1 (resetStream_pushes s k).2
  | invalid => exact safe.congr rfl rfl

theorem PushSafe.loopStep (safe : PushSafe s) (does : s.loopStep order w = some t) : PushSafe t := by
  rw [SendState.loopStep] at does
  split at does
  · split_ifs at does <;> cases does <;> exact safe.congr rfl rfl
  · rename_i id value rest applying
    split at does
    · have applied := safe.applySetting order id value
      generalize s.applySetting order id value = result at does applied
      obtain ⟨s',fine⟩ := result
      cases does
      cases fine <;> exact applied.congr rfl rfl
    · cases does
  · rename_i k inc granting
    split at does <;> cases does
    · exact safe.congr (resetStream_pushes s k).1 (resetStream_pushes s k).2
    · exact safe.congr rfl rfl
  all_goals
    cases does
    try exact safe.congr rfl rfl

theorem PushSafe.pushStep (safe : PushSafe s) (keeps : keepsPeace s (.pushStep p) = true) (does : s.pushStep p = some t) : PushSafe t := by
  unfold SendState.pushStep at does
  split at does
  · rename_i starts
    cases does
    refine safe.onPush fun unwelcome => ?_
    have refused : (s.pushes.get p).unwelcome = true := unwelcome
    rw [keepsPeace,starts,refused] at keeps
    have disabled : s.pushState.disabled = true := by simpa using keeps
    rw [if_pos disabled]
    rfl
  · rename_i permitted
    cases does
    exact safe.goes_on (permitted ▸ rfl)
  · rename_i accepted
    extract_lets ps at does
    split at does <;> cases does
    · exact safe.goes_on (accepted ▸ rfl)
    · exact PushSafe.goes_on (safe.congr rfl rfl) (accepted ▸ rfl)
  · rename_i id promised
    cases does
    exact PushSafe.goes_on (safe.congr rfl rfl) (promised ▸ rfl)
  · rename_i id recorded
    cases does
    exact safe.goes_on (recorded ▸ rfl)
  · rename_i id window created
    cases does
    exact PushSafe.goes_on (safe.congr rfl rfl) (created ▸ rfl)
  · cases does

theorem PushSafe.pushWrite (safe : PushSafe s) (does : s.pushWrite p valid w = some t) : PushSafe t := by
  unfold SendState.pushWrite at does
  split at does
  · rename_i id allocated
    have passed : (s.pushes.get p).phase.passed = true := allocated ▸ rfl
    split_ifs at does <;> cases does
    · exact PushSafe.goes_on (safe.congr rfl rfl) passed
    · exact PushSafe.goes_on (safe.congr rfl rfl) passed
    have welcome : (s.pushes.get p).unwelcome = false := by
      by_contra unwelcome
      exact nomatch passed.symm.trans (safe.calls p (by simpa using unwelcome))
    have promised : PushSafe (s.putPromise ⟨(s.pushes.get p).parent,id,(s.pushes.get p).unwelcome⟩) := by
      refine ⟨safe.calls,fun q mem => ?_⟩
      rcases List.mem_append.mp mem with before | new
      · exact safe.promises q before
      · cases List.mem_singleton.mp new
        exact welcome
    exact promised.goes_on passed
  · cases does

theorem PushSafe.step (safe : PushSafe s) (keeps : keepsPeace s e = true) (does : s.step cfg e = some t) : PushSafe t := by
  cases e with
  | frame f =>
    rw [step] at does
    split at does <;> cases does
    exact safe.handleFrame f
  | loopStep order w => exact safe.loopStep does
  | markClosed | setEnablePush enabled =>
    cases does
    exact safe.congr rfl rfl
  | sendData i k data endStream =>
    rw [step,startCall] at does
    split at does <;> cases does
    exact safe.congr rfl rfl
  | takeWindow i =>
    unfold step takeWindow at does
    dsimp only at does
    split_ifs at does <;> cases does <;> exact safe.congr rfl rfl
  | deadline i =>
    unfold step deadline at does
    dsimp only at does
    split at does <;> cases does
    exact safe.congr rfl rfl
  | writeFrame i w =>
    unfold step writeFrame at does
    dsimp only at does
    split at does
    · split_ifs at does <;> cases does <;> exact safe.congr rfl rfl
    · cases does
  | finish k =>
    unfold step finish at does
    dsimp only at does
    split at does <;> cases does
    split <;> exact safe.congr rfl rfl
  | resetStream k =>
    cases does
    exact safe.congr (resetStream_pushes s k).1 (resetStream_pushes s k).2
  | push p k method path =>
    rw [step,startPush] at does
    split at does <;> cases does
    refine safe.onPush fun _ => ?_
    split <;> rfl
  | pushStep p => exact safe.pushStep keeps does
  | pushWrite p valid w => exact safe.pushWrite does

def peaceRuns (cfg : SendConfig) : SendState → Prop := Reached (step cfg) (fun s e => keepsPeace s e = true) (sendStart cfg)

theorem PushSafe.start : PushSafe (sendStart cfg) where
  calls _ unwelcome := nomatch unwelcome
  promises _ mem := nomatch mem

theorem promises_welcome (run : peaceRuns cfg s) : ∀ q ∈ s.promises, q.unwelcome = false :=
  (run.keeps PushSafe .start fun safe keeps does => safe.step keeps does).promises

def pushRefused : PeerFrame := .settings [0,2,0,0,0,0]

theorem early_push_welcome : ∃ s, peaceRuns {} s ∧ s.peerAccepts = false ∧ s.promises ≠ [] ∧ ∀ q ∈ s.promises, q.unwelcome = false := by
  obtain ⟨s,run,refused,some⟩ := play_reaches (step {}) (fun s e => keepsPeace s e = true) (sendStart {})
    (fun s => s.peerAccepts = false ∧ s.promises ≠ [])
    [.frame (.headers 1 true),.push 0 1 (ascii "GET") (ascii "/a"),.pushStep 0,.pushStep 0,.pushStep 0,.pushWrite 0 true .written,
     .frame pushRefused,.loopStep [1] .written,.loopStep [] .written] (by decide)
  exact ⟨s,run,refused,some,promises_welcome run⟩

-- The peer refuses pushes, the refusal is applied and acknowledged, and a push that begins after that is promised.
theorem push_against_refusal : ∃ s, Reached (step {}) (fun _ _ => True) (sendStart {}) s ∧ s.peerAccepts = false ∧
    ∃ q ∈ s.promises, q.unwelcome = true :=
  play_reaches (step {}) (fun _ _ => True) (sendStart {}) (fun s => s.peerAccepts = false ∧ ∃ q ∈ s.promises, q.unwelcome = true)
    [.frame pushRefused,.loopStep [] .written,.loopStep [] .written,.frame (.headers 1 true),.push 0 1 (ascii "GET") (ascii "/a"),
     .pushStep 0,.pushStep 0,.pushStep 0,.pushWrite 0 true .written] (by decide)
end
end FhServer

import FhServer.H2Send

namespace FhServer
open Transitions List SendState

-- What the events of the sending half do to the fields that flow control rests on.

def SendState.flow (s : SendState) :=
  (s.connSendWindow,s.peerInitialWindow,s.peerMaxFrame,s.lastStream,s.streams,s.calls,s.pushes,s.wire,s.connIncrements,s.pushState.nextID)

structure SameFlow (s t : SendState) : Prop where
  window : t.connSendWindow = s.connSendWindow
  initial : t.peerInitialWindow = s.peerInitialWindow
  frame : t.peerMaxFrame = s.peerMaxFrame
  last : t.lastStream = s.lastStream
  streams : t.streams = s.streams
  calls : t.calls = s.calls
  pushes : t.pushes = s.pushes
  wire : t.wire = s.wire
  increments : t.connIncrements = s.connIncrements
  next : t.pushState.nextID = s.pushState.nextID

theorem flow_parts (same : t.flow = s.flow) : SameFlow s t := by
  simp only [flow,Prod.mk.injEq] at same
  obtain ⟨window,initial,frame,last,streams,calls,pushes,wire,increments,next⟩ := same
  exact ⟨window,initial,frame,last,streams,calls,pushes,wire,increments,next⟩

def FrameLoop.alive : FrameLoop → Bool
  | .reads | .applies _ | .grants _ _ => true
  | .fails | .closes _ | .stopped => false

def FrameLoop.names : FrameLoop → List Nat
  | .grants k _ => [k]
  | .closes streams => streams
  | _ => []

def PushPhase.held : PushPhase → Option Nat
  | .allocated id | .promised id | .recorded id | .created id _ => some id
  | _ => none

def SendCall.unsent (c : SendCall) : Nat := (c.chunk.getD []).length

def SendCall.frame (i : Nat) (c : SendCall) (p : Bytes) : DataFrame := ⟨i,c.streamID,p,c.rest.isEmpty && c.endStream⟩

def SendCall.Begins (c : SendCall) : Prop :=
  (c.data = [] ∧ c.endStream = false ∧ c.status = .returned ∧ c.rest = [] ∧ c.chunk = none) ∨
    (c.status = .running ∧ c.rest = c.data ∧ ((c.data = [] ∧ c.endStream = true ∧ c.chunk = some []) ∨ (c.data ≠ [] ∧ c.chunk = none)))

-- The steps that keep what is sent within what is granted: a call takes window for a stream that is in the map, a pushed
-- stream is registered with a window no greater than the peer's initial one at that moment, and the peer's initial window
-- and frame size are lowered while no frame that is paid for waits to be written.
def keepsGrant (s : SendState) : SendEvent → Bool
  | .takeWindow i => (s.streams.get (s.calls.get i).streamID).live || s.refused (s.calls.get i).streamID
  | .pushStep p =>
    match (s.pushes.get p).phase with
    | .created _ window => window ≤ s.peerInitialWindow
    | _ => true
  | .loopStep _ _ =>
    match s.loop with
    | .applies ((4,value) :: _) => s.peerInitialWindow ≤ value || s.calls.keys.all fun i => (s.calls.get i).unsent == 0
    | .applies ((5,value) :: _) => s.peerMaxFrame ≤ value || s.calls.keys.all fun i => (s.calls.get i).unsent == 0
    | _ => true
  | _ => true

structure Fades (r r' : SendStream) : Prop where
  opened : r'.opened = r.opened
  live : r'.live = true → r.live = true
  window : r'.sendWindow = r.sendWindow
  increments : r'.increments = r.increments
  fresh : r = {} → r' = {}

structure Shifts (delta : Int) (r r' : SendStream) : Prop where
  opened : r'.opened = r.opened
  live : r'.live = r.live
  increments : r'.increments = r.increments
  window : r.live = true → r'.sendWindow ≤ r.sendWindow+delta
  fresh : r.live = false → r' = r

inductive Change (s t : SendState) : Prop
  | nothing (same : t.flow = s.flow)
  | fades (streams : Table Nat SendStream {}) (each : ∀ k, Fades (s.streams.get k) (streams.get k)) (same : t.flow = {s with streams := streams}.flow)
  | connGrant (inc : Nat) (same : t.flow = {s with connSendWindow := s.connSendWindow+inc, connIncrements := s.connIncrements+inc}.flow)
  | grant (k inc : Nat) (known : (s.streams.get k).opened = true) (fits : (s.streams.get k).sendWindow+inc ≤ h2MaxWindow)
      (same : t.flow = (s.onStream k (.grant inc)).flow)
  | refuse (k : Nat) (odd : k % 2 = 1) (later : s.lastStream < k) (same : t.flow = {s with lastStream := k}.flow)
  | «open» (k : Nat) (odd : k % 2 = 1) (later : s.lastStream < k)
      (same : t.flow = {s with lastStream := k, streams := s.streams.set k {opened := true, live := true, sendWindow := s.peerInitialWindow}}.flow)
  | settings (value : Nat) (streams : Table Nat SendStream {}) (legal : (value : Int) ≤ h2MaxWindow)
      (calm : s.peerInitialWindow ≤ value ∨ ∀ i, (s.calls.get i).unsent = 0)
      (each : ∀ k, Shifts (value-s.peerInitialWindow) (s.streams.get k) (streams.get k))
      (fits : t.loop.alive = true → ∀ k, (s.streams.get k).sendWindow ≤ h2MaxWindow → (streams.get k).sendWindow ≤ h2MaxWindow)
      (same : t.flow = {s with peerInitialWindow := value, streams := streams}.flow)
  | maxFrame (value : Nat) (calm : s.peerMaxFrame ≤ value ∨ ∀ i, (s.calls.get i).unsent = 0) (same : t.flow = {s with peerMaxFrame := value}.flow)
  | starts (i : Nat) (c : SendCall) (free : (s.calls.get i).status = .unused) (known : (s.streams.get c.streamID).opened = true)
      (begins : c.Begins) (same : t.flow = (s.onCall i fun _ => c).flow)
  | takes (i n : Nat) (c : SendCall) (call : s.calls.get i = c) (live : (s.streams.get c.streamID).live = true) (running : c.status = .running)
      (free : c.chunk = none) (length : n ≤ c.rest.length) (frame : n ≤ s.peerMaxFrame) (conn : (n : Int) ≤ s.connSendWindow)
      (stream : (n : Int) ≤ (s.streams.get c.streamID).sendWindow) (same : t.flow = ((s.pay c.streamID n).onCall i (.carve n)).flow)
  | abandons (i : Nat) (used : (s.calls.get i).status = .running) (same : t.flow = (s.onCall i .fail).flow)
  | writes (i : Nat) (p : Bytes) (c : SendCall) (call : s.calls.get i = c) (running : c.status = .running) (paid : c.chunk = some p)
      (same : t.flow = ((s.putFrame (c.frame i p)).onCall i .wrote).flow)
  | pushes (pushes : Table Nat PushCall {}) (held : ∀ p, (pushes.get p).phase.held = (s.pushes.get p).phase.held ∨ (pushes.get p).phase.held = none)
      (window : ∀ p id w, (pushes.get p).phase = .created id w → w = s.peerInitialWindow ∨ (s.pushes.get p).phase = .created id w)
      (same : t.flow = {s with pushes := pushes}.flow)
  | allocates (p : Nat)
      (same : t.flow = ({s with pushState := {s.pushState with nextID := s.pushState.nextID+2}}.toPhase p (.allocated s.pushState.nextID)).flow)
  | registers (p id : Nat) (window : Int) (ready : (s.pushes.get p).phase = .created id window) (fits : window ≤ s.peerInitialWindow)
      (same : t.flow = ({s with streams := s.streams.set id {opened := true, live := true, sendWindow := window}}.toPhase p (.returned true)).flow)

section
open Table
variable {cfg : SendConfig} {s t : SendState} {e : SendEvent} {k i p : Nat} {w : WriteResult}

structure LoopKnown (s : SendState) : Prop where
  named : ∀ k ∈ s.loop.names, (s.streams.get k).opened = true
  window : s.loop.alive = true → ∀ k, (s.streams.get k).sendWindow ≤ h2MaxWindow

structure Steps (s t : SendState) : Prop where
  change : Change s t
  alive : t.loop.alive = true → s.loop.alive = true
  names : ∀ k ∈ t.loop.names, k ∈ s.loop.names ∨ (s.streams.get k).live = true

theorem Steps.same (change : Change s t) (loop : t.loop = s.loop) : Steps s t :=
  ⟨change,fun going => loop ▸ going,fun _ mem => .inl (loop ▸ mem)⟩

theorem Steps.free (alive : s.loop.alive = true) (change : Change s t) (none : t.loop.names = []) : Steps s t :=
  ⟨change,fun _ => alive,fun _ mem => nomatch none ▸ mem⟩

theorem Fades.refl (r : SendStream) : Fades r r := ⟨rfl,id,rfl,rfl,id⟩

theorem fades_update (one : Fades (s.streams.get k) (g (s.streams.get k))) :
    ∀ k', Fades (s.streams.get k') ((s.streams.update k g).get k') := by
  intro k'
  rw [get_update]
  split
  · rename_i here
    exact here ▸ one
  · exact .refl _

theorem resetStream_change (k : Nat) (same : t.flow = (s.resetStream k).flow) : Change s t := by
  have alike : (s.resetStream k).flow = (if (s.streams.get k).live then s.onStream k fun r => {r with reset := true, live := false} else s).flow := by
    rw [resetStream]
    extract_lets s'
    split <;> rfl
  by_cases live : (s.streams.get k).live = true
  · rw [if_pos live] at alike
    refine .fades _ (fades_update ⟨rfl,(fun gone => Bool.noConfusion gone),rfl,rfl,fun fresh => ?_⟩) (same.trans alike)
    rw [fresh] at live
    cases live
  · rw [if_neg live] at alike
    exact .nothing (same.trans alike)

theorem resetStream_loop (k : Nat) : (s.resetStream k).loop = s.loop := by
  unfold resetStream
  split <;> split <;> rfl

theorem finish_change (does : s.finish k = some t) : Steps s t := by
  rw [finish] at does
  split at does
  · rename_i opened
    cases does
    refine .same (.fades _ (fades_update (k := k) (g := fun r => {r with ended := true, live := false}) ⟨rfl,nofun,rfl,rfl,fun fresh => ?_⟩) ?_) ?_
    · rw [fresh] at opened
      cases opened
    · extract_lets s'
      split <;> rfl
    · dsimp only
      split <;> rfl
  · cases does

theorem calm_of_all (all : s.calls.keys.all (fun i => (s.calls.get i).unsent == 0) = true) (i : Nat) : (s.calls.get i).unsent = 0 := by
  by_cases known : i ∈ s.calls.keys
  · simpa using all_eq_true.mp all i known
  · rw [s.calls.outside i known]
    rfl

theorem shiftWindows_spec (delta : Int) : ∀ (order : List Nat) (s : SendState), order.Nodup →
    ∃ streams : Table Nat SendStream {}, (shiftWindows delta order s).1 = {s with streams := streams} ∧
      (∀ k, streams.get k = s.streams.get k ∨ k ∈ order ∧ streams.get k = (s.streams.get k).shift delta) ∧
      ((shiftWindows delta order s).2 = true → ∀ k ∈ order, streams.get k = (s.streams.get k).shift delta ∧
        (s.streams.get k).sendWindow+delta ≤ h2MaxWindow) ∧
      ((shiftWindows delta order s).2 = false → ∃ k ∈ order, h2MaxWindow < (s.streams.get k).sendWindow+delta) := by
  intro order
  induction order with
  | nil =>
    intro s _
    exact ⟨s.streams,rfl,fun _ => .inl rfl,nofun,nofun⟩
  | cons k rest ih =>
    intro s nodup
    obtain ⟨apart,nodup⟩ := nodup_cons.mp nodup
    have here : (s.streams.update k (.shift delta)).get k = (s.streams.get k).shift delta := get_update_self ..
    have elsewhere : ∀ k', k' ≠ k → (s.streams.update k (.shift delta)).get k' = s.streams.get k' := fun k' other => get_update_ne _ _ other
    have unfolded : shiftWindows delta (k :: rest) s =
        if (s.streams.get k).sendWindow+delta > h2MaxWindow then (s.onStream k (.shift delta),false)
        else shiftWindows delta rest (s.onStream k (.shift delta)) := by
      rw [shiftWindows]
      simp [onStream,SendStream.shift]
    rw [unfolded]
    split
    · rename_i large
      refine ⟨_,rfl,fun k' => ?_,nofun,fun _ => ⟨k,mem_cons_self ..,large⟩⟩
      by_cases same : k' = k
      · subst same
        exact .inr ⟨mem_cons_self ..,here⟩
      · exact .inl (elsewhere k' same)
    · rename_i fits
      rw [gt_iff_lt,not_lt] at fits
      obtain ⟨streams,state,each,fine,large⟩ := ih (s.onStream k (.shift delta)) nodup
      have kept : streams.get k = (s.streams.get k).shift delta := by
        rcases each k with same | ⟨mem,-⟩
        · exact same.trans here
        · exact absurd mem apart
      have other : ∀ k', k' ∈ rest → (s.onStream k (.shift delta)).streams.get k' = s.streams.get k' := fun k' mem =>
        elsewhere k' fun same => apart (same ▸ mem)
      refine ⟨streams,state,fun k' => ?_,fun all k' mem => ?_,fun failed => ?_⟩
      · by_cases same : k' = k
        · subst same
          exact .inr ⟨mem_cons_self ..,kept⟩
        rcases each k' with unchanged | ⟨mem,moved⟩
        · exact .inl (unchanged.trans (elsewhere k' same))
        · rw [other k' mem] at moved
          exact .inr ⟨mem_cons_of_mem _ mem,moved⟩
      · rcases mem_cons.mp mem with rfl | later
        · exact ⟨kept,fits⟩
        · have moved := fine all k' later
          rw [other k' later] at moved
          exact moved
      · obtain ⟨k',mem,exceeds⟩ := large failed
        rw [other k' mem] at exceeds
        exact ⟨k',mem_cons_of_mem _ mem,exceeds⟩

theorem mem_liveStreams (live : (s.streams.get k).live = true) : k ∈ s.liveStreams := by
  refine mem_filter.mpr ⟨?_,live⟩
  by_contra outside
  rw [s.streams.outside k outside] at live
  cases live

theorem applyWindow_change {value : Nat} (known : LoopKnown s) (alive : s.loop.alive = true) (all : order.Perm s.liveStreams)
    (legal : (value : Int) ≤ h2MaxWindow) (calm : s.peerInitialWindow ≤ value ∨ ∀ i, (s.calls.get i).unsent = 0)
    (moved : shiftWindows (value-s.peerInitialWindow) order {s with peerInitialWindow := value} = (s',fine))
    (same : t.flow = s'.flow) (stops : fine = false → t.loop.alive = false) : Change s t := by
  have nodup : order.Nodup := all.nodup_iff.mpr (s.streams.nodup.filter _)
  obtain ⟨streams,state,each,exact,large⟩ := shiftWindows_spec (value-s.peerInitialWindow) order {s with peerInitialWindow := value} nodup
  rw [moved] at state exact large
  have listed : ∀ k, (s.streams.get k).live = true → k ∈ order := fun k live => all.mem_iff.mpr (mem_liveStreams live)
  have unlisted : ∀ k, (s.streams.get k).live = false → streams.get k = s.streams.get k := by
    intro k gone
    rcases each k with same | ⟨mem,-⟩
    · exact same
    · have live := (mem_filter.mp (all.mem_iff.mp mem)).2
      exact nomatch gone.symm.trans live
  refine .settings value streams legal calm (fun k => ?_) ?_ (same.trans (congrArg flow state))
  · have shifted : streams.get k = s.streams.get k ∨ streams.get k = (s.streams.get k).shift (value-s.peerInitialWindow) :=
      (each k).imp_right fun both => both.2
    refine ⟨?_,?_,?_,fun live => ?_,unlisted k⟩
    · rcases shifted with same | moved
      · rw [same]
      · rw [moved]; rfl
    · rcases shifted with same | moved
      · rw [same]
      · rw [moved]; rfl
    · rcases shifted with same | moved
      · rw [same]
      · rw [moved]; rfl
    · cases fine with
      | true =>
        rw [(exact rfl k (listed k live)).1]
        exact Int.le_refl _
      | false =>
        -- Only a rise of the windows can overflow one.
        obtain ⟨k',-,exceeds⟩ := large rfl
        have bound := known.window alive k'
        rcases shifted with same | moved
        · rw [same]
          lia
        · rw [moved]
          exact Int.le_refl _
  · intro going k bound
    cases fine with
    | true =>
      rcases each k with same | ⟨mem,moved⟩
      · rw [same]
        exact bound
      · rw [moved]
        exact (exact rfl k mem).2
    | false => exact nomatch going.symm.trans (stops rfl)

theorem handleFrame_change (reading : s.loop = .reads) (f : PeerFrame) : Steps s (s.handleFrame f) := by
  have goes : ∀ {t}, Change s t → t.loop.names = [] → Steps s t := Steps.free (reading ▸ rfl)
  have still : s.loop.names = [] := reading ▸ rfl
  cases f with
  | settings payload =>
    rw [SendState.handleFrame]
    split <;> exact goes (.nothing rfl) rfl
  | windowUpdate k payload =>
    rw [SendState.handleFrame,handleWindowUpdate]
    split
    · exact goes (.nothing rfl) rfl
    rename_i inc _
    split_ifs with _ _ _ live
    · exact goes (.nothing rfl) rfl
    · exact goes (.nothing rfl) rfl
    · exact goes (.connGrant inc rfl) still
    · refine ⟨.nothing rfl,fun _ => reading ▸ rfl,fun k' mem => .inr ?_⟩
      cases mem_singleton.mp mem
      exact live
    · exact goes (.nothing rfl) rfl
    · exact goes (.nothing rfl) still
  | headers k accepted =>
    rw [SendState.handleFrame]
    split_ifs with live bad refused
    · exact goes (.nothing rfl) still
    · exact goes (.nothing rfl) rfl
    · exact goes (.refuse k (by lia) (by lia) rfl) still
    · exact goes (.open k (by lia) (by lia) rfl) still
  | rstStream k =>
    rw [SendState.handleFrame]
    split
    · exact goes (.nothing rfl) rfl
    · exact .same (resetStream_change k rfl) (resetStream_loop k)
  | invalid => exact goes (.nothing rfl) rfl

theorem recordEnablePush_change (enabled : Bool) (same : t.flow = (s.recordEnablePush enabled).flow) : Change s t := by
  cases enabled with
  | true =>
    exact .pushes (s.pushes.mapAll (fun _ p => {p with unwelcome := false}) fun _ => rfl) (fun _ => .inl rfl) (fun _ _ _ created => .inr created) same
  | false => exact .nothing same

theorem applySetting_change {id : Nat} (known : LoopKnown s)
    (applying : s.loop = .applies ((id,value) :: rest)) (all : order.Perm s.liveStreams)
    (keeps : keepsGrant s (.loopStep order w) = true) (applied : s.applySetting order id value = (s',fine))
    (same : t.flow = s'.flow) (stops : fine = false → t.loop.alive = false) : Change s t := by
  rw [keepsGrant,applying] at keeps
  unfold applySetting at applied
  split at applied
  · split at applied
    · cases applied
      exact .nothing same
    · cases applied
      exact recordEnablePush_change _ same
  · cases applied
    exact .nothing same
  · split at applied
    · cases applied
      exact .nothing same
    rename_i legal
    rw [gt_iff_lt,not_lt] at legal
    replace keeps := Bool.or_eq_true_iff.mp keeps
    rw [decide_eq_true_eq] at keeps
    exact applyWindow_change known (applying ▸ rfl) all legal (keeps.imp_right calm_of_all) applied same stops
  · split at applied
    · cases applied
      exact .nothing same
    cases applied
    replace keeps := Bool.or_eq_true_iff.mp keeps
    rw [decide_eq_true_eq] at keeps
    exact .maxFrame value (keeps.imp_right calm_of_all) same
  · cases applied
    exact .nothing same

theorem loopStep_change (known : LoopKnown s) (keeps : keepsGrant s (.loopStep order w) = true)
    (does : s.loopStep order w = some t) : Steps s t := by
  rw [loopStep] at does
  split at does
  · rename_i applying
    split_ifs at does <;> cases does <;> exact .free (applying ▸ rfl) (.nothing rfl) rfl
  · rename_i id value rest applying
    split at does
    · rename_i all
      generalize applied : s.applySetting order id value = result at does
      obtain ⟨s',fine⟩ := result
      cases does
      refine .free (applying ▸ rfl) (applySetting_change known applying (isPerm_iff.mp all) keeps applied ?_ ?_) ?_
      · cases fine <;> rfl
      · rintro rfl
        rfl
      · cases fine <;> rfl
    · cases does
  · rename_i k inc granting
    split at does
    · cases does
      exact .free (granting ▸ rfl) (resetStream_change k rfl) rfl
    · rename_i fits
      cases does
      exact .free (granting ▸ rfl) (.grant k inc (known.named k (granting ▸ mem_singleton_self k)) (by lia) rfl) rfl
  · cases does
    refine ⟨.fades (s.streams.mapAll (fun _ r => {r with live := false}) fun _ => rfl)
      (fun k => ⟨rfl,(fun gone => Bool.noConfusion gone),rfl,rfl,fun fresh => ?_⟩) rfl,nofun,fun k mem => .inr (mem_filter.mp mem).2⟩
    rw [get_mapAll,fresh]
  · rename_i k rest closing
    cases does
    have opened := known.named k (closing ▸ mem_cons_self ..)
    refine ⟨.fades (s.streams.update k fun r => {r with reset := true}) (fades_update ⟨rfl,id,rfl,rfl,fun fresh => ?_⟩) rfl,nofun,
      fun k mem => .inl (closing ▸ mem_cons_of_mem _ mem)⟩
    rw [fresh] at opened
    cases opened
  · cases does
    exact ⟨.nothing rfl,nofun,nofun⟩
  all_goals cases does

theorem startCall_change (does : s.startCall i k data endStream = some t) : Steps s t := by
  rw [startCall] at does
  split at does
  · rename_i free
    cases does
    refine .same (.starts i _ free.1 free.2 ?_ rfl) rfl
    by_cases empty : data = []
    · cases endStream with
      | true => exact .inr ⟨by simp,rfl,.inl ⟨empty,rfl,by simp [empty]⟩⟩
      | false => exact .inl ⟨empty,rfl,by simp [empty],empty,by simp⟩
    · exact .inr ⟨by simp [empty],rfl,.inr ⟨empty,by simp [empty]⟩⟩
  · cases does

theorem atLoop_iff : s.atLoop i = true ↔ (s.calls.get i).status = .running ∧ (s.calls.get i).chunk = none := by
  simp [atLoop]

theorem takeWindow_change (keeps : keepsGrant s (.takeWindow i) = true) (does : s.takeWindow i = some t) : Steps s t := by
  unfold takeWindow at does
  extract_lets c n at does
  split_ifs at does with away refused blocked nothing
  · rw [Bool.not_eq_true',Bool.not_eq_false,atLoop_iff] at away
    cases does
    exact .same (.abandons i away.1 rfl) rfl
  · cases does
    exact .same (.nothing rfl) rfl
  · rw [Bool.not_eq_true',Bool.not_eq_false,atLoop_iff] at away
    rw [keepsGrant,Bool.or_eq_true] at keeps
    have size : n = (n.toNat : Int) := by lia
    cases does
    have conn : n ≤ s.connSendWindow := (min_le_left _ _).trans (min_le_right _ _)
    have stream : n ≤ (s.streams.get c.streamID).sendWindow := min_le_right _ _
    refine .same (.takes i n.toNat c rfl (keeps.resolve_right refused) away.1 away.2 ?_ (by lia) (size ▸ conn) (size ▸ stream) ?_) rfl
    · have short : n.toNat ≤ c.rest.length := by lia
      exact short
    · rw [← size]

theorem deadline_change (does : s.deadline cfg i = some t) : Steps s t := by
  unfold deadline at does
  extract_lets k at does
  split at does
  · rename_i waits
    simp only [Bool.and_eq_true] at waits
    obtain ⟨running,free⟩ := atLoop_iff.mp waits.1.1.1
    cases does
    exact .same (.abandons i running rfl) rfl
  · cases does

theorem writeFrame_change (does : s.writeFrame i w = some t) : Steps s t := by
  unfold writeFrame at does
  extract_lets c at does
  split at does
  · rename_i p running paid
    split_ifs at does <;> cases does
    · exact .same (.abandons i running rfl) rfl
    · exact .same (.abandons i running rfl) rfl
    · exact .same (.writes i p c rfl running paid rfl) rfl
  · cases does

theorem toPhase_change (held : phase.held = (s.pushes.get p).phase.held ∨ phase.held = none)
    (window : ∀ id w, phase = .created id w → w = s.peerInitialWindow) (same : t.flow = (s.toPhase p phase).flow) (loop : t.loop = s.loop) : Steps s t := by
  refine .same (.pushes (s.pushes.update p fun c => {c with phase := phase}) (fun p' => ?_) (fun p' id w created => ?_) same) loop
  · rw [get_update]
    split
    · rename_i here
      exact here ▸ held
    · exact .inl rfl
  · rw [get_update] at created
    split at created
    · exact .inl (window id w created)
    · exact .inr created

theorem startPush_change (does : s.startPush p k method path = some t) : Steps s t := by
  rw [startPush] at does
  split at does
  · rename_i free
    cases does
    refine .same (.pushes _ (fun p' => ?_) (fun p' id w created => ?_) rfl) rfl
    · rw [get_update]
      split
      · refine .inr ?_
        split <;> rfl
      · exact .inl rfl
    · rw [get_update] at created
      split at created
      · dsimp only at created
        split at created <;> cases created
      · exact .inr created
  · cases does

theorem pushStep_change (keeps : keepsGrant s (.pushStep p) = true) (does : s.pushStep p = some t) : Steps s t := by
  rw [keepsGrant] at keeps
  unfold pushStep at does
  split at does
  · cases does
    refine toPhase_change (.inr ?_) ?_ rfl rfl
    · split <;> rfl
    · intro id w created
      split at created <;> cases created
  · cases does
    refine toPhase_change (.inr ?_) ?_ rfl rfl
    · split <;> rfl
    · intro id w created
      split at created <;> cases created
  · extract_lets ps at does
    split at does <;> cases does
    · exact toPhase_change (.inr rfl) (by nofun) rfl rfl
    · exact .same (.allocates p rfl) rfl
  · rename_i id phase
    cases does
    exact toPhase_change (p := p) (.inl (phase ▸ rfl)) (by nofun) rfl rfl
  · rename_i id phase
    cases does
    refine toPhase_change (.inl (phase ▸ rfl)) (fun id w created => ?_) rfl rfl
    cases created
    rfl
  · rename_i id window phase
    cases does
    rw [phase] at keeps
    exact .same (.registers p id window phase (of_decide_eq_true keeps) rfl) rfl
  · cases does

theorem pushWrite_change (does : s.pushWrite p valid w = some t) : Steps s t := by
  unfold pushWrite at does
  split at does
  · rename_i id phase
    split_ifs at does <;> cases does
    · exact toPhase_change (p := p) (.inr rfl) (by nofun) rfl rfl
    · exact toPhase_change (p := p) (.inr rfl) (by nofun) rfl rfl
    · exact toPhase_change (p := p) (.inl (phase ▸ rfl)) (by nofun) rfl rfl
  · cases does

theorem step_change (known : LoopKnown s) (keeps : keepsGrant s e = true) (does : s.step cfg e = some t) : Steps s t := by
  cases e with
  | frame f =>
    rw [step] at does
    split at does <;> cases does
    exact handleFrame_change ‹_› f
  | loopStep order w => exact loopStep_change known keeps does
  | markClosed | setEnablePush enabled =>
    cases does
    exact .same (.nothing rfl) rfl
  | sendData i k data endStream => exact startCall_change does
  | takeWindow i => exact takeWindow_change keeps does
  | deadline i => exact deadline_change does
  | writeFrame i w => exact writeFrame_change does
  | finish k => exact finish_change does
  | resetStream k =>
    cases does
    exact .same (resetStream_change k rfl) (resetStream_loop k)
  | push p k method path => exact startPush_change does
  | pushStep p => exact pushStep_change keeps does
  | pushWrite p valid w => exact pushWrite_change does
end
end FhServer

import FhServer.H2Receive

namespace FhServer
open Interleaving List H2Stream H2Server

-- What handling a frame can do, said once for the proofs about runs.
section
open Handled
variable (cfg : H2Config) (s : H2Server) (c : Nat) (f : H2Frame) (x : FrameFacts)

def spendWindow : H2Server := s.onConn c (.spend f.payload.length)

def Handled.Accepts (h : Handled) (k : StreamKey) (p : Bytes) : Prop :=
  (s.streams.get k).live = true ∧ (s.streams.get k).state.receives = true ∧
    ((s.streams.get k).connect = false → s.fitsBudget cfg p.length = true) ∧ h = acceptData cfg (spendWindow s k.1 f) k f p

section
variable (k : StreamKey)

-- Whether handleData gives the payload of a frame up without returning its credit: on a stream that is no longer there or
-- takes no more, beyond the size limit or the budget, or as padding that no reader sees.
def losesPayload (p : Bytes) : Bool :=
  let r := s.streams.get k
  if r.live then
    !r.state.receives || !r.connect && (decide ((r.bodyReceived+p.length : Int) > maxH2RequestBodySize cfg) || !s.fitsBudget cfg p.length) ||
      (r.connect || r.streaming cfg) && p.length != f.payload.length
  else decide (k.2 ≤ (s.conns.get k.1).lastStream)

def reservePayload (p : Bytes) : H2Server :=
  if (s.streams.get k).connect then s else s.reserveBufferedBody cfg p.length

@[simp] theorem reservePayload_conns (p : Bytes) : (reservePayload cfg s k p).conns = s.conns := by
  rw [reservePayload]; split <;> simp

@[simp] theorem reservePayload_streams (p : Bytes) : (reservePayload cfg s k p).streams = s.streams := by
  rw [reservePayload]; split <;> simp

theorem acceptData_cases (p : Bytes) :
    acceptData cfg s k f p = .fail ((reservePayload cfg s k p).onStream k fun r => (r.store cfg p).spend f.payload.length) .flowControlError ∨
    acceptData cfg s k f p =
      {state := ((reservePayload cfg s k p).onConn k.1 fun h =>
        if creditsArrival cfg (s.streams.get k) f then h.creditBatch f.payload.length else h).onStream k (takeData cfg f p)
       acts := (if creditsArrival cfg (s.streams.get k) f then dueUpdates s k f.payload.length else []) ++
        afterData (takeData cfg f p (s.streams.get k)) k f p} := by
  unfold acceptData
  dsimp only
  split
  · exact .inl rfl
  · exact .inr rfl

def H2Act.Resets : H2Act → Prop
  | .resetStream k' => k' = k
  | .write c (.rstStream _ _) => c = k.1
  | _ => False

def H2Act.Follows (a : H2Act) : Prop := a.Resets k ∨ a = .closeRemote k ∨ a = .dispatch k

theorem sendRST_resets (code : H2Error) : ∀ a ∈ sendRST k code, a.Resets k := by
  intro a mem
  simp only [sendRST,mem_cons,not_mem_nil,or_false] at mem
  rcases mem with rfl | rfl <;> rfl

theorem sendRST_follows (code : H2Error) : ∀ a ∈ sendRST k code, a.Follows k :=
  fun a mem => .inl (sendRST_resets k code a mem)
end

theorem handleData_cases :
    (∃ s' code, (s' = s ∨ s' = spendWindow s c f) ∧ handleData cfg s c f = .fail s' code) ∨
    ∃ p, dataPayload f = some p ∧
      ((∃ s' code, (s' = s ∨ s' = spendWindow s c f) ∧ handleData cfg s c f = .refuse s' (c,f.streamID) code ∧
        losesPayload cfg s f (c,f.streamID) p = true) ∨
       (handleData cfg s c f).Accepts cfg s f (c,f.streamID) p) := by
  have sameBudget : (spendWindow s c f).fitsBudget cfg = s.fitsBudget cfg := rfl
  have spent : s.onConn c (.spend f.payload.length) = spendWindow s c f := rfl
  unfold handleData Handled.Accepts
  dsimp only
  rw [spent,sameBudget]
  split
  · exact .inl ⟨s,_,.inl rfl,rfl⟩
  split
  · exact .inl ⟨s,_,.inl rfl,rfl⟩
  rename_i p payload
  split
  · rename_i dead
    rw [Bool.not_eq_true'] at dead
    split
    · exact .inl ⟨s,_,.inl rfl,rfl⟩
    · rename_i known
      refine .inr ⟨p,payload,.inl ⟨s,_,.inl rfl,rfl,?_⟩⟩
      simpa [losesPayload,dead] using known
  rename_i live
  simp only [Bool.not_eq_true',Bool.not_eq_false] at live
  split
  · rename_i stopped
    refine .inr ⟨p,payload,.inl ⟨s,_,.inl rfl,rfl,?_⟩⟩
    simp [losesPayload,live,stopped]
  rename_i receives
  simp only [Bool.not_eq_true',Bool.not_eq_false] at receives
  split
  · rename_i large
    refine .inr ⟨p,payload,.inl ⟨s,_,.inl rfl,rfl,?_⟩⟩
    rw [Bool.and_eq_true] at large
    simp [losesPayload,live,large.1,of_decide_eq_true large.2]
  split
  · exact .inl ⟨_,_,.inr rfl,rfl⟩
  split
  · rename_i full
    refine .inr ⟨p,payload,.inl ⟨_,_,.inr rfl,rfl,?_⟩⟩
    rw [Bool.and_eq_true] at full
    simp [losesPayload,live,full.1,full.2]
  · rename_i fits
    refine .inr ⟨p,payload,.inr ⟨live,receives,?_,rfl⟩⟩
    intro plain
    simpa [plain] using fits

theorem sendWindowUpdate_writes {c : Nat} {id : Option Nat} (mem : a ∈ sendWindowUpdate c id n) :
    a = .write c (.windowUpdate id n) := by
  rw [sendWindowUpdate] at mem
  split at mem
  · exact mem_singleton.mp mem
  · cases mem

theorem dueUpdates_writes {s : H2Server} {k : StreamKey} (mem : a ∈ dueUpdates s k n) :
    ∃ frame, a = .write k.1 frame := by
  rcases mem_append.mp mem with update | update
  · exact ⟨_,sendWindowUpdate_writes update⟩
  · exact ⟨_,sendWindowUpdate_writes update⟩

theorem afterData_follows {f : H2Frame} (mem : a ∈ afterData r k f p) :
    a.Follows k ∨ a = .deliver k p := by
  rw [afterData] at mem
  split at mem
  · rcases mem_append.mp mem with delivery | close
    · split at delivery
      · exact .inr (mem_singleton.mp delivery)
      · cases delivery
    · split at close
      · exact .inl (.inr (.inl (mem_singleton.mp close)))
      · cases close
  · split at mem
    · split at mem
      · exact .inl (.inr (.inr (mem_singleton.mp mem)))
      · exact .inl (sendRST_follows k _ a mem)
    · cases mem

def H2Conn.Minor (h h' : H2Conn) : Prop :=
  h' = {h with lastStream := h'.lastStream, draining := h'.draining, connRecvWindowRemaining := h'.connRecvWindowRemaining} ∧
    h.lastStream ≤ h'.lastStream

theorem H2Conn.Minor.refl (h : H2Conn) : h.Minor h := ⟨rfl,Nat.le_refl _⟩

structure Handled.Minor (h : Handled) (s : H2Server) (c id : Nat) : Prop where
  state : ∃ g, (s.conns.get c).Minor (g (s.conns.get c)) ∧ (h.state = s ∨ h.state = s.onConn c g)
  acts : ∀ a ∈ h.acts, a.Resets (c,id)
  timers : h.timers = []

variable {s c}
section
variable (state : s' = s ∨ (s.conns.get c).Minor (g (s.conns.get c)) ∧ s' = s.onConn c g) (id : Nat) (code : H2Error)
include state

theorem Handled.Minor.of_fail :
    (fail s' code).Minor s c id := by
  refine ⟨?_,nofun,rfl⟩
  rcases state with rfl | ⟨minor,rfl⟩
  · exact ⟨fun h => h,.refl _,.inl rfl⟩
  · exact ⟨g,minor,.inr rfl⟩

theorem Handled.Minor.of_refuse :
    (refuse s' (c,id) code).Minor s c id := by
  refine ⟨?_,sendRST_resets (c,id) code,rfl⟩
  rcases state with rfl | ⟨minor,rfl⟩
  · exact ⟨fun h => h,.refl _,.inl rfl⟩
  · exact ⟨g,minor,.inr rfl⟩
end

theorem concludeHeaders_cases (s : H2Server) (k : StreamKey) (new ended : Bool) :
    ∃ acts, (∀ a ∈ acts, a.Follows k) ∧
      (concludeHeaders cfg s k new ended x = {state := s, acts := acts} ∨
        new = true ∧ (concludeHeaders cfg s k new ended x = {state := s.onStream k stopTimer, acts := acts} ∨
          concludeHeaders cfg s k new ended x = {state := s.onStream k respondEarly, acts := acts})) := by
  have told : ∀ a ∈ (if ended && (s.streams.get k).connect then [.closeRemote k] else [] : List H2Act), a.Follows k := by
    intro a mem
    split at mem
    · rw [mem_singleton] at mem
      exact .inr (.inl mem)
    · cases mem
  have more : ∀ {acts : List H2Act}, (∀ a ∈ acts, a.Follows k) →
      ∀ a ∈ (if ended && (s.streams.get k).connect then [.closeRemote k] else []) ++ acts, a.Follows k := by
    intro acts follow a mem
    exact (mem_append.mp mem).elim (told a) (follow a)
  have go : ∀ b : Bool, ∀ a ∈ (if b then [.dispatch k] else [] : List H2Act), a.Follows k := by
    intro b a mem
    cases b
    · cases mem
    · rw [if_pos rfl,mem_singleton] at mem
      exact .inr (.inr mem)
  unfold concludeHeaders
  dsimp only
  split
  · exact ⟨_,more (sendRST_follows k _),.inl rfl⟩
  split
  · exact ⟨_,more (sendRST_follows k _),.inl rfl⟩
  split
  · exact ⟨_,more (go _),.inl rfl⟩
  rename_i fresh
  have isNew : new = true := by simpa using fresh
  split
  · exact ⟨_,more (go _),.inl rfl⟩
  · exact ⟨_,told,.inr ⟨isNew,.inr rfl⟩⟩
  · exact ⟨_,more (sendRST_follows k _),.inr ⟨isNew,.inl rfl⟩⟩
  · exact ⟨_,told,.inr ⟨isNew,.inl rfl⟩⟩

def publish (s : H2Server) (k : StreamKey) (ended : Bool) : H2Server :=
  (s.onConn k.1 fun h => {h with lastStream := k.2}).onStream k fun _ =>
    if ended then (newStream cfg x ended).endRemote false else newStream cfg x ended

theorem openStream_cases (s : H2Server) (k : StreamKey) (ended : Bool) (later : (s.conns.get k.1).lastStream < k.2) :
    (openStream cfg s k ended x).Minor s k.1 k.2 ∨
    ∃ timers, (timers = [] ∨ timers = [[.bodyTimer k]]) ∧
      openStream cfg s k ended x = {concludeHeaders cfg (publish cfg x s k ended) k true ended x with timers := timers} := by
  have refuses : ∀ code, (refuse (s.onConn k.1 fun h => {h with lastStream := k.2}) k code).Minor s k.1 k.2 :=
    fun code => .of_refuse (g := fun h => {h with lastStream := k.2}) (.inr ⟨⟨rfl,later.le⟩,rfl⟩) _ code
  unfold openStream
  extract_lets known fresh
  split
  · exact .inl (refuses _)
  split
  · exact .inl (refuses _)
  split
  · exact .inl (refuses _)
  split
  · exact .inl (refuses _)
  refine .inr ⟨_,?_,rfl⟩
  split
  · exact .inr rfl
  · exact .inl rfl

theorem continueStream_cases (s : H2Server) (k : StreamKey) (ended : Bool) :
    (continueStream cfg s k ended x).Minor s k.1 k.2 ∨
    ∃ eof, continueStream cfg s k ended x = concludeHeaders cfg (s.onStream k (endRemote eof)) k false true x := by
  have fails : ∀ code, (fail s code).Minor s k.1 k.2 := fun code => .of_fail (g := id) (.inl rfl) _ code
  have refuses : ∀ code, (refuse s k code).Minor s k.1 k.2 := fun code => .of_refuse (g := id) (.inl rfl) _ code
  unfold continueStream
  extract_lets r
  split
  · exact .inl (fails _)
  split
  · exact .inl (refuses _)
  split
  · exact .inl (refuses _)
  split
  · exact .inl (refuses _)
  split
  · exact .inl (refuses _)
  split
  · exact .inl (refuses _)
  split
  · exact .inl (refuses _)
  exact .inr ⟨_,rfl⟩

def Handled.Opens (h : Handled) (s : H2Server) (k : StreamKey) : Prop :=
  (s.streams.get k).live = false ∧ k.2 % 2 = 1 ∧ (s.conns.get k.1).lastStream < k.2 ∧
    ∃ ended timers, (timers = [] ∨ timers = [[.bodyTimer k]]) ∧
      h = {concludeHeaders cfg (publish cfg x s k ended) k true ended x with timers := timers}

def Handled.Continues (h : Handled) (s : H2Server) (k : StreamKey) : Prop :=
  (s.streams.get k).live = true ∧ ∃ eof, h = concludeHeaders cfg (s.onStream k (endRemote eof)) k false true x

theorem handleHeaders_cases (s : H2Server) (c : Nat) :
    (handleHeaders cfg s c f x).Minor s c f.streamID ∨ (handleHeaders cfg s c f x).Opens cfg x s (c,f.streamID) ∨
      (handleHeaders cfg s c f x).Continues cfg x s (c,f.streamID) := by
  have fails : ∀ code, (fail s code).Minor s c f.streamID := fun code => .of_fail (g := id) (.inl rfl) _ code
  unfold handleHeaders
  split
  · exact .inl (fails _)
  split
  · exact .inl (fails _)
  split
  · exact .inl (.of_refuse (g := id) (.inl rfl) _ _)
  split
  · rename_i live
    rcases continueStream_cases cfg x s (c,f.streamID) (endsStream f) with minor | trailers
    · exact .inl minor
    · exact .inr (.inr ⟨live,trailers⟩)
  split
  · exact .inl (fails _)
  split
  · exact .inl (fails _)
  rename_i dead odd later
  rw [Nat.not_le] at later
  rcases openStream_cases cfg x s (c,f.streamID) (endsStream f) later with minor | opened
  · exact .inl minor
  · exact .inr (.inl ⟨by simpa using dead,by dsimp only; lia,later,_,opened⟩)

theorem handleFrame_cases (s : H2Server) (c : Nat) :
    ((handleFrame cfg s c f x).Minor s c f.streamID ∧ (f.typ = .data → (handleFrame cfg s c f x).error.isSome = true ∨
      ∃ p, dataPayload f = some p ∧ losesPayload cfg s f (c,f.streamID) p = true)) ∨
    (f.typ = .data ∧ ∃ p, dataPayload f = some p ∧ (handleFrame cfg s c f x).Accepts cfg s f (c,f.streamID) p) ∨
    (f.typ = .headers ∧ ((handleFrame cfg s c f x).Opens cfg x s (c,f.streamID) ∨ (handleFrame cfg s c f x).Continues cfg x s (c,f.streamID))) := by
  have fails : ∀ code, (fail s code).Minor s c f.streamID := fun code => .of_fail (g := id) (.inl rfl) _ code
  have unchanged : ∀ error, ({state := s, error := error} : Handled).Minor s c f.streamID :=
    fun error => ⟨⟨id,.refl _,.inl rfl⟩,by simp,rfl⟩
  have isMinor : ∀ {s'}, s' = s ∨ s' = spendWindow s c f →
      s' = s ∨ (s.conns.get c).Minor ((s.conns.get c).spend f.payload.length) ∧ s' = s.onConn c (.spend f.payload.length) :=
    fun either => either.imp_right fun spent => ⟨⟨rfl,Nat.le_refl _⟩,spent⟩
  cases kind : f.typ with
  | data =>
    have same : handleFrame cfg s c f x = handleData cfg s c f := by rw [handleFrame,kind]
    rw [same]
    rcases handleData_cases cfg s c f with ⟨s',code,either,failed⟩ | ⟨p,payload,⟨s',code,either,refused,loses⟩ | accepted⟩
    · left
      rw [failed]
      exact ⟨.of_fail (g := .spend f.payload.length) (isMinor either) _ code,fun _ => .inl rfl⟩
    · left
      rw [refused]
      exact ⟨.of_refuse (g := .spend f.payload.length) (isMinor either) _ code,fun _ => .inr ⟨p,payload,loses⟩⟩
    · exact .inr (.inl ⟨rfl,p,payload,accepted⟩)
  | headers =>
    have same : handleFrame cfg s c f x = handleHeaders cfg s c f x := by rw [handleFrame,kind]
    rw [same]
    rcases handleHeaders_cases cfg f x s c with minor | opens | continues
    · exact .inl ⟨minor,by simp⟩
    · exact .inr (.inr ⟨rfl,.inl opens⟩)
    · exact .inr (.inr ⟨rfl,.inr continues⟩)
  | rstStream =>
    refine .inl ⟨?_,by simp⟩
    rw [handleFrame,kind]
    dsimp only
    split
    · exact fails _
    split
    · exact fails _
    split
    · exact fails _
    refine ⟨⟨id,.refl _,.inl rfl⟩,?_,rfl⟩
    intro a mem
    rw [mem_singleton] at mem
    exact mem ▸ rfl
  | goAway =>
    refine .inl ⟨?_,by simp⟩
    rw [handleFrame,kind]
    dsimp only
    split
    · exact fails _
    · exact ⟨⟨fun h => {h with draining := true},⟨rfl,Nat.le_refl _⟩,.inr rfl⟩,by simp,rfl⟩
  | windowUpdate =>
    refine .inl ⟨?_,by simp⟩
    rw [handleFrame,kind]
    dsimp only
    split
    · exact .of_refuse (g := id) (.inl rfl) _ _
    · exact unchanged _
  | settings | ping | priority | unknown =>
    refine .inl ⟨?_,by simp⟩
    rw [handleFrame,kind]
    exact unchanged _
  | pushPromise | continuation =>
    refine .inl ⟨?_,by simp⟩
    rw [handleFrame,kind]
    exact fails _

theorem concludeHeaders_timers (cfg : H2Config) (x : FrameFacts) {ended : Bool} (s : H2Server) (k : StreamKey) :
    (concludeHeaders cfg s k false ended x).timers = [] := by
  obtain ⟨acts,-,same | ⟨new,-⟩⟩ := concludeHeaders_cases cfg x s k false ended
  · rw [same]
  · cases new
end

theorem takeData_keeps (cfg : H2Config) (f : H2Frame) (p : Bytes) (r : H2Stream) :
    (takeData cfg f p r).live = r.live ∧ (takeData cfg f p r).connect = r.connect ∧ (takeData cfg f p r).inbound = r.inbound := by
  unfold takeData endRemote creditBatch spend store
  dsimp only
  split_ifs <;> exact ⟨rfl,rfl,rfl⟩

theorem length_unread : ∀ m (chunks : List Bytes), ((unread m chunks).map List.length).sum+min m (chunks.map List.length).sum =
    (chunks.map List.length).sum := by
  intro m chunks
  induction chunks generalizing m with
  | nil => cases m <;> rfl
  | cons chunk rest ih =>
    cases m with
    | zero => simp [unread]
    | succ m =>
      have later := ih (m+1-chunk.length)
      rw [unread]
      split
      · simp only [map_cons,sum_cons]
        lia
      · simp only [map_cons,sum_cons,length_drop]
        lia

def H2Server.Known (s : H2Server) (k : StreamKey) : Prop :=
  (k.2 % 2 = 1 → k.2 ≤ (s.conns.get k.1).lastStream) ∧ (k.2 % 2 = 0 → k.2 < (s.conns.get k.1).nextPush)

def H2Conn.stopped (h : H2Conn) : Bool := h.closed || h.failed

def H2Server.Stopped (c : Nat) (s : H2Server) : Prop := (s.conns.get c).stopped = true

structure FreshGood (s : H2Server) : Prop where
  even : ∀ c, (s.conns.get c).nextPush % 2 = 0
  fresh : ∀ k, ¬s.Known k → s.streams.get k = {}

def FreshSound (s : H2Server) : H2Act → Prop
  | .closeStream k | .deliver k _ | .closeRemote k | .dispatch k | .acquireSlot k | .startHandler k | .beginHandler k | .handler k _
  | .read k _ | .unreserve k _ | .releaseRead k _ | .consumeH2Body k _ | .flushH2BodyCredit k | .creditWindow k _
  | .afterHandler k _ | .cancelUnfinished k _ | .releaseBody k _ => s.Known k
  | _ => True

section
variable {cfg : H2Config} {s s' : H2Server} {c : Nat} {k : StreamKey} {a : H2Act} {e : H2Choice} {f : Effect H2Server H2Act}

theorem FreshSound.grow (grows : ∀ k, s.Known k → s'.Known k) (sound : FreshSound s a) : FreshSound s' a := by
  cases a <;> first | exact grows _ sound | trivial

theorem known_onConn {g : H2Conn → H2Conn} (last : (s.conns.get c).lastStream ≤ (g (s.conns.get c)).lastStream)
    (push : (s.conns.get c).nextPush ≤ (g (s.conns.get c)).nextPush) (known : s.Known k) : (s.onConn c g).Known k := by
  rw [H2Server.Known,onConn_conns,Table.get_update]
  split
  · rename_i here
    obtain ⟨odd,even⟩ := known
    rw [here] at odd even
    exact ⟨fun is => (odd is).trans last,fun is => (even is).trans_le push⟩
  · exact known

@[simp] theorem known_onStream : (s.onStream k g).Known k' ↔ s.Known k' := .rfl

structure FreshGrows (s s' : H2Server) : Prop where
  good : FreshGood s'
  grows : ∀ k, s.Known k → s'.Known k
  stays : ∀ c, s.Stopped c → s'.Stopped c

theorem FreshGrows.trans (first : FreshGrows s s') (second : FreshGrows s' s'') : FreshGrows s s'' :=
  ⟨second.good,fun k known => second.grows k (first.grows k known),fun c stopped => second.stays c (first.stays c stopped)⟩

theorem FreshGood.onConn {g : H2Conn → H2Conn} (good : FreshGood s) (last : (s.conns.get c).lastStream ≤ (g (s.conns.get c)).lastStream)
    (push : (s.conns.get c).nextPush ≤ (g (s.conns.get c)).nextPush) (even : (g (s.conns.get c)).nextPush % 2 = 0)
    (stays : (s.conns.get c).stopped = true → (g (s.conns.get c)).stopped = true) : FreshGrows s (s.onConn c g) where
  good := {
    even := s.conns.update_all (P := fun _ h => h.nextPush % 2 = 0) good.even even
    fresh := fun k unknown => good.fresh k fun known => unknown (known_onConn last push known)}
  grows _ known := known_onConn last push known
  stays c' stopped := by
    rw [H2Server.Stopped,onConn_conns,Table.get_update]
    split
    · rename_i here
      subst here
      exact stays stopped
    · exact stopped

theorem FreshGood.onFlags {g : H2Conn → H2Conn} (good : FreshGood s) (last : (g (s.conns.get c)).lastStream = (s.conns.get c).lastStream)
    (push : (g (s.conns.get c)).nextPush = (s.conns.get c).nextPush) (stays : (s.conns.get c).stopped = true → (g (s.conns.get c)).stopped = true) :
    FreshGrows s (s.onConn c g) :=
  good.onConn last.ge push.ge (push ▸ good.even c) stays

theorem FreshGood.onStream {g : H2Stream → H2Stream} (good : FreshGood s) (known : s.Known k) : FreshGrows s (s.onStream k g) where
  good := {
    even := good.even
    fresh := by
      intro k' unknown
      rw [onStream_streams,Table.get_update_ne]
      · exact good.fresh k' unknown
      · rintro rfl
        exact unknown known}
  grows _ known := known
  stays _ stopped := stopped

section
variable (good : FreshGood s)
include good

theorem FreshGood.known_of_live (live : (s.streams.get k).live = true) : s.Known k := by
  by_contra unknown
  rw [good.fresh k unknown] at live
  cases live

theorem FreshGrows.refl : FreshGrows s s := ⟨good,fun _ known => known,fun _ stopped => stopped⟩

theorem FreshGood.congr (conns : s'.conns = s.conns) (streams : s'.streams = s.streams) : FreshGrows s s' where
  good := {
    even := conns ▸ good.even
    fresh := by
      intro k unknown
      rw [streams]
      apply good.fresh
      rw [H2Server.Known,← conns]
      exact unknown}
  grows k known := by
    rw [H2Server.Known,conns]
    exact known
  stays c stopped := by
    rw [H2Server.Stopped,conns]
    exact stopped

theorem FreshGood.abandon (known : s.Known k) : FreshGrows s (s.abandon cfg k) := by
  have changed : FreshGrows s (s.onStream k H2Stream.abandon) := good.onStream known
  exact changed.trans (changed.good.congr (by simp) (by simp))

theorem FreshGood.resetStream : FreshGrows s (s.resetStream cfg k) := by
  rw [H2Server.resetStream]
  split
  · rename_i live
    exact good.abandon (good.known_of_live live)
  · exact .refl good

theorem FreshGood.takeStreams : FreshGrows s (s.takeStreams c) where
  good := {
    even := good.even
    fresh := by
      intro k unknown
      rw [takeStreams_streams,Table.get_mapAll,good.fresh k unknown]
      exact taken_default c k}
  grows _ known := known
  stays _ stopped := stopped
end

structure FrameFresh (s : H2Server) (h : Handled) : Prop where
  state : FreshGrows s h.state
  acts : ∀ a ∈ h.acts, FreshSound h.state a
  timers : ∀ t ∈ h.timers, ∀ a ∈ t, FreshSound h.state a

theorem Resets.fresh (resets : a.Resets k) : FreshSound s a := by
  cases a with
  | resetStream | write => trivial
  | _ => cases resets

theorem Follows.fresh (follows : a.Follows k) (known : s.Known k) : FreshSound s a := by
  rcases follows with resets | rfl | rfl
  · exact Resets.fresh resets
  · exact known
  · exact known

theorem conclude_fresh {x : FrameFacts} {new ended : Bool} {timers : List (List H2Act)} (good : FreshGood s) (known : s.Known k)
    (idle : ∀ t ∈ timers, ∀ a ∈ t, ∀ s', FreshSound s' a) : FrameFresh s {concludeHeaders cfg s k new ended x with timers := timers} := by
  obtain ⟨acts,follow,same | ⟨-,stopped | answered⟩⟩ := concludeHeaders_cases cfg x s k new ended
  · rw [same]
    exact ⟨.refl good,fun a mem => Follows.fresh (follow a mem) known,fun t mem a inside => idle t mem a inside _⟩
  · rw [stopped]
    have grows : FreshGrows s (s.onStream k stopTimer) := good.onStream known
    exact ⟨grows,fun a mem => Follows.fresh (follow a mem) (grows.grows k known),fun t mem a inside => idle t mem a inside _⟩
  · rw [answered]
    have grows : FreshGrows s (s.onStream k respondEarly) := good.onStream known
    exact ⟨grows,fun a mem => Follows.fresh (follow a mem) (grows.grows k known),fun t mem a inside => idle t mem a inside _⟩

theorem acceptData_fresh {fr : H2Frame} (good : FreshGood s) (known : s.Known k) : FrameFresh s (acceptData cfg s k fr p) := by
  have reserved : FreshGrows s (reservePayload cfg s k p) := good.congr (reservePayload_conns ..) (reservePayload_streams ..)
  rcases acceptData_cases cfg s fr k p with failed | taken
  · rw [failed]
    exact ⟨reserved.trans (reserved.good.onStream (reserved.grows k known)),nofun,nofun⟩
  rw [taken]
  have credited : FreshGrows (reservePayload cfg s k p) ((reservePayload cfg s k p).onConn k.1 fun h =>
      if creditsArrival cfg (s.streams.get k) fr then h.creditBatch fr.payload.length else h) := by
    apply reserved.good.onFlags
    all_goals
      rw [H2Conn.creditBatch]
      split_ifs <;> first | rfl | exact id
  have both := reserved.trans credited
  have all := both.trans (both.good.onStream (g := takeData cfg fr p) (both.grows k known))
  refine ⟨all,?_,nofun⟩
  intro a mem
  rcases mem_append.mp mem with update | after
  · split at update
    · obtain ⟨frame,rfl⟩ := dueUpdates_writes update
      trivial
    · cases update
  · rcases afterData_follows after with follows | rfl
    · exact Follows.fresh follows (all.grows k known)
    · exact all.grows k known

theorem FrameFresh.after (second : FrameFresh s' h) (first : FreshGrows s s') : FrameFresh s h :=
  ⟨first.trans second.state,second.acts,second.timers⟩

variable (cfg c) in

theorem handleFrame_fresh (good : FreshGood s) (fr : H2Frame) (x : FrameFacts) : FrameFresh s (handleFrame cfg s c fr x) := by
  rcases handleFrame_cases cfg fr x s c with ⟨⟨⟨g,⟨fields,later⟩,state⟩,acts,timers⟩,-⟩ | ⟨-,p,-,live,-,-,accepted⟩ | ⟨-,opens | continues⟩
  · refine ⟨?_,fun a mem => Resets.fresh (acts a mem),fun t mem => nomatch (timers ▸ mem)⟩
    rcases state with same | changed
    · rw [same]
      exact .refl good
    · have push : (g (s.conns.get c)).nextPush = (s.conns.get c).nextPush := by rw [fields]
      rw [changed]
      exact good.onConn later push.ge (push ▸ good.even c) fun stopped => by rw [fields]; exact stopped
  · rw [accepted]
    have spent : FreshGrows s (spendWindow s c fr) := good.onFlags rfl rfl id
    exact (acceptData_fresh spent.good (spent.grows _ (good.known_of_live live))).after spent
  · obtain ⟨-,odd,later,ended,timers,which,opened⟩ := opens
    rw [opened]
    have named : FreshGrows s (s.onConn c fun h => {h with lastStream := fr.streamID}) := good.onConn later.le (Nat.le_refl _) (good.even c) id
    have known : (s.onConn c fun h => {h with lastStream := fr.streamID}).Known (c,fr.streamID) := by
      refine ⟨fun _ => ?_,fun even => ?_⟩
      · rw [onConn_conns,Table.get_update_self]
      · dsimp only at odd even
        lia
    have published : FreshGrows s (publish cfg x s (c,fr.streamID) ended) := named.trans (named.good.onStream known)
    refine (conclude_fresh published.good known ?_).after published
    intro t mem a inside s'
    rcases which with rfl | rfl
    · cases mem
    rw [mem_singleton] at mem
    subst mem
    rw [mem_singleton] at inside
    subst inside
    trivial
  · obtain ⟨live,eof,ended⟩ := continues
    have changed : FreshGrows s (s.onStream (c,fr.streamID) (endRemote eof)) := good.onStream (good.known_of_live live)
    have concluded := FrameFresh.after (h := {concludeHeaders cfg _ (c,fr.streamID) false true x with timers := []})
      (conclude_fresh changed.good (good.known_of_live live) nofun) changed
    rw [ended]
    exact ⟨concluded.state,concluded.acts,fun t mem => nomatch (concludeHeaders_timers cfg x _ _ ▸ mem)⟩

structure FreshStep (s : H2Server) (f : Effect H2Server H2Act) : Prop where
  state : FreshGrows s f.state
  next : ∀ b ∈ f.next, FreshSound f.state b
  spawned : ∀ t ∈ f.spawned, ∀ b ∈ t, FreshSound f.state b

theorem FreshStep.of_next (state : FreshGrows s s') (next : ∀ b ∈ acts, FreshSound s' b) : FreshStep s {state := s', next := acts} :=
  ⟨state,next,nofun⟩

theorem FreshStep.done (state : FreshGrows s s') : FreshStep s {state := s'} := .of_next state (by simp)

theorem sendRST_fresh (k : StreamKey) (code : H2Error) : ∀ b ∈ sendRST k code, FreshSound s b :=
  fun b mem => Resets.fresh (sendRST_resets k code b mem)

theorem serveFrame_fresh (good : FreshGood s) (does : serveFrame cfg s c e = some f) : FreshStep s f := by
  cases e with
  | frame fr x =>
    rw [serveFrame] at does
    split at does
    · cases does
      exact .of_next (good.onFlags rfl rfl fun _ => by simp [H2Conn.stopped]) fun b mem => mem_singleton.mp mem ▸ trivial
    dsimp only at does
    generalize counting : (if fr.typ = .data then s.onConn c fun h => {h with received := h.received+fr.payload.length} else s) = counted at does
    have counts : FreshGrows s counted := by
      rw [← counting]
      split
      · exact good.onFlags rfl rfl id
      · exact .refl good
    have handled := (handleFrame_fresh cfg c counts.good fr x).after counts
    generalize handleFrame cfg counted c fr x = h at does handled
    split at does
    · cases does
      exact ⟨handled.state,forall_mem_append.mpr ⟨handled.acts,forall_mem_singleton.mpr trivial⟩,handled.timers⟩
    · cases does
      have failed : FreshGrows h.state (h.state.onConn c fun h => {h with failed := true}) :=
        handled.state.good.onFlags rfl rfl fun _ => by simp [H2Conn.stopped]
      refine .of_next (handled.state.trans failed) ?_
      intro b mem
      rcases mem_append.mp mem with act | last
      · exact (handled.acts b act).grow failed.grows
      · simp only [mem_cons,not_mem_nil,or_false] at last
        rcases last with rfl | rfl <;> trivial
  | ends =>
    cases does
    exact .of_next (good.onFlags rfl rfl fun _ => rfl) fun b mem => mem_singleton.mp mem ▸ trivial
  | _ => cases does

theorem readH2Body_fresh (good : FreshGood s) (known : s.Known k) (does : readH2Body cfg s k m = some f) : FreshStep s f := by
  unfold readH2Body at does
  dsimp only at does
  split at does
  · split at does <;> cases does
    · exact .of_next (good.onStream known) (by simpa [FreshSound] using known)
    · exact .done (.refl good)
  split_ifs at does <;> cases does
  · exact .done (.refl good)
  · exact .of_next (good.onStream known) (by simpa [FreshSound] using known)
  · exact .done (.refl good)
  · exact .of_next (.refl good) (by simpa [FreshSound] using known)

theorem runHandler_fresh (good : FreshGood s) (known : s.Known k) (does : runHandler s k captured e = some f) : FreshStep s f := by
  cases e with
  | reads m | returns | panics =>
    cases does
    exact .of_next (.refl good) (by simpa [FreshSound] using known)
  | forks m =>
    cases does
    exact ⟨.refl good,by simpa [FreshSound] using known,by simpa [FreshSound] using known⟩
  | endsLocal | finishes =>
    cases does
    exact .of_next (good.onStream known) (by simpa [FreshSound] using known)
  | aborts code =>
    cases does
    refine .of_next (.refl good) fun b mem => ?_
    rcases mem_append.mp mem with reset | last
    · exact sendRST_fresh k code b reset
    · exact mem_singleton.mp last ▸ known
  | pushes =>
    cases does
    have even := good.even k.1
    have numbered : FreshGrows s (s.onConn k.1 fun h => {h with nextPush := (s.conns.get k.1).nextPush+2}) := by
      apply good.onConn (Nat.le_refl _)
      · exact Nat.le_add_right _ 2
      · exact (Nat.add_mod_right _ 2).trans even
      · exact id
    have promised : (s.onConn k.1 fun h => {h with nextPush := (s.conns.get k.1).nextPush+2}).Known (k.1,(s.conns.get k.1).nextPush) := by
      refine ⟨fun odd => ?_,fun _ => ?_⟩
      · dsimp only at odd
        lia
      · rw [onConn_conns,Table.get_update_self]
        exact Nat.lt_add_of_pos_right (by decide)
    refine .of_next (numbered.trans (numbered.good.onStream promised)) ?_
    simpa using ⟨promised,numbered.grows k known⟩
  | _ => cases does

theorem credit_fresh {h : H2Stream → H2Stream} (good : FreshGood s) (known : s.Known k)
    (last : (g (s.conns.get k.1)).lastStream = (s.conns.get k.1).lastStream) (push : (g (s.conns.get k.1)).nextPush = (s.conns.get k.1).nextPush)
    (stays : (s.conns.get k.1).stopped = true → (g (s.conns.get k.1)).stopped = true) :
    FreshStep s {state := (s.onConn k.1 g).onStream k h, next := dueUpdates s k n} := by
  have credited : FreshGrows s (s.onConn k.1 g) := good.onFlags last push stays
  refine .of_next (credited.trans (credited.good.onStream (credited.grows k known))) ?_
  intro b mem
  obtain ⟨frame,rfl⟩ := dueUpdates_writes mem
  trivial

theorem exec_fresh (good : FreshGood s) (sound : FreshSound s a) (does : a.exec cfg s e = some f) : FreshStep s f := by
  cases a with
  | readFrame c => exact serveFrame_fresh good does
  | read k m => exact readH2Body_fresh good sound does
  | handler k captured => exact runHandler_fresh good sound does
  | accept =>
    cases does
    exact ⟨good.congr rfl rfl,by simp [FreshSound],by simp [FreshSound]⟩
  | settingsTimer c =>
    cases does
    exact .of_next (.refl good) (by simp [FreshSound])
  | markClosed c =>
    cases does
    exact .done (good.onFlags rfl rfl fun _ => rfl)
  | releaseSlot c =>
    cases does
    exact .done (good.onFlags rfl rfl id)
  | closeAllStreams c =>
    cases does
    have closed : FreshGrows s (s.onConn c fun h => {h with closed := true}) := good.onFlags rfl rfl fun _ => rfl
    refine .of_next (closed.trans closed.good.takeStreams) ?_
    intro b mem
    obtain ⟨k,inside,rfl⟩ := mem_map.mp mem
    rw [liveStreams,mem_filter,Bool.and_eq_true] at inside
    exact closed.grows k (good.known_of_live inside.2.2)
  | closeStream k =>
    cases does
    exact .done (good.abandon sound)
  | resetStream k =>
    cases does
    exact .done good.resetStream
  | write c frame =>
    cases does
    refine .done (good.onFlags ?_ ?_ fun stopped => ?_) <;> split_ifs
    all_goals first | rfl | exact stopped
  | bodyTimer k =>
    rw [H2Act.exec] at does
    split at does <;> cases does
    exact .of_next (.refl good) (sendRST_fresh k _)
  | deliver k p | closeRemote k | unreserve k n =>
    cases does
    exact .done (good.onStream sound)
  | dispatch k =>
    rw [H2Act.exec] at does
    split at does <;> cases does
    · exact .done (.refl good)
    · exact .of_next (good.onStream sound) (by simpa [FreshSound] using sound)
  | acquireSlot k =>
    rw [H2Act.exec] at does
    split at does <;> cases does
    · have counted : FreshGrows s (s.onConn k.1 fun h => {h with streamSem := h.streamSem+1}) := good.onFlags rfl rfl id
      exact .of_next counted (by simpa [FreshSound] using counted.grows k sound)
    · exact .of_next (.refl good) (sendRST_fresh k _)
  | startHandler k =>
    rw [H2Act.exec] at does
    split at does <;> cases does
    · exact .of_next (.refl good) (by simp [FreshSound])
    · exact ⟨good.onStream sound,by simp,by simpa [FreshSound] using sound⟩
  | beginHandler k =>
    cases does
    exact .of_next (good.onStream sound) (by simpa [FreshSound] using sound)
  | releaseRead k n =>
    cases does
    exact .done (good.congr (by simp) (by simp))
  | consumeH2Body k n =>
    rw [H2Act.exec] at does
    split at does <;> cases does
    · exact .done (.refl good)
    · exact credit_fresh good sound rfl rfl id
  | creditWindow k n =>
    rw [H2Act.exec] at does
    split at does <;> cases does
    · exact .done (.refl good)
    apply credit_fresh good sound
    all_goals
      rw [H2Conn.creditBatch]
      split <;> first | rfl | exact id
  | flushH2BodyCredit k =>
    cases does
    have zeroed : FreshGrows s (s.onConn k.1 fun h => {h with connRecvWindowAccum := 0}) := good.onFlags rfl rfl id
    refine .of_next (zeroed.trans (zeroed.good.onStream (zeroed.grows k sound))) fun b mem => ?_
    rcases mem_append.mp mem with update | update
    all_goals
      rw [sendWindowUpdate_writes update]
      trivial
  | afterHandler k captured =>
    rw [H2Act.exec] at does
    split at does <;> cases does <;> exact .of_next (.refl good) (by simpa [FreshSound] using sound)
  | cancelUnfinished k captured =>
    cases does
    exact .of_next good.resetStream (by simpa [FreshSound] using good.resetStream.grows k sound)
  | releaseBody k captured =>
    cases does
    have given : FreshGrows s (s.releaseBufferedBody cfg captured) := good.congr (by simp) (by simp)
    exact .done (given.trans (given.good.onStream (given.grows k sound)))
end
end FhServer

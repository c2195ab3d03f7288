import FhServer.H2Steps

namespace FhServer
open Interleaving List H2Server H2Stream Table

def H2Stream.queued (r : H2Stream) : Nat := r.bodyQueued+(r.inbound.map List.length).sum

def H2Sent.increment : H2Sent → Nat
  | .windowUpdate none n => n
  | _ => 0

namespace H2Conn

def announced (h : H2Conn) : Nat := (h.sent.map H2Sent.increment).sum

def peerCredit (h : H2Conn) : Int := h2InitialWindow-h.received+h.announced

def credit (h : H2Conn) : Int := h.peerCredit+h.connRecvWindowAccum
end H2Conn

def H2Server.liveUnread (s : H2Server) (c : Nat) : Int :=
  s.streams.sum fun k r => if k.1 = c ∧ r.live = true then r.queued else 0

-- Bytes that a step under way has taken from a queue and not yet counted, and increments decided but not yet written.
def H2Act.inFlight (c : Nat) : H2Act → Int
  | .write c' frame => if c' = c then frame.increment else 0
  | .deliver k p => if k.1 = c then p.length else 0
  | .consumeH2Body k n | .creditWindow k n => if k.1 = c then n else 0
  | _ => 0

example (c : Nat) : H2Act.inFlight c .accept = 0 := by simp [H2Act.inFlight]

-- The steps after which no credit of the connection is lost: no payload is given up, a stream leaves the map only when
-- nothing is queued in it, a tunnel's payload is delivered while the stream is there, and one read is shorter than the
-- increments that a WINDOW_UPDATE can hold.
def keepsCredit (cfg : H2Config) (c : Nat) (s : H2Server) : H2Act → H2Choice → Bool
  | .readFrame c', .frame f _ =>
    c' != c || f.typ != .data || f.payload.length == 0 || (dataPayload f).all fun p => !losesPayload cfg s f (c,f.streamID) p
  | .resetStream k, _ | .cancelUnfinished k _, _ | .handler k _, .finishes => k.1 != c || !(s.streams.get k).live || (s.streams.get k).queued == 0
  | .deliver k _, _ => k.1 != c || (s.streams.get k).live
  | .read k m, _ => k.1 != c || (s.streams.get k).connect || decide (min m (s.streams.get k).bodyQueued < 2^31)
  | _, _ => true

section
variable {s : H2Server} {c : Nat} {k : StreamKey} {f : H2Stream → H2Stream} {g : H2Conn → H2Conn}

def unreadOn (c : Nat) (k : StreamKey) (r : H2Stream) : Int := if k.1 = c then r.queued else 0

def H2Server.heldCredit (c : Nat) (s : H2Server) : Int := (s.conns.get c).credit+s.streams.sum (unreadOn c)

theorem unreadOn_default (c : Nat) (k : StreamKey) : unreadOn c k {} = 0 := by
  rw [unreadOn]
  split <;> rfl

theorem heldCredit_onConn (s : H2Server) (c c' : Nat) (g : H2Conn → H2Conn) :
    (s.onConn c' g).heldCredit c = s.heldCredit c+if c' = c then (g (s.conns.get c)).credit-(s.conns.get c).credit else 0 := by
  simp only [heldCredit,onConn_conns,onConn_streams,get_update]
  split
  · lia
  · lia

theorem heldCredit_onStream (s : H2Server) (c : Nat) (k : StreamKey) (f : H2Stream → H2Stream) :
    (s.onStream k f).heldCredit c =
      s.heldCredit c+if k.1 = c then ((f (s.streams.get k)).queued : Int)-(s.streams.get k).queued else 0 := by
  have moved := s.streams.sum_update (unreadOn_default c) k f
  rw [heldCredit,heldCredit,onStream_conns,onStream_streams]
  rw [unreadOn,unreadOn] at moved
  split at moved
  · lia
  · lia

theorem heldCredit_queued (queued : (f (s.streams.get k)).queued = (s.streams.get k).queued) : (s.onStream k f).heldCredit c = s.heldCredit c := by
  rw [heldCredit_onStream,queued]
  split <;> lia

theorem heldCredit_takeStreams (s : H2Server) (c c' : Nat) : (s.takeStreams c').heldCredit c = s.heldCredit c := by
  have same : ∀ k r, unreadOn c k (H2Server.taken c' k r) = unreadOn c k r := by
    intro k r
    rw [H2Server.taken]
    split <;> rfl
  rw [heldCredit,takeStreams_streams,sum_mapAll _ same]
  rfl
end
section
variable (cfg : H2Config) (r : H2Stream) (f : H2Frame) (p : Bytes)

theorem queued_creditBatch (n : Int) : (r.creditBatch n).queued = r.queued := by
  rw [creditBatch]
  split <;> rfl

theorem queued_store : (r.store cfg p).queued = r.queued+if r.streaming cfg then p.length else 0 := by
  rw [store]
  split
  · rename_i tunnel
    simp [streaming,tunnel]
  split
  · simp only [queued,bodyQueued,map_append,map_cons,map_nil,sum_append,sum_cons,sum_nil]
    lia
  · rfl

theorem queued_takeData : (takeData cfg f p r).queued = r.queued+if r.streaming cfg then p.length else 0 := by
  have stored : ((r.store cfg p).spend f.payload.length).queued = (r.store cfg p).queued := rfl
  have ended (q : H2Stream) (eof : Bool) : (q.endRemote eof).queued = q.queued := rfl
  unfold takeData
  split <;> split <;> simp [ended,queued_creditBatch,stored,queued_store]

theorem store_inbound (r : H2Stream) : (r.store cfg p).inbound = r.inbound := by
  rw [store]
  split
  · rfl
  · split <;> rfl
end

structure CreditGood (c : Nat) (s : H2Server) : Prop where
  nonneg : 0 ≤ (s.conns.get c).connRecvWindowAccum
  small : (s.conns.get c).connRecvWindowAccum < windowsUpdateThreshold
  framed : ∀ k, ∀ chunk ∈ (s.streams.get k).inbound, chunk.length ≤ h2DefaultFrame
  gone : ∀ k, k.1 = c → (s.streams.get k).live = true ∨ (s.streams.get k).queued = 0

def CreditSound (c : Nat) : H2Act → Prop
  | .deliver _ p => p.length ≤ h2DefaultFrame
  | .consumeH2Body k n | .creditWindow k n => k.1 = c → n < 2^31
  | .closeStream k => k.1 ≠ c
  | _ => True

example (c : Nat) : CreditSound c .accept := by simp [CreditSound]

section
variable (s : H2Server) (c : Nat) (k : StreamKey) (n : Int)

theorem carried_sendWindowUpdate (c' : Nat) (id : Option Nat) (m : Nat) :
    carried (H2Act.inFlight c) (sendWindowUpdate c' id m) = if c' = c then ((H2Sent.windowUpdate id m).increment : Int) else 0 := by
  rw [sendWindowUpdate]
  split
  · rw [carried_cons,carried_nil,H2Act.inFlight,add_zero]
  · have zero : m = 0 := by lia
    cases id <;> simp [zero,H2Sent.increment]

theorem dueUpdate_eq (accum : Int) (small : accum < 2^32) (nonneg : 0 ≤ accum) :
    (dueUpdate accum : Int) = if accum ≥ windowsUpdateThreshold then accum else 0 := by
  rw [dueUpdate]
  split
  · rw [Int.emod_eq_of_lt nonneg small,Int.toNat_of_nonneg nonneg]
  · rfl

theorem carried_dueUpdates : carried (H2Act.inFlight c) (dueUpdates s k n) =
    if k.1 = c then (dueUpdate ((s.conns.get k.1).connRecvWindowAccum+n) : Int) else 0 := by
  rw [dueUpdates,carried_append,carried_sendWindowUpdate,carried_sendWindowUpdate]
  simp [H2Sent.increment]

theorem dueUpdates_sound : ∀ a ∈ dueUpdates s k n, CreditSound c a := by
  intro a mem
  obtain ⟨frame,rfl⟩ := dueUpdates_writes mem
  trivial

theorem credit_creditBatch (h : H2Conn) :
    (h.creditBatch n).credit = h.credit+n-if h.connRecvWindowAccum+n ≥ windowsUpdateThreshold then h.connRecvWindowAccum+n else 0 := by
  have same : (h.creditBatch n).peerCredit = h.peerCredit := by
    rw [H2Conn.creditBatch]
    split <;> rfl
  rw [H2Conn.credit,H2Conn.credit,same,H2Conn.creditBatch]
  split <;> dsimp only <;> lia

theorem credit_creditConsumed (h : H2Conn) :
    (h.creditConsumed n).credit = h.credit+n-if h.connRecvWindowAccum+n ≥ windowsUpdateThreshold then h.connRecvWindowAccum+n else 0 := by
  have same : (h.creditConsumed n).peerCredit = h.peerCredit := rfl
  rw [H2Conn.credit,H2Conn.credit,same,H2Conn.creditConsumed]
  split <;> lia
end
section
variable {c c' : Nat} {s s' : H2Server} {k : StreamKey} {g : H2Conn → H2Conn} {f : H2Stream → H2Stream}

theorem heldCredit_congr (conns : s'.conns = s.conns) (streams : s'.streams = s.streams) : s'.heldCredit c = s.heldCredit c := by
  rw [heldCredit,heldCredit,conns,streams]

section
variable (good : CreditGood c s)
include good

theorem CreditGood.congr (conns : s'.conns = s.conns) (streams : s'.streams = s.streams) : CreditGood c s' := by
  obtain ⟨nonneg,small,framed,gone⟩ := good
  exact ⟨conns ▸ nonneg,conns ▸ small,streams ▸ framed,streams ▸ gone⟩

theorem CreditGood.onConn (accum : c' = c → 0 ≤ (g (s.conns.get c)).connRecvWindowAccum ∧ (g (s.conns.get c)).connRecvWindowAccum < windowsUpdateThreshold) :
    CreditGood c (s.onConn c' g) := by
  have each : 0 ≤ ((s.onConn c' g).conns.get c).connRecvWindowAccum ∧
      ((s.onConn c' g).conns.get c).connRecvWindowAccum < windowsUpdateThreshold := by
    rw [onConn_conns,get_update]
    split
    · rename_i same
      subst same
      exact accum rfl
    · exact ⟨good.nonneg,good.small⟩
  exact ⟨each.1,each.2,good.framed,good.gone⟩

theorem CreditGood.onConn_same (accum : c' = c → (g (s.conns.get c)).connRecvWindowAccum = (s.conns.get c).connRecvWindowAccum) : CreditGood c (s.onConn c' g) :=
  good.onConn fun same => (accum same).symm ▸ ⟨good.nonneg,good.small⟩

theorem CreditGood.onStream (framed : ∀ chunk ∈ (f (s.streams.get k)).inbound, chunk.length ≤ h2DefaultFrame)
    (gone : k.1 = c → (f (s.streams.get k)).live = true ∨ (f (s.streams.get k)).queued = 0) : CreditGood c (s.onStream k f) where
  nonneg := good.nonneg
  small := good.small
  framed := s.streams.update_all (P := fun _ r => ∀ chunk ∈ r.inbound, chunk.length ≤ h2DefaultFrame) good.framed framed
  gone := s.streams.update_all (P := fun k r => k.1 = c → r.live = true ∨ r.queued = 0) good.gone gone

theorem CreditGood.onStream_same (inbound : (f (s.streams.get k)).inbound = (s.streams.get k).inbound)
    (queued : (f (s.streams.get k)).queued = (s.streams.get k).queued)
    (live : k.1 = c → (s.streams.get k).live = true → (f (s.streams.get k)).live = true ∨ (s.streams.get k).queued = 0) :
    CreditGood c (s.onStream k f) := by
  apply good.onStream
  · rw [inbound]
    exact good.framed k
  intro same
  rw [queued]
  rcases good.gone k same with present | empty
  · exact live same present
  · exact .inr empty
end
end

def Idle (c : Nat) (a : H2Act) : Prop := a.inFlight c = 0 ∧ CreditSound c a

def H2Act.still : H2Act → Bool
  | .write _ (.windowUpdate _ _) | .deliver _ _ | .consumeH2Body _ _ | .creditWindow _ _ | .closeStream _ => false
  | _ => true

theorem idle_of_still (still : a.still = true) : Idle c a := by
  cases a with
  | write c' frame =>
    cases frame with
    | windowUpdate => cases still
    | _ => exact ⟨by simp [H2Act.inFlight,H2Sent.increment],trivial⟩
  | _ => first | exact ⟨rfl,trivial⟩ | cases still

theorem idles {acts : List H2Act} (still : acts.all H2Act.still = true) : ∀ a ∈ acts, Idle c a :=
  fun a mem => idle_of_still (all_eq_true.mp still a mem)

theorem Resets.idle (resets : a.Resets k) : Idle c a := by
  cases a with
  | resetStream => exact idle_of_still rfl
  | write c' frame =>
    cases frame with
    | rstStream => exact idle_of_still rfl
    | _ => cases resets
  | _ => cases resets

theorem Follows.idle (follows : a.Follows k) : Idle c a := by
  rcases follows with resets | rfl | rfl
  · exact Resets.idle resets
  · exact idle_of_still rfl
  · exact idle_of_still rfl

structure CreditStep (c : Nat) (s : H2Server) (a : H2Act) (f : Effect H2Server H2Act) : Prop where
  good : CreditGood c f.state
  next : ∀ b ∈ f.next, CreditSound c b
  spawned : ∀ t ∈ f.spawned, ∀ b ∈ t, CreditSound c b
  same : f.state.heldCredit c+carried (H2Act.inFlight c) f.next+carriedBy (H2Act.inFlight c) f.spawned = s.heldCredit c+a.inFlight c

theorem CreditStep.of_idle {f : Effect H2Server H2Act} (good : CreditGood c f.state) (held : f.state.heldCredit c = s.heldCredit c)
    (carries : H2Act.inFlight c a = 0) (next : ∀ b ∈ f.next, Idle c b := by simp)
    (spawned : ∀ t ∈ f.spawned, ∀ b ∈ t, Idle c b := by simp) :
    CreditStep c s a f where
  good := good
  next b mem := (next b mem).2
  spawned t mem b inside := (spawned t mem b inside).2
  same := by
    rw [held,carries,carried_eq_zero fun b mem => (next b mem).1,carriedBy_eq_zero fun t mem b inside => (spawned t mem b inside).1]
    lia

section
variable {cfg : H2Config} {s : H2Server} {c c' : Nat} {k : StreamKey} {f : H2Frame} {x : FrameFacts} {p : Bytes} {h : Handled}

structure FrameCredit (c : Nat) (s : H2Server) (h : Handled) (n : Int) : Prop where
  good : CreditGood c h.state
  acts : ∀ a ∈ h.acts, CreditSound c a
  timers : ∀ t ∈ h.timers, ∀ a ∈ t, Idle c a
  same : h.state.heldCredit c+carried (H2Act.inFlight c) h.acts = s.heldCredit c+n

theorem FrameCredit.of_idle (good : CreditGood c h.state) (held : h.state.heldCredit c = s.heldCredit c)
    (acts : ∀ a ∈ h.acts, Idle c a) (timers : ∀ t ∈ h.timers, ∀ a ∈ t, Idle c a) : FrameCredit c s h 0 where
  good := good
  acts a mem := (acts a mem).2
  timers := timers
  same := by rw [held,carried_eq_zero fun a mem => (acts a mem).1]

theorem minor_credit (good : CreditGood c s) (minor : h.Minor s c' i) : FrameCredit c s h 0 := by
  obtain ⟨⟨g,⟨fields,-⟩,state⟩,acts,timers⟩ := minor
  have credit : (g (s.conns.get c')).credit = (s.conns.get c').credit := by rw [fields]; rfl
  have accum : (g (s.conns.get c')).connRecvWindowAccum = (s.conns.get c').connRecvWindowAccum := by rw [fields]
  apply FrameCredit.of_idle
  · rcases state with same | changed
    · exact same ▸ good
    · rw [changed]
      exact good.onConn_same fun here => here ▸ accum
  · rcases state with same | changed
    · rw [same]
    rw [changed,heldCredit_onConn]
    split
    · lia
    · lia
  · intro a mem
    exact Resets.idle (acts a mem)
  · intro t mem
    rw [timers] at mem
    cases mem

variable (cfg x) in

theorem conclude_credit (good : CreditGood c s) (new ended : Bool) (k : StreamKey)
    (early : new = true → k.1 = c → (s.streams.get k).queued = 0) (timers : List (List H2Act)) (idle : ∀ t ∈ timers, ∀ a ∈ t, Idle c a) :
    FrameCredit c s {concludeHeaders cfg s k new ended x with timers := timers} 0 := by
  obtain ⟨acts,follow,same | ⟨isNew,stopped | answered⟩⟩ := concludeHeaders_cases cfg x s k new ended
  · rw [same]
    exact .of_idle good rfl (fun a mem => Follows.idle (follow a mem)) idle
  · rw [stopped]
    exact .of_idle (good.onStream_same rfl rfl fun _ live => .inl live) (heldCredit_queued rfl) (fun a mem => Follows.idle (follow a mem)) idle
  · rw [answered]
    exact .of_idle (good.onStream_same rfl rfl fun here _ => .inr (early isNew here)) (heldCredit_queued rfl)
      (fun a mem => Follows.idle (follow a mem)) idle

theorem opens_credit (good : CreditGood c s) (opens : h.Opens cfg x s k) : FrameCredit c s h 0 := by
  obtain ⟨dead,-,-,ended,timers,which,rfl⟩ := opens
  have empty : k.1 = c → (s.streams.get k).queued = 0 := fun here => (good.gone k here).resolve_left (by simp [dead])
  have published : ((publish cfg x s k ended).streams.get k).queued = 0 ∧ ((publish cfg x s k ended).streams.get k).live = true ∧
      ((publish cfg x s k ended).streams.get k).inbound = [] := by
    simp only [publish,onStream_streams,get_update_self]
    cases ended <;> exact ⟨rfl,rfl,rfl⟩
  have good' : CreditGood c (publish cfg x s k ended) := by
    refine CreditGood.onStream (good.onConn_same fun _ => rfl) ?_ ?_
    · cases ended <;> exact nofun
    · cases ended <;> exact fun _ => .inl rfl
  have held : (publish cfg x s k ended).heldCredit c = s.heldCredit c := by
    rw [publish,heldCredit_onStream,heldCredit_onConn]
    by_cases here : k.1 = c
    · rw [if_pos here,if_pos here]
      have credit : ({s.conns.get c with lastStream := k.2} : H2Conn).credit = (s.conns.get c).credit := rfl
      have fresh := published.1
      rw [publish,onStream_streams,get_update_self] at fresh
      rw [credit,fresh,onConn_streams,empty here]
      lia
    · rw [if_neg here,if_neg here,add_zero,add_zero]
  obtain ⟨final,acts,idle,same⟩ := conclude_credit cfg x good' true ended k (fun _ _ => published.1) timers (by
    intro t mem
    rcases which with rfl | rfl
    · cases mem
    · cases mem_singleton.mp mem
      exact idles rfl)
  exact ⟨final,acts,idle,held ▸ same⟩

theorem continues_credit (good : CreditGood c s) (continues : h.Continues cfg x s k) : FrameCredit c s h 0 := by
  obtain ⟨live,eof,rfl⟩ := continues
  have good' : CreditGood c (s.onStream k (endRemote eof)) := good.onStream_same rfl rfl fun _ present => .inl present
  have held : (s.onStream k (endRemote eof)).heldCredit c = s.heldCredit c := heldCredit_queued rfl
  obtain ⟨final,acts,idle,same⟩ := conclude_credit cfg x good' false true k nofun [] nofun
  exact ⟨final,acts,(fun t mem => nomatch (concludeHeaders_timers cfg x _ _ ▸ mem)),held ▸ same⟩

theorem afterData_credit (r : H2Stream) (short : p.length ≤ h2DefaultFrame) :
    (∀ a ∈ afterData r k f p, CreditSound c a) ∧
      carried (H2Act.inFlight c) (afterData r k f p) = if k.1 = c ∧ r.connect = true then (p.length : Int) else 0 := by
  constructor
  · intro a mem
    rcases afterData_follows mem with follows | rfl
    · exact (Follows.idle follows).2
    · exact short
  rw [afterData]
  split
  · rename_i tunnel
    have closing : carried (H2Act.inFlight c) (if endsStream f then [.closeRemote k] else []) = 0 := by split <;> rfl
    rw [carried_append,closing]
    simp only [tunnel,and_true]
    split
    · simp [H2Act.inFlight]
    · have zero : p.length = 0 := by lia
      simp [zero]
  · rename_i plain
    have none : (if k.1 = c ∧ r.connect = true then (p.length : Int) else 0) = 0 := if_neg fun both => plain both.2
    rw [none]
    split
    · split
      · rfl
      · exact carried_eq_zero fun a mem => (idles rfl a mem).1
    · rfl

theorem dataPayload_length (payload : dataPayload f = some p) : p.length ≤ f.payload.length := by
  rw [dataPayload] at payload
  split at payload
  · split at payload
    · cases payload
    split at payload
    · cases payload
    · cases payload
      simp only [length_drop,length_take]
      lia
  · cases payload
    exact Nat.le_refl _

theorem creditBatch_range {h : H2Conn} {n : Int} (nonneg : 0 ≤ h.connRecvWindowAccum) (more : 0 ≤ n) :
    0 ≤ (h.creditBatch n).connRecvWindowAccum ∧ (h.creditBatch n).connRecvWindowAccum < windowsUpdateThreshold := by
  rw [H2Conn.creditBatch]
  split
  · exact ⟨Int.le_refl 0,(by decide : (0 : Int) < windowsUpdateThreshold)⟩
  · lia

theorem payload_split {r : H2Stream} (whole : f.payload.length = 0 ∨ (r.connect || r.streaming cfg) = true → p.length = f.payload.length) :
    (if r.connect = true then (p.length : Int) else 0)+(if r.streaming cfg = true then p.length else 0)+
      (if creditsArrival cfg r f = true then f.payload.length else 0) = f.payload.length := by
  rw [creditsArrival]
  cases tunnel : r.connect
  · cases reading : r.streaming cfg
    · by_cases some : f.payload.length > 0
      · simp [some]
      · have zero : f.payload.length = 0 := by lia
        simp [zero]
    · rw [whole (.inr (by simp [reading]))]
      simp
  · have none : r.streaming cfg = false := by simp [streaming,tunnel]
    rw [whole (.inr (by simp [tunnel])),none]
    simp

theorem accepts_credit (good : CreditGood c s) (short : f.payload.length ≤ h2DefaultFrame) (payload : dataPayload f = some p)
    (accepts : h.Accepts cfg s f k p) (keeps : k.1 = c → f.payload.length = 0 ∨ losesPayload cfg s f k p = false) :
    (k.1 = c ∧ h.error.isSome = true) ∨ FrameCredit c s h (if k.1 = c then f.payload.length else 0) := by
  obtain ⟨live,receives,fits,rfl⟩ := accepts
  have inside := dataPayload_length payload
  have spentGood : CreditGood c (reservePayload cfg (spendWindow s k.1 f) k p) := by
    refine CreditGood.congr (s := spendWindow s k.1 f) ?_ (reservePayload_conns ..) (reservePayload_streams ..)
    exact good.onConn_same fun _ => rfl
  have spentHeld : (reservePayload cfg (spendWindow s k.1 f) k p).heldCredit c = s.heldCredit c := by
    rw [heldCredit_congr (reservePayload_conns ..) (reservePayload_streams ..),spendWindow,heldCredit_onConn]
    have credit : ((s.conns.get c).spend f.payload.length).credit = (s.conns.get c).credit := rfl
    split <;> lia
  have sameStream : (reservePayload cfg (spendWindow s k.1 f) k p).streams.get k = s.streams.get k := by
    rw [reservePayload_streams]
    rfl
  have sameAccum : ((spendWindow s k.1 f).conns.get k.1).connRecvWindowAccum = (s.conns.get k.1).connRecvWindowAccum := by
    rw [spendWindow,onConn_conns,get_update_self]
    rfl
  obtain ⟨takenLive,takenConnect,takenInbound⟩ := takeData_keeps cfg f p (s.streams.get k)
  rcases acceptData_cases cfg (spendWindow s k.1 f) f k p with failed | taken
  · by_cases here : k.1 = c
    · exact .inl ⟨here,by rw [failed]; rfl⟩
    rw [failed,if_neg here]
    refine .inr (.of_idle ?_ ?_ nofun nofun)
    · refine spentGood.onStream ?_ fun same => absurd same here
      rw [sameStream]
      change ∀ chunk ∈ ((s.streams.get k).store cfg p).inbound, chunk.length ≤ h2DefaultFrame
      rw [store_inbound]
      exact good.framed k
    · rw [Handled.fail,heldCredit_onStream,if_neg here,add_zero,spentHeld]
  · right
    rw [taken]
    have isStream : (spendWindow s k.1 f).streams.get k = s.streams.get k := rfl
    rw [isStream]
    obtain ⟨afterSound,afterCarried⟩ := afterData_credit (c := c) (k := k) (f := f) (takeData cfg f p (s.streams.get k)) (inside.trans short)
    refine ⟨?_,?_,nofun,?_⟩
    · refine CreditGood.onStream (spentGood.onConn ?_) ?_ ?_
      · intro _
        split
        · exact creditBatch_range spentGood.nonneg (by lia)
        · exact ⟨spentGood.nonneg,spentGood.small⟩
      · rw [onConn_streams,sameStream,takenInbound]
        exact good.framed k
      · intro _
        rw [onConn_streams,sameStream,takenLive]
        exact .inl live
    · intro a mem
      rcases mem_append.mp mem with update | after
      · split at update
        · exact dueUpdates_sound _ c k _ a update
        · cases update
      · exact afterSound a after
    · rw [heldCredit_onStream,heldCredit_onConn,spentHeld,carried_append,afterCarried,takenConnect,onConn_streams,sameStream,
        queued_takeData]
      by_cases here : k.1 = c
      · subst here
        have whole : f.payload.length = 0 ∨ ((s.streams.get k).connect || (s.streams.get k).streaming cfg) = true →
            p.length = f.payload.length := by
          intro either
          rcases keeps rfl with none | kept
          · lia
          rcases either with none | unread
          · lia
          · rw [losesPayload,if_pos live] at kept
            simp only [unread,Bool.or_eq_false_iff,Bool.true_and,bne_eq_false_iff_eq] at kept
            exact kept.2
        have parts := payload_split whole
        have accum : ((reservePayload cfg (spendWindow s k.1 f) k p).conns.get k.1).connRecvWindowAccum = (s.conns.get k.1).connRecvWindowAccum := by
          rw [reservePayload_conns,sameAccum]
        have bounded : (s.conns.get k.1).connRecvWindowAccum+f.payload.length < 2^32 := by
          have small : (s.conns.get k.1).connRecvWindowAccum < 65535/2 := good.small
          have frame : f.payload.length ≤ 16384 := short
          lia
        have nonneg := good.nonneg
        cases credits : creditsArrival cfg (s.streams.get k) f
        · simp only [credits,Bool.false_eq_true,if_false,if_true,carried_nil,true_and] at parts ⊢
          lia
        · simp only [credits,if_true,true_and,carried_dueUpdates,sameAccum] at parts ⊢
          rw [credit_creditBatch,accum,dueUpdate_eq _ bounded (by lia)]
          lia
      · have quiet : carried (H2Act.inFlight c) (if creditsArrival cfg (s.streams.get k) f then
            dueUpdates (spendWindow s k.1 f) k f.payload.length else []) = 0 := by
          split
          · rw [carried_dueUpdates,if_neg here]
          · rfl
        lia

theorem handleFrame_credit (good : CreditGood c s) (short : f.payload.length ≤ h2DefaultFrame)
    (keeps : c' = c → f.typ = .data → f.payload.length = 0 ∨ ∀ p, dataPayload f = some p → losesPayload cfg s f (c',f.streamID) p = false) :
    (c' = c ∧ (handleFrame cfg s c' f x).error.isSome = true) ∨
      FrameCredit c s (handleFrame cfg s c' f x) (if c' = c ∧ f.typ = .data then f.payload.length else 0) := by
  rcases handleFrame_cases cfg f x s c' with ⟨minor,lost⟩ | ⟨kind,p,payload,accepts⟩ | ⟨kind,opens | continues⟩
  · have quiet := minor_credit good minor
    by_cases both : c' = c ∧ f.typ = .data
    · obtain ⟨here,kind⟩ := both
      rcases lost kind with failed | ⟨p,payload,loses⟩
      · exact .inl ⟨here,failed⟩
      rcases keeps here kind with none | kept
      · rw [if_pos ⟨here,kind⟩,none]
        exact .inr quiet
      · rw [kept p payload] at loses
        cases loses
    · rw [if_neg both]
      exact .inr quiet
  · have same : (if c' = c ∧ f.typ = .data then (f.payload.length : Int) else 0) = if c' = c then (f.payload.length : Int) else 0 := by simp [kind]
    rw [same]
    refine accepts_credit good short payload accepts fun here => ?_
    exact (keeps here kind).imp_right fun kept => kept p payload
  · rw [if_neg (by simp [kind])]
    exact .inr (opens_credit good opens)
  · rw [if_neg (by simp [kind])]
    exact .inr (continues_credit good continues)
end
section
variable {cfg : H2Config} {s s' : H2Server} {c c' : Nat} {k : StreamKey} {a : H2Act} {e : H2Choice} {f : Effect H2Server H2Act}

theorem stopped_onConn (g : H2Conn → H2Conn) (here : c' = c) (stops : (g (s.conns.get c)).stopped = true) : (s.onConn c' g).Stopped c := by
  subst here
  rw [H2Server.Stopped,onConn_conns,get_update_self]
  exact stops

theorem losesPayload_received (n : Nat) (f : H2Frame) (k : StreamKey) (p : Bytes) :
    losesPayload cfg (s.onConn c' fun h => {h with received := h.received+n}) f k p = losesPayload cfg s f k p := by
  have last : ((s.onConn c' fun h => {h with received := h.received+n}).conns.get k.1).lastStream = (s.conns.get k.1).lastStream := by
    rw [onConn_conns,get_update]
    split
    · rename_i same
      rw [same]
    · rfl
  rw [losesPayload,losesPayload,last]
  rfl

section
variable (good : CreditGood c s)
include good

theorem CreditStep.of_flags (state : f.state = s.onConn c' g)
    (accum : c' = c → (g (s.conns.get c)).connRecvWindowAccum = (s.conns.get c).connRecvWindowAccum)
    (credit : c' = c → (g (s.conns.get c)).credit = (s.conns.get c).credit)
    (carries : H2Act.inFlight c a = 0) (next : ∀ b ∈ f.next, Idle c b := by simp)
    (spawned : ∀ t ∈ f.spawned, ∀ b ∈ t, Idle c b := by simp) : CreditStep c s a f := by
  refine .of_idle (state ▸ good.onConn_same accum) ?_ carries next spawned
  rw [state,heldCredit_onConn]
  split
  · lia
  · lia

theorem closes_credit (state : f.state = s.onConn c' g) (stops : ∀ h, (g h).stopped = true)
    (carries : H2Act.inFlight c a = 0) (next : ∀ b ∈ f.next, Idle c b := by simp)
    (spawned : ∀ t ∈ f.spawned, ∀ b ∈ t, Idle c b := by simp) :
    f.state.Stopped c ∨ CreditStep c s a f := by
  by_cases here : c' = c
  · exact .inl (state ▸ stopped_onConn g here (stops _))
  · exact .inr (.of_flags good state (fun same => absurd same here) (fun same => absurd same here) carries next spawned)

theorem serveFrame_credit (keeps : keepsCredit cfg c s (.readFrame c') e = true)
    (does : serveFrame cfg s c' e = some f) : f.state.Stopped c ∨ CreditStep c s (.readFrame c') f := by
  cases e with
  | frame fr x =>
    rw [serveFrame] at does
    split at does
    · cases does
      exact closes_credit good rfl (fun h => Bool.or_true _) rfl (idles rfl)
    rename_i short
    rw [Nat.not_lt] at short
    dsimp only at does
    generalize counting : (if fr.typ = .data then s.onConn c' fun h => {h with received := h.received+fr.payload.length} else s) = counted at does
    have goodCounted : CreditGood c counted := by
      rw [← counting]
      split
      · exact good.onConn_same fun _ => rfl
      · exact good
    have heldCounted : counted.heldCredit c+(if c' = c ∧ fr.typ = .data then (fr.payload.length : Int) else 0) = s.heldCredit c := by
      rw [← counting]
      split
      · rename_i kind
        rw [heldCredit_onConn]
        simp only [kind,and_true,H2Conn.credit,H2Conn.peerCredit,H2Conn.announced]
        split
        · lia
        · lia
      · rename_i kind
        simp [kind]
    have keepsCounted : c' = c → fr.typ = .data → fr.payload.length = 0 ∨
        ∀ p, dataPayload fr = some p → losesPayload cfg counted fr (c',fr.streamID) p = false := by
      intro here kind
      subst here
      rw [← counting,if_pos kind]
      simp only [keepsCredit,kind,bne_self_eq_false,Bool.false_or,Bool.or_eq_true,beq_iff_eq] at keeps
      refine keeps.imp_right ?_
      intro each p payload
      rw [payload] at each
      rw [losesPayload_received]
      simpa using each
    have account := handleFrame_credit (x := x) goodCounted short keepsCounted
    split at does
    · rename_i fine
      cases does
      rcases account with ⟨-,failed⟩ | ⟨final,acts,timers,same⟩
      · rw [fine] at failed
        cases failed
      refine .inr ⟨final,?_,fun t mem b inside => (timers t mem b inside).2,?_⟩
      · exact forall_mem_append.mpr ⟨acts,fun b loop => (idles rfl b loop).2⟩
      · rw [carried_append,carriedBy_eq_zero fun t mem b inside => (timers t mem b inside).1]
        simp only [carried_cons,carried_nil,H2Act.inFlight]
        lia
    · cases does
      by_cases here : c' = c
      · exact .inl (stopped_onConn _ here (Bool.or_true _))
      obtain ⟨final,acts,-,same⟩ := account.resolve_left fun both => here both.1
      refine .inr ⟨final.onConn_same fun same => absurd same here,?_,by simp,?_⟩
      · exact forall_mem_append.mpr ⟨acts,fun b last => (idles rfl b last).2⟩
      rw [heldCredit_onConn,if_neg here,carried_append]
      simp only [carried_cons,carried_nil,carriedBy_nil,H2Act.inFlight,if_neg here]
      lia
  | ends =>
    cases does
    exact closes_credit good rfl (fun h => rfl) rfl (idles rfl)
  | _ => cases does

theorem write_credit (frame : H2Sent) :
    (s.onConn c' fun h => if h.closed then h else if e = .fails then {h with closed := true} else {h with sent := h.sent ++ [frame]}).Stopped c ∨
    CreditStep c s (.write c' frame)
      {state := s.onConn c' fun h => if h.closed then h else if e = .fails then {h with closed := true} else {h with sent := h.sent ++ [frame]}} := by
  by_cases here : c' = c
  · subst here
    by_cases stops : (s.conns.get c').closed = true ∨ e = .fails
    · refine .inl (stopped_onConn _ rfl ?_)
      split
      · rename_i closed
        simp [H2Conn.stopped,closed]
      · rename_i still
        rw [if_pos (stops.resolve_left still)]
        rfl
    · rw [not_or] at stops
      right
      refine ⟨good.onConn_same fun _ => ?_,by simp,by simp,?_⟩
      · rw [if_neg stops.1,if_neg stops.2]
      · rw [heldCredit_onConn,if_neg stops.1,if_neg stops.2]
        simp [H2Conn.credit,H2Conn.peerCredit,H2Conn.announced,H2Act.inFlight]
  · right
    refine .of_flags good rfl (fun same => absurd same here) (fun same => absurd same here) ?_ (by simp) (by simp)
    simp [H2Act.inFlight,here]

theorem CreditStep.unchanged (carries : H2Act.inFlight c a = 0) (conns : f.state.conns = s.conns)
    (streams : f.state.streams = s.streams) (next : ∀ b ∈ f.next, Idle c b := by simp)
    (spawned : ∀ t ∈ f.spawned, ∀ b ∈ t, Idle c b := by simp) : CreditStep c s a f :=
  .of_idle (good.congr conns streams) (heldCredit_congr conns streams) carries next spawned

theorem CreditStep.nothing (carries : H2Act.inFlight c a = 0) : CreditStep c s a {state := s} :=
  .unchanged good carries rfl rfl
end

theorem CreditStep.of_read {g : H2Stream → H2Stream} {n : Nat} {next : List H2Act} (good : CreditGood c s)
    (live : (g (s.streams.get k)).live = (s.streams.get k).live) (queued : (g (s.streams.get k)).queued+n = (s.streams.get k).queued)
    (framed : ∀ chunk ∈ (g (s.streams.get k)).inbound, chunk.length ≤ h2DefaultFrame)
    (sound : ∀ b ∈ next, CreditSound c b) (carries : carried (H2Act.inFlight c) next = if k.1 = c then (n : Int) else 0)
    (nothing : H2Act.inFlight c a = 0) : CreditStep c s a {state := s.onStream k g, next := next} where
  good := by
    refine good.onStream framed fun here => ?_
    rw [live]
    exact (good.gone k here).imp_right fun empty => by lia
  next := sound
  spawned t mem := nomatch mem
  same := by
    rw [heldCredit_onStream,carries,nothing]
    simp only [carriedBy_nil]
    split <;> lia

theorem read_credit (good : CreditGood c s) (keeps : keepsCredit cfg c s (.read k m) e = true) (does : readH2Body cfg s k m = some f) :
    CreditStep c s (.read k m) f := by
  unfold readH2Body at does
  extract_lets r n at does
  split at does
  · split at does
    · rename_i chunk rest inbound
      cases does
      have framed : ∀ piece ∈ chunk :: rest, piece.length ≤ h2DefaultFrame := inbound ▸ good.framed k
      have first : chunk.length ≤ 16384 := framed chunk (mem_cons_self ..)
      refine .of_read (n := min m chunk.length) good rfl ?_ ?_ ?_ ?_ rfl
      · have before : r.inbound = chunk :: rest := inbound
        change bodyQueued r+_+_ = bodyQueued r+_
        rw [before]
        split
        · simp only [map_cons,sum_cons,length_drop]
          lia
        · simp only [map_cons,sum_cons]
          lia
      · intro piece mem
        split at mem
        · rcases mem_cons.mp mem with rfl | later
          · rw [length_drop]
            exact (Nat.sub_le _ _).trans first
          · exact framed piece (mem_cons_of_mem _ later)
        · exact framed piece (mem_cons_of_mem _ mem)
      · rw [forall_mem_singleton]
        exact fun _ => by lia
      · simp [H2Act.inFlight]
    · cases does
      exact .nothing good rfl
  rename_i plain
  split_ifs at does <;> cases does
  · exact .nothing good rfl
  · refine .of_read (n := n) good rfl ?_ (good.framed k) ?_ ?_ rfl
    · have split := length_unread m r.bodyChunks
      change ((unread m r.bodyChunks).map List.length).sum+(r.inbound.map List.length).sum+min m r.bodyQueued =
        r.bodyQueued+(r.inbound.map List.length).sum
      simp only [bodyQueued]
      lia
    · rw [forall_mem_cons,forall_mem_cons,forall_mem_singleton]
      refine ⟨trivial,trivial,fun here => ?_⟩
      have body : (s.streams.get k).connect = false := by simpa using plain
      have small : m < 2^31 ∨ (s.streams.get k).bodyQueued < 2^31 := by simpa [keepsCredit,here,body] using keeps
      lia
    · simp [H2Act.inFlight]
  · exact .nothing good rfl
  · exact .unchanged good rfl rfl rfl (idles rfl)

theorem CreditStep.of_stream (k : StreamKey) (g : H2Stream → H2Stream) (good : CreditGood c s) (conns : f.state.conns = s.conns)
    (streams : f.state.streams = s.streams.update k g) (inbound : (g (s.streams.get k)).inbound = (s.streams.get k).inbound)
    (chunks : (g (s.streams.get k)).bodyChunks = (s.streams.get k).bodyChunks)
    (live : k.1 = c → (s.streams.get k).live = true → (g (s.streams.get k)).live = true ∨ (s.streams.get k).queued = 0)
    (carries : H2Act.inFlight c a = 0) (next : ∀ b ∈ f.next, Idle c b := by simp)
    (spawned : ∀ t ∈ f.spawned, ∀ b ∈ t, Idle c b := by simp) :
    CreditStep c s a f := by
  have queued : (g (s.streams.get k)).queued = (s.streams.get k).queued := by
    rw [queued,queued,bodyQueued,bodyQueued,inbound,chunks]
  have good' : CreditGood c (s.onStream k g) := good.onStream_same inbound queued live
  exact .of_idle (good'.congr conns streams) ((heldCredit_congr (s := s.onStream k g) conns streams).trans (heldCredit_queued queued)) carries next spawned

theorem CreditStep.onStream {next : List H2Act} {spawned : List (List H2Act)} (good : CreditGood c s)
    (inbound : (g (s.streams.get k)).inbound = (s.streams.get k).inbound) (chunks : (g (s.streams.get k)).bodyChunks = (s.streams.get k).bodyChunks)
    (live : k.1 = c → (s.streams.get k).live = true → (g (s.streams.get k)).live = true ∨ (s.streams.get k).queued = 0)
    (carries : H2Act.inFlight c a = 0) (idle : ∀ b ∈ next, Idle c b := by simp)
    (threads : ∀ t ∈ spawned, ∀ b ∈ t, Idle c b := by simp) :
    CreditStep c s a {state := s.onStream k g, next := next, spawned := spawned} :=
  .of_stream k g good rfl rfl inbound chunks live carries idle threads

theorem mayLeave (keeps : (k.1 != c || !(s.streams.get k).live || (s.streams.get k).queued == 0) = true) (here : k.1 = c)
    (live : (s.streams.get k).live = true) : (s.streams.get k).queued = 0 := by
  simpa [here,live] using keeps

theorem resetStream_credit (good : CreditGood c s)
    (keeps : (k.1 != c || !(s.streams.get k).live || (s.streams.get k).queued == 0) = true) (state : f.state = s.resetStream cfg k)
    (carries : H2Act.inFlight c a = 0) (next : ∀ b ∈ f.next, Idle c b := by simp)
    (spawned : ∀ t ∈ f.spawned, ∀ b ∈ t, Idle c b := by simp) : CreditStep c s a f := by
  rw [resetStream] at state
  split at state
  · refine .of_stream k abandon good (by rw [state,abandon_conns]) (by rw [state,abandon_streams]) rfl rfl ?_ carries next spawned
    intro here live
    exact .inr (mayLeave keeps here live)
  · exact .unchanged good carries (by rw [state]) (by rw [state]) next spawned

theorem push_credit {captured : Int} (fresh : FreshGood s) (good : CreditGood c s) (does : runHandler s k captured .pushes = some f) :
    CreditStep c s (.handler k captured) f := by
  cases does
  have untouched : s.streams.get (k.1,(s.conns.get k.1).nextPush) = {} := by
    apply fresh.fresh
    intro known
    exact Nat.lt_irrefl _ (known.2 (fresh.even k.1))
  have good' : CreditGood c ((s.onConn k.1 fun h => {h with nextPush := (s.conns.get k.1).nextPush+2}).onStream (k.1,(s.conns.get k.1).nextPush)
      fun _ => {live := true, state := .stateHalfClosedRemote, ended := true}) :=
    (good.onConn_same fun _ => rfl).onStream nofun fun _ => .inl rfl
  refine .of_idle good' ?_ rfl (idles rfl)
  rw [heldCredit_onStream,heldCredit_onConn,onConn_streams,untouched]
  have credit : ({s.conns.get c with nextPush := (s.conns.get k.1).nextPush+2} : H2Conn).credit = (s.conns.get c).credit := rfl
  rw [credit]
  simp [queued,bodyQueued]

theorem runHandler_credit {captured : Int} (fresh : FreshGood s) (good : CreditGood c s)
    (keeps : keepsCredit cfg c s (.handler k captured) e = true) (does : runHandler s k captured e = some f) :
    CreditStep c s (.handler k captured) f := by
  cases e with
  | pushes => exact push_credit fresh good does
  | reads m | aborts code | returns | panics =>
    cases does
    exact .unchanged good rfl rfl rfl (idles rfl)
  | forks m =>
    cases does
    exact .unchanged good rfl rfl rfl (idles rfl) (by simpa using idle_of_still rfl)
  | endsLocal =>
    cases does
    exact .onStream good rfl rfl (fun _ live => .inl live) rfl (idles rfl)
  | finishes =>
    cases does
    exact .onStream good rfl rfl (fun here live => .inr (mayLeave keeps here live)) rfl (idles rfl)
  | _ => cases does

theorem deliver_credit {p : Bytes} (good : CreditGood c s) (sound : CreditSound c (.deliver k p))
    (keeps : keepsCredit cfg c s (.deliver k p) e = true) :
    CreditStep c s (.deliver k p) {state := s.onStream k fun r => {r with inbound := r.inbound ++ [p]}} := by
  refine ⟨good.onStream ?_ ?_,by simp,by simp,?_⟩
  · exact forall_mem_append.mpr ⟨good.framed k,forall_mem_singleton.mpr sound⟩
  · intro here
    left
    simpa [keepsCredit,here] using keeps
  · rw [heldCredit_onStream,H2Act.inFlight]
    simp only [queued,bodyQueued,map_append,map_cons,map_nil,sum_append,sum_cons,sum_nil,
      carried_nil,carriedBy_nil]
    split <;> lia

theorem returned_credit {n : Nat} (good : CreditGood c s)
    (carries : H2Act.inFlight c a = if k.1 = c then (n : Int) else 0) (bound : k.1 = c → n < 2^31)
    (credit : (g (s.conns.get c)).credit = (s.conns.get c).credit+n-
      if (s.conns.get c).connRecvWindowAccum+n ≥ windowsUpdateThreshold then (s.conns.get c).connRecvWindowAccum+n else 0)
    (accum : 0 ≤ (g (s.conns.get c)).connRecvWindowAccum ∧ (g (s.conns.get c)).connRecvWindowAccum < windowsUpdateThreshold)
    (inbound : (h (s.streams.get k)).inbound = (s.streams.get k).inbound)
    (queued : (h (s.streams.get k)).queued = (s.streams.get k).queued) (live : (h (s.streams.get k)).live = (s.streams.get k).live) :
    CreditStep c s a {state := (s.onConn k.1 g).onStream k h, next := dueUpdates s k n} := by
  refine ⟨(good.onConn fun _ => accum).onStream_same inbound queued fun _ present => .inl (live.trans present),dueUpdates_sound s c k n,
    (by simp),?_⟩
  rw [heldCredit_onStream,heldCredit_onConn,onConn_streams,queued,carried_dueUpdates,carries,credit,carriedBy_nil]
  by_cases here : k.1 = c
  · subst here
    have small : (s.conns.get k.1).connRecvWindowAccum < 65535/2 := good.small
    have nonneg := good.nonneg
    rw [dueUpdate_eq _ (by lia) (by lia)]
    lia
  · lia

theorem flush_credit (good : CreditGood c s) (does : (H2Act.flushH2BodyCredit k).exec cfg s e = some f) :
    CreditStep c s (.flushH2BodyCredit k) f := by
  cases does
  have zero : (0 : Int) < windowsUpdateThreshold := by decide
  refine ⟨(good.onConn fun _ => ⟨Int.le_refl 0,zero⟩).onStream_same rfl rfl fun _ present => .inl present,?_,by simp,?_⟩
  · intro b mem
    rcases mem_append.mp mem with update | update
    all_goals
      rw [sendWindowUpdate_writes update]
      trivial
  · rw [heldCredit_onStream,heldCredit_onConn,carried_append,carried_sendWindowUpdate,carried_sendWindowUpdate]
    by_cases here : k.1 = c
    · subst here
      have small : (s.conns.get k.1).connRecvWindowAccum < 65535/2 := good.small
      have nonneg := good.nonneg
      have whole : ((s.conns.get k.1).connRecvWindowAccum % 2^32).toNat = (s.conns.get k.1).connRecvWindowAccum := by
        rw [Int.emod_eq_of_lt nonneg (by lia),Int.toNat_of_nonneg nonneg]
      have emptied : ({s.conns.get k.1 with connRecvWindowAccum := 0} : H2Conn).credit =
          (s.conns.get k.1).credit-(s.conns.get k.1).connRecvWindowAccum := by
        simp only [H2Conn.credit,H2Conn.peerCredit,H2Conn.announced]
        lia
      have sameQueue : ({s.streams.get k with recvWindowAccum := 0} : H2Stream).queued = (s.streams.get k).queued := rfl
      rw [emptied,onConn_streams,sameQueue]
      simp only [if_true,H2Sent.increment,whole,H2Act.inFlight,carriedBy_nil]
      lia
    · simp [here,H2Act.inFlight]

theorem closeAll_credit (good : CreditGood c s) (does : (H2Act.closeAllStreams c').exec cfg s e = some f) :
    f.state.Stopped c ∨ CreditStep c s (.closeAllStreams c') f := by
  cases does
  by_cases here : c' = c
  · have stopped : (s.onConn c' fun h => {h with closed := true}).Stopped c := stopped_onConn _ here rfl
    exact .inl stopped
  right
  have marked : CreditGood c (s.onConn c' fun h => {h with closed := true}) := good.onConn_same fun same => absurd same here
  refine .of_idle ⟨marked.nonneg,marked.small,?_,?_⟩ ?_ rfl ?_ (by simp)
  · intro k
    rw [takeStreams_streams,get_mapAll,H2Server.taken]
    split <;> exact good.framed k
  · intro k same
    rw [takeStreams_streams,get_mapAll,H2Server.taken,if_neg fun there => here (there.symm.trans same)]
    exact good.gone k same
  · rw [heldCredit_takeStreams,heldCredit_onConn,if_neg here,add_zero]
  · intro b mem
    obtain ⟨k,inside,rfl⟩ := mem_map.mp mem
    rw [liveStreams,mem_filter,Bool.and_eq_true,beq_iff_eq] at inside
    exact ⟨rfl,fun same => here (inside.2.1.symm.trans same)⟩

theorem exec_credit (fresh : FreshGood s) (good : CreditGood c s) (sound : CreditSound c a) (keeps : keepsCredit cfg c s a e = true)
    (does : a.exec cfg s e = some f) : f.state.Stopped c ∨ CreditStep c s a f := by
  cases a with
  | readFrame c' => exact serveFrame_credit good keeps does
  | read k m => exact .inr (read_credit good keeps does)
  | handler k captured => exact .inr (runHandler_credit fresh good keeps does)
  | closeAllStreams c' => exact closeAll_credit good does
  | flushH2BodyCredit k => exact .inr (flush_credit good does)
  | write c' frame =>
    cases does
    exact write_credit good frame
  | deliver k p =>
    cases does
    exact .inr (deliver_credit good sound keeps)
  | accept =>
    cases does
    exact .inr (.unchanged good rfl rfl rfl (idles rfl) (by simpa using ⟨idle_of_still rfl,idle_of_still rfl⟩))
  | settingsTimer c' =>
    cases does
    exact .inr (.unchanged good rfl rfl rfl (idles rfl))
  | markClosed c' =>
    cases does
    exact closes_credit good rfl (fun h => rfl) rfl
  | releaseSlot c' =>
    cases does
    exact .inr (.of_flags good rfl (fun _ => rfl) (fun _ => rfl) rfl)
  | closeStream k =>
    cases does
    exact .inr (.of_stream k abandon good (by simp) (by simp) rfl rfl (fun here => absurd here sound) rfl)
  | resetStream k =>
    cases does
    exact .inr (resetStream_credit good keeps rfl rfl)
  | bodyTimer k =>
    rw [H2Act.exec] at does
    split at does <;> cases does
    exact .inr (.unchanged good rfl rfl rfl (idles rfl))
  | closeRemote k | unreserve k n | beginHandler k =>
    cases does
    exact .inr (.onStream good rfl rfl (fun _ live => .inl live) rfl (idles rfl))
  | dispatch k =>
    rw [H2Act.exec] at does
    split at does <;> cases does
    · exact .inr (.nothing good rfl)
    · exact .inr (.onStream good rfl rfl (fun _ live => .inl live) rfl (idles rfl))
  | acquireSlot k =>
    rw [H2Act.exec] at does
    split at does <;> cases does
    · exact .inr (.of_flags good rfl (fun _ => rfl) (fun _ => rfl) rfl (idles rfl))
    · exact .inr (.unchanged good rfl rfl rfl (idles rfl))
  | startHandler k =>
    rw [H2Act.exec] at does
    split at does <;> cases does
    · exact .inr (.unchanged good rfl rfl rfl (idles rfl))
    · exact .inr (.onStream good rfl rfl (fun _ live => .inl live) rfl (by simp) (by simpa using idle_of_still rfl))
  | releaseRead k n =>
    cases does
    exact .inr (.unchanged good rfl (by simp) (by simp))
  | consumeH2Body k n =>
    rw [H2Act.exec] at does
    split at does <;> cases does
    · rename_i zero
      exact .inr (.nothing good (by simp [H2Act.inFlight,zero]))
    refine .inr (returned_credit good rfl sound (credit_creditConsumed n _) ?_ rfl rfl rfl)
    have nonneg := good.nonneg
    have zero : (0 : Int) < windowsUpdateThreshold := by decide
    rw [H2Conn.creditConsumed]
    split <;> lia
  | creditWindow k n =>
    rw [H2Act.exec] at does
    split at does <;> cases does
    · rename_i zero
      exact .inr (.nothing good (by simp [H2Act.inFlight,zero]))
    refine .inr (returned_credit good rfl sound (credit_creditBatch n _) (creditBatch_range good.nonneg (by lia)) ?_ (queued_creditBatch ..) ?_)
    all_goals
      rw [creditBatch]
      split <;> rfl
  | afterHandler k captured =>
    rw [H2Act.exec] at does
    split at does <;> cases does <;> exact .inr (.unchanged good rfl rfl rfl (idles rfl))
  | cancelUnfinished k captured =>
    cases does
    exact .inr (resetStream_credit good keeps rfl rfl (idles rfl))
  | releaseBody k captured =>
    cases does
    exact .inr (.of_stream k (fun r => {r with released := true}) good (by simp) (by simp) rfl rfl (fun _ live => .inl live) rfl)
end
section
open H2Act
variable {cfg : H2Config} {c : Nat} {d : Interleaving.Config H2Server H2Act}

def creditRuns (cfg : H2Config) (c : Nat) : Interleaving.Config H2Server H2Act → Prop :=
  Runs (exec cfg) (fun s a e => keepsCredit cfg c s a e = true) h2Start

theorem credit_run : Keeps (exec cfg) (fun s a e => keepsCredit cfg c s a e = true) h2Start
    (fun s => FreshGood s ∧ (s.Stopped c ∨ CreditGood c s)) fun s a => FreshSound s a ∧ (s.Stopped c ∨ CreditSound c a) := by
  refine .of_step ?_ ?_ ?_
  · rintro s a e f ⟨fresh,good⟩ ⟨known,sound⟩ keeps does
    obtain ⟨grows,nextKnown,spawnedKnown⟩ := exec_fresh fresh known does
    have stays : ∀ b, s.Stopped c ∨ CreditSound c b → f.state.Stopped c ∨ CreditSound c b :=
      fun b => Or.imp_left fun stopped => grows.stays c stopped
    have after : f.state.Stopped c ∨ CreditStep c s a f := by
      rcases good with stopped | good
      · exact .inl (grows.stays c stopped)
      · rcases sound with stopped | sound
        · exact .inl (grows.stays c stopped)
        · exact exec_credit fresh good sound keeps does
    refine ⟨⟨grows.good,after.imp_right CreditStep.good⟩,fun b both => ⟨both.1.grow grows.grows,stays b both.2⟩,?_,?_⟩
    · intro b mem
      exact ⟨nextKnown b mem,after.imp_right fun step => step.next b mem⟩
    · intro t mem b inside
      exact ⟨spawnedKnown t mem b inside,after.imp_right fun step => step.spawned t mem b inside⟩
  · refine ⟨⟨fun _ => (rfl : 2 % 2 = 0),fun _ _ => rfl⟩,.inr ⟨Int.le_refl 0,(by decide : (0 : Int) < windowsUpdateThreshold),?_,?_⟩⟩
    · intro k chunk mem
      cases mem
    · intro k _
      exact .inr rfl
  · rintro a ⟨t,mem,inside⟩
    cases mem_singleton.mp mem
    cases mem_singleton.mp inside
    exact ⟨trivial,.inr trivial⟩

theorem credit_total (run : creditRuns cfg c d) (going : ¬d.state.Stopped c) :
    d.total (heldCredit c) (inFlight c) = h2InitialWindow := by
  have conserved := credit_run.conserves (heldCredit c) (inFlight c) (H2Server.Stopped c) ?_ run
  · exact conserved.resolve_left going
  rintro s a e f ⟨fresh,good⟩ ⟨known,sound⟩ keeps does
  by_cases stopped : s.Stopped c
  · exact .inl ((exec_fresh fresh known does).state.stays c stopped)
  · rcases exec_credit fresh (good.resolve_left stopped) (sound.resolve_left stopped) keeps does with stops | step
    · exact .inl stops
    · exact .inr ⟨stopped,step.same⟩

-- In every run that loses no credit, the peer's credit, the credit not yet announced and the bytes queued unread in live
-- streams make up the initial window, up to what the steps under way have in hand.
theorem window_conserved (run : creditRuns cfg c d) (going : (d.state.conns.get c).stopped = false) :
    (d.state.conns.get c).peerCredit+(d.state.conns.get c).connRecvWindowAccum+d.state.liveUnread c+
      carriedBy (inFlight c) d.threads = h2InitialWindow := by
  have still : ¬d.state.Stopped c := by
    rw [H2Server.Stopped,going]
    exact Bool.false_ne_true
  have good : CreditGood c d.state := (credit_run run).1.2.resolve_left still
  have unread : d.state.liveUnread c = d.state.streams.sum (unreadOn c) := by
    apply sum_congr
    intro k
    rw [unreadOn]
    split
    · rename_i both
      rw [if_pos both.1]
    rename_i other
    split
    · rename_i here
      rw [(good.gone k here).resolve_left fun live => other ⟨here,live⟩]
      rfl
    · rfl
  have total := credit_total run still
  rw [unread]
  exact total

def readUpload : List (Nat × H2Choice) :=
  [(0,.goes),(1,headersFrame 1),(1,.goes),(1,.goes),(1,.goes),(3,.goes),(1,dataFrame 1 [97,98,99]),
   (3,.reads 8),(3,.goes),(3,.goes),(3,.goes),(3,.goes)]

theorem read_upload_conserved : ∃ d, creditRuns {streamRequestBody := true} 0 d ∧ (d.state.conns.get 0).received = 3 ∧
    (d.state.conns.get 0).connRecvWindowAccum = 3 ∧
    (d.state.conns.get 0).peerCredit+(d.state.conns.get 0).connRecvWindowAccum+d.state.liveUnread 0+
      carriedBy (inFlight 0) d.threads = h2InitialWindow := by
  obtain ⟨d,run,going,received,accum⟩ := follow_reaches (exec {streamRequestBody := true})
    (fun s a e => keepsCredit {streamRequestBody := true} 0 s a e = true)
    (fun d => (d.state.conns.get 0).stopped = false ∧ (d.state.conns.get 0).received = 3 ∧ (d.state.conns.get 0).connRecvWindowAccum = 3)
    (c := h2Start) readUpload (by decide)
  exact ⟨d,run,received,accum,window_conserved run going⟩

-- The peer resets a stream and a DATA frame for it is still on its way: nobody returns the credit for its payload.
theorem late_payload_lost : ∃ d, Runs (exec {streamRequestBody := false}) (fun _ _ _ => True) h2Start d ∧
    (d.state.conns.get 0).stopped = false ∧ carriedBy (inFlight 0) d.threads = 0 ∧
    (d.state.conns.get 0).peerCredit+(d.state.conns.get 0).connRecvWindowAccum+d.state.liveUnread 0 ≠ h2InitialWindow :=
  follow_reaches (exec {streamRequestBody := false}) (fun _ _ _ => True)
    (fun d => (d.state.conns.get 0).stopped = false ∧ carriedBy (inFlight 0) d.threads = 0 ∧
      (d.state.conns.get 0).peerCredit+(d.state.conns.get 0).connRecvWindowAccum+d.state.liveUnread 0 ≠ h2InitialWindow)
    [(0,.goes),(1,headersFrame 1),(1,.frame {typ := .rstStream, streamID := 1, payload := [0,0,0,8]} {}),(1,.goes),
     (1,dataFrame 1 [97,98,99]),(1,.goes),(1,.goes)] (by decide)

end
end FhServer

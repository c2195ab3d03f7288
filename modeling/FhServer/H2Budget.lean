import FhServer.H2Steps

namespace FhServer
open Interleaving List H2Server

def H2Stream.held (r : H2Stream) : Nat := r.body.length+r.bodyQueued

def unreleased (r : H2Stream) : Int := if r.released then 0 else r.held

def H2Server.heldBytes (s : H2Server) : Int := s.streams.sum fun _ r => unreleased r

def H2Act.reading : H2Act → Int
  | .releaseRead _ n => n
  | _ => 0

def H2Stream.takesBody (r : H2Stream) : Bool := r.live && r.state.receives && !r.connect

-- The steps that keep the account: a handler's goroutine returns when the bytes it leaves behind are as many as had
-- arrived when it began; a panic leaves no stream that still takes a body; and nothing is read after the release.
def keepsBudget (s : H2Server) : H2Act → H2Choice → Bool
  | .releaseBody k captured, _ => (s.streams.get k).held == captured
  | .handler k _, .panics => !(s.streams.get k).takesBody
  | .read k _, _ => !(s.streams.get k).released || (s.streams.get k).bodyQueued == 0
  | _, _ => true

def H2Act.unsettled : H2Act → Bool
  | .beginHandler _ | .handler _ _ | .afterHandler _ _ | .cancelUnfinished _ _ | .releaseBody _ _ | .closeStream _ | .releaseRead _ _ => true
  | _ => false

structure StreamOrder (r : H2Stream) : Prop where
  ended : r.ended = true → r.state.receives = false
  reset : r.reset = true → r.live = false
  unstarted : r.handlerStarted = false → r.bodyReserved = unreleased r
  shut : r.released = true → r.takesBody = false
  early : r.released = true → r.handlerStarted = false → r.reset = true

def Later (r r' : H2Stream) : Prop :=
  r.handlerStarted = true → r'.handlerStarted = true ∧ (r.takesBody = false → r'.takesBody = false)

def BudgetSound (s : H2Server) : H2Act → Prop
  | .beginHandler k | .handler k _ | .read k _ | .unreserve k _ | .afterHandler k _ | .cancelUnfinished k _ => (s.streams.get k).handlerStarted = true
  | .releaseBody k _ => (s.streams.get k).handlerStarted = true ∧ (s.streams.get k).takesBody = false
  | _ => True

-- A stream is dispatched once, and its handler gives back once: there is one turn, which the stream has before the dispatch,
-- the goroutine that dispatches or handles it afterwards, and the stream again when it is released.
def H2Stream.turns (r : H2Stream) : Int := (if r.dispatched then 0 else 1)+if r.released && r.handlerStarted then 1 else 0

def H2Act.turn (k : StreamKey) : H2Act → Int
  | .acquireSlot k' | .startHandler k' | .beginHandler k' | .handler k' _ | .afterHandler k' _ | .cancelUnfinished k' _ | .releaseBody k' _ =>
    if k' = k then 1 else 0
  | _ => 0

-- Bytes that nobody has given back yet are still owed by somebody: by the handler that has started, or by the connection's
-- end for a stream whose handler has not.
def H2Stream.handled (r : H2Stream) : Prop := r.handlerStarted = true ∧ r.released = false

def H2Stream.stranded (r : H2Stream) : Prop := r.handlerStarted = false ∧ r.released = false ∧ r.live = false ∧ 0 < r.held

def H2Act.handles (k : StreamKey) : H2Act → Prop
  | .beginHandler k' | .handler k' _ | .afterHandler k' _ | .cancelUnfinished k' _ | .releaseBody k' _ => k' = k
  | _ => False

structure StreamKept (r r' : H2Stream) : Prop where
  order : StreamOrder r'
  later : Later r r'
  turns : r'.turns = r.turns
  handled : r'.handled → r.handled
  stranded : r'.stranded → r.stranded

section
open H2Stream
variable {cfg : H2Config} {r r' r'' : H2Stream}

theorem endRemote_receives (st : H2StreamState) : st.endRemote.receives = false := by cases st <;> rfl

theorem endLocal_receives {st : H2StreamState} (shut : st.receives = false) : st.endLocal.receives = false := by
  cases st with
  | stateOpen | stateHalfClosedLocal => cases shut
  | _ => rfl

theorem StreamOrder.default : StreamOrder {} :=
  ⟨fun _ => rfl,fun _ => rfl,fun _ => rfl,fun _ => rfl,nofun⟩

theorem StreamKept.refl (order : StreamOrder r) : StreamKept r r := ⟨order,fun started => ⟨started,id⟩,rfl,id,id⟩

theorem StreamKept.trans (first : StreamKept r r') (second : StreamKept r' r'') : StreamKept r r'' where
  order := second.order
  later := by
    intro started
    obtain ⟨started',shuts⟩ := first.later started
    obtain ⟨started'',shuts'⟩ := second.later started'
    exact ⟨started'',fun shut => shuts' (shuts shut)⟩
  turns := second.turns.trans first.turns
  handled owed := first.handled (second.handled owed)
  stranded owed := first.stranded (second.stranded owed)

theorem takesBody_endRemote (eof : Bool) (r : H2Stream) : (r.endRemote eof).takesBody = false := by
  simp [takesBody,endRemote,endRemote_receives]

theorem StreamKept.endRemote (order : StreamOrder r) (eof : Bool) : StreamKept r (r.endRemote eof) where
  order := ⟨fun _ => endRemote_receives _,order.reset,order.unstarted,fun _ => takesBody_endRemote eof r,order.early⟩
  later started := ⟨started,fun _ => takesBody_endRemote eof r⟩
  turns := rfl
  handled := id
  stranded := id

theorem StreamKept.abandon (order : StreamOrder r) : StreamKept r r.abandon where
  order := by
    refine ⟨order.ended,fun _ => rfl,?_,fun _ => rfl,fun _ _ => rfl⟩
    intro fresh
    have unstarted : r.handlerStarted = false := fresh
    simp [H2Stream.abandon,unreleased,unstarted]
  later started := ⟨started,fun _ => rfl⟩
  turns := by
    cases started : r.handlerStarted <;> simp [H2Stream.turns,H2Stream.abandon,started]
  handled := by
    rintro ⟨started,released⟩
    have isStarted : r.handlerStarted = true := started
    simp only [H2Stream.abandon,isStarted,Bool.not_true,Bool.or_false] at released
    exact ⟨isStarted,released⟩
  stranded := by
    rintro ⟨started,released,-⟩
    have notStarted : r.handlerStarted = false := started
    simp [H2Stream.abandon,notStarted] at released

def H2Stream.account (r : H2Stream) :=
  (r.live,r.state,r.connect,r.body,r.bodyReserved,r.handlerStarted,r.bodyChunks,r.ended,r.reset,r.released,r.dispatched)

theorem held_of_account (same : r'.account = r.account) : r'.held = r.held ∧ unreleased r' = unreleased r := by
  simp only [account,Prod.mk.injEq] at same
  simp [unreleased,held,bodyQueued,same]

theorem StreamKept.of_account (same : r'.account = r.account) (order : StreamOrder r) : StreamKept r r' := by
  obtain ⟨held,bytes⟩ := held_of_account same
  simp only [account,Prod.mk.injEq] at same
  obtain ⟨live,state,connect,-,reserved,started,-,ended,reset,released,dispatched⟩ := same
  have takes : r'.takesBody = r.takesBody := by rw [takesBody,takesBody,live,state,connect]
  refine ⟨⟨?_,?_,?_,?_,?_⟩,?_,?_,?_,?_⟩
  · rw [ended,state]
    exact order.ended
  · rw [reset,live]
    exact order.reset
  · rw [started,reserved,bytes]
    exact order.unstarted
  · rw [released,takes]
    exact order.shut
  · rw [released,started,reset]
    exact order.early
  · intro begun
    rw [started,takes]
    exact ⟨begun,id⟩
  · rw [H2Stream.turns,H2Stream.turns,dispatched,released,started]
  · rw [H2Stream.handled,started,released]
    exact id
  · rw [H2Stream.stranded,started,released,live,held]
    exact id

theorem account_creditBatch (n : Int) (r : H2Stream) : (r.creditBatch n).account = r.account := by
  rw [creditBatch]
  split <;> rfl

theorem unreleased_store (open_ : r.connect = false → r.released = false) :
    unreleased (r.store cfg p) = unreleased r+if r.connect then 0 else (p.length : Int) := by
  rw [store]
  split
  · rw [add_zero]
  rename_i body
  have keeps : r.released = false := open_ (by simpa using body)
  split
  · simp only [unreleased,keeps,Bool.false_eq_true,if_false,held,bodyQueued,map_append,map_cons,map_nil,
      sum_append,sum_cons,sum_nil]
    lia
  · simp only [unreleased,keeps,Bool.false_eq_true,if_false,held,bodyQueued,length_append]
    lia

theorem store_fields (cfg : H2Config) (p : Bytes) (r : H2Stream) :
    (r.store cfg p).live = r.live ∧ (r.store cfg p).takesBody = r.takesBody ∧ (r.store cfg p).state = r.state ∧
      (r.store cfg p).handlerStarted = r.handlerStarted ∧ (r.store cfg p).released = r.released ∧ (r.store cfg p).ended = r.ended ∧
      (r.store cfg p).reset = r.reset ∧ (r.store cfg p).turns = r.turns ∧
      (r.store cfg p).bodyReserved = r.bodyReserved+if r.connect then 0 else (p.length : Int) := by
  rw [store]
  split
  · simp
  · split <;> exact ⟨rfl,rfl,rfl,rfl,rfl,rfl,rfl,rfl,rfl⟩

theorem StreamKept.store (order : StreamOrder r) (present : r.live = true) (open_ : r.connect = false → r.released = false) (p : Bytes) :
    StreamKept r (r.store cfg p) := by
  obtain ⟨live,takes,state,started,released,ended,reset,turns,reserved⟩ := store_fields cfg p r
  refine ⟨⟨?_,?_,?_,?_,?_⟩,?_,turns,?_,fun owed => nomatch (live.trans present).symm.trans owed.2.2.1⟩
  · rw [ended,state]
    exact order.ended
  · rw [reset,live]
    exact order.reset
  · rw [started,reserved,unreleased_store open_]
    intro fresh
    rw [order.unstarted fresh]
  · rw [released,takes]
    exact order.shut
  · rw [released,started,reset]
    exact order.early
  · intro begun
    rw [started,takes]
    exact ⟨begun,id⟩
  · rw [H2Stream.handled,started,released]
    exact id

variable (cfg) in

theorem StreamKept.data (order : StreamOrder r) (present : r.live = true) (open_ : r.connect = false → r.released = false) (f : H2Frame) (p : Bytes) :
    StreamKept r (takeData cfg f p r) ∧ unreleased (takeData cfg f p r) = unreleased (r.store cfg p) := by
  have credited : ∃ r', r'.account = (r.store cfg p).account ∧
      takeData cfg f p r = if endsStream f then r'.endRemote (r.streaming cfg) else r' := by
    refine ⟨_,?_,rfl⟩
    split
    · exact account_creditBatch ..
    · rfl
  obtain ⟨r',same,taken⟩ := credited
  have stored : StreamKept r (r.store cfg p) := .store order present open_ p
  have kept : StreamKept r r' := stored.trans (.of_account same stored.order)
  rw [taken]
  split
  · have bytes : unreleased (r'.endRemote (r.streaming cfg)) = unreleased r' := rfl
    exact ⟨kept.trans (.endRemote kept.order _),bytes.trans (held_of_account same).2⟩
  · exact ⟨kept,(held_of_account same).2⟩

theorem StreamKept.respondEarly (order : StreamOrder r) (empty : r.held = 0) : StreamKept r r.respondEarly where
  order := ⟨fun ended => endLocal_receives (order.ended ended),fun _ => rfl,order.unstarted,fun _ => rfl,order.early⟩
  later started := ⟨started,fun _ => rfl⟩
  turns := rfl
  handled := id
  stranded owed := absurd (empty ▸ owed.2.2.2) (Nat.lt_irrefl 0)

theorem StreamKept.of_started (order : StreamOrder r') (started : r.handlerStarted = true) (same : r'.handlerStarted = r.handlerStarted)
    (released : r'.released = r.released) (dispatched : r'.dispatched = r.dispatched) (shuts : r.takesBody = false → r'.takesBody = false) : StreamKept r r' where
  order := order
  later begun := ⟨same.trans begun,shuts⟩
  turns := by rw [H2Stream.turns,H2Stream.turns,dispatched,released,same]
  handled owed := ⟨started,released ▸ owed.2⟩
  stranded owed := nomatch (same.trans started).symm.trans owed.1
end

def H2Server.balance (s : H2Server) : Int := s.bufferedRequestBytes-s.heldBytes

def AllOrdered (s : H2Server) : Prop := ∀ k, StreamOrder (s.streams.get k)

structure Ordered (s s' : H2Server) : Prop where
  order : AllOrdered s'
  later : ∀ k, Later (s.streams.get k) (s'.streams.get k)

def Quiet (s s' : H2Server) : Prop := ∀ k, StreamKept (s.streams.get k) (s'.streams.get k)

section
variable {cfg : H2Config} {s s' s'' : H2Server} {c : Nat} {k : StreamKey} {g : H2Stream → H2Stream} {a : H2Act} {n : Int}

theorem unreleased_default : unreleased {} = 0 := rfl

theorem unreleased_nonneg (r : H2Stream) : 0 ≤ unreleased r := by
  rw [unreleased]
  split <;> lia

theorem balance_congr (streams : s'.streams = s.streams) (budget : s'.bufferedRequestBytes = s.bufferedRequestBytes) : s'.balance = s.balance := by
  rw [balance,balance,heldBytes,heldBytes,streams,budget]

theorem balance_onStream (s : H2Server) (k : StreamKey) (g : H2Stream → H2Stream) :
    (s.onStream k g).balance = s.balance-(unreleased (g (s.streams.get k))-unreleased (s.streams.get k)) := by
  have moved := s.streams.sum_update (w := fun _ r => unreleased r) (fun _ => unreleased_default) k g
  have budget : (s.onStream k g).bufferedRequestBytes = s.bufferedRequestBytes := rfl
  rw [balance,balance,heldBytes,heldBytes,onStream_streams,budget]
  lia

theorem balance_account (same : unreleased (g (s.streams.get k)) = unreleased (s.streams.get k)) : (s.onStream k g).balance = s.balance := by
  rw [balance_onStream,same]
  lia

theorem balance_takeStreams (s : H2Server) (c : Nat) : (s.takeStreams c).balance = s.balance := by
  have same : ∀ (k : StreamKey) (r : H2Stream), unreleased (H2Server.taken c k r) = unreleased r := by
    intro k r
    rw [H2Server.taken]
    split <;> rfl
  rw [balance,heldBytes,takeStreams_streams,Table.sum_mapAll _ same]
  rfl

theorem Quiet.order (quiet : Quiet s s') : AllOrdered s' := fun k => (quiet k).order

theorem Quiet.ordered (quiet : Quiet s s') : Ordered s s' := ⟨quiet.order,fun k => (quiet k).later⟩

theorem Quiet.trans (first : Quiet s s') (second : Quiet s' s'') : Quiet s s'' := fun k => (first k).trans (second k)

section
variable (order : AllOrdered s)
include order

theorem Quiet.refl : Quiet s s := fun k => .refl (order k)

theorem Quiet.congr (streams : s'.streams = s.streams) : Quiet s s' := by
  intro k
  rw [streams]
  exact .refl (order k)

theorem Quiet.onStream (one : StreamKept (s.streams.get k) (g (s.streams.get k))) : Quiet s (s.onStream k g) := by
  intro k'
  rw [onStream_streams,Table.get_update]
  split
  · rename_i same
    exact same ▸ one
  · exact .refl (order k')

theorem Quiet.of_account (same : (g (s.streams.get k)).account = (s.streams.get k).account) : Quiet s (s.onStream k g) :=
  .onStream order (.of_account same (order k))

theorem Ordered.onStream (one : StreamOrder (g (s.streams.get k))) (later : Later (s.streams.get k) (g (s.streams.get k))) :
    Ordered s (s.onStream k g) where
  order := s.streams.update_all (P := fun _ r => StreamOrder r) order one
  later := by
    intro k'
    rw [onStream_streams,Table.get_update]
    split
    · rename_i same
      exact same ▸ later
    · exact fun started => ⟨started,id⟩

theorem Ordered.takeStreams : Ordered s (s.takeStreams c) := by
  have each : ∀ k, StreamOrder (H2Server.taken c k (s.streams.get k)) ∧ Later (s.streams.get k) (H2Server.taken c k (s.streams.get k)) := by
    intro k
    rw [H2Server.taken]
    split
    · exact ⟨⟨(order k).ended,fun _ => rfl,(order k).unstarted,fun _ => rfl,(order k).early⟩,fun started => ⟨started,fun _ => rfl⟩⟩
    · exact ⟨order k,fun started => ⟨started,id⟩⟩
  exact ⟨fun k => (each k).1,fun k => (each k).2⟩
end
section
variable (limit : 0 < cfg.maxBufferedRequestBytes)
include limit

theorem balance_releaseBufferedBody (nonneg : 0 ≤ n) :
    (s.releaseBufferedBody cfg n).balance = s.balance-n := by
  have streams := releaseBufferedBody_streams s cfg n
  have budget : (s.releaseBufferedBody cfg n).bufferedRequestBytes = s.bufferedRequestBytes-n := by
    rw [releaseBufferedBody]
    split
    · rfl
    · lia
  rw [balance,balance,heldBytes,heldBytes,streams,budget]
  lia

theorem balance_reserveBufferedBody (nonneg : 0 ≤ n) :
    (s.reserveBufferedBody cfg n).balance = s.balance+n := by
  have streams := reserveBufferedBody_streams s cfg n
  have budget : (s.reserveBufferedBody cfg n).bufferedRequestBytes = s.bufferedRequestBytes+n := by
    rw [reserveBufferedBody]
    split
    · lia
    · rfl
  rw [balance,balance,heldBytes,heldBytes,streams,budget]
  lia

theorem abandon_balance (order : AllOrdered s) :
    Quiet s (s.abandon cfg k) ∧ (s.abandon cfg k).balance = s.balance := by
  have changed : Quiet s (s.onStream k H2Stream.abandon) := .onStream order (.abandon (order k))
  refine ⟨changed.trans (.congr changed.order (by simp)),?_⟩
  rw [abandon,balance_onStream]
  cases started : (s.streams.get k).handlerStarted
  · have reserved := (order k).unstarted started
    have gone : unreleased (s.streams.get k).abandon = 0 := by simp [unreleased,H2Stream.abandon,started]
    have nonneg := unreleased_nonneg (s.streams.get k)
    rw [if_neg Bool.false_ne_true,releaseBufferedBody_streams,balance_releaseBufferedBody limit (reserved ▸ nonneg),gone,reserved]
    lia
  · have same : unreleased (s.streams.get k).abandon = unreleased (s.streams.get k) := by
      simp [unreleased,H2Stream.abandon,started,H2Stream.held,H2Stream.bodyQueued]
    lia

theorem resetStream_balance (order : AllOrdered s) :
    Quiet s (s.resetStream cfg k) ∧ (s.resetStream cfg k).balance = s.balance := by
  rw [resetStream]
  split
  · exact abandon_balance limit order
  · exact ⟨.refl order,rfl⟩
end
end

def Calm (a : H2Act) : Prop := a.reading = 0 ∧ (∀ k, a.turn k = 0) ∧ ∀ s, BudgetSound s a

def H2Act.plain : H2Act → Bool
  | .unreserve _ _ | .releaseRead _ _ | .read _ _ | .acquireSlot _ | .startHandler _ | .beginHandler _ | .handler _ _ | .afterHandler _ _
  | .cancelUnfinished _ _ | .releaseBody _ _ => false
  | _ => true

theorem calm_of_plain (plain : a.plain = true) : Calm a := by
  cases a <;> first | exact ⟨rfl,fun _ => rfl,fun _ => trivial⟩ | cases plain

theorem calms {acts : List H2Act} (plain : acts.all H2Act.plain = true) : ∀ a ∈ acts, Calm a :=
  fun a mem => calm_of_plain (all_eq_true.mp plain a mem)

structure FrameBudget (s : H2Server) (h : Handled) : Prop where
  quiet : Quiet s h.state
  balance : h.state.balance = s.balance
  acts : ∀ a ∈ h.acts, Calm a
  timers : ∀ t ∈ h.timers, ∀ a ∈ t, Calm a

section
variable {cfg : H2Config} {s s' : H2Server} {c : Nat} {k : StreamKey} {a : H2Act} {f : H2Frame} {x : FrameFacts} {h : Handled} {p : Bytes}

theorem Resets.calm (resets : a.Resets k) : Calm a := by
  cases a with
  | resetStream | write => exact calm_of_plain rfl
  | _ => cases resets

theorem Follows.calm (follows : a.Follows k) : Calm a := by
  rcases follows with resets | rfl | rfl
  · exact Resets.calm resets
  · exact calm_of_plain rfl
  · exact calm_of_plain rfl

theorem dueUpdates_calm (mem : a ∈ dueUpdates s k n) : Calm a := by
  obtain ⟨frame,rfl⟩ := dueUpdates_writes mem
  exact calm_of_plain rfl

theorem afterData_calm (mem : a ∈ afterData r k f p) : Calm a := by
  rcases afterData_follows mem with follows | rfl
  · exact Follows.calm follows
  · exact calm_of_plain rfl

theorem minor_budget (order : AllOrdered s) (minor : h.Minor s c i) : FrameBudget s h := by
  obtain ⟨⟨g,-,state⟩,acts,timers⟩ := minor
  have same : h.state.streams = s.streams ∧ h.state.bufferedRequestBytes = s.bufferedRequestBytes := by
    rcases state with same | changed
    · rw [same]
      exact ⟨rfl,rfl⟩
    · rw [changed]
      exact ⟨rfl,rfl⟩
  exact ⟨.congr order same.1,balance_congr same.1 same.2,fun a mem => Resets.calm (acts a mem),fun t mem => nomatch (timers ▸ mem)⟩

theorem conclude_budget (order : AllOrdered s) (early : new = true → (s.streams.get k).held = 0)
    (idle : ∀ t ∈ timers, ∀ a ∈ t, Calm a) : FrameBudget s {concludeHeaders cfg s k new ended x with timers := timers} := by
  obtain ⟨acts,follow,same | ⟨isNew,stopped | answered⟩⟩ := concludeHeaders_cases cfg x s k new ended
  · rw [same]
    exact ⟨.refl order,rfl,fun a mem => Follows.calm (follow a mem),idle⟩
  · rw [stopped]
    exact ⟨.of_account order rfl,balance_account rfl,fun a mem => Follows.calm (follow a mem),idle⟩
  · rw [answered]
    exact ⟨.onStream order (.respondEarly (order k) (early isNew)),balance_account rfl,fun a mem => Follows.calm (follow a mem),idle⟩

theorem FrameBudget.after (second : FrameBudget s' h) (first : Quiet s s') (balance : s'.balance = s.balance) : FrameBudget s h :=
  ⟨first.trans second.quiet,second.balance.trans balance,second.acts,second.timers⟩

variable (cfg x) in

theorem newStream_kept (ended : Bool) : StreamKept {} (if ended then (newStream cfg x ended).endRemote false else newStream cfg x ended) ∧
    (if ended then (newStream cfg x ended).endRemote false else newStream cfg x ended).held = 0 ∧
      unreleased (if ended then (newStream cfg x ended).endRemote false else newStream cfg x ended) = 0 := by
  cases ended
  · exact ⟨⟨⟨(nomatch ·),(nomatch ·),fun _ => rfl,(nomatch ·),(nomatch ·)⟩,(nomatch ·),rfl,(nomatch ·.1),(nomatch ·.2.2.1)⟩,rfl,rfl⟩
  · exact ⟨⟨⟨fun _ => rfl,(nomatch ·),fun _ => rfl,(nomatch ·),(nomatch ·)⟩,(nomatch ·),rfl,(nomatch ·.1),(nomatch ·.2.2.1)⟩,rfl,rfl⟩

theorem opens_budget (fresh : FreshGood s) (order : AllOrdered s) (opens : h.Opens cfg x s k) : FrameBudget s h := by
  obtain ⟨-,odd,later,ended,timers,which,rfl⟩ := opens
  have untouched : s.streams.get k = {} := by
    apply fresh.fresh
    intro known
    exact Nat.not_lt.mpr (known.1 odd) later
  obtain ⟨one,empty,nothing⟩ := newStream_kept cfg x ended
  have published : Quiet s (publish cfg x s k ended) := by
    refine Quiet.onStream (s := s.onConn k.1 _) order ?_
    rw [onConn_streams,untouched]
    exact one
  have balance : (publish cfg x s k ended).balance = s.balance := by
    rw [publish,balance_onStream,onConn_streams,untouched,nothing,unreleased_default]
    exact sub_zero _
  refine (conclude_budget published.order (fun _ => ?_) ?_).after published balance
  · rw [publish,onStream_streams,Table.get_update_self]
    exact empty
  intro t mem
  rcases which with rfl | rfl
  · cases mem
  · cases mem_singleton.mp mem
    exact calms rfl

theorem continues_budget (order : AllOrdered s) (continues : h.Continues cfg x s k) : FrameBudget s h := by
  obtain ⟨-,eof,rfl⟩ := continues
  have changed : Quiet s (s.onStream k (H2Stream.endRemote eof)) := .onStream order (.endRemote (order k) eof)
  have concluded := FrameBudget.after (h := {concludeHeaders cfg _ k false true x with timers := []})
    (conclude_budget changed.order nofun nofun) changed (balance_account rfl)
  exact ⟨concluded.quiet,concluded.balance,concluded.acts,fun t mem => nomatch (concludeHeaders_timers cfg x _ _ ▸ mem)⟩

theorem balance_store (limit : 0 < cfg.maxBufferedRequestBytes) {spent : H2Server}
    (streams : spent.streams = (reservePayload cfg s k p).streams) (budget : spent.bufferedRequestBytes = (reservePayload cfg s k p).bufferedRequestBytes)
    (open_ : (s.streams.get k).connect = false → (s.streams.get k).released = false)
    (stores : unreleased (g (s.streams.get k)) = unreleased ((s.streams.get k).store cfg p)) : (spent.onStream k g).balance = s.balance := by
  rw [balance_onStream,balance_congr streams budget,streams,reservePayload_streams,stores,unreleased_store open_]
  rw [reservePayload]
  split
  · lia
  · rw [balance_reserveBufferedBody limit (by lia)]
    lia

theorem accepts_budget (limit : 0 < cfg.maxBufferedRequestBytes) (order : AllOrdered s) (accepts : h.Accepts cfg s f k p) : FrameBudget s h := by
  obtain ⟨live,receives,-,rfl⟩ := accepts
  have open_ : (s.streams.get k).connect = false → (s.streams.get k).released = false := by
    intro body
    cases released : (s.streams.get k).released
    · rfl
    · have shut := (order k).shut released
      simp [H2Stream.takesBody,live,receives,body] at shut
  have reserved : Quiet s (reservePayload cfg (spendWindow s k.1 f) k p) := .congr order (reservePayload_streams ..)
  have same : (reservePayload cfg (spendWindow s k.1 f) k p).streams.get k = s.streams.get k := by
    rw [reservePayload_streams]
    rfl
  have spentBalance : (spendWindow s k.1 f).balance = s.balance := rfl
  rcases acceptData_cases cfg (spendWindow s k.1 f) f k p with failed | taken
  · rw [failed]
    refine ⟨reserved.trans (.onStream reserved.order ?_),?_,nofun,nofun⟩
    · rw [same]
      have stored : StreamKept _ ((s.streams.get k).store cfg p) := .store (order k) live open_ p
      exact stored.trans (.of_account rfl stored.order)
    · refine (balance_store (s := spendWindow s k.1 f) (p := p) limit rfl rfl open_ ?_).trans spentBalance
      exact (held_of_account (r := (s.streams.get k).store cfg p) rfl).2
  · rw [taken]
    obtain ⟨kept,bytes⟩ := StreamKept.data cfg (order k) live open_ f p
    refine ⟨reserved.trans (Quiet.onStream (s := (reservePayload cfg (spendWindow s k.1 f) k p).onConn k.1 _) reserved.order ?_),?_,?_,
      nofun⟩
    · rw [onConn_streams,same]
      exact kept
    · exact (balance_store (s := spendWindow s k.1 f) (p := p) limit rfl rfl open_ bytes).trans spentBalance
    intro a mem
    rcases mem_append.mp mem with update | after
    · split at update
      · exact dueUpdates_calm update
      · cases update
    · exact afterData_calm after

variable (c f x) in

theorem handleFrame_budget (limit : 0 < cfg.maxBufferedRequestBytes) (fresh : FreshGood s) (order : AllOrdered s) :
    FrameBudget s (handleFrame cfg s c f x) := by
  rcases handleFrame_cases cfg f x s c with ⟨minor,-⟩ | ⟨-,p,-,accepts⟩ | ⟨-,opens | continues⟩
  · exact minor_budget order minor
  · exact accepts_budget limit order accepts
  · exact opens_budget fresh order opens
  · exact continues_budget order continues
end

def H2Act.Repeats (s : H2Server) : H2Act → Prop
  | .releaseBody k _ => (s.streams.get k).released = true
  | _ => False

def H2Server.turns (k : StreamKey) (s : H2Server) : Int := (s.streams.get k).turns

structure BudgetStep (s : H2Server) (a : H2Act) (f : Effect H2Server H2Act) : Prop where
  ordered : Ordered s f.state
  next : ∀ b ∈ f.next, BudgetSound f.state b
  spawned : ∀ t ∈ f.spawned, ∀ b ∈ t, BudgetSound f.state b
  same : ¬a.Repeats s → f.state.balance-carried H2Act.reading f.next-carriedBy H2Act.reading f.spawned = s.balance-a.reading
  turn : ∀ k, f.state.turns k+carried (H2Act.turn k) f.next+carriedBy (H2Act.turn k) f.spawned ≤ s.turns k+a.turn k
  handled : ∀ k, (f.state.streams.get k).handled → (s.streams.get k).handled ∨ ∃ t ∈ f.spawned, .beginHandler k ∈ t
  stranded : ∀ k, (f.state.streams.get k).stranded → (s.streams.get k).stranded ∨ .closeStream k ∈ f.next

section
variable {cfg : H2Config} {s s' : H2Server} {c : Nat} {k : StreamKey} {a : H2Act} {e : H2Choice} {f : Effect H2Server H2Act} {next : List H2Act}

theorem turn_nonneg (k : StreamKey) (a : H2Act) : 0 ≤ a.turn k := by
  cases a <;> simp only [H2Act.turn] <;> lia

theorem BudgetStep.of_quiet (quiet : Quiet s f.state) (next : ∀ b ∈ f.next, BudgetSound f.state b)
    (spawned : ∀ t ∈ f.spawned, ∀ b ∈ t, BudgetSound f.state b)
    (same : f.state.balance-carried H2Act.reading f.next-carriedBy H2Act.reading f.spawned = s.balance-a.reading)
    (turn : ∀ k, carried (H2Act.turn k) f.next+carriedBy (H2Act.turn k) f.spawned ≤ a.turn k) : BudgetStep s a f where
  ordered := quiet.ordered
  next := next
  spawned := spawned
  same _ := same
  turn k := by
    have handed := turn k
    rw [turns,turns,(quiet k).turns]
    lia
  handled k owed := .inl ((quiet k).handled owed)
  stranded k owed := .inl ((quiet k).stranded owed)

theorem BudgetStep.of_calms (quiet : Quiet s f.state) (balance : f.state.balance = s.balance) (carries : a.reading = 0)
    (next : ∀ b ∈ f.next, Calm b) (spawned : ∀ t ∈ f.spawned, ∀ b ∈ t, Calm b) : BudgetStep s a f := by
  refine .of_quiet quiet (fun b mem => (next b mem).2.2 _) (fun t mem b inside => (spawned t mem b inside).2.2 _) ?_ ?_
  · rw [balance,carries,carried_eq_zero fun b mem => (next b mem).1,carriedBy_eq_zero fun t mem b inside => (spawned t mem b inside).1]
    lia
  · intro k
    rw [carried_eq_zero fun b mem => (next b mem).2.1 k,carriedBy_eq_zero fun t mem b inside => (spawned t mem b inside).2.1 k]
    exact turn_nonneg k a

theorem BudgetStep.of_calm (quiet : Quiet s s') (balance : s'.balance = s.balance) (carries : a.reading = 0) (calm : ∀ b ∈ next, Calm b) :
    BudgetStep s a {state := s', next := next} :=
  .of_calms quiet balance carries calm nofun

theorem BudgetStep.of_next (quiet : Quiet s s') (balance : s'.balance = s.balance) (carries : a.reading = 0)
    (sound : ∀ b ∈ next, b.reading = 0 ∧ BudgetSound s' b) (turn : ∀ k, carried (H2Act.turn k) next ≤ a.turn k) :
    BudgetStep s a {state := s', next := next} := by
  refine .of_quiet quiet (fun b mem => (sound b mem).2) nofun ?_ ?_
  · rw [balance,carries,carried_eq_zero fun b mem => (sound b mem).1]
    exact sub_zero _
  · simpa using turn

theorem serveFrame_budget (limit : 0 < cfg.maxBufferedRequestBytes) (fresh : FreshGood s) (order : AllOrdered s)
    (does : serveFrame cfg s c e = some f) : BudgetStep s (.readFrame c) f := by
  cases e with
  | frame fr x =>
    rw [serveFrame] at does
    split at does
    · cases does
      exact .of_calm (.congr order rfl) rfl rfl (calms rfl)
    dsimp only at does
    generalize counting : (if fr.typ = .data then s.onConn c fun h => {h with received := h.received+fr.payload.length} else s) = counted at does
    have counts : Quiet s counted ∧ counted.balance = s.balance ∧ FreshGood counted := by
      rw [← counting]
      split
      · exact ⟨.congr order rfl,rfl,(fresh.onFlags rfl rfl id).good⟩
      · exact ⟨.refl order,rfl,fresh⟩
    have handled := (handleFrame_budget c fr x limit counts.2.2 counts.1.order).after counts.1 counts.2.1
    split at does
    · cases does
      exact .of_calms handled.quiet handled.balance rfl (forall_mem_append.mpr ⟨handled.acts,calms rfl⟩) handled.timers
    · cases does
      exact .of_calm (handled.quiet.trans (.congr handled.quiet.order rfl)) handled.balance rfl (forall_mem_append.mpr ⟨handled.acts,calms rfl⟩)
  | ends =>
    cases does
    exact .of_calm (.congr order rfl) rfl rfl (calms rfl)
  | _ => cases does

theorem started_later (ordered : Ordered s s') (started : (s.streams.get k).handlerStarted = true) : (s'.streams.get k).handlerStarted = true :=
  (ordered.later k started).1

theorem runHandler_budget (fresh : FreshGood s) (order : AllOrdered s)
    (started : (s.streams.get k).handlerStarted = true) (keeps : keepsBudget s (.handler k captured) e = true)
    (does : runHandler s k captured e = some f) : BudgetStep s (.handler k captured) f := by
  cases e with
  | reads m | returns =>
    cases does
    exact .of_next (.refl order) rfl rfl (by simpa [H2Act.reading,BudgetSound] using started) fun _ => by simp [H2Act.turn]
  | forks m =>
    cases does
    exact .of_quiet (.refl order) (by simpa [BudgetSound] using started) (by simpa [BudgetSound] using started) (by simp [H2Act.reading])
      fun _ => by simp [H2Act.turn]
  | endsLocal =>
    cases does
    have changed : Quiet s (s.onStream k fun r => {r with state := r.state.endLocal}) := by
      have shuts : (s.streams.get k).takesBody = false → ({s.streams.get k with state := (s.streams.get k).state.endLocal} : H2Stream).takesBody = false := by
        intro shut
        simp only [H2Stream.takesBody,Bool.and_eq_false_iff] at shut ⊢
        rcases shut with (dead | closed) | tunnel
        · exact .inl (.inl dead)
        · exact .inl (.inr (endLocal_receives closed))
        · exact .inr tunnel
      refine .onStream order (.of_started ?_ started rfl rfl rfl shuts)
      exact {order k with ended := fun ended => endLocal_receives ((order k).ended ended), shut := fun released => shuts ((order k).shut released)}
    refine .of_next changed (balance_account rfl) rfl ?_ fun _ => by simp
    simpa [H2Act.reading,BudgetSound] using started_later changed.ordered started
  | finishes =>
    cases does
    have changed : Quiet s (s.onStream k fun r => {r with live := false}) :=
      .onStream order (.of_started {order k with reset := fun _ => rfl, shut := fun _ => rfl} started rfl rfl rfl fun _ => rfl)
    refine .of_next changed (balance_account rfl) rfl ?_ fun _ => by simp
    simpa [H2Act.reading,BudgetSound] using started_later changed.ordered started
  | aborts code =>
    cases does
    exact .of_next (.refl order) rfl rfl (by simpa [sendRST,H2Act.reading,BudgetSound] using started) fun _ => by simp [H2Act.turn,sendRST]
  | pushes =>
    cases does
    have untouched : s.streams.get (k.1,(s.conns.get k.1).nextPush) = {} := by
      apply fresh.fresh
      intro known
      exact Nat.lt_irrefl _ (known.2 (fresh.even k.1))
    have promised : Quiet s ((s.onConn k.1 fun h => {h with nextPush := (s.conns.get k.1).nextPush+2}).onStream
        (k.1,(s.conns.get k.1).nextPush) fun _ => {live := true, state := .stateHalfClosedRemote, ended := true}) := by
      refine Quiet.onStream (s := s.onConn k.1 _) order ?_
      rw [onConn_streams,untouched]
      exact ⟨⟨fun _ => rfl,by rintro ⟨⟩,fun _ => rfl,by rintro ⟨⟩,by rintro ⟨⟩⟩,by rintro ⟨⟩,rfl,by rintro ⟨⟨⟩,-⟩,by rintro ⟨-,-,⟨⟩,-⟩⟩
    refine .of_next promised ?_ rfl ?_ fun _ => by simp [H2Act.turn]
    · rw [balance_onStream,onConn_streams,untouched]
      exact sub_zero _
    · rw [forall_mem_cons,forall_mem_singleton]
      exact ⟨⟨rfl,trivial⟩,rfl,started_later promised.ordered started⟩
  | panics =>
    cases does
    refine .of_next (.refl order) rfl rfl ?_ fun _ => by simp [H2Act.turn]
    simpa [H2Act.reading,BudgetSound,started,keepsBudget] using keeps
  | _ => cases does

theorem finished_shut (streaming : cfg.streamRequestBody = true) (order : StreamOrder r)
    (finished : cfg.streamRequestBody = true → r.connect = false → r.ended = false → r.reset = true) : r.takesBody = false := by
  cases tunnel : r.connect
  · cases ended : r.ended
    · have dead := order.reset (finished streaming tunnel ended)
      simp [H2Stream.takesBody,dead]
    · have closed := order.ended ended
      simp [H2Stream.takesBody,closed]
  · simp [H2Stream.takesBody,tunnel]

theorem resetStream_shut (s : H2Server) (k : StreamKey) : ((s.resetStream cfg k).streams.get k).takesBody = false := by
  rw [resetStream]
  split
  · rw [abandon_streams,Table.get_update_self]
    rfl
  · rename_i dead
    simp [H2Stream.takesBody,dead]

section
variable (order : AllOrdered s)
include order

theorem BudgetStep.nothing (carries : a.reading = 0) : BudgetStep s a {state := s} :=
  .of_calm (.refl order) rfl carries (by simp)

theorem BudgetStep.onStream (streams : f.state.streams = s.streams.update k g)
    (one : StreamOrder (g (s.streams.get k))) (later : Later (s.streams.get k) (g (s.streams.get k)))
    (next : ∀ b ∈ f.next, BudgetSound f.state b) (spawned : ∀ t ∈ f.spawned, ∀ b ∈ t, BudgetSound f.state b)
    (same : ¬a.Repeats s → f.state.balance-carried H2Act.reading f.next-carriedBy H2Act.reading f.spawned = s.balance-a.reading)
    (turn : (g (s.streams.get k)).turns+carried (H2Act.turn k) f.next+carriedBy (H2Act.turn k) f.spawned ≤ (s.streams.get k).turns+a.turn k)
    (elsewhere : ∀ k', k' ≠ k → carried (H2Act.turn k') f.next+carriedBy (H2Act.turn k') f.spawned ≤ a.turn k')
    (handled : (g (s.streams.get k)).handled → (s.streams.get k).handled ∨ ∃ t ∈ f.spawned, .beginHandler k ∈ t)
    (stranded : (g (s.streams.get k)).stranded → (s.streams.get k).stranded) : BudgetStep s a f := by
  have ordered : Ordered s (s.onStream k g) := .onStream order one later
  refine ⟨⟨fun k' => streams ▸ ordered.order k',fun k' => streams ▸ ordered.later k'⟩,next,spawned,same,?_,?_,?_⟩
  all_goals
    intro k'
    simp only [turns,streams,Table.get_update]
    split
  · rename_i here
    exact here ▸ turn
  · rename_i other
    have less := elsewhere k' other
    lia
  · rename_i here
    exact here ▸ handled
  · exact .inl
  · rename_i here
    exact fun owed => .inl (here ▸ stranded owed)
  · exact .inl

theorem credit_budget (same : (h (s.streams.get k)).account = (s.streams.get k).account) (carries : a.reading = 0) :
    BudgetStep s a {state := (s.onConn k.1 g).onStream k h, next := dueUpdates s k n} :=
  .of_calm (Quiet.of_account (s := s.onConn k.1 g) order same) (balance_account (held_of_account same).2) carries fun _ => dueUpdates_calm

theorem closeAllStreams_budget : BudgetStep s (.closeAllStreams c)
    {state := (s.onConn c fun h => {h with closed := true}).takeStreams c, next := (s.liveStreams c).map .closeStream} := by
  have calm : ∀ b ∈ (s.liveStreams c).map H2Act.closeStream, Calm b := by
    intro b mem
    obtain ⟨k,-,rfl⟩ := mem_map.mp mem
    exact calm_of_plain rfl
  have ordered := Ordered.takeStreams (s := s.onConn c fun h => {h with closed := true}) (c := c) order
  refine ⟨⟨ordered.order,ordered.later⟩,fun b mem => (calm b mem).2.2 _,by simp,?_,?_,?_,?_⟩
  · intro _
    rw [balance_takeStreams,carried_eq_zero fun b mem => (calm b mem).1]
    exact sub_zero _
  all_goals
    intro k
    simp only [turns,takeStreams_streams,Table.get_mapAll,H2Server.taken,onConn_streams]
  · rw [carried_eq_zero fun b mem => (calm b mem).2.1 k]
    split <;> simp [H2Act.turn,H2Stream.turns]
  · split <;> exact .inl
  split
  · rename_i here
    intro owed
    by_cases live : (s.streams.get k).live = true
    · refine .inr (mem_map_of_mem (mem_filter.mpr ⟨?_,by simp [here,live]⟩))
      by_contra outside
      rw [s.streams.outside k outside] at live
      cases live
    · exact .inl ⟨owed.1,owed.2.1,by simpa using live,owed.2.2.2⟩
  · exact .inl

theorem dispatch_budget (first : (s.streams.get k).dispatched = false) :
    BudgetStep s (.dispatch k) {state := s.onStream k fun r => {r with dispatched := true}, next := [.acquireSlot k]} := by
  refine .onStream (g := fun r => {r with dispatched := true}) order rfl {order k with} (fun started => ⟨started,id⟩) (by simp [BudgetSound]) nofun
    (fun _ => ?_) ?_ (fun k' other => ?_) .inl id
  · rw [balance_account rfl]
    simp [H2Act.reading]
  · simp only [H2Act.turn,H2Stream.turns,first,if_true,Bool.false_eq_true,if_false,carried_cons,carried_nil,carriedBy_nil]
    lia
  · simp [H2Act.turn,Ne.symm other]

theorem startHandler_budget (alive : (s.streams.get k).reset = false) :
    BudgetStep s (.startHandler k) {state := s.onStream k fun r => {r with handlerStarted := true}, spawned := [[.beginHandler k]]} := by
  have same : ({s.streams.get k with handlerStarted := true} : H2Stream).turns = (s.streams.get k).turns := by
    cases started : (s.streams.get k).handlerStarted
    · cases released : (s.streams.get k).released
      · simp [H2Stream.turns,released]
      · exact nomatch alive.symm.trans ((order k).early released started)
    · simp [H2Stream.turns,started]
  refine .onStream (g := fun r => {r with handlerStarted := true}) order rfl {order k with unstarted := (nomatch ·), early := fun _ => (nomatch ·)}
    (fun _ => ⟨rfl,id⟩) (by simp) (by simp [BudgetSound]) (fun _ => ?_) ?_ (fun k' _ => by simp [H2Act.turn])
    (fun _ => .inr ⟨_,mem_singleton_self _,mem_singleton_self _⟩) (nomatch ·.1)
  · rw [balance_account rfl]
    simp [H2Act.reading]
  · rw [same]
    simp [H2Act.turn]
end

theorem read_budget {m : Nat} (order : AllOrdered s) (started : (s.streams.get k).handlerStarted = true)
    (keeps : keepsBudget s (.read k m) e = true) (does : readH2Body cfg s k m = some f) : BudgetStep s (.read k m) f := by
  unfold readH2Body at does
  extract_lets r n at does
  split at does
  · split at does <;> cases does
    · exact .of_calm (.of_account order rfl) (balance_account rfl) rfl (calms rfl)
    · exact .nothing order rfl
  split_ifs at does with body empty some failed ended <;> cases does
  · exact .nothing order rfl
  · have taken := length_unread m (s.streams.get k).bodyChunks
    have kept : (s.streams.get k).released = false := by
      have queued : (s.streams.get k).bodyQueued ≠ 0 := Nat.ne_of_gt some
      simpa [keepsBudget,queued] using keeps
    have bytes : unreleased {s.streams.get k with bodyChunks := H2Stream.unread m (s.streams.get k).bodyChunks}+min m (s.streams.get k).bodyQueued =
        unreleased (s.streams.get k) := by
      simp only [unreleased,kept,Bool.false_eq_true,if_false,H2Stream.held,H2Stream.bodyQueued]
      lia
    have changed : Quiet s (s.onStream k fun r => {r with bodyChunks := H2Stream.unread m r.bodyChunks}) :=
      .onStream order (.of_started {order k with unstarted := fun fresh => nomatch started.symm.trans fresh} started rfl rfl rfl id)
    refine .of_quiet changed ?_ (by simp) ?_ fun _ => by simp [H2Act.turn]
    · simpa [BudgetSound] using started_later changed.ordered started
    rw [balance_onStream,← bytes]
    simp only [carried_cons,carried_nil,carriedBy_nil,H2Act.reading]
    lia
  · exact .nothing order rfl
  · exact .of_calm (.refl order) rfl rfl (calms rfl)

theorem releaseBody_budget (limit : 0 < cfg.maxBufferedRequestBytes) (order : AllOrdered s)
    (sound : BudgetSound s (.releaseBody k captured)) (keeps : keepsBudget s (.releaseBody k captured) e = true) :
    BudgetStep s (.releaseBody k captured) {state := (s.releaseBufferedBody cfg captured).onStream k fun r => {r with released := true}} := by
  obtain ⟨started,shut⟩ := sound
  have left : ((s.streams.get k).held : Int) = captured := by simpa [keepsBudget] using keeps
  have streams := releaseBufferedBody_streams s cfg captured
  have unstarted : (s.streams.get k).handlerStarted ≠ false := fun fresh => nomatch started.symm.trans fresh
  refine .onStream (g := fun r => {r with released := true}) order (by simp)
    {order k with unstarted := fun fresh => absurd fresh unstarted, shut := fun _ => shut, early := fun _ fresh => absurd fresh unstarted}
    (fun started => ⟨started,id⟩) (by simp) (by simp) (fun first => ?_) ?_ (fun k' other => ?_) (nomatch ·.2) (nomatch ·.2.1)
  · have once : (s.streams.get k).released = false := by simpa [H2Act.Repeats] using first
    rw [balance_onStream,balance_releaseBufferedBody limit (by lia),streams]
    simp only [unreleased,once,if_true,Bool.false_eq_true,if_false,carried_nil,carriedBy_nil,H2Act.reading]
    lia
  · simp only [H2Stream.turns,carried_nil,carriedBy_nil,H2Act.turn,if_true]
    split_ifs <;> lia
  · simp [H2Act.turn,Ne.symm other]

theorem exec_budget (limit : 0 < cfg.maxBufferedRequestBytes) (streaming : cfg.streamRequestBody = true) (fresh : FreshGood s)
    (order : AllOrdered s) (sound : BudgetSound s a) (keeps : keepsBudget s a e = true) (does : a.exec cfg s e = some f) : BudgetStep s a f := by
  cases a with
  | readFrame c => exact serveFrame_budget limit fresh order does
  | read k m => exact read_budget order sound keeps does
  | handler k captured => exact runHandler_budget fresh order sound keeps does
  | releaseBody k captured =>
    cases does
    exact releaseBody_budget limit order sound keeps
  | accept =>
    cases does
    exact .of_calms (.congr order rfl) rfl rfl (calms rfl) (by simpa using ⟨calm_of_plain rfl,calm_of_plain rfl⟩)
  | settingsTimer c =>
    cases does
    exact .of_calm (.refl order) rfl rfl (calms rfl)
  | markClosed c | releaseSlot c | write c frame =>
    cases does
    exact .of_calm (.congr order rfl) rfl rfl (calms rfl)
  | closeAllStreams c =>
    cases does
    exact closeAllStreams_budget order
  | closeStream k =>
    cases does
    obtain ⟨quiet,balance⟩ := abandon_balance (k := k) limit order
    exact .of_calm quiet balance rfl (calms rfl)
  | resetStream k =>
    cases does
    obtain ⟨quiet,balance⟩ := resetStream_balance (k := k) limit order
    exact .of_calm quiet balance rfl (calms rfl)
  | bodyTimer k =>
    rw [H2Act.exec] at does
    split at does <;> cases does
    exact .of_calm (.refl order) rfl rfl (calms rfl)
  | deliver k p | closeRemote k =>
    cases does
    exact .of_calm (.of_account order rfl) (balance_account rfl) rfl (calms rfl)
  | dispatch k =>
    rw [H2Act.exec] at does
    split at does <;> cases does
    · exact .nothing order rfl
    · rename_i first
      have neither : (s.streams.get k).dispatched = false ∧ (s.streams.get k).reset = false := by simpa using first
      exact dispatch_budget order neither.1
  | acquireSlot k =>
    rw [H2Act.exec] at does
    split at does <;> cases does
    · exact .of_next (.congr order rfl) rfl rfl (by simp [H2Act.reading,BudgetSound]) fun _ => by simp [H2Act.turn]
    · exact .of_calm (.refl order) rfl rfl (calms rfl)
  | startHandler k =>
    rw [H2Act.exec] at does
    split at does <;> cases does
    · exact .of_calm (.refl order) rfl rfl (calms rfl)
    · rename_i alive
      exact startHandler_budget order (by simpa using alive)
  | beginHandler k =>
    cases does
    have begun : Quiet s (s.onStream k fun r => {r with bodyReserved := 0}) :=
      .onStream order (.of_started {order k with unstarted := fun unstarted => by cases sound.symm.trans unstarted} sound rfl rfl rfl id)
    refine .of_next begun (balance_account rfl) rfl ?_ fun _ => by simp [H2Act.turn]
    simpa [H2Act.reading,BudgetSound] using started_later begun.ordered sound
  | unreserve k n =>
    cases does
    have taken : Quiet s (s.onStream k fun r => {r with bodyReserved := r.bodyReserved-n}) :=
      .onStream order (.of_started {order k with unstarted := fun unstarted => by cases sound.symm.trans unstarted} sound rfl rfl rfl id)
    exact .of_calm taken (balance_account rfl) rfl (calms rfl)
  | releaseRead k n =>
    cases does
    refine .of_quiet (.congr order (by simp)) (by simp) (by simp) ?_ fun _ => Int.le_refl 0
    rw [balance_releaseBufferedBody limit (by lia)]
    simp only [carried_nil,carriedBy_nil,H2Act.reading]
    lia
  | consumeH2Body k n =>
    rw [H2Act.exec] at does
    split at does <;> cases does
    · exact .nothing order rfl
    · exact credit_budget order rfl rfl
  | creditWindow k n =>
    rw [H2Act.exec] at does
    split at does <;> cases does
    · exact .nothing order rfl
    · exact credit_budget order (account_creditBatch ..) rfl
  | flushH2BodyCredit k =>
    cases does
    refine .of_calm (Quiet.of_account (s := s.onConn k.1 _) order rfl) (balance_account rfl) rfl fun b mem => ?_
    rcases mem_append.mp mem with update | update
    all_goals
      rw [sendWindowUpdate_writes update]
      exact calm_of_plain rfl
  | afterHandler k captured =>
    rw [H2Act.exec] at does
    split at does <;> cases does
    · exact .of_next (.refl order) rfl rfl (by simpa [H2Act.reading,BudgetSound] using sound) fun _ => by simp [H2Act.turn]
    · rename_i finished
      have shut := finished_shut streaming (order k) (by simpa using finished)
      exact .of_next (.refl order) rfl rfl (by simpa [H2Act.reading,BudgetSound] using ⟨sound,shut⟩) fun _ => by simp [H2Act.turn]
  | cancelUnfinished k captured =>
    cases does
    obtain ⟨quiet,balance⟩ := resetStream_balance (k := k) limit order
    refine .of_next quiet balance rfl ?_ fun _ => by simp [H2Act.turn]
    simpa [H2Act.reading,BudgetSound] using ⟨started_later quiet.ordered sound,resetStream_shut s k⟩
end
section
open H2Act
variable {cfg : H2Config} {d : Interleaving.Config H2Server H2Act} {s s' : H2Server} {k : StreamKey} {a : H2Act} {e : H2Choice}
  {f : Effect H2Server H2Act}

def budgetRuns (cfg : H2Config) : Interleaving.Config H2Server H2Act → Prop :=
  Runs (exec cfg) (fun s a e => keepsBudget s a e = true) h2Start

theorem BudgetSound.grow (ordered : Ordered s s') (sound : BudgetSound s a) : BudgetSound s' a := by
  cases a with
  | releaseBody k captured => exact ⟨(ordered.later k sound.1).1,(ordered.later k sound.1).2 sound.2⟩
  | _ => first | exact (ordered.later _ sound).1 | trivial

theorem exec_handles (owns : a.handles k) (does : a.exec cfg s e = some f) :
    (∃ b ∈ f.next, b.handles k) ∨ (f.state.streams.get k).released = true := by
  cases a with
  | beginHandler k' =>
    cases does
    exact .inl ⟨_,mem_singleton_self _,owns⟩
  | handler k' captured =>
    cases e with
    | reads m | forks m | aborts code | endsLocal | finishes | pushes =>
      cases does
      exact .inl ⟨.handler k' captured,by simp,owns⟩
    | returns =>
      cases does
      exact .inl ⟨_,mem_singleton_self _,owns⟩
    | panics =>
      cases does
      exact .inl ⟨_,mem_cons_of_mem _ (mem_singleton_self _),owns⟩
    | _ => cases does
  | afterHandler k' captured =>
    rw [exec] at does
    split at does <;> cases does
    · exact .inl ⟨_,mem_singleton_self _,owns⟩
    · exact .inl ⟨_,mem_cons_of_mem _ (mem_singleton_self _),owns⟩
  | cancelUnfinished k' captured =>
    cases does
    exact .inl ⟨_,mem_cons_of_mem _ (mem_cons_of_mem _ (mem_singleton_self _)),owns⟩
  | releaseBody k' captured =>
    cases does
    cases owns
    exact .inr (by simp)
  | _ => cases owns

variable (limit : 0 < cfg.maxBufferedRequestBytes) (streaming : cfg.streamRequestBody = true)
include limit streaming

theorem budget_run : Keeps (exec cfg) (fun s a e => keepsBudget s a e = true) h2Start (fun s => FreshGood s ∧ AllOrdered s)
    fun s a => FreshSound s a ∧ BudgetSound s a := by
  refine .of_step ?_ ?_ ?_
  · rintro s a e f ⟨fresh,order⟩ ⟨known,sound⟩ keeps does
    obtain ⟨grows,nextKnown,spawnedKnown⟩ := exec_fresh fresh known does
    have step := exec_budget limit streaming fresh order sound keeps does
    exact ⟨⟨grows.good,step.ordered.order⟩,fun b both => ⟨both.1.grow grows.grows,both.2.grow step.ordered⟩,
      fun b mem => ⟨nextKnown b mem,step.next b mem⟩,fun t mem b inside => ⟨spawnedKnown t mem b inside,step.spawned t mem b inside⟩⟩
  · exact ⟨⟨fun _ => (rfl : 2 % 2 = 0),fun _ _ => rfl⟩,fun _ => .default⟩
  · rintro a ⟨t,mem,inside⟩
    cases mem_singleton.mp mem
    cases mem_singleton.mp inside
    exact ⟨trivial,trivial⟩

variable (run : budgetRuns cfg d)
include run

theorem release_once (pending : d.Pending a) : ¬a.Repeats d.state := by
  cases a with
  | releaseBody k captured =>
    intro released
    have bound := (budget_run limit streaming).shrinks (turns k) (turn k)
      (fun good sound keeps does => (exec_budget limit streaming good.1 good.2 sound.2 keeps does).turn k) run
    have one := le_carriedBy (turn_nonneg k) pending
    have started : (d.state.streams.get k).handlerStarted = true := ((budget_run limit streaming run).2 _ pending).2.1
    have isReleased : (d.state.streams.get k).released = true := released
    have start : h2Start.total (turns k) (turn k) = 1 := rfl
    rw [start,Config.total,turns,H2Stream.turns,isReleased,started] at bound
    simp only [turn,if_true,Bool.and_self] at one bound
    split at bound <;> lia
  | _ => exact id

theorem balance_run : d.state.bufferedRequestBytes = d.state.heldBytes+carriedBy reading d.threads := by
  have once : Keeps (exec cfg) (fun s a e => keepsBudget s a e = true) h2Start (fun s => FreshGood s ∧ AllOrdered s)
      fun s a => BudgetSound s a ∧ ¬a.Repeats s := by
    intro d run
    obtain ⟨good,each⟩ := budget_run limit streaming run
    exact ⟨good,fun a pending => ⟨(each a pending).2,release_once limit streaming run pending⟩⟩
  have conserved := once.conserves (fun s => -s.balance) reading (fun _ => False) ?_ run
  · have total := conserved.resolve_left id
    have start : h2Start.total (fun s => -s.balance) reading = 0 := rfl
    rw [start,Config.total,balance] at total
    lia
  · rintro s a e f ⟨fresh,order⟩ ⟨sound,first⟩ keeps does
    refine .inr ⟨id,?_⟩
    have step := (exec_budget limit streaming fresh order sound keeps does).same first
    lia

theorem handled_owed (owed : (d.state.streams.get k).handled) : ∃ a, d.Pending a ∧ a.handles k := by
  refine (budget_run limit streaming).owed (fun s => (s.streams.get k).handled) (handles k) ?_ (fun owed => nomatch owed.1) run owed
  intro s a e f good sound keeps does owed
  by_cases owner : a.handles k
  · rcases exec_handles owner does with next | released
    · exact .inr (.inl next)
    · exact nomatch owed.2.symm.trans released
  · rcases (exec_budget limit streaming good.1 good.2 sound.2 keeps does).handled k owed with before | ⟨t,mem,inside⟩
    · exact .inl ⟨before,owner⟩
    · exact .inr (.inr ⟨t,mem,_,inside,rfl⟩)

theorem stranded_owed (owed : (d.state.streams.get k).stranded) : d.Pending (.closeStream k) := by
  have owner : ∃ a, d.Pending a ∧ a = closeStream k := by
    refine (budget_run limit streaming).owed (fun s => (s.streams.get k).stranded) (· = closeStream k) ?_ (fun owed => Nat.lt_irrefl 0 owed.2.2.2) run owed
    intro s a e f good sound keeps does owed
    rcases (exec_budget limit streaming good.1 good.2 sound.2 keeps does).stranded k owed with before | next
    · refine .inl ⟨before,?_⟩
      rintro rfl
      cases does
      rw [abandon_streams,Table.get_update_self] at owed
      have unstarted : (s.streams.get k).handlerStarted = false := owed.1
      have kept := owed.2.1
      simp [H2Stream.abandon,unstarted] at kept
    · exact .inr (.inl ⟨_,next,rfl⟩)
  obtain ⟨a,pending,rfl⟩ := owner
  exact pending

theorem nothing_held (closed : ∀ k, (d.state.streams.get k).live = false) (idle : ∀ a, d.Pending a → a.unsettled = false) (k : StreamKey) :
    unreleased (d.state.streams.get k) = 0 := by
  rw [unreleased]
  split
  · rfl
  rename_i unreleased
  have kept : (d.state.streams.get k).released = false := by simpa using unreleased
  cases started : (d.state.streams.get k).handlerStarted
  · by_contra some
    have pending := stranded_owed limit streaming run (k := k) ⟨started,kept,closed k,by lia⟩
    exact nomatch idle _ pending
  · obtain ⟨a,pending,owns⟩ := handled_owed limit streaming run (k := k) ⟨started,kept⟩
    have settled := idle a pending
    cases a with
    | beginHandler | handler | afterHandler | cancelUnfinished | releaseBody => cases settled
    | _ => cases owns
end
section
variable {cfg : H2Config} {d : Interleaving.Config H2Server H2Act}

theorem reading_nonneg (a : H2Act) : 0 ≤ a.reading := by
  cases a with
  | releaseRead k n => exact Int.natCast_nonneg n
  | _ => exact Int.le_refl 0

theorem budget_exact (limit : 0 < cfg.maxBufferedRequestBytes) (streaming : cfg.streamRequestBody = true) (run : budgetRuns cfg d) :
    d.state.bufferedRequestBytes = d.state.heldBytes+carriedBy H2Act.reading d.threads ∧ 0 ≤ d.state.bufferedRequestBytes ∧
      ((∀ k, (d.state.streams.get k).live = false) → (∀ a, d.Pending a → a.unsettled = false) → d.state.bufferedRequestBytes = 0) := by
  have balance := balance_run limit streaming run
  have held : 0 ≤ d.state.heldBytes := d.state.streams.sum_nonneg fun _ => unreleased_nonneg _
  have reads : 0 ≤ carriedBy H2Act.reading d.threads := carriedBy_nonneg reading_nonneg _
  refine ⟨balance,by lia,fun closed idle => ?_⟩
  have empty : d.state.heldBytes = 0 := d.state.streams.sum_eq_zero fun k => nothing_held limit streaming run closed idle k
  have done : carriedBy H2Act.reading d.threads = 0 := by
    refine carriedBy_eq_zero fun t mem a inside => ?_
    have settled := idle a ⟨t,mem,inside⟩
    cases a with
    | releaseRead k n => cases settled
    | _ => rfl
  lia

def budgetCfg : H2Config := {streamRequestBody := true, maxBufferedRequestBytes := 100}

def promptUpload : List (Nat × H2Choice) :=
  [(0,.goes),(1,headersFrame 1),(1,.goes),(1,.goes),(1,.goes),(3,.goes),(1,dataFrame 1 [97,98,99]),
   (3,.reads 8),(3,.goes),(3,.goes),(3,.goes),(3,.goes),(3,.finishes),(3,.returns),(3,.goes),(3,.goes),(3,.goes),(3,.goes),(3,.goes)]

theorem prompt_upload_exact : ∃ d, budgetRuns budgetCfg d ∧ (d.state.streams.get (0,1)).released = true ∧
    d.state.bufferedRequestBytes = d.state.heldBytes+carriedBy H2Act.reading d.threads ∧ 0 ≤ d.state.bufferedRequestBytes := by
  obtain ⟨d,run,released⟩ := follow_reaches (H2Act.exec budgetCfg) (fun s a e => keepsBudget s a e = true)
    (fun d => (d.state.streams.get (0,1)).released = true) (c := h2Start) promptUpload (by decide)
  obtain ⟨exact,nonneg,-⟩ := budget_exact (by decide) rfl run
  exact ⟨d,run,released,exact,nonneg⟩

-- Three bytes arrive before the stream's goroutine begins, which takes them for its own to give back; the handler's reads
-- give them back as well.
theorem early_payload_released_twice : ∃ d, Runs (H2Act.exec budgetCfg) (fun _ _ _ => True) h2Start d ∧
    (d.state.streams.get (0,1)).live = false ∧ (d.state.streams.get (0,1)).released = true ∧ d.state.bufferedRequestBytes = -3 :=
  follow_reaches (H2Act.exec budgetCfg) (fun _ _ _ => True)
    (fun d => (d.state.streams.get (0,1)).live = false ∧ (d.state.streams.get (0,1)).released = true ∧ d.state.bufferedRequestBytes = -3)
    [(0,.goes),(1,headersFrame 1),(1,.goes),(1,.goes),(1,.goes),(1,dataFrame 1 [97,98,99]),(3,.goes),
     (3,.reads 8),(3,.goes),(3,.goes),(3,.goes),(3,.goes),(3,.finishes),(3,.returns),(3,.goes),(3,.goes),(3,.goes),(3,.goes),(3,.goes)]
    (by decide)
end
end FhServer

import FhServer.H2SendSteps

namespace FhServer
open Transitions List SendState SendCall Table

structure SendKnown (s : SendState) : Prop where
  fresh : ∀ k, (s.streams.get k).opened = false → s.streams.get k = {}
  wire : ∀ f ∈ s.wire, (s.streams.get f.streamID).opened = true
  used : ∀ i, (s.calls.get i).status ≠ .unused → (s.streams.get (s.calls.get i).streamID).opened = true
  unused : ∀ i, (s.calls.get i).status = .unused → s.calls.get i = {}
  odd : ∀ k, (s.streams.get k).opened = true → k % 2 = 1 → k ≤ s.lastStream
  even : ∀ k, (s.streams.get k).opened = true → k % 2 = 0 → k < s.pushState.nextID
  next : s.pushState.nextID % 2 = 0
  held : ∀ p id, (s.pushes.get p).phase.held = some id → id % 2 = 0 ∧ id < s.pushState.nextID ∧ (s.streams.get id).opened = false
  apart : ∀ p q id, (s.pushes.get p).phase.held = some id → (s.pushes.get q).phase.held = some id → p = q
  initial : s.peerInitialWindow ≤ h2MaxWindow
  created : ∀ p id w, (s.pushes.get p).phase = .created id w → w ≤ h2MaxWindow

section
open SendKnown
variable {s t : SendState} {k i p : Nat}

theorem SendKnown.congr (same : t.flow = s.flow) (known : SendKnown s) : SendKnown t := by
  obtain ⟨-,initial,-,last,streams,calls,pushes,wire,-,next⟩ := flow_parts same
  obtain ⟨fresh,sent,used,unused,odd,even,nextEven,held,apart,bound,created⟩ := known
  constructor <;> simp only [initial,last,streams,calls,pushes,wire,next] <;> assumption

theorem SendKnown.onStreams {streams : Table Nat SendStream {}} (known : SendKnown s)
    (same : ∀ k, (streams.get k).opened = (s.streams.get k).opened) (fresh : ∀ k, s.streams.get k = {} → streams.get k = {}) :
    SendKnown {s with streams := streams} where
  fresh k unopened := fresh k (known.fresh k (same k ▸ unopened))
  wire f mem := (same _).trans (known.wire f mem)
  used i use := (same _).trans (known.used i use)
  unused := known.unused
  odd k opened := known.odd k (same k ▸ opened)
  even k opened := known.even k (same k ▸ opened)
  next := known.next
  held p id holds := ⟨(known.held p id holds).1,(known.held p id holds).2.1,(same id).trans (known.held p id holds).2.2⟩
  apart := known.apart
  initial := known.initial
  created := known.created

theorem SendKnown.onCall (known : SendKnown s) (opened : (s.streams.get (g (s.calls.get i)).streamID).opened = true)
    (used : (g (s.calls.get i)).status ≠ .unused) : SendKnown (s.onCall i g) where
  fresh := known.fresh
  wire := known.wire
  used := s.calls.update_all (k := i) (f := g) (P := fun _ c => c.status ≠ .unused → (s.streams.get c.streamID).opened = true) known.used
    fun _ => opened
  unused := s.calls.update_all (k := i) (f := g) (P := fun _ c => c.status = .unused → c = {}) known.unused fun unused => absurd unused used
  odd := known.odd
  even := known.even
  next := known.next
  held := known.held
  apart := known.apart
  initial := known.initial
  created := known.created

theorem SendKnown.onPushes {pushes : Table Nat PushCall {}} (known : SendKnown s)
    (held : ∀ p, (pushes.get p).phase.held = (s.pushes.get p).phase.held ∨ (pushes.get p).phase.held = none)
    (window : ∀ p id w, (pushes.get p).phase = .created id w → w = s.peerInitialWindow ∨ (s.pushes.get p).phase = .created id w) :
    SendKnown {s with pushes := pushes} := by
  have before : ∀ {p id}, (pushes.get p).phase.held = some id → (s.pushes.get p).phase.held = some id := by
    intro p id holds
    rcases held p with same | none
    · exact same ▸ holds
    · exact nomatch none.symm.trans holds
  refine {known with held := ?_, apart := ?_, created := ?_}
  · exact fun p id holds => known.held p id (before holds)
  · exact fun p q id one two => known.apart p q id (before one) (before two)
  intro p id w phase
  rcases window p id w phase with rfl | same
  · exact known.initial
  · exact known.created p id w same

theorem SendKnown.opens (known : SendKnown s) (opened : r.opened = true) (odd : k % 2 = 1 → k ≤ s.lastStream)
    (even : k % 2 = 0 → k < s.pushState.nextID) (free : ∀ p, (s.pushes.get p).phase.held ≠ some k) :
    SendKnown {s with streams := s.streams.set k r} := by
  have stays : ∀ k', (s.streams.get k').opened = true → ((s.streams.set k r).get k').opened = true := by
    intro k' was
    rw [get_set]
    split
    · exact opened
    · exact was
  have other : ∀ k', k' ≠ k → (s.streams.set k r).get k' = s.streams.get k' := fun k' apart => get_set_ne _ _ apart
  refine {known with fresh := ?_, wire := ?_, used := ?_, odd := ?_, even := ?_, held := ?_}
  · intro k' unopened
    by_cases here : k' = k
    · subst here
      rw [get_set_self,opened] at unopened
      cases unopened
    · rw [other k' here] at unopened ⊢
      exact known.fresh k' unopened
  · exact fun f mem => stays _ (known.wire f mem)
  · exact fun i use => stays _ (known.used i use)
  · intro k' was isOdd
    by_cases here : k' = k
    · exact here ▸ odd (here ▸ isOdd)
    · exact known.odd k' (other k' here ▸ was) isOdd
  · intro k' was isEven
    by_cases here : k' = k
    · exact here ▸ even (here ▸ isEven)
    · exact known.even k' (other k' here ▸ was) isEven
  · intro p id holds
    obtain ⟨isEven,less,unopened⟩ := known.held p id holds
    refine ⟨isEven,less,?_⟩
    rw [other id fun here => free p (here ▸ holds)]
    exact unopened

theorem SendKnown.onStream {g : SendStream → SendStream} (known : SendKnown s) (opened : (s.streams.get k).opened = true)
    (same : (g (s.streams.get k)).opened = (s.streams.get k).opened) : SendKnown (s.onStream k g) := by
  refine known.onStreams (update_part _ SendStream.opened same) fun k' fresh => ?_
  rw [get_update]
  split
  · rename_i here
    rw [here] at fresh
    rw [fresh] at opened
    cases opened
  · exact fresh

theorem SendKnown.allocates (known : SendKnown s) :
    SendKnown ({s with pushState := {s.pushState with nextID := s.pushState.nextID+2}}.toPhase p (.allocated s.pushState.nextID)) := by
  have holder : ∀ p' id, ((s.pushes.update p fun c => {c with phase := .allocated s.pushState.nextID}).get p').phase.held = some id →
      (p' = p ∧ id = s.pushState.nextID) ∨ (p' ≠ p ∧ (s.pushes.get p').phase.held = some id) := by
    intro p' id holds
    rw [get_update] at holds
    split at holds
    · rename_i here
      exact .inl ⟨here,(Option.some.inj holds).symm⟩
    · rename_i other
      exact .inr ⟨other,holds⟩
  refine {known with even := ?_, next := ?_, held := ?_, apart := ?_, created := ?_}
  · exact fun k opened isEven => (known.even k opened isEven).trans (Nat.lt_add_of_pos_right (by decide))
  · have even := known.next
    change (s.pushState.nextID+2) % 2 = 0
    lia
  · intro p' id holds
    rcases holder p' id holds with ⟨-,rfl⟩ | ⟨-,before⟩
    · refine ⟨known.next,Nat.lt_add_of_pos_right (by decide),?_⟩
      cases opened : (s.streams.get s.pushState.nextID).opened
      · exact opened
      · exact absurd (known.even _ opened known.next) (Nat.lt_irrefl _)
    · obtain ⟨isEven,less,unopened⟩ := known.held p' id before
      exact ⟨isEven,less.trans (Nat.lt_add_of_pos_right (by decide)),unopened⟩
  · intro p' q id one two
    rcases holder p' id one with ⟨here,new⟩ | ⟨-,before⟩ <;> rcases holder q id two with ⟨there,new'⟩ | ⟨-,before'⟩
    · rw [here,there]
    · have less := (known.held q id before').2.1
      lia
    · have less := (known.held p' id before).2.1
      lia
    · exact known.apart p' q id before before'
  · intro p' id w phase
    rw [toPhase,onPush,get_update] at phase
    split at phase
    · cases phase
    · exact known.created p' id w phase

theorem Change.known (change : Change s t) (known : SendKnown s) : SendKnown t := by
  cases change with
  | nothing same => exact known.congr same
  | fades streams each same => exact (known.onStreams (fun k => (each k).opened) fun k => (each k).fresh).congr same
  | connGrant inc same | maxFrame value calm same => exact congr same {known with}
  | grant k inc opened fits same => exact (known.onStream opened rfl).congr same
  | refuse k odd later same => exact congr same {known with odd := fun k' was isOdd => (known.odd k' was isOdd).trans later.le}
  | «open» k odd later same =>
    have named : SendKnown {s with lastStream := k} := {known with odd := fun k' was isOdd => (known.odd k' was isOdd).trans later.le}
    refine (named.opens rfl (fun _ => Nat.le_refl k) (fun isEven => ?_) fun p holds => ?_).congr same
    · lia
    · have isEven := (known.held p k holds).1
      lia
  | settings value streams legal calm each fits same =>
    have valued : SendKnown {s with peerInitialWindow := value} := {known with initial := legal, created := known.created}
    refine (valued.onStreams (fun k => (each k).opened) fun k fresh => ?_).congr same
    rw [(each k).fresh (congrArg SendStream.live fresh)]
    exact fresh
  | starts i c free opened begins same =>
    refine congr same (known.onCall opened fun unused => ?_)
    rcases begins with ⟨-,-,status,-⟩ | ⟨status,-⟩ <;> exact nomatch status.symm.trans unused
  | takes i n c call live running free length frame conn stream same =>
    subst call
    have used : (s.calls.get i).status ≠ .unused := fun unused => nomatch running.symm.trans unused
    have opened := known.used i used
    have paid : SendKnown (s.pay (s.calls.get i).streamID n) := congr rfl {known.onStream (g := .pay n) opened rfl with}
    exact congr same (paid.onCall ((update_part _ SendStream.opened rfl _).trans opened) used)
  | abandons i running same =>
    have opened := known.used i fun unused => nomatch running.symm.trans unused
    exact congr same (known.onCall opened nofun)
  | writes i p c call running paid same =>
    subst call
    have opened := known.used i fun unused => nomatch running.symm.trans unused
    have sent : SendKnown (s.putFrame ((s.calls.get i).frame i p)) := by
      refine {known with wire := fun f mem => ?_}
      rcases mem_append.mp mem with before | new
      · exact known.wire f before
      · cases mem_singleton.mp new
        exact opened
    refine congr same (sent.onCall opened ?_)
    rw [wrote]
    split <;> exact nofun
  | pushes pushes held window same => exact (known.onPushes held window).congr same
  | allocates p same => exact known.allocates.congr same
  | registers p id window ready fits same =>
    have holds : (s.pushes.get p).phase.held = some id := ready ▸ rfl
    obtain ⟨isEven,less,-⟩ := known.held p id holds
    -- The call has let go of its identifier by the time the stream is there.
    have let_go : SendKnown (s.toPhase p (.returned true)) := by
      refine known.onPushes (fun p' => ?_) fun p' id w created => ?_
      · rw [get_update]
        split
        · exact .inr rfl
        · exact .inl rfl
      · rw [get_update] at created
        split at created
        · cases created
        · exact .inr created
    refine (let_go.opens rfl (fun isOdd => ?_) (fun _ => less) fun q still => ?_).congr same
    · lia
    rw [toPhase,onPush,get_update] at still
    split at still
    · cases still
    · rename_i other
      exact other (known.apart q p id still holds)
end

def SendState.sentOn (s : SendState) (k : Nat) : Nat := ((s.wire.filter fun f => f.streamID == k).map fun f => f.payload.length).sum
def SendState.sentAll (s : SendState) : Nat := (s.wire.map fun f => f.payload.length).sum
def SendCall.unsentFor (k : Nat) (c : SendCall) : Int := if c.streamID = k then c.unsent else 0
def SendState.unsentOn (s : SendState) (k : Nat) : Int := s.calls.sum fun _ c => c.unsentFor k
def SendState.unsentAll (s : SendState) : Int := s.calls.sum fun _ c => c.unsent

structure Granted (s : SendState) : Prop where
  window : 0 ≤ s.connSendWindow
  conn : s.connSendWindow+s.sentAll+s.unsentAll ≤ 65535+s.connIncrements
  stream : ∀ k, (s.streams.get k).live = true →
    (s.streams.get k).sendWindow+s.sentOn k+s.unsentOn k ≤ s.peerInitialWindow+(s.streams.get k).increments
  flying : ∀ k, 0 < s.unsentOn k → s.sentOn k+s.unsentOn k ≤ s.peerInitialWindow+(s.streams.get k).increments
  frame : ∀ i, (s.calls.get i).unsent ≤ s.peerMaxFrame

section
open Granted
variable {s t : SendState} {c : SendCall} {k i : Nat} {g : SendCall → SendCall}

theorem SendCall.unsentFor_nonneg (c : SendCall) : 0 ≤ c.unsentFor k := by
  rw [unsentFor]
  split <;> lia

theorem unsentOn_nonneg (s : SendState) (k : Nat) : 0 ≤ s.unsentOn k := s.calls.sum_nonneg fun _ => unsentFor_nonneg _

theorem SendCall.unsentFor_none (none : c.unsent = 0) : c.unsentFor k = 0 := by
  rw [unsentFor,none]
  split <;> rfl

theorem unsentOn_moved (calls : t.calls = s.calls.update i g) (call : s.calls.get i = c) (k : Nat) :
    t.unsentOn k+c.unsentFor k = s.unsentOn k+(g c).unsentFor k := by
  subst call
  rw [unsentOn,calls]
  exact s.calls.sum_update (w := fun _ c => c.unsentFor k) (fun _ => unsentFor_none rfl) i g

theorem unsentAll_moved (calls : t.calls = s.calls.update i g) (call : s.calls.get i = c) : t.unsentAll+c.unsent = s.unsentAll+(g c).unsent := by
  subst call
  rw [unsentAll,calls]
  exact s.calls.sum_update (w := fun _ c => (c.unsent : Int)) (fun _ => rfl) i g

theorem sentOn_concat (wire : t.wire = s.wire ++ [f]) (k : Nat) :
    t.sentOn k = s.sentOn k+if f.streamID = k then f.payload.length else 0 := by
  rw [sentOn,wire,filter_append,map_append,sum_append,sentOn]
  congr 1
  by_cases here : f.streamID = k <;> simp [here]

theorem Granted.congr (same : t.flow = s.flow) (granted : Granted s) : Granted t := by
  obtain ⟨conn,initial,frame,-,streams,calls,-,wire,increments,-⟩ := flow_parts same
  obtain ⟨window,whole,each,flying,size⟩ := granted
  constructor <;> simp only [sentAll,sentOn,unsentAll,unsentOn,conn,initial,frame,streams,calls,wire,increments] <;>
    assumption

theorem SendKnown.untouched (known : SendKnown s) (unopened : (s.streams.get k).opened = false) : s.sentOn k = 0 ∧ s.unsentOn k = 0 := by
  constructor
  · have none : (s.wire.filter fun f => f.streamID == k) = [] := by
      refine filter_eq_nil_iff.mpr fun f mem here => ?_
      have opened := known.wire f mem
      rw [beq_iff_eq.mp here] at opened
      exact nomatch unopened.symm.trans opened
    rw [sentOn,none]
    rfl
  · refine s.calls.sum_eq_zero fun i => ?_
    rw [unsentFor]
    split
    · rename_i here
      by_cases use : (s.calls.get i).status = .unused
      · rw [known.unused i use]
        rfl
      · have opened := known.used i use
        rw [here] at opened
        exact nomatch unopened.symm.trans opened
    · rfl

theorem Granted.opens (granted : Granted s) (nothing : s.sentOn k = 0 ∧ s.unsentOn k = 0) (window : r.sendWindow ≤ s.peerInitialWindow)
    (fresh : r.increments = 0) : Granted {s with streams := s.streams.set k r} where
  window := granted.window
  conn := granted.conn
  frame := granted.frame
  stream := by
    intro k' live
    rw [get_set] at live ⊢
    split at live
    · rename_i here
      rw [if_pos here,here]
      have sent : sentOn {s with streams := s.streams.set k r} k = 0 := nothing.1
      have unsent : unsentOn {s with streams := s.streams.set k r} k = 0 := nothing.2
      rw [sent,unsent,fresh]
      simpa using window
    · rename_i other
      rw [if_neg other]
      exact granted.stream k' live
  flying := by
    intro k' some
    by_cases here : k' = k
    · have none : s.unsentOn k' = 0 := here ▸ nothing.2
      have positive : 0 < s.unsentOn k' := some
      lia
    · rw [get_set_ne _ _ here]
      exact granted.flying k' some

theorem Granted.moves (granted : Granted s) (calls : t.calls = s.calls.update i g) (call : s.calls.get i = c)
    (same : t.peerInitialWindow = s.peerInitialWindow ∧ t.peerMaxFrame = s.peerMaxFrame ∧ t.connIncrements = s.connIncrements)
    (window : 0 ≤ t.connSendWindow) (conn : t.connSendWindow+t.sentAll+(g c).unsent ≤ s.connSendWindow+s.sentAll+c.unsent)
    (streams : ∀ k, (t.streams.get k).live = (s.streams.get k).live ∧ (t.streams.get k).increments = (s.streams.get k).increments ∧
      (t.streams.get k).sendWindow+t.sentOn k+(g c).unsentFor k ≤ (s.streams.get k).sendWindow+s.sentOn k+c.unsentFor k)
    (flying : ∀ k, (g c).unsentFor k ≤ c.unsentFor k ∧ t.sentOn k+(g c).unsentFor k ≤ s.sentOn k+c.unsentFor k ∨
      (s.streams.get k).live = true ∧ 0 ≤ (t.streams.get k).sendWindow)
    (frame : (g c).unsent ≤ s.peerMaxFrame) : Granted t := by
  refine ⟨window,?_,fun k live => ?_,fun k flies => ?_,?_⟩
  · have moved := unsentAll_moved calls call
    have before := granted.conn
    lia
  · have moved := unsentOn_moved calls call k
    obtain ⟨lives,increments,less⟩ := streams k
    have before := granted.stream k (lives ▸ live)
    lia
  · have moved := unsentOn_moved calls call k
    obtain ⟨-,increments,less⟩ := streams k
    rcases flying k with ⟨fewer,still⟩ | ⟨live,rest⟩
    · have before := granted.flying k (by lia)
      lia
    · have before := granted.stream k live
      lia
  · rw [calls,same.2.1]
    exact s.calls.update_all (P := fun _ c => c.unsent ≤ s.peerMaxFrame) granted.frame (call ▸ frame)

theorem Granted.takes (granted : Granted s) (call : s.calls.get i = c) (live : (s.streams.get c.streamID).live = true) (free : c.chunk = none)
    (length : n ≤ c.rest.length) (frame : n ≤ s.peerMaxFrame) (conn : (n : Int) ≤ s.connSendWindow)
    (stream : (n : Int) ≤ (s.streams.get c.streamID).sendWindow) (same : t.flow = ((s.pay c.streamID n).onCall i (.carve n)).flow) : Granted t := by
  have parts := flow_parts same
  have window : t.connSendWindow = s.connSendWindow-n := parts.window
  have streams : t.streams = s.streams.update c.streamID (.pay n) := parts.streams
  have none : c.unsent = 0 := by rw [unsent,free]; rfl
  have some : (c.carve n).unsent = n := by
    rw [unsent,carve,Option.getD_some,length_take]
    lia
  have taken : ∀ k, (c.carve n).unsentFor k = if c.streamID = k then (n : Int) else 0 := by
    intro k
    rw [unsentFor,some]
    rfl
  have sentAll : t.sentAll = s.sentAll := congrArg (fun wire => (wire.map fun f => f.payload.length).sum) parts.wire
  have sentOn : ∀ k, t.sentOn k = s.sentOn k := fun k =>
    congrArg (fun wire => ((wire.filter fun f => f.streamID == k).map fun f => f.payload.length).sum) parts.wire
  refine granted.moves parts.calls call ⟨parts.initial,parts.frame,parts.increments⟩ (by lia) (by lia) (fun k => ?_) (fun k => ?_) (some.le.trans frame)
  · rw [streams,sentOn k,taken k,unsentFor_none none,get_update]
    split
    · rename_i here
      subst here
      refine ⟨rfl,rfl,?_⟩
      rw [if_pos rfl,SendStream.pay]
      lia
    · rename_i other
      rw [if_neg (Ne.symm other)]
      exact ⟨rfl,rfl,Int.le_refl _⟩
  · by_cases here : k = c.streamID
    · subst here
      refine .inr ⟨live,?_⟩
      rw [streams,get_update_self]
      exact Int.sub_nonneg_of_le stream
    · rw [sentOn k,taken k,unsentFor_none none,if_neg (Ne.symm here)]
      exact .inl ⟨Int.le_refl _,Int.le_refl _⟩

theorem Granted.spends (granted : Granted s) (call : s.calls.get i = c) (none : (g c).unsent = 0)
    (wire : t.wire = s.wire ∨ ∃ p, c.chunk = some p ∧ t.wire = s.wire ++ [c.frame i p])
    (parts : SameFlow ({s with wire := t.wire}.onCall i g) t) : Granted t := by
  have window : t.connSendWindow = s.connSendWindow := parts.window
  have nonneg := fun k => c.unsentFor_nonneg (k := k)
  obtain ⟨sentAll,sentOn⟩ : t.sentAll ≤ s.sentAll+c.unsent ∧ ∀ k, (t.sentOn k : Int) ≤ s.sentOn k+c.unsentFor k := by
    rcases wire with kept | ⟨p,paid,sent⟩
    · rw [sentAll,kept]
      refine ⟨Nat.le_add_right _ _,fun k => ?_⟩
      rw [sentOn,kept]
      exact Int.le_add_of_nonneg_right (nonneg k)
    · have some : c.unsent = p.length := by rw [SendCall.unsent,paid]; rfl
      refine ⟨?_,fun k => ?_⟩
      · rw [sentAll,sent,some]
        simp [sentAll,SendCall.frame]
      · rw [sentOn_concat sent,SendCall.unsentFor,some,SendCall.frame]
        split <;> exact Int.le_refl _
  have before := granted.window
  refine granted.moves parts.calls call ⟨parts.initial,parts.frame,parts.increments⟩ (by lia) (by lia) (fun k => ?_) (fun k => ?_) (by lia)
  · have less := sentOn k
    rw [parts.streams,SendCall.unsentFor_none none]
    refine ⟨rfl,rfl,?_⟩
    change (s.streams.get k).sendWindow+_+_ ≤ _
    lia
  · rw [SendCall.unsentFor_none none]
    exact .inl ⟨nonneg k,by simpa using sentOn k⟩

theorem Change.granted (change : Change s t) (known : SendKnown s) (granted : Granted s) : Granted t := by
  cases change with
  | nothing same => exact granted.congr same
  | fades streams each same =>
    refine congr same {granted with stream := fun k live => ?_, flying := fun k some => ?_}
    · rw [(each k).window,(each k).increments]
      exact granted.stream k ((each k).live live)
    · rw [(each k).increments]
      exact granted.flying k some
  | connGrant inc same =>
    refine congr same {granted with window := ?_, conn := ?_}
    · have before := granted.window
      lia
    · have before := granted.conn
      change s.connSendWindow+inc+s.sentAll+s.unsentAll ≤ 65535+(s.connIncrements+inc)
      lia
  | grant k inc opened fits same =>
    refine congr same {granted with stream := ?_, flying := ?_}
    · refine s.streams.update_all (k := k) (f := .grant inc)
        (P := fun k r => r.live = true → r.sendWindow+s.sentOn k+s.unsentOn k ≤ s.peerInitialWindow+r.increments) granted.stream fun live => ?_
      have before := granted.stream k live
      rw [SendStream.grant]
      lia
    · refine s.streams.update_all (k := k) (f := .grant inc)
        (P := fun k r => 0 < s.unsentOn k → s.sentOn k+s.unsentOn k ≤ s.peerInitialWindow+r.increments) granted.flying fun some => ?_
      have before := granted.flying k some
      rw [SendStream.grant]
      lia
  | refuse k odd later same | pushes pushes held window same | allocates p same => exact congr same {granted with}
  | «open» k odd later same =>
    have unopened : (s.streams.get k).opened = false := by
      cases opened : (s.streams.get k).opened
      · rfl
      · exact absurd (known.odd k opened odd) (Nat.not_le.mpr later)
    have named : Granted {s with lastStream := k} := {granted with}
    exact congr same (named.opens (known.untouched unopened) (Int.le_refl _) rfl)
  | settings value streams legal calm each fits same =>
    refine congr same {granted with stream := fun k live => ?_, flying := fun k some => ?_}
    · have isLive : (s.streams.get k).live = true := (each k).live ▸ live
      have before := granted.stream k isLive
      have moved := (each k).window isLive
      rw [(each k).increments]
      change (streams.get k).sendWindow+s.sentOn k+s.unsentOn k ≤ value+(s.streams.get k).increments
      lia
    · have before := granted.flying k some
      rw [(each k).increments]
      change s.sentOn k+s.unsentOn k ≤ value+(s.streams.get k).increments
      rcases calm with higher | idle
      · lia
      have none : s.unsentOn k = 0 := by
        refine s.calls.sum_eq_zero fun i => ?_
        rw [unsentFor,idle i]
        split <;> rfl
      have positive : 0 < s.unsentOn k := some
      lia
  | maxFrame value calm same =>
    refine congr same {granted with frame := fun i => ?_}
    rcases calm with higher | idle
    · exact (granted.frame i).trans higher
    · exact (idle i).le.trans (Nat.zero_le _)
  | starts i c free opened begins same =>
    refine granted.spends rfl ?_ (.inl (flow_parts same).wire) {flow_parts same with wire := rfl}
    rcases begins with ⟨-,-,-,-,empty⟩ | ⟨-,-,⟨-,-,empty⟩ | ⟨-,empty⟩⟩ <;> rw [unsent,empty] <;> rfl
  | takes i n c call live running free length frame conn stream same => exact granted.takes call live free length frame conn stream same
  | abandons i running same => exact granted.spends rfl rfl (.inl (flow_parts same).wire) {flow_parts same with wire := rfl}
  | writes i p c call running paid same => exact granted.spends call rfl (.inr ⟨p,paid,(flow_parts same).wire⟩) {flow_parts same with wire := rfl}
  | registers p id window ready fits same =>
    have unopened := (known.held p id (ready ▸ rfl)).2.2
    have phased : Granted (s.toPhase p (.returned true)) := {granted with}
    exact congr same (phased.opens (known.untouched unopened) fits rfl)
end

def SendState.framesOf (s : SendState) (i : Nat) : List DataFrame := s.wire.filter fun f => f.call == i

-- The frames of a call carry its data whole and in order on its stream, with END_STREAM on the last one only, and only when
-- the call asked for it.
structure SentWhole (c : SendCall) (frames : List DataFrame) : Prop where
  stream : ∀ f ∈ frames, f.streamID = c.streamID
  data : frames.flatMap (·.payload) = c.data
  before : ∀ f ∈ frames.dropLast, f.endStream = false
  last : frames.getLast?.any (·.endStream) = c.endStream

structure SendsOn (c : SendCall) (frames : List DataFrame) : Prop where
  stream : ∀ f ∈ frames, f.streamID = c.streamID
  data : frames.flatMap (·.payload) ++ (c.chunk.getD [] ++ c.rest) = c.data
  goes : ∀ f ∈ frames, f.endStream = false
  more : c.chunk = none → c.rest ≠ []

def CallIntact (c : SendCall) (frames : List DataFrame) : Prop :=
  match c.status with
  | .unused => frames = []
  | .running => SendsOn c frames
  | .returned => SentWhole c frames
  | .failed => True

section
variable {s t : SendState} {c : SendCall} {frames : List DataFrame} {p : Bytes} {i : Nat}

theorem SendsOn.carve (sends : SendsOn c frames) (free : c.chunk = none) (n : Nat) : SendsOn (c.carve n) frames where
  stream := sends.stream
  goes := sends.goes
  more := nofun
  data := by
    have whole := sends.data
    rw [free,Option.getD_none,nil_append] at whole
    rw [SendCall.carve,Option.getD_some,take_append_drop]
    exact whole

theorem SendsOn.wrote (sends : SendsOn c frames) (paid : c.chunk = some p) :
    CallIntact c.wrote (frames ++ [c.frame i p]) := by
  have stream : ∀ f ∈ frames ++ [c.frame i p], f.streamID = c.streamID :=
    forall_mem_append.mpr ⟨sends.stream,forall_mem_singleton.mpr rfl⟩
  have whole := sends.data
  rw [paid,Option.getD_some] at whole
  by_cases done : c.rest = []
  · have returned : c.wrote.status = .returned := if_pos done
    rw [CallIntact,returned]
    refine ⟨stream,?_,?_,?_⟩
    · rw [done,append_nil] at whole
      rw [flatMap_append,flatMap_singleton]
      exact whole
    · rw [dropLast_concat]
      exact sends.goes
    · rw [List.getLast?_concat,frame,done]
      rfl
  · have running : c.wrote.status = .running := if_neg done
    rw [CallIntact,running]
    refine ⟨stream,?_,?_,fun _ => done⟩
    · rw [flatMap_append,flatMap_singleton,append_assoc]
      exact whole
    refine forall_mem_append.mpr ⟨sends.goes,forall_mem_singleton.mpr ?_⟩
    rw [frame,isEmpty_eq_false_iff.mpr done,Bool.false_and]

theorem callIntact_starts (begins : c.Begins) : CallIntact c [] := by
  rcases begins with ⟨empty,ends,status,-⟩ | ⟨status,rest,⟨empty,-,chunk⟩ | ⟨some,chunk⟩⟩
  · rw [CallIntact,status]
    exact ⟨by simp,empty.symm,by simp,ends.symm⟩
  · rw [CallIntact,status]
    refine ⟨by simp,?_,by simp,fun none => nomatch chunk.symm.trans none⟩
    rw [chunk,rest,empty]
    rfl
  · rw [CallIntact,status]
    refine ⟨by simp,?_,by simp,fun _ => rest ▸ some⟩
    rw [chunk,rest]
    rfl

theorem Change.intact (change : Change s t) (intact : ∀ i, CallIntact (s.calls.get i) (s.framesOf i)) :
    ∀ i, CallIntact (t.calls.get i) (t.framesOf i) := by
  have kept : t.calls = s.calls → t.wire = s.wire → ∀ i, CallIntact (t.calls.get i) (t.framesOf i) := by
    intro calls wire
    simp only [framesOf,calls,wire]
    exact intact
  have updated : ∀ {i g}, t.calls = s.calls.update i g → t.wire = s.wire → CallIntact (g (s.calls.get i)) (s.framesOf i) →
      ∀ i, CallIntact (t.calls.get i) (t.framesOf i) := by
    intro i g calls wire one
    simp only [framesOf,calls,wire]
    exact s.calls.update_all (P := fun i c => CallIntact c (s.framesOf i)) intact one
  cases change with
  | starts i c free opened begins same =>
    refine updated (i := i) (g := fun _ => c) (flow_parts same).calls (flow_parts same).wire ?_
    have none := intact i
    rw [CallIntact,free] at none
    rw [none]
    exact callIntact_starts begins
  | takes i n c call live running free length frame conn stream same =>
    subst call
    refine updated (i := i) (g := .carve n) (flow_parts same).calls (flow_parts same).wire ?_
    have sends := intact i
    rw [CallIntact,running] at sends
    have still : ((s.calls.get i).carve n).status = .running := running
    rw [CallIntact,still]
    exact sends.carve free n
  | abandons i running same => exact updated (i := i) (g := .fail) (flow_parts same).calls (flow_parts same).wire trivial
  | writes i p c call running paid same =>
    subst call
    have calls : t.calls = s.calls.update i .wrote := (flow_parts same).calls
    have wire : t.wire = s.wire ++ [(s.calls.get i).frame i p] := (flow_parts same).wire
    have sends := intact i
    rw [CallIntact,running] at sends
    intro i'
    rw [framesOf,calls,wire,filter_append,get_update]
    by_cases here : i' = i
    · subst here
      rw [if_pos rfl,filter_singleton,frame,beq_self_eq_true]
      exact sends.wrote paid
    · rw [if_neg here,filter_singleton]
      have other : (((s.calls.get i).frame i p).call == i') = false := beq_eq_false_iff_ne.mpr (Ne.symm here)
      simpa [other,framesOf] using intact i'
  | _ =>
    rename_i same
    exact kept (flow_parts same).calls (flow_parts same).wire
end
section
variable {cfg : SendConfig} {s t : SendState} {e : SendEvent}

theorem Change.streams (change : Change s t) (known : SendKnown s) (k : Nat) : ((s.streams.get k).opened = true → (t.streams.get k).opened = true) ∧
    (t.loop.alive = true → (s.streams.get k).sendWindow ≤ h2MaxWindow → (t.streams.get k).sendWindow ≤ h2MaxWindow) := by
  cases change with
  | fades streams each same =>
    rw [(flow_parts same).streams]
    exact ⟨(each k).opened.trans,fun _ => (each k).window.le.trans⟩
  | settings value streams legal calm each fits same =>
    rw [(flow_parts same).streams]
    exact ⟨(each k).opened.trans,fun going => fits going k⟩
  | grant k' inc opened fits same =>
    rw [(flow_parts same).streams,onStream,get_update]
    split
    · rename_i here
      exact ⟨fun was => here ▸ was,fun _ _ => fits⟩
    · exact ⟨id,fun _ => id⟩
  | takes i n c call live running free length frame conn stream same =>
    rw [(flow_parts same).streams,onCall,pay,get_update]
    split
    · rename_i here
      refine ⟨fun was => here ▸ was,fun _ window => ?_⟩
      rw [← here,SendStream.pay]
      lia
    · exact ⟨id,fun _ => id⟩
  | «open» k' odd later same =>
    rw [(flow_parts same).streams,get_set]
    split
    · exact ⟨fun _ => rfl,fun _ _ => known.initial⟩
    · exact ⟨id,fun _ => id⟩
  | registers p k' size ready fits same =>
    rw [(flow_parts same).streams,toPhase,onPush,get_set]
    split
    · exact ⟨fun _ => rfl,fun _ _ => known.created p k' size ready⟩
    · exact ⟨id,fun _ => id⟩
  | _ =>
    rename_i same
    rw [(flow_parts same).streams]
    exact ⟨id,fun _ => id⟩

structure SendGood (s : SendState) : Prop where
  known : SendKnown s
  granted : Granted s
  intact : ∀ i, CallIntact (s.calls.get i) (s.framesOf i)
  loop : LoopKnown s

theorem SendGood.step (good : SendGood s) (keeps : keepsGrant s e = true) (does : s.step cfg e = some t) : SendGood t := by
  obtain ⟨change,alive,names⟩ := step_change good.loop keeps does
  refine ⟨change.known good.known,change.granted good.known good.granted,change.intact good.intact,fun k mem => ?_,fun going k => ?_⟩
  · refine (change.streams good.known k).1 ?_
    rcases names k mem with before | live
    · exact good.loop.named k before
    · by_contra unopened
      rw [good.known.fresh k (by simpa using unopened)] at live
      cases live
  · exact (change.streams good.known k).2 going (good.loop.window (alive going) k)

theorem SendGood.start : SendGood (sendStart cfg) where
  known := by
    have initial : (65535 : Int) ≤ h2MaxWindow := by decide
    exact ⟨fun _ _ => rfl,nofun,(fun _ used => absurd rfl used),fun _ _ => rfl,nofun,
      nofun,(by change 2 % 2 = 0; decide),nofun,nofun,initial,nofun⟩
  granted := ⟨by change (0 : Int) ≤ 65535; decide,Int.le_refl _,nofun,(fun _ some => absurd some (Int.lt_irrefl 0)),fun _ => Nat.zero_le _⟩
  intact _ := rfl
  loop := ⟨nofun,fun _ _ => by change (0 : Int) ≤ h2MaxWindow; decide⟩

def grantRuns (cfg : SendConfig) : SendState → Prop := Reached (step cfg) (fun s e => keepsGrant s e = true) (sendStart cfg)

theorem send_run (run : grantRuns cfg s) : SendGood s :=
  run.keeps SendGood .start fun good keeps does => good.step keeps does

theorem Change.frame (change : Change s t) (wrote : t.wire = s.wire ++ [f]) :
    ∃ i p c, s.calls.get i = c ∧ c.chunk = some p ∧ f = c.frame i p ∧ t.flow = ((s.putFrame f).onCall i .wrote).flow := by
  cases change with
  | writes i p c call running paid same =>
    have frame := (flow_parts same).wire.symm.trans wrote
    have exact := singleton_inj.mp (append_cancel_left frame)
    exact ⟨i,p,c,call,paid,exact.symm,exact ▸ same⟩
  | _ =>
    rename_i same
    exact nomatch append_right_eq_self.mp (wrote.symm.trans (flow_parts same).wire)

theorem data_within_grants (run : grantRuns cfg s) :
    (∀ e t f, keepsGrant s e = true → s.step cfg e = some t → t.wire = s.wire ++ [f] → f.payload ≠ [] →
      t.sentOn f.streamID ≤ t.peerInitialWindow+(t.streams.get f.streamID).increments ∧
      t.sentAll ≤ 65535+t.connIncrements ∧ f.payload.length ≤ t.peerMaxFrame) ∧
    ∀ i, (s.calls.get i).status = .returned → SentWhole (s.calls.get i) (s.framesOf i) := by
  have good := send_run run
  refine ⟨?_,fun i returned => ?_⟩
  · intro e t f keeps does wrote some
    obtain ⟨i,p,c,call,paid,rfl,same⟩ := (step_change good.loop keeps does).change.frame wrote
    have after := (good.step keeps does).granted
    have parts := flow_parts same
    have length : c.unsent = p.length := by rw [unsent,paid]; rfl
    have nonempty : 0 < p.length := length_pos_iff.mpr some
    refine ⟨?_,?_,?_⟩
    · -- What waits on the stream holds this payload, so that it has been granted.
      have moved := unsentOn_moved (s := s) parts.calls call c.streamID
      have here : c.unsentFor c.streamID = p.length := by rw [unsentFor,if_pos rfl,length]
      have gone : c.wrote.unsentFor c.streamID = 0 := unsentFor_none rfl
      have rest := unsentOn_nonneg t c.streamID
      have granted := good.granted.flying c.streamID (by lia)
      have sent : t.sentOn c.streamID = s.sentOn c.streamID+p.length := (sentOn_concat wrote _).trans (congrArg _ (if_pos rfl))
      rw [frame,sent,parts.initial,parts.streams]
      change ((s.sentOn c.streamID+p.length : Nat) : Int) ≤ s.peerInitialWindow+(s.streams.get c.streamID).increments
      lia
    · have whole := after.conn
      have window := after.window
      have rest : 0 ≤ t.unsentAll := t.calls.sum_nonneg fun _ => Int.natCast_nonneg _
      lia
    · rw [parts.frame]
      exact length ▸ call ▸ good.granted.frame i
  · have intact := good.intact i
    rw [CallIntact,returned] at intact
    exact intact

theorem sent_upload_whole : ∃ s, grantRuns {} s ∧ (s.calls.get 0).data = [97,98,99] ∧ SentWhole (s.calls.get 0) (s.framesOf 0) := by
  obtain ⟨s,run,returned,data⟩ := play_reaches (step {}) (fun s e => keepsGrant s e = true) (sendStart {})
    (fun s => (s.calls.get 0).status = .returned ∧ (s.calls.get 0).data = [97,98,99])
    [.frame (.headers 1 true),.sendData 0 1 [97,98,99] true,.takeWindow 0,.writeFrame 0 .written] (by decide)
  exact ⟨s,run,data,(data_within_grants run).2 0 returned⟩

def overruns (s : SendState) : Bool :=
  (s.step {} (.writeFrame 0 .written)).any fun t =>
    (t.wire.drop s.wire.length).any fun f =>
      decide (f.payload ≠ [] ∧ t.peerInitialWindow+(t.streams.get f.streamID).increments < t.sentOn f.streamID)

def noWindow : PeerFrame := .settings [0,4,0,0,0,0]

-- The frame is paid for, then the peer lowers its initial window to 0, which is applied and acknowledged, and then the
-- frame is written. And a pushed stream whose window was read before the same change, and that is registered after it.
theorem window_overrun :
    (∃ s, Reached (step {}) (fun _ _ => True) (sendStart {}) s ∧ overruns s = true) ∧
    ∃ s, Reached (step {}) (fun _ _ => True) (sendStart {}) s ∧ (s.calls.get 0).streamID = 2 ∧ overruns s = true :=
  ⟨play_reaches (step {}) (fun _ _ => True) (sendStart {}) (fun s => overruns s = true)
      [.frame (.headers 1 true),.sendData 0 1 [97,98,99] true,.takeWindow 0,.frame noWindow,.loopStep [1] .written,.loopStep [] .written]
      (by decide),
    play_reaches (step {}) (fun _ _ => True) (sendStart {}) (fun s => (s.calls.get 0).streamID = 2 ∧ overruns s = true)
      [.frame (.headers 1 true),.push 0 1 (ascii "GET") (ascii "/a"),.pushStep 0,.pushStep 0,.pushStep 0,.pushWrite 0 true .written,
       .pushStep 0,.pushStep 0,.frame noWindow,.loopStep [1] .written,.loopStep [] .written,.pushStep 0,
       .sendData 0 2 [97,98,99] true,.takeWindow 0]
      (by decide)⟩
end
end FhServer

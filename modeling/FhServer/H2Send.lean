import FhServer.GoBytes
import FhServer.Table
import FhServer.Transitions

namespace FhServer
open Transitions

-- The sending half of one HTTP/2 connection: its flow-control windows, the sendData calls of its handlers, its pushes and
-- the part of the frame loop that changes what they may do. The local variables of a call stand in a table of calls, so
-- that each critical section is one event and the events of different goroutines may come in any order.

def h2MaxWindow : Int := 2^31-1

structure DataFrame where
  call : Nat
  streamID : Nat
  payload : Bytes
  endStream : Bool

-- An h2Stream. It is opened once, and live while h.streams has it; increments (kept for the specification) sums what
-- WINDOW_UPDATE frames have granted it.
structure SendStream where
  opened : Bool := false
  live : Bool := false
  reset : Bool := false
  ended : Bool := false
  sendWindow : Int := 0
  increments : Int := 0

inductive CallStatus where
  | unused | running | returned | failed
deriving DecidableEq

-- A sendData call: what it was given, what is left of it, and a frame it has paid for and not yet written.
structure SendCall where
  status : CallStatus := .unused
  streamID : Nat := 0
  data : Bytes := []
  endStream : Bool := false
  rest : Bytes := []
  chunk : Option Bytes := none

inductive PushPhase where
  | unused
  | starts
  | permitted
  | accepted
  | allocated (id : Nat)
  | promised (id : Nat)
  | recorded (id : Nat)
  | created (id : Nat) (sendWindow : Int)
  | returned (sent : Bool)
deriving DecidableEq

-- A pushPromise call. It is unwelcome (kept for the specification) when it began while the peer refused pushes and the
-- peer has not allowed them since.
structure PushCall where
  phase : PushPhase := .unused
  parent : Nat := 0
  unwelcome : Bool := false

structure H2PushState where
  nextID : Nat := 2
  streams : List Nat := []
  pending : Nat := 0
  maxPush : Nat := 128
  disabled : Bool := false

structure Promise where
  parent : Nat
  promised : Nat
  unwelcome : Bool

inductive FrameLoop where
  | reads
  | applies (settings : List (Nat × Nat))
  | grants (streamID : Nat) (increment : Nat)
  | fails
  | closes (streams : List Nat)
  | stopped
deriving DecidableEq

structure SendConfig where
  writeTimeout : Bool := false
  maxConcurrentStreams : Nat := 128

-- The last four fields are kept for the specification: the DATA frames written, the PUSH_PROMISE frames written, the sum
-- of the connection's increments, and the peer's last ENABLE_PUSH.
structure SendState where
  closed : Bool := false
  connSendWindow : Int := 65535
  peerInitialWindow : Int := 65535
  peerMaxFrame : Nat := 16384
  peerMaxConcurrentStreams : Nat := 2^32-1
  peerEnablePush : Bool := true
  lastStream : Nat := 0
  streams : Table Nat SendStream {} := .empty
  calls : Table Nat SendCall {} := .empty
  pushes : Table Nat PushCall {} := .empty
  pushState : H2PushState := {}
  loop : FrameLoop := .reads
  wire : List DataFrame := []
  promises : List Promise := []
  connIncrements : Int := 0
  peerAccepts : Bool := true

-- What the peer sends, as far as it matters here. A HEADERS frame for a new stream may be refused for other reasons.
inductive PeerFrame where
  | settings (payload : Bytes)
  | windowUpdate (streamID : Nat) (payload : Bytes)
  | headers (streamID : Nat) (accepted : Bool)
  | rstStream (streamID : Nat)
  | invalid

inductive WriteResult where
  | written | broken
deriving DecidableEq

inductive SendEvent where
  | frame (f : PeerFrame)
  | loopStep (order : List Nat) (w : WriteResult)
  | markClosed
  | sendData (call streamID : Nat) (data : Bytes) (endStream : Bool)
  | takeWindow (call : Nat)
  | deadline (call : Nat)
  | writeFrame (call : Nat) (w : WriteResult)
  | finish (streamID : Nat)
  | resetStream (streamID : Nat)
  | push (call parent : Nat) (method path : Bytes)
  | pushStep (call : Nat)
  | pushWrite (call : Nat) (valid : Bool) (w : WriteResult)
  | setEnablePush (enabled : Bool)

def settingsEntries : Bytes → List (Nat × Nat)
  | a :: b :: c :: d :: e :: f :: rest => (a.toNat*256+b.toNat,((c.toNat*256+d.toNat)*256+e.toNat)*256+f.toNat) :: settingsEntries rest
  | _ => []

def windowIncrement : Bytes → Option Nat
  | [a,b,c,d] => some ((((a.toNat*256+b.toNat)*256+c.toNat)*256+d.toNat) % 2^31)
  | _ => none

namespace SendStream

def shift (delta : Int) (r : SendStream) : SendStream := {r with sendWindow := r.sendWindow+delta}
def pay (n : Int) (r : SendStream) : SendStream := {r with sendWindow := r.sendWindow-n}
def grant (inc : Nat) (r : SendStream) : SendStream := {r with sendWindow := r.sendWindow+inc, increments := r.increments+inc}
end SendStream
namespace SendCall

def carve (n : Nat) (c : SendCall) : SendCall := {c with chunk := some (c.rest.take n), rest := c.rest.drop n}

def wrote (c : SendCall) : SendCall := {c with status := if c.rest = [] then .returned else .running, chunk := none}

def fail (c : SendCall) : SendCall := {c with status := .failed, chunk := none}
end SendCall
namespace SendState
section
variable (s : SendState)

def onStream (k : Nat) (g : SendStream → SendStream) : SendState := {s with streams := s.streams.update k g}
def onCall (i : Nat) (g : SendCall → SendCall) : SendState := {s with calls := s.calls.update i g}
def onPush (p : Nat) (g : PushCall → PushCall) : SendState := {s with pushes := s.pushes.update p g}

def putFrame (f : DataFrame) : SendState := {s with wire := s.wire ++ [f]}
def putPromise (p : Promise) : SendState := {s with promises := s.promises ++ [p]}

def pay (k : Nat) (n : Int) : SendState :=
  {s with connSendWindow := s.connSendWindow-n, streams := s.streams.update k (.pay n)}

def liveStreams : List Nat := s.streams.keys.filter fun k => (s.streams.get k).live

def recordEnablePush (enabled : Bool) : SendState :=
  if enabled then
    {s with peerAccepts := true, pushes := s.pushes.mapAll (fun _ p => {p with unwelcome := false}) fun _ => rfl}
  else {s with peerAccepts := false}

def resetStream (k : Nat) : SendState :=
  let s' := if (s.streams.get k).live then s.onStream k fun r => {r with reset := true, live := false} else s
  if k % 2 = 0 then {s' with pushState := {s'.pushState with streams := s'.pushState.streams.erase k}} else s'

def fail : SendState := {s with loop := .fails}

def handleWindowUpdate (k : Nat) (payload : Bytes) : SendState :=
  match windowIncrement payload with
  | none => s.fail
  | some inc =>
    if inc = 0 then s.fail
    else if k = 0 then
      if s.connSendWindow+inc > h2MaxWindow then s.fail
      else {s with connSendWindow := s.connSendWindow+inc, connIncrements := s.connIncrements+inc}
    else if (s.streams.get k).live then {s with loop := .grants k inc}
    else if k > s.lastStream then s.fail
    else s

def handleFrame : PeerFrame → SendState
  | .settings payload => if payload.length % 6 ≠ 0 then s.fail else {s with loop := .applies (settingsEntries payload)}
  | .windowUpdate k payload => s.handleWindowUpdate k payload
  | .headers k accepted =>
    if (s.streams.get k).live then s
    else if k % 2 = 0 ∨ k ≤ s.lastStream then s.fail
    else if !accepted then {s with lastStream := k}
    else {s with lastStream := k, streams := s.streams.set k {opened := true, live := true, sendWindow := s.peerInitialWindow}}
  | .rstStream k => if !(s.streams.get k).live && decide (k > s.lastStream) then s.fail else s.resetStream k
  | .invalid => s.fail
end

-- The loop of applySettings over h.streams, in the order in which the map yields them; false when a window overflows.
def shiftWindows (delta : Int) : List Nat → SendState → SendState × Bool
  | [], s => (s,true)
  | k :: rest, s =>
    let shifted := s.onStream k (.shift delta)
    if (shifted.streams.get k).sendWindow > h2MaxWindow then (shifted,false) else shiftWindows delta rest shifted

-- One entry of applySettings; false when it is a connection error. The size of the encoder's table (1) and the header
-- list limit (6) do not matter here. ENABLE_PUSH (2) is checked and then recorded for the specification only.
def applySetting (order : List Nat) (s : SendState) (id value : Nat) : SendState × Bool :=
  match id with
  | 2 => if value > 1 then (s,false) else (s.recordEnablePush (value == 1),true)
  | 3 => ({s with peerMaxConcurrentStreams := value},true)
  | 4 =>
    if (value : Int) > h2MaxWindow then (s,false)
    else shiftWindows (value-s.peerInitialWindow) order {s with peerInitialWindow := value}
  | 5 => if value < 16384 ∨ value > 2^24-1 then (s,false) else ({s with peerMaxFrame := value},true)
  | _ => (s,true)

section
variable (s : SendState)

-- The frame loop goes on with what it is doing. After an error, or the end of the input, serve closes the connection,
-- takes the streams out of the map and resets them one by one.
def loopStep (order : List Nat) (w : WriteResult) : Option SendState :=
  match s.loop with
  | .applies [] =>
    if s.closed then some s.fail
    else if w = .broken then some {s.fail with closed := true}
    else some {s with loop := .reads}
  | .applies ((id,value) :: rest) =>
    if order.isPerm s.liveStreams then
      let (s',fine) := s.applySetting order id value
      some (if fine then {s' with loop := .applies rest} else s'.fail)
    else none
  | .grants k inc =>
    if (s.streams.get k).sendWindow+inc > h2MaxWindow then some {s.resetStream k with loop := .reads}
    else some {s.onStream k (.grant inc) with loop := .reads}
  | .fails =>
    some
      {s with
        closed := true
        streams := s.streams.mapAll (fun _ r => {r with live := false}) fun _ => rfl
        loop := .closes s.liveStreams}
  | .closes (k :: rest) => some {s.onStream k fun r => {r with reset := true} with loop := .closes rest}
  | .closes [] => some {s with loop := .stopped}
  | .reads | .stopped => none

def startCall (i k : Nat) (data : Bytes) (endStream : Bool) : Option SendState :=
  if (s.calls.get i).status = .unused ∧ (s.streams.get k).opened then
    some (s.onCall i fun _ =>
      {status := if data = [] ∧ !endStream then .returned else .running
       streamID := k
       data := data
       endStream := endStream
       rest := data
       chunk := if data = [] ∧ endStream then some [] else none})
  else none

def atLoop (i : Nat) : Bool := (s.calls.get i).status == .running && (s.calls.get i).chunk.isNone

def blocked (k : Nat) : Bool := s.connSendWindow ≤ 0 || (s.streams.get k).sendWindow ≤ 0

def refused (k : Nat) : Bool := s.closed || (s.streams.get k).reset

-- One round of sendData's loop, under flowMu; a call that has no window waits.
def takeWindow (i : Nat) : Option SendState :=
  let c := s.calls.get i
  if !s.atLoop i then none
  else if s.refused c.streamID then some (s.onCall i .fail)
  else if s.blocked c.streamID then none
  else
    let n := min (min (min (c.rest.length : Int) s.peerMaxFrame) s.connSendWindow) (s.streams.get c.streamID).sendWindow
    if n ≤ 0 then some s
    else some ((s.pay c.streamID n).onCall i (.carve n.toNat))

-- The write of a frame that is paid for; END_STREAM stands on the last one of a call that asks for it.
def writeFrame (i : Nat) (w : WriteResult) : Option SendState :=
  let c := s.calls.get i
  match c.status, c.chunk with
  | .running, some p =>
    if s.closed then some (s.onCall i .fail)
    else if w = .broken then some ({s with closed := true}.onCall i .fail)
    else some ((s.putFrame ⟨i,c.streamID,p,c.rest.isEmpty && c.endStream⟩).onCall i .wrote)
  | _, _ => none

def finish (k : Nat) : Option SendState :=
  if (s.streams.get k).opened then
    let s' := s.onStream k fun r => {r with ended := true, live := false}
    some (if k % 2 = 0 then {s' with pushState := {s'.pushState with streams := s'.pushState.streams.erase k}} else s')
  else none
end

def deadline (cfg : SendConfig) (s : SendState) (i : Nat) : Option SendState :=
  let k := (s.calls.get i).streamID
  if s.atLoop i && cfg.writeTimeout && !s.refused k && s.blocked k then some (s.onCall i .fail) else none
end SendState

def pushable (method path : Bytes) : Bool :=
  (method == ascii "GET" || method == ascii "HEAD") && path.head? == some 47 && !path.any fun c => c == 0 || c == cr || c == lf

namespace SendState

def startPush (s : SendState) (p k : Nat) (method path : Bytes) : Option SendState :=
  if (s.pushes.get p).phase = .unused ∧ (s.streams.get k).opened then
    some (s.onPush p fun _ =>
      {phase := if (s.streams.get k).ended || !pushable method path then .returned false else .starts
       parent := k
       unwelcome := !s.peerAccepts})
  else none

def toPhase (s : SendState) (p : Nat) (phase : PushPhase) : SendState := s.onPush p fun c => {c with phase := phase}

-- pushPromise between its writes: the two permissions, allocatePushID, and after the promise the new stream, whose window
-- is read before the stream is registered.
def pushStep (s : SendState) (p : Nat) : Option SendState :=
  match (s.pushes.get p).phase with
  | .starts => some (s.toPhase p (if s.pushState.disabled then .returned false else .permitted))
  | .permitted => some (s.toPhase p (if s.peerEnablePush then .accepted else .returned false))
  | .accepted =>
    let ps := s.pushState
    if ps.streams.length+ps.pending ≥ min ps.maxPush s.peerMaxConcurrentStreams then some (s.toPhase p (.returned false))
    else some ({s with pushState := {ps with nextID := ps.nextID+2, pending := ps.pending+1}}.toPhase p (.allocated ps.nextID))
  | .promised id =>
    let ps := s.pushState
    some ({s with pushState := {ps with streams := ps.streams.insert id, pending := ps.pending-1}}.toPhase p (.recorded id))
  | .recorded id => some (s.toPhase p (.created id s.peerInitialWindow))
  | .created id window => some ({s with streams := s.streams.set id {opened := true, live := true, sendWindow := window}}.toPhase p (.returned true))
  | _ => none

def releasePushReservation (s : SendState) : SendState :=
  {s with pushState := {s.pushState with pending := s.pushState.pending-1}}

-- The header block of the promise may be invalid, which writes nothing.
def pushWrite (s : SendState) (p : Nat) (valid : Bool) (w : WriteResult) : Option SendState :=
  match (s.pushes.get p).phase with
  | .allocated id =>
    if !valid || s.closed then some (s.releasePushReservation.toPhase p (.returned false))
    else if w = .broken then some ({s.releasePushReservation with closed := true}.toPhase p (.returned false))
    else
      some
        ((s.putPromise ⟨(s.pushes.get p).parent,id,(s.pushes.get p).unwelcome⟩).toPhase p (.promised id))
  | _ => none

def step (cfg : SendConfig) (s : SendState) : SendEvent → Option SendState
  | .frame f => if s.loop = .reads then some (s.handleFrame f) else none
  | .loopStep order w => s.loopStep order w
  | .markClosed => some {s with closed := true}
  | .sendData i k data endStream => s.startCall i k data endStream
  | .takeWindow i => s.takeWindow i
  | .deadline i => s.deadline cfg i
  | .writeFrame i w => s.writeFrame i w
  | .finish k => s.finish k
  | .resetStream k => some (s.resetStream k)
  | .push p k method path => s.startPush p k method path
  | .pushStep p => s.pushStep p
  | .pushWrite p valid w => s.pushWrite p valid w
  | .setEnablePush enabled => some {s with pushState := {s.pushState with disabled := !enabled}}
end SendState

def sendStart (cfg : SendConfig) : SendState := {pushState := {maxPush := cfg.maxConcurrentStreams}}
end FhServer

import FhServer.GoBytes
import FhServer.Interleaving
import FhServer.Table

namespace FhServer
open Interleaving

-- The receiving half of an HTTP/2 server: its connections, their streams and the budget for buffered request bytes that
-- they share. What one critical section does is one action.

def h2InitialWindow : Int := 65535
def windowsUpdateThreshold : Int := h2InitialWindow/2
def h2DefaultFrame : Nat := 16384

def h2FlagEndStream : UInt8 := 0x1
def h2FlagPadded : UInt8 := 0x8

inductive H2FrameType where
  | data | headers | priority | rstStream | settings | pushPromise | ping | goAway | windowUpdate | continuation | unknown
deriving DecidableEq

inductive H2Error where
  | protocolError | internalError | flowControlError | settingsTimeout | streamClosed | frameSizeError | refusedStream
  | cancel | compressionError | enhanceYourCalm
deriving DecidableEq

structure H2Frame where
  typ : H2FrameType
  flags : UInt8 := 0
  streamID : Nat
  payload : Bytes := []
deriving DecidableEq

-- The stream identifier 0 of a connection's WINDOW_UPDATE is none here; no stream has it.
inductive H2Sent where
  | windowUpdate (streamID : Option Nat) (increment : Nat)
  | rstStream (streamID : Nat) (code : H2Error)
  | goAway (lastStream : Nat) (code : H2Error)

inductive H2StreamState where
  | stateIdle | stateOpen | stateHalfClosedRemote | stateHalfClosedLocal | stateClosed
deriving DecidableEq

namespace H2StreamState

def receives : H2StreamState → Bool
  | stateOpen | stateHalfClosedLocal => true
  | _ => false

def endRemote : H2StreamState → H2StreamState
  | stateOpen => stateHalfClosedRemote
  | stateHalfClosedLocal => stateClosed
  | st => st

def endLocal : H2StreamState → H2StreamState
  | stateOpen => stateHalfClosedLocal
  | stateHalfClosedRemote => stateClosed
  | st => st
end H2StreamState

structure H2Config where
  streamRequestBody : Bool
  maxRequestBodySize : Int := 0
  maxBufferedRequestBytes : Int := 0
  maxConcurrentStreams : Nat := 100
  requestBodyTimeout : Bool := false

def maxH2RequestBodySize (cfg : H2Config) : Int :=
  if cfg.maxRequestBodySize ≤ 0 then 4*1024*1024 else cfg.maxRequestBodySize

-- live says that the connection's map of streams has the stream. The first chunk of bodyChunks has lost what was read of
-- it, so that no offset is kept. connect stands for a non-nil connectConn, and inbound and remoteClosed are its fields.
-- released is not in the source: it marks a stream whose reservation has been given back for good.
structure H2Stream where
  live : Bool := false
  state : H2StreamState := .stateIdle
  connect : Bool := false
  contentLength : Option Nat := none
  body : Bytes := []
  bodyReserved : Int := 0
  handlerStarted : Bool := false
  bodyChunks : List Bytes := []
  bodyReceived : Nat := 0
  bodyEOF : Bool := false
  bodyErr : Bool := false
  recvWindow : Int := h2InitialWindow
  recvWindowAccum : Int := 0
  dispatched : Bool := false
  ended : Bool := false
  reset : Bool := false
  bodyTimer : Bool := false
  inbound : List Bytes := []
  remoteClosed : Bool := false
  released : Bool := false

-- failed, received and sent record what happened: a connection error, the payload bytes of the DATA frames read, and the
-- frames written.
structure H2Conn where
  lastStream : Nat := 0
  nextPush : Nat := 2
  draining : Bool := false
  closed : Bool := false
  streamSem : Nat := 0
  connRecvWindowAccum : Int := 0
  connRecvWindowRemaining : Int := h2InitialWindow
  failed : Bool := false
  received : Nat := 0
  sent : List H2Sent := []

abbrev StreamKey := Nat × Nat

structure H2Server where
  conns : Table Nat H2Conn {} := .empty
  streams : Table StreamKey H2Stream {} := .empty
  bufferedRequestBytes : Int := 0
  accepted : Nat := 0

namespace H2Server

def onConn (s : H2Server) (c : Nat) (g : H2Conn → H2Conn) : H2Server := {s with conns := s.conns.update c g}

def onStream (s : H2Server) (k : StreamKey) (f : H2Stream → H2Stream) : H2Server := {s with streams := s.streams.update k f}

def liveStreams (s : H2Server) (c : Nat) : List StreamKey := s.streams.keys.filter fun k => k.1 == c && (s.streams.get k).live

def taken (c : Nat) (k : StreamKey) (r : H2Stream) : H2Stream := if k.1 = c then {r with live := false} else r

theorem taken_default (c : Nat) (k : StreamKey) : taken c k {} = {} := by
  rw [taken]; split <;> rfl

-- closeAllStreams takes the connection's map away.
def takeStreams (s : H2Server) (c : Nat) : H2Server := {s with streams := s.streams.mapAll (taken c) (taken_default c)}

def fitsBudget (cfg : H2Config) (s : H2Server) (n : Int) : Bool :=
  cfg.maxBufferedRequestBytes ≤ 0 || n ≤ 0 || n ≤ cfg.maxBufferedRequestBytes-s.bufferedRequestBytes

def reserveBufferedBody (cfg : H2Config) (n : Int) (s : H2Server) : H2Server :=
  if cfg.maxBufferedRequestBytes ≤ 0 ∨ n ≤ 0 then s else {s with bufferedRequestBytes := s.bufferedRequestBytes+n}

def releaseBufferedBody (cfg : H2Config) (n : Int) (s : H2Server) : H2Server :=
  if cfg.maxBufferedRequestBytes > 0 ∧ n > 0 then {s with bufferedRequestBytes := s.bufferedRequestBytes-n} else s

section
variable (s : H2Server) (cfg : H2Config) (c : Nat) (k : StreamKey) (g : H2Conn → H2Conn) (f : H2Stream → H2Stream) (n : Int)

@[simp] theorem onConn_conns : (s.onConn c g).conns = s.conns.update c g := rfl
@[simp] theorem onConn_streams : (s.onConn c g).streams = s.streams := rfl
@[simp] theorem onStream_conns : (s.onStream k f).conns = s.conns := rfl
@[simp] theorem onStream_streams : (s.onStream k f).streams = s.streams.update k f := rfl
@[simp] theorem takeStreams_streams : (s.takeStreams c).streams = s.streams.mapAll (taken c) (taken_default c) := rfl

@[simp] theorem reserveBufferedBody_conns : (s.reserveBufferedBody cfg n).conns = s.conns := by rw [reserveBufferedBody]; split <;> rfl

@[simp] theorem reserveBufferedBody_streams : (s.reserveBufferedBody cfg n).streams = s.streams := by rw [reserveBufferedBody]; split <;> rfl

@[simp] theorem releaseBufferedBody_conns : (s.releaseBufferedBody cfg n).conns = s.conns := by rw [releaseBufferedBody]; split <;> rfl

@[simp] theorem releaseBufferedBody_streams : (s.releaseBufferedBody cfg n).streams = s.streams := by rw [releaseBufferedBody]; split <;> rfl
end
end H2Server

inductive H2Act where
  | accept
  | readFrame (c : Nat)
  | settingsTimer (c : Nat)
  | markClosed (c : Nat)
  | closeAllStreams (c : Nat)
  | closeStream (k : StreamKey)
  | resetStream (k : StreamKey)
  | write (c : Nat) (frame : H2Sent)
  | bodyTimer (k : StreamKey)
  | deliver (k : StreamKey) (p : Bytes)
  | closeRemote (k : StreamKey)
  | dispatch (k : StreamKey)
  | acquireSlot (k : StreamKey)
  | startHandler (k : StreamKey)
  | beginHandler (k : StreamKey)
  | handler (k : StreamKey) (captured : Int)
  | read (k : StreamKey) (buffer : Nat)
  | unreserve (k : StreamKey) (n : Nat)
  | releaseRead (k : StreamKey) (n : Nat)
  | consumeH2Body (k : StreamKey) (n : Nat)
  | flushH2BodyCredit (k : StreamKey)
  | creditWindow (k : StreamKey) (n : Nat)
  | afterHandler (k : StreamKey) (captured : Int)
  | cancelUnfinished (k : StreamKey) (captured : Int)
  | releaseSlot (c : Nat)
  | releaseBody (k : StreamKey) (captured : Int)

def sendRST (k : StreamKey) (code : H2Error) : List H2Act := [.resetStream k,.write k.1 (.rstStream k.2 code)]

def sendWindowUpdate (c : Nat) (id : Option Nat) (increment : Nat) : List H2Act :=
  if increment > 0 then [.write c (.windowUpdate id increment)] else []

inductive HeadOutcome where
  | accepts | responds | aborts | leaves
deriving DecidableEq

-- What decoding and validating a frame finds, where the answer depends on more than this model has: a bad header block, the
-- fields of a request, the request-head handler, the rate limits and the sending half of the connection.
structure FrameFacts where
  connError : Option H2Error := none
  listTooLarge : Bool := false
  tooManyFields : Bool := false
  malformed : Bool := false
  contentLength : Option Nat := none
  connect : Bool := false
  hasPseudo : Bool := false
  badTrailers : Bool := false
  hostAllowed : Bool := true
  head : HeadOutcome := .accepts
  overflow : Bool := false
deriving DecidableEq

inductive H2Choice where
  | goes
  | frame (f : H2Frame) (x : FrameFacts)
  | ends
  | fails
  | reads (buffer : Nat)
  | forks (buffer : Nat)
  | endsLocal
  | finishes
  | aborts (code : H2Error)
  | pushes
  | returns
  | panics
deriving DecidableEq

structure Handled where
  state : H2Server
  acts : List H2Act := []
  timers : List (List H2Act) := []
  error : Option H2Error := none

namespace Handled

def fail (s : H2Server) (code : H2Error) : Handled := {state := s, error := some code}

def refuse (s : H2Server) (k : StreamKey) (code : H2Error) : Handled := {state := s, acts := sendRST k code}
end Handled
namespace H2Stream

def bodyQueued (r : H2Stream) : Nat := (r.bodyChunks.map List.length).sum

def streaming (cfg : H2Config) (r : H2Stream) : Bool := !r.connect && cfg.streamRequestBody && r.dispatched

def validContentLength (r : H2Stream) : Bool :=
  let received := if r.bodyReceived = 0 ∧ r.body.length > 0 then r.body.length else r.bodyReceived
  match r.contentLength with
  | none => true
  | some n => n == received

-- END_STREAM. A reader is told only by a branch of the source that knows one.
def endRemote (eof : Bool) (r : H2Stream) : H2Stream :=
  {r with
    bodyTimer := false
    ended := true
    bodyEOF := r.bodyEOF || eof
    state := r.state.endRemote}

-- Where handleData puts a payload; that of a tunnel is delivered later.
def store (cfg : H2Config) (p : Bytes) (r : H2Stream) : H2Stream :=
  if r.connect then r
  else if r.streaming cfg then
    {r with
      bodyReserved := r.bodyReserved+p.length
      bodyChunks := r.bodyChunks ++ [p]
      bodyReceived := r.bodyReceived+p.length}
  else
    {r with
      bodyReserved := r.bodyReserved+p.length
      body := r.body ++ p
      bodyReceived := r.bodyReceived+p.length}
end H2Stream

def dueUpdate (accum : Int) : Nat := if accum ≥ windowsUpdateThreshold then (accum % 2^32).toNat else 0

namespace H2Conn

def spend (n : Int) (h : H2Conn) : H2Conn := {h with connRecvWindowRemaining := h.connRecvWindowRemaining-n}

-- The batched credit of handleData and creditWindow, which add it to the remaining window when it is announced.
def creditBatch (n : Int) (h : H2Conn) : H2Conn :=
  if h.connRecvWindowAccum+n ≥ windowsUpdateThreshold then
    {h with
      connRecvWindowRemaining := h.connRecvWindowRemaining+(h.connRecvWindowAccum+n)
      connRecvWindowAccum := 0}
  else {h with connRecvWindowAccum := h.connRecvWindowAccum+n}

def creditConsumed (n : Int) (h : H2Conn) : H2Conn :=
  {h with
    connRecvWindowRemaining := h.connRecvWindowRemaining+n
    connRecvWindowAccum := if h.connRecvWindowAccum+n ≥ windowsUpdateThreshold then 0 else h.connRecvWindowAccum+n}
end H2Conn
namespace H2Stream

def spend (n : Int) (r : H2Stream) : H2Stream := {r with recvWindow := r.recvWindow-n}

def creditBatch (n : Int) (r : H2Stream) : H2Stream :=
  if r.recvWindowAccum+n ≥ windowsUpdateThreshold then
    {r with
      recvWindow := r.recvWindow+(r.recvWindowAccum+n)
      recvWindowAccum := 0}
  else {r with recvWindowAccum := r.recvWindowAccum+n}

def creditConsumed (n : Int) (r : H2Stream) : H2Stream :=
  {r with
    recvWindow := r.recvWindow+n
    recvWindowAccum := if r.recvWindowAccum+n ≥ windowsUpdateThreshold then 0 else r.recvWindowAccum+n}
end H2Stream

def dueUpdates (s : H2Server) (k : StreamKey) (n : Int) : List H2Act :=
  sendWindowUpdate k.1 none (dueUpdate ((s.conns.get k.1).connRecvWindowAccum+n)) ++
    sendWindowUpdate k.1 (some k.2) (dueUpdate ((s.streams.get k).recvWindowAccum+n))

def dataPayload (f : H2Frame) : Option Bytes :=
  if f.flags &&& h2FlagPadded ≠ 0 then
    match f.payload with
    | [] => none
    | pad :: _ => if pad.toNat ≥ f.payload.length then none else some ((f.payload.take (f.payload.length-pad.toNat)).drop 1)
  else some f.payload

def endsStream (f : H2Frame) : Bool := f.flags &&& h2FlagEndStream != 0

-- Bytes that are credited when they arrive: not those of a tunnel or of a body that the handler is reading.
def creditsArrival (cfg : H2Config) (r : H2Stream) (f : H2Frame) : Bool :=
  decide (f.payload.length > 0) && !r.connect && !r.streaming cfg

def takeData (cfg : H2Config) (f : H2Frame) (p : Bytes) (r : H2Stream) : H2Stream :=
  let stored := (r.store cfg p).spend f.payload.length
  let credited := if creditsArrival cfg r f then stored.creditBatch f.payload.length else stored
  if endsStream f then credited.endRemote (r.streaming cfg) else credited

def afterData (r : H2Stream) (k : StreamKey) (f : H2Frame) (p : Bytes) : List H2Act :=
  if r.connect then
    (if p.length > 0 then [.deliver k p] else []) ++ if endsStream f then [.closeRemote k] else []
  else if endsStream f then
    if r.validContentLength then [.dispatch k] else sendRST k .protocolError
  else []

def H2Stream.stopTimer (r : H2Stream) : H2Stream := {r with bodyTimer := false}

-- The request-head handler has answered, so that finish has taken the stream out of the map.
def H2Stream.respondEarly (r : H2Stream) : H2Stream :=
  {r with
    bodyTimer := false
    live := false
    state := r.state.endLocal}

def newStream (cfg : H2Config) (x : FrameFacts) (ended : Bool) : H2Stream :=
  {live := true
   state := if ended then .stateHalfClosedRemote else .stateOpen
   connect := x.connect
   contentLength := x.contentLength
   bodyTimer := !x.connect && !ended && cfg.requestBodyTimeout}

section
variable (cfg : H2Config) (s : H2Server)
include cfg

def acceptData (k : StreamKey) (f : H2Frame) (p : Bytes) : Handled :=
  let r := s.streams.get k
  let reserved := if r.connect then s else s.reserveBufferedBody cfg p.length
  if r.recvWindow-f.payload.length < 0 then
    .fail (reserved.onStream k fun r => (r.store cfg p).spend f.payload.length) .flowControlError
  else
    {state := (reserved.onConn k.1 fun h => if creditsArrival cfg r f then h.creditBatch f.payload.length else h).onStream k
        (takeData cfg f p)
     acts := (if creditsArrival cfg r f then dueUpdates s k f.payload.length else []) ++ afterData (takeData cfg f p r) k f p}

def handleData (c : Nat) (f : H2Frame) : Handled :=
  let k := (c,f.streamID)
  let r := s.streams.get k
  if f.streamID = 0 then .fail s .protocolError
  else match dataPayload f with
    | none => .fail s .protocolError
    | some p =>
      if !r.live then
        if f.streamID > (s.conns.get c).lastStream then .fail s .protocolError else .refuse s k .streamClosed
      else if !r.state.receives then .refuse s k .streamClosed
      else if !r.connect && (r.bodyReceived+p.length : Int) > maxH2RequestBodySize cfg then .refuse s k .cancel
      else
        let spent := s.onConn c (.spend f.payload.length)
        if f.payload.length > 0 ∧ (spent.conns.get c).connRecvWindowRemaining < 0 then .fail spent .flowControlError
        else if !r.connect && !spent.fitsBudget cfg p.length then .refuse spent k .enhanceYourCalm
        else acceptData cfg spent k f p

-- The end of handleHeaders. The stream's own goroutine has not started yet and the next frame has not been read, so that
-- nothing but the body timer can come between these checks and the registration.
def concludeHeaders (k : StreamKey) (new ended : Bool) (x : FrameFacts) : Handled :=
  let r := s.streams.get k
  let told : List H2Act := if ended && r.connect then [.closeRemote k] else []
  if ended && !r.connect && !r.validContentLength then {state := s, acts := told ++ sendRST k .protocolError}
  else if new && !x.hostAllowed then {state := s, acts := told ++ sendRST k .protocolError}
  else
    let go : List H2Act :=
      if (new && cfg.streamRequestBody && !r.connect && !r.ended) || ended || (new && r.connect) then [.dispatch k] else []
    if !new then {state := s, acts := told ++ go}
    else match x.head with
      | .accepts => {state := s, acts := told ++ go}
      | .responds => {state := s.onStream k H2Stream.respondEarly, acts := told}
      | .aborts => {state := s.onStream k H2Stream.stopTimer, acts := told ++ sendRST k .internalError}
      | .leaves => {state := s.onStream k H2Stream.stopTimer, acts := told}

def openStream (k : StreamKey) (ended : Bool) (x : FrameFacts) : Handled :=
  let known := s.onConn k.1 fun h => {h with lastStream := k.2}
  if (s.conns.get k.1).draining || decide ((s.liveStreams k.1).length ≥ cfg.maxConcurrentStreams) then
    .refuse known k .refusedStream
  else if x.tooManyFields then .refuse known k .enhanceYourCalm
  else if x.malformed then .refuse known k .protocolError
  else if x.contentLength.any (fun n => (n : Int) > maxH2RequestBodySize cfg) then .refuse known k .cancel
  else
    let fresh := newStream cfg x ended
    {concludeHeaders cfg (known.onStream k fun _ => if ended then fresh.endRemote false else fresh) k true ended x with
      timers := if fresh.bodyTimer then [[.bodyTimer k]] else []}

def continueStream (k : StreamKey) (ended : Bool) (x : FrameFacts) : Handled :=
  let r := s.streams.get k
  if r.state = .stateClosed then .fail s .streamClosed
  else if r.state = .stateHalfClosedRemote then .refuse s k .streamClosed
  else if r.dispatched && !r.streaming cfg then .refuse s k .protocolError
  else if r.streaming cfg && !r.state.receives then .refuse s k .streamClosed
  else if x.hasPseudo then .refuse s k .protocolError
  else if !ended then .refuse s k .protocolError
  else if x.badTrailers then .refuse s k .protocolError
  else concludeHeaders cfg (s.onStream k fun r => r.endRemote (r.dispatched && !r.connect)) k false true x

def handleHeaders (c : Nat) (f : H2Frame) (x : FrameFacts) : Handled :=
  if f.streamID = 0 then .fail s .protocolError
  else match x.connError with
    | some code => .fail s code
    | none =>
      if x.listTooLarge then .refuse s (c,f.streamID) .enhanceYourCalm
      else if (s.streams.get (c,f.streamID)).live then continueStream cfg s (c,f.streamID) (endsStream f) x
      else if f.streamID % 2 = 0 then .fail s .protocolError
      else if f.streamID ≤ (s.conns.get c).lastStream then .fail s .streamClosed
      else openStream cfg s (c,f.streamID) (endsStream f) x

-- SETTINGS, PING, PRIORITY and WINDOW_UPDATE concern the sending half, which decides whether they are an error.
def handleFrame (c : Nat) (f : H2Frame) (x : FrameFacts) : Handled :=
  match f.typ with
  | .headers => handleHeaders cfg s c f x
  | .data => handleData cfg s c f
  | .rstStream =>
    if f.streamID = 0 ∨ f.payload.length ≠ 4 then .fail s .frameSizeError
    else match x.connError with
      | some code => .fail s code
      | none =>
        if !(s.streams.get (c,f.streamID)).live && decide (f.streamID > (s.conns.get c).lastStream) then .fail s .protocolError
        else {state := s, acts := [.resetStream (c,f.streamID)]}
  | .goAway =>
    if f.streamID ≠ 0 ∨ f.payload.length < 8 then .fail s .frameSizeError
    else {state := s.onConn c fun h => {h with draining := true}}
  | .settings | .ping | .priority => {state := s, error := x.connError}
  | .windowUpdate => if x.overflow then .refuse s (c,f.streamID) .flowControlError else {state := s, error := x.connError}
  | .pushPromise | .continuation => .fail s .protocolError
  | .unknown => {state := s}
end
namespace H2Stream

-- resetStream and closeAllStreams leave the reservation to a handler that has started.
def abandon (r : H2Stream) : H2Stream :=
  {r with
    bodyReserved := if r.handlerStarted then r.bodyReserved else 0
    released := r.released || !r.handlerStarted
    reset := true
    bodyErr := true
    bodyEOF := true
    bodyTimer := false
    live := false}

def unread : Nat → List Bytes → List Bytes
  | 0, chunks => chunks
  | _ + 1, [] => []
  | m + 1, chunk :: rest => if chunk.length ≤ m+1 then unread (m+1-chunk.length) rest else chunk.drop (m+1) :: rest
end H2Stream
namespace H2Server
section
variable (cfg : H2Config) (s : H2Server) (k : StreamKey)
include s

-- What resetStream does to a stream it finds, and closeAllStreams to each stream it took.
def abandon : H2Server :=
  let r := s.streams.get k
  (if r.handlerStarted then s else s.releaseBufferedBody cfg r.bodyReserved).onStream k H2Stream.abandon

def resetStream : H2Server :=
  if (s.streams.get k).live then s.abandon cfg k else s

@[simp] theorem abandon_conns : (s.abandon cfg k).conns = s.conns := by
  rw [abandon]
  cases (s.streams.get k).handlerStarted <;> simp

@[simp] theorem abandon_streams :
    (s.abandon cfg k).streams = s.streams.update k H2Stream.abandon := by
  rw [abandon]
  cases (s.streams.get k).handlerStarted <;> simp
end
end H2Server

-- A read of a request body, or of a tunnel. Without data, an end or an error it waits.
def readH2Body (cfg : H2Config) (s : H2Server) (k : StreamKey) (m : Nat) : Option (Effect H2Server H2Act) :=
  let r := s.streams.get k
  if r.connect then
    match r.inbound with
    | chunk :: rest =>
      some
        {state := s.onStream k fun r => {r with inbound := if m < chunk.length then chunk.drop m :: rest else rest}
         next := [.creditWindow k (min m chunk.length)]}
    | [] => some {state := s}
  else if !cfg.streamRequestBody then none
  else if m = 0 then some {state := s}
  else if r.bodyQueued > 0 then
    let n := min m r.bodyQueued
    some
      {state := s.onStream k fun r => {r with bodyChunks := H2Stream.unread m r.bodyChunks}
       next := [.unreserve k n,.releaseRead k n,.consumeH2Body k n]}
  else if r.bodyErr || r.reset then some {state := s}
  else if r.bodyEOF then some {state := s, next := [.flushH2BodyCredit k]}
  else none

def runHandler (s : H2Server) (k : StreamKey) (captured : Int) : H2Choice → Option (Effect H2Server H2Act)
  | .reads m => some {state := s, next := [.read k m,.handler k captured]}
  | .forks m => some {state := s, next := [.handler k captured], spawned := [[.read k m]]}
  | .endsLocal => some {state := s.onStream k fun r => {r with state := r.state.endLocal}, next := [.handler k captured]}
  | .finishes => some {state := s.onStream k fun r => {r with live := false}, next := [.handler k captured]}
  | .aborts code => some {state := s, next := sendRST k code ++ [.handler k captured]}
  | .pushes =>
    let id := (s.conns.get k.1).nextPush
    some
      {state := (s.onConn k.1 fun h => {h with nextPush := id+2}).onStream (k.1,id) fun _ =>
        {live := true, state := .stateHalfClosedRemote, ended := true}
       next := [.dispatch (k.1,id),.handler k captured]}
  | .returns => some {state := s, next := [.afterHandler k captured]}
  | .panics => some {state := s, next := [.releaseSlot k.1,.releaseBody k captured]}
  | _ => none

def serveFrame (cfg : H2Config) (s : H2Server) (c : Nat) : H2Choice → Option (Effect H2Server H2Act)
  | .frame f x =>
    if f.payload.length > h2DefaultFrame then
      some {state := s.onConn c fun h => {h with failed := true}, next := [.closeAllStreams c]}
    else
      let counted := if f.typ = .data then s.onConn c fun h => {h with received := h.received+f.payload.length} else s
      let handled := handleFrame cfg counted c f x
      match handled.error with
      | none => some {state := handled.state, next := handled.acts ++ [.readFrame c], spawned := handled.timers}
      | some code =>
        some
          {state := handled.state.onConn c fun h => {h with failed := true}
           next := handled.acts ++ [.write c (.goAway (s.conns.get c).lastStream code),.closeAllStreams c]}
  | .ends => some {state := s.onConn c fun h => {h with closed := true}, next := [.closeAllStreams c]}
  | _ => none

def H2Act.exec (cfg : H2Config) (s : H2Server) (a : H2Act) (e : H2Choice) : Option (Effect H2Server H2Act) :=
  match a with
  | .accept => some {state := {s with accepted := s.accepted+1}, next := [.accept], spawned := [[.readFrame s.accepted],[.settingsTimer s.accepted]]}
  | .readFrame c => serveFrame cfg s c e
  | .settingsTimer c => some {state := s, next := [.write c (.goAway (s.conns.get c).lastStream .settingsTimeout),.markClosed c]}
  | .markClosed c => some {state := s.onConn c fun h => {h with closed := true}}
  | .closeAllStreams c => some {state := (s.onConn c fun h => {h with closed := true}).takeStreams c, next := (s.liveStreams c).map .closeStream}
  | .closeStream k => some {state := s.abandon cfg k}
  | .resetStream k => some {state := s.resetStream cfg k}
  | .write c frame =>
    some
      {state := s.onConn c fun h =>
        if h.closed then h else if e = .fails then {h with closed := true} else {h with sent := h.sent ++ [frame]}}
  | .bodyTimer k => if (s.streams.get k).bodyTimer then some {state := s, next := sendRST k .cancel} else none
  | .deliver k p => some {state := s.onStream k fun r => {r with inbound := r.inbound ++ [p]}}
  | .closeRemote k => some {state := s.onStream k fun r => {r with remoteClosed := true}}
  | .dispatch k =>
    if (s.streams.get k).dispatched || (s.streams.get k).reset then some {state := s}
    else some {state := s.onStream k fun r => {r with dispatched := true}, next := [.acquireSlot k]}
  | .acquireSlot k =>
    if (s.conns.get k.1).streamSem < cfg.maxConcurrentStreams then
      some {state := s.onConn k.1 fun h => {h with streamSem := h.streamSem+1}, next := [.startHandler k]}
    else some {state := s, next := sendRST k .refusedStream}
  | .startHandler k =>
    if (s.streams.get k).reset then some {state := s, next := [.releaseSlot k.1]}
    else some {state := s.onStream k fun r => {r with handlerStarted := true}, spawned := [[.beginHandler k]]}
  | .beginHandler k => some {state := s.onStream k fun r => {r with bodyReserved := 0}, next := [.handler k (s.streams.get k).bodyReserved]}
  | .handler k captured => runHandler s k captured e
  | .read k m => readH2Body cfg s k m
  | .unreserve k n => some {state := s.onStream k fun r => {r with bodyReserved := r.bodyReserved-n}}
  | .releaseRead _ n => some {state := s.releaseBufferedBody cfg n}
  | .consumeH2Body k n =>
    if n = 0 then some {state := s}
    else some {state := (s.onConn k.1 (.creditConsumed n)).onStream k (.creditConsumed n), next := dueUpdates s k n}
  | .flushH2BodyCredit k =>
    some
      {state := (s.onConn k.1 fun h => {h with connRecvWindowAccum := 0}).onStream k fun r => {r with recvWindowAccum := 0}
       next := sendWindowUpdate k.1 none ((s.conns.get k.1).connRecvWindowAccum % 2^32).toNat ++
        sendWindowUpdate k.1 (some k.2) ((s.streams.get k).recvWindowAccum % 2^32).toNat}
  | .creditWindow k n =>
    if n = 0 then some {state := s}
    else some {state := (s.onConn k.1 (.creditBatch n)).onStream k (.creditBatch n), next := dueUpdates s k n}
  | .afterHandler k captured =>
    let r := s.streams.get k
    if cfg.streamRequestBody && !r.connect && !r.ended && !r.reset then some {state := s, next := [.cancelUnfinished k captured]}
    else some {state := s, next := [.releaseSlot k.1,.releaseBody k captured]}
  | .cancelUnfinished k captured =>
    some
      {state := s.resetStream cfg k
       next := [.write k.1 (.rstStream k.2 .cancel),.releaseSlot k.1,.releaseBody k captured]}
  | .releaseSlot c => some {state := s.onConn c fun h => {h with streamSem := h.streamSem-1}}
  | .releaseBody k captured => some {state := (s.releaseBufferedBody cfg captured).onStream k fun r => {r with released := true}}

def h2Start : Interleaving.Config H2Server H2Act := ⟨{},[[.accept]]⟩

def headersFrame (id : Nat) : H2Choice := .frame {typ := .headers, streamID := id} {}

def dataFrame (id : Nat) (payload : Bytes) : H2Choice := .frame {typ := .data, streamID := id, payload := payload} {}
end FhServer

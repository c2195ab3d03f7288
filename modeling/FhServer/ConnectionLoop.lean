import FhServer.RequestHead
import FhServer.ChunkedBody

namespace FhServer
open GoBytes RequestHead

def h2ClientPreface : Bytes := ascii "PRI * HTTP/2.0\r\n\r\nSM\r\n\r\n"

-- The parts of Config that serveConn reads, as New leaves them, and the answers
-- it gets from outside: the host policy, the head handler and the body budget.
structure ServerConfig where
  rawCap : Nat
  rawCap_pos : 0 < rawCap
  maxRequestLineSize : Nat
  maxRequestLineSize_pos : 0 < maxRequestLineSize
  maxHeaderListSize : Nat
  maxHeaderListSize_pos : 0 < maxHeaderListSize
  maxHeaderCount : Nat
  maxRequestBodySize : Int
  streamRequestBody : Bool
  disableHTTP2 : Bool
  disableH2C : Bool
  disableKeepAlive : Bool
  equalFold : Bytes → Bytes → Bool
  allowedHost : Bytes → Bool
  requestHeadHandler : RequestHeader → Bool
  reserveBufferedBody : Nat → Bool
  reserveChunk : Nat → Nat → Bool

structure LoopState where
  accumulated : Bytes
  cap : Nat
  conn : Conn
deriving DecidableEq

def LoopState.bytes (s : LoopState) : Bytes := s.accumulated ++ s.conn.bytes

-- Why serveConn returns: the connection's error, an error response, the head
-- handler's own response, the switch to HTTP/2 with the bytes read past the
-- preface, or the h2c upgrade.
inductive Stop where
  | closed (error : ReadError)
  | refused (status : Nat)
  | headHandled
  | http2 (buffered : Bytes)
  | upgradeH2C
  | stalled
deriving DecidableEq

def ServerConfig.maxHead (cfg : ServerConfig) : Nat := cfg.maxRequestLineSize + cfg.maxHeaderListSize + 4

def growBuffer (cfg : ServerConfig) (s : LoopState) : Option LoopState :=
  if s.accumulated.length = s.cap then
    if cfg.maxHead ≤ 4 ∨ cfg.maxHead ≤ s.accumulated.length then none
    else some {s with cap:=min (s.cap*2) cfg.maxHead}
  else some s

def priorKnowledge (cfg : ServerConfig) : Bool := !cfg.disableHTTP2 && !cfg.disableH2C

-- The inner loop that reads the head. A buffer that is the start of the HTTP/2
-- preface goes back to reading without a new search for the end of the head.
-- Every round reads at least one byte or ends the loop.
def readHead (cfg : ServerConfig) : Nat → Option Nat → LoopState → Except Stop (Nat × LoopState)
  | _,some headEnd,s => .ok (headEnd,s)
  | 0,none,_ => .error .stalled
  | rounds+1,none,s =>
    match growBuffer cfg s with
    | none => .error (.refused 431)
    | some s =>
      match s.conn.read (s.cap - s.accumulated.length) with
      | (_,some error,_) => .error (.closed error)
      | (data,none,conn) =>
        let s := {s with accumulated:=s.accumulated ++ data,conn:=conn}
        if priorKnowledge cfg && s.accumulated.isPrefixOf h2ClientPreface then
          if s.accumulated.length < h2ClientPreface.length then readHead cfg rounds none s
          else .error (.http2 [])
        else if priorKnowledge cfg && h2ClientPreface.isPrefixOf s.accumulated then
          .error (.http2 (s.accumulated.drop h2ClientPreface.length))
        else readHead cfg rounds (findHeaderEnd s.accumulated) s

def readRequestHead (cfg : ServerConfig) (s : LoopState) : Except Stop (Nat × LoopState) :=
  readHead cfg (s.conn.bytes.length+1) (findHeaderEnd s.accumulated) s

def headRefusal : HeadError → Nat
  | .malformedRequest => 400
  | .requestLineTooLarge => 431
  | .versionNotSupported => 505

def parseHead (cfg : ServerConfig) (accumulated : Bytes) (headEnd : Nat) : Except Stop RequestHeader :=
  match parseRequestLine accumulated cfg.maxRequestLineSize with
  | .error error => .error (.refused (headRefusal error))
  | .ok (start,consumed) =>
    if 0 < cfg.maxHeaderListSize ∧ (cfg.maxHeaderListSize : Int) < (headEnd : Int) + 4 - consumed then .error (.refused 431)
    else
      match parseHeadersWithLimit cfg.equalFold ((accumulated.take (headEnd+4)).drop consumed) start cfg.maxHeaderCount with
      | none => .error (.refused 400)
      | some (header,_) =>
        if header.unsupportedTransferEncoding then .error (.refused 400)
        else if header.chunked ∧ header.hasContentLength then .error (.refused 400)
        else if !cfg.allowedHost header.host then .error (.refused 400)
        else if cfg.maxRequestBodySize < header.contentLength then .error (.refused 413)
        else .ok header

def peek (h : RequestHeader) (name : String) : Bytes :=
  ((h.headers.find? fun field => bytesEqualFold field.key (ascii name)).map Header.value).getD []

def hasUpgradeH2C (h : RequestHeader) : Bool :=
  let connection := trimOWS (peek h "Connection")
  strEqFold (trimOWS h.upgrade) "h2c" && trimOWS h.http2Settings ≠ [] &&
    hasHeaderToken connection "upgrade" && hasHeaderToken connection "http2-settings"

-- The checks between the head and the body: the budget of a body to be buffered,
-- the head handler, the h2c upgrade and the Expect field.
def admitBody (cfg : ServerConfig) (h : RequestHeader) : Except Stop Unit :=
  if (!cfg.streamRequestBody || hasUpgradeH2C h) && !h.chunked && 0 < h.contentLength &&
      !cfg.reserveBufferedBody h.contentLength then .error (.refused 503)
  else if !cfg.requestHeadHandler h then .error .headHandled
  else if !cfg.disableHTTP2 && hasUpgradeH2C h then
    .error (if cfg.disableH2C then .refused 400 else .upgradeH2C)
  else if trimOWS h.expect ≠ [] ∧ (!strEqFold (trimOWS h.expect) "100-continue" ∨ (!h.chunked ∧ h.contentLength = 0)) then
    .error (.refused 417)
  else .ok ()

-- What a handler does that the loop can see. The buffer sizes of its reads of a
-- streamed body and of the drain after it are one sequence.
structure Reply where
  readSize : Nat → Nat
  forceClose : Bool
  upgraded : Bool
  draining : Bool

structure Served where
  header : RequestHeader
  body : Bytes
  trailers : List Header
  error : Option BodyError
deriving DecidableEq

inductive Round where
  | stop (reason : Stop)
  | last (served : Served)
  | next (served : Served) (s : LoopState)
deriving DecidableEq

def readBuffered (messageEnd : Nat) : Nat → LoopState → Except Stop LoopState
  | 0,_ => .error .stalled
  | rounds+1,s =>
    if messageEnd ≤ s.accumulated.length then .ok s
    else
      match s.conn.read (s.cap - s.accumulated.length) with
      | (data,error,conn) =>
        let s := {s with accumulated:=s.accumulated ++ data,conn:=conn}
        match error with
        | none => readBuffered messageEnd rounds s
        | some error => if messageEnd ≤ s.accumulated.length then .ok s else .error (.closed error)

def readFull (messageEnd : Nat) : Nat → LoopState → Except Stop LoopState
  | 0,_ => .error .stalled
  | rounds+1,s =>
    if messageEnd ≤ s.accumulated.length then .ok {s with cap:=messageEnd}
    else
      match s.conn.read (messageEnd - s.accumulated.length) with
      | (data,error,conn) =>
        let s := {s with accumulated:=s.accumulated ++ data,conn:=conn}
        match error with
        | none => readFull messageEnd rounds s
        | some error => if messageEnd ≤ s.accumulated.length then .ok {s with cap:=messageEnd} else .error (.closed error)

def bodyRefusal : BodyError → Stop
  | .read .timeout => .refused 408
  | .bodyTooLarge => .refused 413
  | .bufferedBodyBudget => .refused 503
  | _ => .refused 400

-- The body as the handler gets it, with the bytes of the next request that the
-- loop keeps and the buffer they are in.
structure BodyRead where
  served : Served
  nextData : Bytes
  cap : Nat
  conn : Conn

def readBody (cfg : ServerConfig) (reply : Reply) (h : RequestHeader) (bodyStart : Nat) (s : LoopState) : Except Stop BodyRead :=
  let buffered := s.accumulated.drop bodyStart
  if cfg.streamRequestBody ∧ (h.chunked ∨ 0 < h.contentLength) then
    let stream := newRequestBodyStream s.conn buffered h.contentLength h.chunked cfg.maxRequestBodySize
    match stream.readAll reply.readSize (stream.bytes.length+1) with
    | none => .error .stalled
    | some (body,_,after) =>
      let (leftover,trailers,error) := after.finish
      .ok ⟨⟨h,body,trailers,error⟩,if h.chunked then leftover else buffered.drop h.contentLength,s.cap,after.conn⟩
  else if h.chunked then
    match readChunkedBodyWithReserve s.conn buffered cfg.maxRequestBodySize cfg.reserveChunk with
    | .error error => .error (bodyRefusal error)
    | .ok result => .ok ⟨⟨h,result.body,result.trailers,none⟩,result.leftover,s.cap,result.conn⟩
  else
    let messageEnd := bodyStart + h.contentLength
    let read := if h.contentLength = 0 then .ok s
      else if messageEnd ≤ s.cap then readBuffered messageEnd (s.conn.bytes.length+1) s
      else readFull messageEnd (s.conn.bytes.length+1) s
    match read with
    | .error (.closed .timeout) => .error (.refused 408)
    | .error reason => .error reason
    | .ok s =>
      let body := (s.accumulated.drop bodyStart).take h.contentLength
      .ok ⟨⟨h,body,[],none⟩,s.accumulated.drop messageEnd,s.cap,s.conn⟩

def nextCap (cfg : ServerConfig) (chunked : Bool) (cap left : Nat) : Nat :=
  let cap := if cfg.rawCap < cap ∧ left ≤ cfg.rawCap then cfg.rawCap else cap
  if chunked then max cap left else cap

def serveRequest (cfg : ServerConfig) (reply : Reply) (s : LoopState) : Round :=
  match readRequestHead cfg s with
  | .error reason => .stop reason
  | .ok (headEnd,s) =>
    match parseHead cfg s.accumulated headEnd with
    | .error reason => .stop reason
    | .ok h =>
      match admitBody cfg h with
      | .error reason => .stop reason
      | .ok _ =>
        match readBody cfg reply h (headEnd+4) s with
        | .error reason => .stop reason
        | .ok read =>
          let keepAlive := h.keepAlive && !reply.forceClose && !reply.upgraded && !cfg.disableKeepAlive &&
            !reply.draining && read.served.error.isNone
          if keepAlive then
            .next read.served ⟨read.nextData,nextCap cfg h.chunked read.cap read.nextData.length,read.conn⟩
          else .last read.served

-- The requests served on a connection, in order, and why it ended: a reason of
-- the loop, or none when a response closed it. The replies are counted from the
-- last round.
def serveConn (cfg : ServerConfig) (reply : Nat → Reply) : Nat → LoopState → List Served × Option Stop
  | 0,_ => ([],some .stalled)
  | rounds+1,s =>
    match serveRequest cfg (reply rounds) s with
    | .stop reason => ([],some reason)
    | .last served => ([served],none)
    | .next served s =>
      let (others,reason) := serveConn cfg reply rounds s
      (served :: others,reason)
end FhServer

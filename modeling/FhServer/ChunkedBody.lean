import FhServer.RequestStream
import FhServer.ChunkedMessage

namespace FhServer
open GoBytes ChunkedMessage

def parseHex (b : Bytes) : Option Nat :=
  if b = [] then none
  else b.foldl (fun acc c => acc.bind fun n => (hexDigit c).bind fun d =>
    if (maxInt - d) / 16 < n then none else some (n*16 + d)) (some 0)

-- The local state of readChunkedBodyWithReserve: `held` is wire[pos:].
structure Wire where
  held : Bytes
  conn : Conn

namespace Wire

def bytes (w : Wire) : Bytes := w.held ++ w.conn.bytes

-- Bytes that come with an error are kept and the error waits for the next read.
def readMore (w : Wire) : Except BodyError Wire :=
  match w.conn.read 4096 with
  | (data,error,conn) =>
    if data ≠ [] then .ok ⟨w.held ++ data,conn⟩
    else .error ((error.map BodyError.read).getD .noProgress)

-- The loops of the source end with the input. Every further round has read at
-- least one byte, so the rounds given below are enough.
def readLineLoop : Nat → Wire → Except BodyError (Bytes × Wire)
  | 0,_ => .error .noProgress
  | rounds+1,w =>
    match index crlf w.held with
    | some i => .ok (w.held.take i,{w with held:=w.held.drop (i+2)})
    | none =>
      if maxChunkLine < w.held.length then .error .invalidChunkedBody
      else
        match w.readMore with
        | .error error => .error error
        | .ok w => readLineLoop rounds w

def readLine (w : Wire) : Except BodyError (Bytes × Wire) := readLineLoop (w.conn.bytes.length+1) w

def ensureLoop (n : Nat) : Nat → Wire → Except BodyError Wire
  | 0,_ => .error .noProgress
  | rounds+1,w =>
    if w.held.length < n then
      match w.readMore with
      | .error error => .error error
      | .ok w => ensureLoop n rounds w
    else .ok w

def ensure (w : Wire) (n : Nat) : Except BodyError Wire := ensureLoop n (w.conn.bytes.length+1) w

-- The data of one chunk and the CRLF after it. For the two largest sizes size+2
-- wraps around, ensure asks for nothing and the slice expression panics.
def readChunk (w : Wire) (size : Nat) : Except BodyError (Bytes × Wire) :=
  if maxInt < size + 2 then .error .sliceBounds
  else
    match w.ensure (size+2) with
    | .error error => .error error
    | .ok w =>
      if (w.held.drop size).take 2 = crlf then .ok (w.held.take size,{w with held:=w.held.drop (size+2)})
      else .error .invalidChunkedBody

-- `reserve total size` is the answer of the caller's budget for a chunk after
-- `total` body bytes; within one call no two questions have the same total.
def readChunksLoop (max : Int) (reserve : Nat → Nat → Bool) : Nat → Bytes → Wire → Except BodyError (Bytes × Wire)
  | 0,_,_ => .error .noProgress
  | rounds+1,body,w =>
    match w.readLine with
    | .error error => .error error
    | .ok (line,w) =>
      match parseHex (trimOWS (before line 59)) with
      | none => .error .invalidChunkedBody
      | some size =>
        if size = 0 then .ok (body,w)
        else if (size : Int) > max - body.length then .error .bodyTooLarge
        else if !reserve body.length size then .error .bufferedBodyBudget
        else
          match w.readChunk size with
          | .error error => .error error
          | .ok (data,w) => readChunksLoop max reserve rounds (body ++ data) w

def trailerField (count : Nat) (line : Bytes) : Option Header :=
  (trailerName count line).map fun (name,text) => ⟨name,trimOWS text⟩

def readTrailersLoop : Nat → List Header → Wire → Except BodyError (List Header × Wire)
  | 0,_,_ => .error .noProgress
  | rounds+1,trailers,w =>
    match w.readLine with
    | .error error => .error error
    | .ok (line,w) =>
      if line = [] then .ok (trailers,w)
      else
        match trailerField trailers.length line with
        | none => .error .invalidChunkedBody
        | some header => readTrailersLoop rounds (trailers ++ [header]) w
end Wire

structure ChunkedBody where
  body : Bytes
  leftover : Bytes
  trailers : List Header
  conn : Conn

def readChunkedBodyWithReserve (conn : Conn) (initial : Bytes) (max : Int) (reserve : Nat → Nat → Bool) :
    Except BodyError ChunkedBody :=
  let w : Wire := ⟨initial,conn⟩
  match w.readChunksLoop max reserve (w.bytes.length+1) [] with
  | .error error => .error error
  | .ok (body,w) =>
    match w.readTrailersLoop (w.bytes.length+1) [] with
    | .error error => .error error
    | .ok (trailers,w) => .ok ⟨body,w.held,trailers,w.conn⟩

def readChunkedBody (conn : Conn) (initial : Bytes) (max : Int) : Except BodyError ChunkedBody :=
  readChunkedBodyWithReserve conn initial max (fun _ _ => true)
end FhServer

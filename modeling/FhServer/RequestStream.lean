import FhServer.Socket

namespace FhServer
open GoBytes

inductive BodyError where
  | malformedRequest
  | invalidChunkedBody
  | bodyTooLarge
  | bufferedBodyBudget
  | unexpectedEOF
  | noProgress
  | sliceBounds
  | read (error : ReadError)
deriving DecidableEq

-- io.EOF is one value: the clean end of a body and a connection closed by the
-- peer report the same error.
def BodyError.eof : BodyError := .read .eof

def maxChunkLine : Nat := 4096
def maxHeaders : Nat := 64

-- The part of a trailer line both chunked decoders check alike: the field name,
-- the number of trailers so far and the three framing fields. What remains is
-- the text after the colon.
def trailerName (count : Nat) (line : Bytes) : Option (Bytes × Bytes) :=
  match indexByte line 58 with
  | none => none
  | some colon =>
    let name := line.take colon
    if colon = 0 || !validToken name || maxHeaders ≤ count then none
    else if bytesEqualFold name (ascii "Content-Length") || bytesEqualFold name (ascii "Transfer-Encoding") ||
        bytesEqualFold name (ascii "Host") then none
    else some (name,line.drop (colon+1))

def controlByte (b : UInt8) : Bool := (b < 0x20 && b != 9) || b == 0x7f

-- int64 counters that only count bytes are naturals; the limit is an int of the
-- configuration and may be negative.
structure RequestBodyStream where
  conn : Conn
  prefixBytes : Bytes
  remaining : Nat
  chunked : Bool
  max : Int
  total : Nat
  chunkLeft : Nat
  needCRLF : Bool
  done : Bool
  err : Option BodyError
  leftover : Bytes
  trailers : List Header

def newRequestBodyStream (conn : Conn) (start : Bytes) (length : Nat) (chunked : Bool) (max : Int) :
    RequestBodyStream :=
  ⟨conn,start,length,chunked,max,0,0,false,false,none,[],[]⟩

namespace RequestBodyStream

def fail (r : RequestBodyStream) (error : BodyError) : Except BodyError α × RequestBodyStream :=
  (.error error,{r with err:=some error,done:=true})

def readSome (r : RequestBodyStream) (n : Nat) : Bytes × RequestBodyStream :=
  if r.prefixBytes ≠ [] then (r.prefixBytes.take n,{r with prefixBytes:=r.prefixBytes.drop n})
  else
    match r.conn.read n with
    | (data,error,conn) => (data,{r with conn:=conn,err:=(error.map BodyError.read).or r.err})

def readByte (r : RequestBodyStream) : Except BodyError UInt8 × RequestBodyStream :=
  match r.prefixBytes with
  | b :: rest => (.ok b,{r with prefixBytes:=rest})
  | [] =>
    match r.conn.read 1 with
    | (b :: _,_,conn) => (.ok b,{r with conn:=conn})
    | ([],error,conn) => {r with conn:=conn}.fail ((error.map BodyError.read).getD .unexpectedEOF)

-- The for loop of readLine; the first argument is how many more bytes the
-- condition len(line) <= maxChunkLine allows.
def readLineLoop : Nat → Bytes → RequestBodyStream → Except BodyError Bytes × RequestBodyStream
  | 0,_,r => r.fail .invalidChunkedBody
  | more+1,line,r =>
    match r.readByte with
    | (.error error,r) => (.error error,r)
    | (.ok b,r) =>
      if b == lf then
        if line.getLast? = some cr then (.ok line.dropLast,r) else r.fail .malformedRequest
      else readLineLoop more (line ++ [b]) r

def readLine (r : RequestBodyStream) : Except BodyError Bytes × RequestBodyStream :=
  readLineLoop (maxChunkLine+1) [] r

def expectCRLF (r : RequestBodyStream) : Except BodyError Unit × RequestBodyStream :=
  match r.readByte with
  | (.error error,r) => (.error error,r)
  | (.ok a,r) =>
    match r.readByte with
    | (.error error,r) => (.error error,r)
    | (.ok b,r) => if a == cr && b == lf then (.ok (),r) else r.fail .malformedRequest

def trailerField (count : Nat) (line : Bytes) : Except BodyError Header :=
  match trailerName count line with
  | none => .error .invalidChunkedBody
  | some (name,text) =>
    let value := trimSpace text
    if value.any controlByte then .error .malformedRequest else .ok ⟨name,value⟩

-- At most maxHeaders trailers are kept and a further line fails, so this many
-- rounds are enough for the unbounded loop of the source.
def readTrailersLoop : Nat → RequestBodyStream → Except BodyError Unit × RequestBodyStream
  | 0,r => r.fail .invalidChunkedBody
  | rounds+1,r =>
    match r.readLine with
    | (.error error,r) => (.error error,r)
    | (.ok line,r) =>
      if line = [] then (.ok (),r)
      else
        match trailerField r.trailers.length line with
        | .error error => r.fail error
        | .ok header => readTrailersLoop rounds {r with trailers:=r.trailers ++ [header]}

def chunkSize (line : Bytes) : Option Nat :=
  (parseInt16 (trimSpace (before line 59))).bind fun size => if size < 0 then none else some size.toNat

section
variable (r : RequestBodyStream)

def readTrailers : Except BodyError Unit × RequestBodyStream :=
  readTrailersLoop (maxHeaders+1) r

def readFixed (n : Nat) : Bytes × Option BodyError × RequestBodyStream :=
  if r.remaining = 0 then
    ([],some .eof,{r with done:=true,leftover:=r.prefixBytes,prefixBytes:=[]})
  else
    match r.readSome (min n r.remaining) with
    | (data,r) =>
      let r := {r with remaining:=r.remaining - data.length,total:=r.total + data.length}
      if data = [] ∧ r.err ≠ none then ([],r.err,r)
      else if r.remaining = 0 then
        (data,some .eof,{r with done:=true,leftover:=r.prefixBytes,prefixBytes:=[]})
      else (data,none,r)

def readChunk (n : Nat) : Bytes × Option BodyError × RequestBodyStream :=
  match r.readSome (min n r.chunkLeft) with
  | (data,r) =>
    let r := {r with chunkLeft:=r.chunkLeft - data.length,total:=r.total + data.length}
    if data = [] ∧ r.err ≠ none then ([],r.err,r)
    else (data,none,{r with needCRLF:=r.needCRLF || r.chunkLeft == 0})

def skipCRLF : Except BodyError Unit × RequestBodyStream :=
  if r.needCRLF then
    match r.expectCRLF with
    | (.error error,r) => (.error error,r)
    | (.ok _,r) => (.ok (),{r with needCRLF:=false})
  else (.ok (),r)

def readLast : Bytes × Option BodyError × RequestBodyStream :=
  match r.readTrailers with
  | (.error error,r) => ([],some error,r)
  | (.ok _,r) => ([],some .eof,{r with done:=true})

def readSize (n : Nat) : Bytes × Option BodyError × RequestBodyStream :=
  match r.readLine with
  | (.error error,r) => ([],some error,r)
  | (.ok line,r) =>
    match chunkSize line with
    | none => ([],some .malformedRequest,{r with err:=some .malformedRequest,done:=true})
    | some size =>
      if (size : Int) > r.max - r.total then
        ([],some .bodyTooLarge,{r with err:=some .bodyTooLarge,done:=true})
      else if size = 0 then r.readLast
      else {r with chunkLeft:=size}.readChunk n

-- One round of the loop reads a chunk header; a positive size makes the next
-- round return from the chunk-data branch, so two rounds are all there are.
def readChunked (n : Nat) : Bytes × Option BodyError × RequestBodyStream :=
  if r.chunkLeft > 0 then r.readChunk n
  else
    match r.skipCRLF with
    | (.error error,r) => ([],some error,r)
    | (.ok _,r) => r.readSize n

def read (n : Nat) : Bytes × Option BodyError × RequestBodyStream :=
  if r.done then ([],some (r.err.getD .eof),r)
  else if n = 0 then ([],none,r)
  else if r.chunked then r.readChunked n
  else r.readFixed n

def finish : Bytes × List Header × Option BodyError :=
  (r.leftover,r.trailers,r.err)

def bytes : Bytes := r.prefixBytes ++ r.conn.bytes
end

-- Reads with buffers of the given sizes until an error is reported, io.EOF
-- included: the bytes delivered, that error, and the stream left behind. The
-- rounds bound the number of Read calls.
def readAll (size : Nat → Nat) : Nat → RequestBodyStream → Option (Bytes × BodyError × RequestBodyStream)
  | 0,_ => none
  | rounds+1,r =>
    match r.read (size rounds + 1) with
    | (data,some error,r) => some (data,error,r)
    | (data,none,r) => (readAll size rounds r).map fun (rest,error,r) => (data ++ rest,error,r)
end RequestBodyStream
end FhServer

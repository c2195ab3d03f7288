import FhServer.WebSocketWriter

namespace FhServer.WebSocket
open MessageWriter List Opcode

def second : Nat := 1000000000

-- allowMessage: a window starts with the first message after the last one is over.
def RateWindow.allow (rate : RateWindow) (limit now : Nat) : RateWindow × Bool :=
  if limit = 0 then (rate,true)
  else
    let rate : RateWindow := match rate.rateWindowStart with
      | none => {rateWindowStart := some now, rateCount := 0}
      | some start => if start+second ≤ now then {rateWindowStart := some now, rateCount := 0} else rate
    let rate := {rate with rateCount := rate.rateCount+1}
    (rate,rate.rateCount ≤ limit)

namespace Conn
variable (c : Conn)

def andThen (r : Conn × Except WsError α) (next : Conn → α → Conn × Except WsError β) : Conn × Except WsError β :=
  match r with
  | (c,.error e) => (c,.error e)
  | (c,.ok a) => next c a

-- Every reason is a short ASCII text, which trimUTF8Bytes leaves as it is.
def closeWithStatus (code : Nat) (reason : Bytes) : Conn × Option WsError :=
  if code = 0 then c.writeMessage close []
  else if ¬validClosePayload (putUint 2 code ++ reason) then (c,some .protocol)
  else c.writeMessage close (putUint 2 code ++ reason)

def refuse (code : Nat) (reason : String) : Conn := (c.closeWithStatus code (ascii reason)).1

def closeProtocolError : Nat := 1002
def closeInvalidFramePayloadData : Nat := 1007
def closePolicyViolation : Nat := 1008
def closeMessageTooBig : Nat := 1009

def readFull (n : Nat) : Conn × Except WsError Bytes :=
  if n ≤ c.input.length then ({c with input := c.input.drop n},.ok (c.input.take n))
  else ({c with input := []},.error (if c.input = [] then .eof else .unexpectedEof))

def readLength (b : UInt8) : Conn × Except WsError Nat :=
  if b &&& 0x7f = 126 then
    andThen (c.readFull 2) fun c ext =>
      if uint ext < 126 then (c.refuse closeProtocolError "non-minimal length",.error .protocol) else (c,.ok (uint ext))
  else if b &&& 0x7f = 127 then
    andThen (c.readFull 8) fun c ext =>
      if 2^63 ≤ uint ext ∨ uint ext ≤ 65535 then (c.refuse closeProtocolError "bad extended length",.error .protocol) else (c,.ok (uint ext))
  else (c,.ok (b &&& 0x7f).toNat)

def unmask (mask payload : Bytes) : Bytes := payload.mapIdx fun i b => b ^^^ mask.getD (i % 4) 0

def readPayload (fin : Bool) (opcode : UInt8) (length : Nat) : Conn × Except WsError Frame :=
  if 0x8 ≤ opcode ∧ (fin = false ∨ length > 125) then (c.refuse closeProtocolError "bad control frame",.error .protocol)
  else if 0 < c.limits.maxFrame ∧ length > c.limits.maxFrame then (c.refuse closeMessageTooBig "frame too large",.error .tooLarge)
  else if 0 < c.limits.maxMessage ∧ length > c.limits.maxMessage then (c.refuse closeMessageTooBig "message too large",.error .tooLarge)
  else if length > 2^63-1 then (c.refuse closeMessageTooBig "frame too large",.error .tooLarge)
  else
    andThen (c.readFull 4) fun c mask =>
      if length > 0 then andThen (c.readFull length) fun c payload => (c,.ok ⟨fin,opcode,unmask mask payload⟩)
      else (c,.ok ⟨fin,opcode,[]⟩)

def readFrame : Conn × Except WsError Frame :=
  if c.closed then (c,.error .closed)
  else
    andThen (c.readFull 2) fun c head =>
      let fin : Bool := head.getD 0 0 &&& 0x80 ≠ 0
      let opcode := head.getD 0 0 &&& 0x0f
      if head.getD 0 0 &&& 0x70 ≠ 0 then (c.refuse closeProtocolError "rsv bits unsupported",.error .protocol)
      else if ¬knownOpcode opcode then (c.refuse closeProtocolError "bad opcode",.error .protocol)
      else if head.getD 1 0 &&& 0x80 = 0 then (c.refuse closeProtocolError "client frame not masked",.error .protocol)
      else andThen (c.readLength (head.getD 1 0)) fun c length => c.readPayload fin opcode length

def parseClosePayload (payload : Bytes) : Nat × Bytes :=
  if payload.length < 2 then (1005,[]) else (uint (payload.take 2),payload.drop 2)

-- What prepareFirstFrame and nextContinuationFrame do alike: pings are answered and pongs passed over until another frame comes.
def dataFrame : Nat → Conn → Conn × Except WsError Frame
  | 0,c => (c,.error .unexpectedEof)
  | rounds+1,c =>
    andThen c.readFrame fun c f =>
      if f.opcode = ping then
        match c.writeMessage pong f.payload with
        | (c,some e) => (c,.error e)
        | (c,none) => dataFrame rounds c
      else if f.opcode = pong then dataFrame rounds c
      else if f.opcode = Opcode.close then
        if ¬validClosePayload f.payload then (c.refuse closeProtocolError "bad close frame",.error .protocol)
        else ((c.writeMessage close f.payload).1,.error (.closeError (parseClosePayload f.payload).1 (parseClosePayload f.payload).2))
      else (c,.ok f)

def nextData : Conn × Except WsError Frame := dataFrame (c.input.length+1) c

def allowMessage (now : Nat) : Conn × Bool :=
  ({c with rate := (c.rate.allow c.limits.rateLimit now).1},(c.rate.allow c.limits.rateLimit now).2)
end Conn

structure MessageReader where
  firstOpcode : UInt8
  currentPayload : Bytes
  currentOffset : Nat := 0
  fragments : Nat := 1
  total : Nat
  finalFrame : Bool
  finished : Bool := false
  closed : Bool := false
  utf8val : Utf8StreamValidator := {}

open WebSocket.Conn

def Conn.prepareFirstFrame (c : Conn) : Conn × Except WsError MessageReader :=
  andThen c.nextData fun c f =>
    if f.opcode = text ∨ f.opcode = binary then
      if 0 < c.limits.maxMessage ∧ f.payload.length > c.limits.maxMessage then (c.refuse closeMessageTooBig "message too large",.error .tooLarge)
      else (c,.ok {firstOpcode := f.opcode, currentPayload := f.payload, total := f.payload.length, finalFrame := f.fin})
    else (c.refuse closeProtocolError "unexpected continuation",.error .protocol)

def Conn.nextReader (c : Conn) : Conn × Except WsError MessageReader := if c.closed then (c,.error .closed) else c.prepareFirstFrame

namespace MessageReader
variable (r : MessageReader)

def nextContinuationFrame (c : Conn) : Conn × Except WsError MessageReader :=
  andThen c.nextData fun c f =>
    if f.opcode = continuation then
      if 0 < c.limits.maxFragments ∧ r.fragments+1 > c.limits.maxFragments then (c.refuse closeMessageTooBig "too many fragments",.error .tooLarge)
      else if 0 < c.limits.maxMessage ∧ r.total+f.payload.length > c.limits.maxMessage then (c.refuse closeMessageTooBig "message too large",.error .tooLarge)
      else
        (c,.ok {r with fragments := r.fragments+1, total := r.total+f.payload.length, currentPayload := f.payload, currentOffset := 0, finalFrame := f.fin})
    else (c.refuse closeProtocolError "new data frame before final continuation",.error .protocol)

def finishMessage (c : Conn) (now : Nat) : Conn × Option WsError :=
  if r.finished then (c,none)
  else if r.firstOpcode = text ∧ r.utf8val.finish then (c.refuse closeInvalidFramePayloadData "invalid utf-8",some .protocol)
  else
    match c.allowMessage now with
    | (c,false) => (c.refuse closePolicyViolation "message rate exceeded",some .rateLimit)
    | (c,true) => (c,none)

def validate (p : Bytes) : Utf8StreamValidator × Bool := if r.firstOpcode = text then r.utf8val.write p else (r.utf8val,false)

-- A frame's payload is used up before the next frame is read.
def readLoop (now n : Nat) : Nat → MessageReader → Conn → Conn × MessageReader × Except WsError Bytes
  | 0,r,c => (c,r,.error .unexpectedEof)
  | rounds+1,r,c =>
    if r.currentOffset < r.currentPayload.length then
      let chunk := (r.currentPayload.drop r.currentOffset).take n
      let bad := (r.validate chunk).2
      let r := {r with currentOffset := r.currentOffset+chunk.length, utf8val := (r.validate chunk).1}
      if bad then (c.refuse closeInvalidFramePayloadData "invalid utf-8",r,.error .protocol) else (c,r,.ok chunk)
    else if r.finalFrame then
      match r.finishMessage c now with
      | (c,some e) => (c,{r with finished := true},.error e)
      | (c,none) => (c,{r with finished := true},.error .eof)
    else
      match r.nextContinuationFrame c with
      | (c,.error e) => (c,r,.error e)
      | (c,.ok r) => readLoop now n rounds r c

def read (c : Conn) (now n : Nat) : Conn × MessageReader × Except WsError Bytes :=
  if r.closed then (c,r,.error .closed)
  else if n = 0 then (c,r,.ok [])
  else readLoop now n (c.input.length+1) r c

def drain : Nat → MessageReader → Conn → Conn × Except WsError MessageReader
  | 0,r,c => (c,.ok r)
  | rounds+1,r,c => if r.finalFrame then (c,.ok r) else andThen (r.nextContinuationFrame c) fun c r => drain rounds r c

def close (c : Conn) (now : Nat) : Conn × Option WsError :=
  if r.closed ∨ r.finished then (c,none)
  else
    match drain (c.input.length+1) r c with
    | (c,.error e) => (c,some e)
    | (c,.ok r) =>
      let rest := r.currentPayload.drop r.currentOffset
      if rest ≠ [] ∧ (r.validate rest).2 then (c.refuse closeInvalidFramePayloadData "invalid utf-8",some .protocol)
      else finishMessage {r with utf8val := (r.validate rest).1} c now

def readAll (now : Nat) : Nat → (Nat → Nat) → MessageReader → Conn → Conn × MessageReader × Bytes × Option WsError
  | 0,_,r,c => (c,r,[],none)
  | reads+1,sizes,r,c =>
    match r.read c now (sizes 0) with
    | (c,r,.error e) => (c,r,[],some e)
    | (c,r,.ok chunk) =>
      let (c,r,data,e) := readAll now reads (fun i => sizes (i+1)) r c
      (c,r,chunk ++ data,e)
end MessageReader

-- How the application reads a message: by ReadMessage, whose buffer grows as io.ReadAll lets it, or by NextReader and Reads of its own.
-- It goes on until the end, and not with empty buffers only.
structure Script where
  whole : Bool
  sizes : Nat → Nat
  now : Nat
  goesOn : ∀ i, ∃ j, i ≤ j ∧ 0 < sizes j

inductive Reading where
  | message (m : Message)
  | failed (e : WsError)
  | waiting (data : Bytes)

def Conn.readBy (c : Conn) (reads : Nat) (script : Script) : Conn × Reading :=
  match c.nextReader with
  | (c,.error e) => (c,.failed e)
  | (c,.ok r) =>
    match r.readAll script.now reads script.sizes c with
    | (c,r,data,e) =>
      let c := if script.whole then (r.close c script.now).1 else c
      match e with
      | some .eof => (c,.message ⟨r.firstOpcode,data⟩)
      | some e => (c,.failed e)
      | none => (c,.waiting data)

def Conn.readMessages (reads : Nat) : Conn → List Script → List Message × Option WsError
  | c,[] =>
    match c.nextReader with
    | (_,.error e) => ([],some e)
    | (_,.ok _) => ([],none)
  | c,script :: scripts =>
    match c.readBy reads script with
    | (c,.message m) => (m :: (readMessages reads c scripts).1,(readMessages reads c scripts).2)
    | (_,.failed e) => ([],some e)
    | (_,.waiting _) => ([],none)

structure Mask where
  bytes : Bytes
  four : bytes.length = 4

def Frame.masked (f : Frame) (m : Mask) : Bytes :=
  firstByte f.fin f.opcode :: (lengthBytes 0x80 f.payload.length ++ (m.bytes ++ unmask m.bytes f.payload))

theorem unmask_unmask (mask payload : Bytes) : unmask mask (unmask mask payload) = payload := by
  apply ext_getElem?
  intro i
  rw [unmask,unmask,List.getElem?_mapIdx,List.getElem?_mapIdx,Option.map_map]
  cases payload[i]? with
  | none => rfl
  | some b =>
    show some ((b ^^^ mask.getD (i % 4) 0) ^^^ mask.getD (i % 4) 0) = some b
    rw [UInt8.xor_assoc,UInt8.xor_self,UInt8.xor_zero]

theorem unmask_length (mask payload : Bytes) : (unmask mask payload).length = payload.length := length_mapIdx

section
variable {c : Conn} {rest : Bytes}

theorem readFull_front (input : c.input = a ++ rest) (length : a.length = n) : c.readFull n = ({c with input := rest},.ok a) := by
  have enough : n ≤ (a ++ rest).length := by
    rw [length_append]
    lia
  rw [Conn.readFull,input,if_pos enough,take_left' length,drop_left' length]

theorem short_length : ∀ n < 126, (0x80 ||| UInt8.ofNat n) &&& 0x80 ≠ 0 ∧ (0x80 ||| UInt8.ofNat n) &&& 0x7f ≠ 126 ∧
    (0x80 ||| UInt8.ofNat n) &&& 0x7f ≠ 127 ∧ ((0x80 ||| UInt8.ofNat n) &&& 0x7f).toNat = n := by
  decide

theorem lengthBytes_read (small : n < 2^63) (rest : Bytes) : ∃ b ext, lengthBytes 0x80 n = b :: ext ∧ b &&& 0x80 ≠ 0 ∧
    ∀ c : Conn, c.input = ext ++ rest → c.readLength b = ({c with input := rest},.ok n) := by
  rw [lengthBytes]
  split
  · rename_i short
    obtain ⟨masked,two,eight,same⟩ := short_length n short
    refine ⟨_,_,rfl,masked,fun c input => ?_⟩
    rw [readLength,if_neg two,if_neg eight,same]
    rw [nil_append] at input
    rw [← input]
  · rename_i long
    split
    · rename_i two
      refine ⟨_,_,rfl,by decide,fun c input => ?_⟩
      rw [readLength,if_pos (by decide),readFull_front input (putUint_length 2 n)]
      simp only [andThen]
      rw [uint_putUint (by lia),if_neg long]
    · rename_i eight
      refine ⟨_,_,rfl,by decide,fun c input => ?_⟩
      rw [readLength,if_neg (by decide),if_pos (by decide),readFull_front input (putUint_length 8 n)]
      simp only [andThen]
      rw [uint_putUint (by lia),if_neg (by lia)]

theorem readPayload_masked {m : Mask} (formed : f.WellFormed) (input : c.input = m.bytes ++ unmask m.bytes f.payload ++ rest) :
    (f.payload.length ≤ c.limits.maxFrame → c.readPayload f.fin f.opcode f.payload.length = ({c with input := rest},.ok f)) ∧
      (c.limits.maxFrame < f.payload.length → ∃ c', c.readPayload f.fin f.opcode f.payload.length = (c',.error .tooLarge)) := by
  have control : ¬(0x8 ≤ f.opcode ∧ (f.fin = false ∨ f.payload.length > 125)) := by
    rintro ⟨high,why⟩
    obtain ⟨whole,short⟩ := formed.control high
    rcases why with cut | long
    · rw [whole] at cut
      cases cut
    · exact absurd short (Nat.not_le.mpr long)
  rw [readPayload,if_neg control]
  constructor
  · intro fits
    have message := c.limits.frame_le
    have length := formed.length
    rw [append_assoc] at input
    rw [if_neg (by lia),if_neg (by lia),if_neg (by lia),readFull_front input m.four]
    simp only [andThen]
    split
    · rw [readFull_front rfl (unmask_length m.bytes f.payload)]
      simp [unmask_unmask]
    rename_i none
    have empty : f.payload = [] := eq_nil_of_length_eq_zero (Nat.eq_zero_of_not_pos none)
    obtain ⟨fin,opcode,payload⟩ := f
    cases empty
    rfl
  · intro large
    rw [if_pos ⟨c.limits.some_frame,large⟩]
    exact ⟨_,rfl⟩

theorem readFrame_masked (going : c.closed = false) (formed : f.WellFormed) (input : c.input = f.masked m ++ rest) :
    (f.payload.length ≤ c.limits.maxFrame → c.readFrame = ({c with input := rest},.ok f)) ∧
      (c.limits.maxFrame < f.payload.length → ∃ c', c.readFrame = (c',.error .tooLarge)) := by
  obtain ⟨plain,same,last⟩ := firstByte_parts formed.known f.fin
  obtain ⟨b,ext,bytes,masked,reads⟩ := lengthBytes_read formed.length (m.bytes ++ unmask m.bytes f.payload ++ rest)
  have front : c.input = [firstByte f.fin f.opcode,b] ++ (ext ++ (m.bytes ++ unmask m.bytes f.payload ++ rest)) := by
    rw [input,Frame.masked,bytes]
    simp
  have known : knownOpcode (firstByte f.fin f.opcode &&& 0x0f) = true := by rw [same]; exact formed.known
  have start : c.readFrame = readPayload {c with input := m.bytes ++ unmask m.bytes f.payload ++ rest} f.fin f.opcode f.payload.length := by
    rw [readFrame,if_neg (by rw [going]; exact Bool.false_ne_true),readFull_front (n := 2) front rfl]
    simp only [andThen,getD_cons_zero,getD_cons_succ]
    rw [if_neg (not_not.mpr plain),if_neg (not_not.mpr known),if_neg masked,same,last,reads _ rfl]
  rw [start]
  exact readPayload_masked (c := {c with input := m.bytes ++ unmask m.bytes f.payload ++ rest}) formed rfl
end
end FhServer.WebSocket

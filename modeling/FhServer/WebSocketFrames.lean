import FhServer.Utf8Stream

namespace FhServer.WebSocket
open List
namespace Opcode

def continuation : UInt8 := 0x0
def text : UInt8 := 0x1
def binary : UInt8 := 0x2
def close : UInt8 := 0x8
def ping : UInt8 := 0x9
def pong : UInt8 := 0xa
end Opcode

inductive WsError where
  | protocol
  | tooLarge
  | rateLimit
  | closed
  | eof
  | unexpectedEof
  | closeError (code : Nat) (reason : Bytes)
deriving DecidableEq

structure Config where
  maxMessageSize : Int64 := 0
  maxFrameSize : Int64 := 0
  maxFragments : Int64 := 0
  maxMessagesPerSecond : Int64 := 0

structure Limits where
  maxMessage : Nat
  maxFrame : Nat
  maxFragments : Nat
  rateLimit : Nat
  some_frame : 0 < maxFrame
  frame_le : maxFrame ≤ maxMessage
  message_lt : maxMessage < 2^63

def orDefault (size : Int64) (default : Nat) : Nat := if size ≤ 0 then default else size.toInt.toNat

theorem orDefault_range (size : Int64) (default : Nat) (some : 0 < default) (small : default < 2^63) :
    0 < orDefault size default ∧ orDefault size default < 2^63 := by
  rw [orDefault]
  split
  · exact ⟨some,small⟩
  rename_i positive
  rw [Int64.le_iff_toInt_le] at positive
  have bound := size.toInt_lt
  lia

def normalizeConfig (cfg : Config) : Limits where
  maxMessage := orDefault cfg.maxMessageSize (1 <<< 20)
  maxFrame := min (orDefault cfg.maxFrameSize (64 <<< 10)) (orDefault cfg.maxMessageSize (1 <<< 20))
  maxFragments := orDefault cfg.maxFragments 32
  rateLimit := orDefault cfg.maxMessagesPerSecond 128
  some_frame := by
    have frame := orDefault_range cfg.maxFrameSize (64 <<< 10) (by decide) (by decide)
    have message := orDefault_range cfg.maxMessageSize (1 <<< 20) (by decide) (by decide)
    lia
  frame_le := Nat.min_le_right _ _
  message_lt := (orDefault_range cfg.maxMessageSize (1 <<< 20) (by decide) (by decide)).2

def putUint : Nat → Nat → Bytes
  | 0,_ => []
  | size+1,n => putUint size (n/256) ++ [UInt8.ofNat n]

def uint (b : Bytes) : Nat := b.foldl (fun n c => 256*n+c.toNat) 0

theorem putUint_length (size n : Nat) : (putUint size n).length = size := by
  induction size generalizing n with
  | zero => rfl
  | succ size ih => rw [putUint,length_append,ih,length_singleton]

theorem uint_putUint (fits : n < 256^size) : uint (putUint size n) = n := by
  induction size generalizing n with
  | zero =>
    rw [Nat.pow_zero,Nat.lt_one_iff] at fits
    rw [fits]
    rfl
  | succ size ih =>
    rw [Nat.pow_succ,Nat.mul_comm] at fits
    have front := ih (Nat.div_lt_of_lt_mul fits)
    rw [putUint,uint,foldl_append]
    rw [uint] at front
    simp only [foldl_cons,foldl_nil,UInt8.toNat_ofNat']
    lia

structure Frame where
  fin : Bool
  opcode : UInt8
  payload : Bytes

-- The length in its shortest form. The first byte also says whether the payload is masked.
def lengthBytes (masked : UInt8) (n : Nat) : Bytes :=
  if n < 126 then [masked ||| UInt8.ofNat n]
  else if n ≤ 65535 then (masked ||| 126) :: putUint 2 n
  else (masked ||| 127) :: putUint 8 n

def firstByte (fin : Bool) (opcode : UInt8) : UInt8 := if fin then 0x80 ||| opcode else opcode

def Frame.bytes (f : Frame) : Bytes := firstByte f.fin f.opcode :: lengthBytes 0 f.payload.length ++ f.payload

def knownOpcode (opcode : UInt8) : Bool :=
  opcode == Opcode.continuation || opcode == Opcode.text || opcode == Opcode.binary || opcode == Opcode.close || opcode == Opcode.ping || opcode == Opcode.pong

-- A control frame is short and not fragmented.
structure Frame.WellFormed (f : Frame) : Prop where
  known : knownOpcode f.opcode = true
  control : 0x8 ≤ f.opcode → f.fin = true ∧ f.payload.length ≤ 125
  length : f.payload.length < 2^63

instance (f : Frame) : Decidable f.WellFormed :=
  decidable_of_iff (knownOpcode f.opcode = true ∧ (0x8 ≤ f.opcode → f.fin = true ∧ f.payload.length ≤ 125) ∧ f.payload.length < 2^63)
    ⟨fun ⟨known,control,length⟩ => ⟨known,control,length⟩,fun ⟨known,control,length⟩ => ⟨known,control,length⟩⟩

def parseLength : Bytes → Option (Nat × Bytes)
  | [] => none
  | b :: rest =>
    if b < 126 then some (b.toNat,rest)
    else if b = 126 then
      if rest.length < 2 ∨ uint (rest.take 2) < 126 then none else some (uint (rest.take 2),rest.drop 2)
    else if b = 127 then
      if rest.length < 8 ∨ uint (rest.take 8) ≤ 65535 then none else some (uint (rest.take 8),rest.drop 8)
    else none

def parseFrame : Bytes → Option (Frame × Bytes)
  | [] => none
  | b :: rest =>
    if b &&& 0x70 ≠ 0 then none
    else
      match parseLength rest with
      | none => none
      | some (n,rest) =>
        if n ≤ rest.length ∧ (⟨b &&& 0x80 ≠ 0,b &&& 0x0f,rest.take n⟩ : Frame).WellFormed then
          some (⟨b &&& 0x80 ≠ 0,b &&& 0x0f,rest.take n⟩,rest.drop n)
        else none

theorem putUint_split (size n : Nat) (rest : Bytes) : (putUint size n ++ rest).take size = putUint size n ∧ (putUint size n ++ rest).drop size = rest := by
  have same := putUint_length size n
  exact ⟨take_left' same,drop_left' same⟩

theorem parseLength_bytes (small : n < 2^63) (rest : Bytes) : parseLength (lengthBytes 0 n ++ rest) = some (n,rest) := by
  rw [lengthBytes]
  split
  · rename_i short
    have same : (UInt8.ofNat n).toNat = n := by
      rw [UInt8.toNat_ofNat']
      lia
    have below : (0 : UInt8) ||| UInt8.ofNat n < 126 := by
      rw [UInt8.zero_or,UInt8.lt_iff_toNat_lt,same]
      exact short
    rw [singleton_append,parseLength,if_pos below,UInt8.zero_or,same]
  · rename_i long
    split
    · rename_i two
      obtain ⟨front,back⟩ := putUint_split 2 n rest
      have bytes : ¬(putUint 2 n ++ rest).length < 2 := by
        rw [length_append,putUint_length]
        lia
      rw [cons_append,parseLength,if_neg (by decide),if_pos (by decide),front,back,uint_putUint (by lia),if_neg (not_or.mpr ⟨bytes,long⟩)]
    · rename_i more
      obtain ⟨front,back⟩ := putUint_split 8 n rest
      have bytes : ¬(putUint 8 n ++ rest).length < 8 := by
        rw [length_append,putUint_length]
        lia
      rw [cons_append,parseLength,if_neg (by decide),if_neg (by decide),if_pos (by decide),front,back,uint_putUint (by lia),if_neg (not_or.mpr ⟨bytes,more⟩)]

theorem known_cases (known : knownOpcode opcode = true) :
    opcode = 0x0 ∨ opcode = 0x1 ∨ opcode = 0x2 ∨ opcode = 0x8 ∨ opcode = 0x9 ∨ opcode = 0xa := by
  simpa [knownOpcode,or_assoc,Opcode.continuation,Opcode.text,Opcode.binary,Opcode.close,Opcode.ping,Opcode.pong] using known

theorem firstByte_parts (known : knownOpcode opcode = true) (fin : Bool) :
    firstByte fin opcode &&& 0x70 = 0 ∧ firstByte fin opcode &&& 0x0f = opcode ∧ decide (firstByte fin opcode &&& 0x80 ≠ 0) = fin := by
  rcases known_cases known with rfl | rfl | rfl | rfl | rfl | rfl
  all_goals
    cases fin with
    | false => decide
    | true => decide

theorem parseFrame_bytes (formed : f.WellFormed) (rest : Bytes) : parseFrame (f.bytes ++ rest) = some (f,rest) := by
  obtain ⟨plain,opcode,fin⟩ := firstByte_parts formed.known f.fin
  have front : (f.payload ++ rest).take f.payload.length = f.payload := take_left
  have back : (f.payload ++ rest).drop f.payload.length = rest := drop_left
  have enough : f.payload.length ≤ (f.payload ++ rest).length := by
    rw [length_append]
    lia
  rw [Frame.bytes,cons_append,cons_append,append_assoc,parseFrame,if_neg (not_not.mpr plain),parseLength_bytes formed.length]
  simp only [opcode,fin,front,back]
  rw [if_pos ⟨enough,formed⟩]

structure Message where
  opcode : UInt8
  payload : Bytes
deriving DecidableEq

structure Assembly where
  messages : List Message := []
  unfinished : Option Message := none

def Assembly.add (a : Assembly) (fin : Bool) (m : Message) : Assembly :=
  if fin then {messages := a.messages ++ [m], unfinished := none} else {a with unfinished := some m}

-- A control frame may stand between the frames of a message. No other message may.
def Assembly.absorb (a : Assembly) (f : Frame) : Option Assembly :=
  if 0x8 ≤ f.opcode then some {a with messages := a.messages ++ [⟨f.opcode,f.payload⟩]}
  else
    match a.unfinished with
    | none => if f.opcode = Opcode.continuation then none else some (a.add f.fin ⟨f.opcode,f.payload⟩)
    | some m => if f.opcode = Opcode.continuation then some (a.add f.fin ⟨m.opcode,m.payload ++ f.payload⟩) else none

def receiveLoop : Nat → Assembly → Bytes → Option Assembly
  | _,a,[] => some a
  | 0,_,_ :: _ => none
  | rounds+1,a,b :: rest =>
    match parseFrame (b :: rest) with
    | none => none
    | some (f,rest) => (a.absorb f).bind fun a => receiveLoop rounds a rest

-- What a client makes of the bytes it receives: none when they are not frames or do not group into messages.
def receive (b : Bytes) : Option Assembly := receiveLoop b.length {} b

inductive Sent : Bytes → Assembly → Prop
  | nothing : Sent [] {}
  | frame (before : Sent b a) (formed : Frame.WellFormed f) (absorbed : a.absorb f = some a') : Sent (b ++ f.bytes) a'

theorem receiveLoop_sent (sent : Sent b a) : ∀ rest rounds, (b ++ rest).length ≤ rounds →
    ∃ left, rest.length ≤ left ∧ receiveLoop rounds {} (b ++ rest) = receiveLoop left a rest := by
  induction sent with
  | nothing => exact fun rest rounds enough => ⟨rounds,enough,rfl⟩
  | @frame b a f a' before formed absorbed ih =>
    intro rest rounds enough
    rw [append_assoc] at enough ⊢
    obtain ⟨left,room,same⟩ := ih (f.bytes ++ rest) rounds enough
    have parsed := parseFrame_bytes formed rest
    rw [same]
    rw [Frame.bytes,cons_append,cons_append] at room parsed ⊢
    cases left with
    | zero => cases room
    | succ left =>
      rw [receiveLoop,parsed]
      simp only [absorbed,Option.bind_some]
      refine ⟨left,?_,rfl⟩
      rw [length_cons,length_append] at room
      lia

theorem receive_sent (sent : Sent b a) : receive b = some a := by
  obtain ⟨left,_,same⟩ := receiveLoop_sent sent [] b.length (by rw [append_nil])
  rw [receive]
  rw [append_nil] at same
  rw [same]
  cases left with
  | zero => rfl
  | succ left => rfl
end FhServer.WebSocket

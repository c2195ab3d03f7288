import FhServer.WebSocketFrames

namespace FhServer.WebSocket
open GoText List Opcode

structure RateWindow where
  rateWindowStart : Option Nat := none
  rateCount : Nat := 0

structure Conn where
  limits : Limits
  input : Bytes := []
  output : Bytes := []
  closed : Bool := false
  rate : RateWindow := {}

def newConn (limits : Limits) (input : Bytes) : Conn := {limits := limits, input := input}

def Conn.writeFrame (c : Conn) (f : Frame) : Conn := {c with output := c.output ++ f.bytes}

structure MessageWriter where
  opcode : UInt8
  first : Bool := true
  control : Bool
  closed : Bool := false
  buf : Bytes := []
  total : Nat := 0
  utf8val : Utf8StreamValidator := {}

def writable (opcode : UInt8) : Bool :=
  opcode == text || opcode == binary || opcode == close || opcode == ping || opcode == pong

def newWriter (opcode : UInt8) : MessageWriter := {opcode := opcode, control := 0x8 ≤ opcode}

def validClosePayload (payload : Bytes) : Bool :=
  if payload.length = 0 then true
  else if payload.length = 1 then false
  else
    let code := uint (payload.take 2)
    if code < 1000 || code == 1004 || code == 1005 || code == 1006 || code == 1015 || (1016 ≤ code && code < 3000) || code > 4999 then false
    else validUtf8 (payload.drop 2)

namespace MessageWriter

def op (w : MessageWriter) : UInt8 := if w.first then w.opcode else continuation

def flushDataFrame (w : MessageWriter) (c : Conn) (final : Bool) : Conn × MessageWriter :=
  (c.writeFrame ⟨final,w.op,w.buf⟩,{w with first := false, buf := []})

-- A round takes a byte or makes room for one.
def writeLoop : Nat → Conn → MessageWriter → Bytes → Conn × MessageWriter
  | 0,c,w,_ => (c,w)
  | rounds+1,c,w,p =>
    if p.length = 0 then (c,w)
    else
      let maxFrame := if c.limits.maxFrame = 0 then p.length else c.limits.maxFrame
      if maxFrame ≤ w.buf.length then
        writeLoop rounds (w.flushDataFrame c false).1 (w.flushDataFrame c false).2 p
      else
        let space := min (maxFrame-w.buf.length) p.length
        let w := {w with buf := w.buf ++ p.take space, total := w.total+space}
        let p := p.drop space
        if w.buf.length = maxFrame ∧ p.length > 0 then
          writeLoop rounds (w.flushDataFrame c false).1 (w.flushDataFrame c false).2 p
        else writeLoop rounds c w p

-- The text goes through the validator, which is left at the error.
def validate (w : MessageWriter) (p : Bytes) : Utf8StreamValidator × Bool :=
  if w.opcode = text then w.utf8val.write p else (w.utf8val,false)

def write (w : MessageWriter) (c : Conn) (p : Bytes) : Conn × MessageWriter × Except WsError Nat :=
  if w.closed then (c,w,.error .closed)
  else if p.length = 0 then (c,w,.ok 0)
  else if 0 < c.limits.maxMessage ∧ w.total+p.length > c.limits.maxMessage then (c,w,.error .tooLarge)
  else
    let bad := (w.validate p).2
    let w := {w with utf8val := (w.validate p).1}
    if bad then (c,w,.error .protocol)
    else if w.control then
      if w.buf.length+p.length > 125 then (c,w,.error .protocol)
      else (c,{w with buf := w.buf ++ p, total := w.total+p.length},.ok p.length)
    else
      ((writeLoop (2*p.length+1) c w p).1,(writeLoop (2*p.length+1) c w p).2,.ok p.length)

def close (w : MessageWriter) (c : Conn) : Conn × MessageWriter × Option WsError :=
  if w.closed then (c,w,none)
  else
    let w := {w with closed := true}
    if w.control then
      if w.opcode = Opcode.close ∧ ¬validClosePayload w.buf then (c,w,some .protocol)
      else
        let c := c.writeFrame ⟨true,w.opcode,w.buf⟩
        (if w.opcode = Opcode.close then {c with closed := true} else c,w,none)
    else if w.opcode = text ∧ w.utf8val.finish then (c,w,some .protocol)
    else
      ((w.flushDataFrame c true).1,(w.flushDataFrame c true).2,none)
end MessageWriter

inductive Writer where
  | message (w : MessageWriter)
  | nop

-- The lock is taken before a message writer is handed out.
def Conn.nextWriter (c : Conn) (opcode : UInt8) : Except WsError Writer :=
  if ¬writable opcode then .error .protocol
  else if c.closed then
    if opcode = close then .ok .nop else .error .closed
  else .ok (.message (newWriter opcode))

-- One Write and a Close. The error of Write is the one returned, but Close is called all the same.
def MessageWriter.writeWhole (w : MessageWriter) (c : Conn) (payload : Bytes) : Conn × Option WsError :=
  if payload.length > 0 then
    match w.write c payload with
    | (c,w,.error e) => ((w.close c).1,some e)
    | (c,w,.ok _) => ((w.close c).1,(w.close c).2.2)
  else ((w.close c).1,(w.close c).2.2)

def Conn.writeMessage (c : Conn) (opcode : UInt8) (payload : Bytes) : Conn × Option WsError :=
  match c.nextWriter opcode with
  | .error e => (c,some e)
  | .ok .nop => (c,none)
  | .ok (.message w) => w.writeWhole c payload

structure Kept (c c' : Conn) (w w' : MessageWriter) : Prop where
  limits : c'.limits = c.limits
  connClosed : c'.closed = c.closed
  opcode : w'.opcode = w.opcode
  control : w'.control = w.control
  closed : w'.closed = w.closed
  utf8val : w'.utf8val = w.utf8val

theorem Kept.trans (one : Kept c c' w w') (two : Kept c' c'' w' w'') : Kept c c'' w w'' :=
  ⟨two.limits.trans one.limits,two.connClosed.trans one.connClosed,two.opcode.trans one.opcode,two.control.trans one.control,
    two.closed.trans one.closed,two.utf8val.trans one.utf8val⟩

structure Data (c : Conn) (log : List Message) (w : MessageWriter) (accepted : Bytes) : Prop where
  opcode : w.opcode = text ∨ w.opcode = binary
  room : w.buf.length ≤ c.limits.maxFrame
  wire : ∃ flushed, accepted = flushed ++ w.buf ∧ (w.first = true → flushed = []) ∧ Sent c.output ⟨log,if w.first then none else some ⟨w.opcode,flushed⟩⟩

namespace MessageWriter
variable {c : Conn} {log : List Message} {w : MessageWriter} {accepted p : Bytes}
section
variable (data : Data c log w accepted)
include data

theorem op_cases : w.op = 0x0 ∨ w.op = 0x1 ∨ w.op = 0x2 := by
  rw [op]
  split
  · exact .inr data.opcode
  · exact .inl rfl

theorem data_formed (final : Bool) : Frame.WellFormed ⟨final,w.op,w.buf⟩ ∧ ¬(0x8 : UInt8) ≤ w.op := by
  have long := c.limits.message_lt
  have frame := c.limits.frame_le
  have short : w.buf.length < 2^63 := by
    have room := data.room
    lia
  have plain : ¬(0x8 : UInt8) ≤ w.op := by
    rcases op_cases data with is | is | is
    all_goals
      rw [is]
      decide
  refine ⟨⟨?_,fun control => absurd control plain,short⟩,plain⟩
  rcases op_cases data with is | is | is
  all_goals
    rw [is]
    rfl

theorem absorb_data (final : Bool) :
    Sent (w.flushDataFrame c final).1.output (Assembly.add ⟨log,none⟩ final ⟨w.opcode,accepted⟩) := by
  obtain ⟨formed,plain⟩ := data_formed data final
  obtain ⟨flushed,whole,start,sent⟩ := data.wire
  refine .frame sent formed ?_
  rw [Assembly.absorb,if_neg plain]
  cases first : w.first with
  | true =>
    have named : w.op ≠ Opcode.continuation := by
      rw [op,first]
      rcases data.opcode with is | is
      · rw [is]
        decide
      · rw [is]
        decide
    simp only [if_pos,if_neg named]
    rw [whole,start first,op,first]
    rfl
  | false =>
    have more : w.op = Opcode.continuation := by
      rw [op,first]
      rfl
    simp only [Bool.false_eq_true,if_false,if_pos more]
    rw [whole]
    cases final with
    | true => rfl
    | false => rfl

theorem flush_data : Data (w.flushDataFrame c false).1 log (w.flushDataFrame c false).2 accepted :=
  ⟨data.opcode,Nat.zero_le _,accepted,(append_nil _).symm,nofun,absorb_data data false⟩
end

theorem flush_kept (w : MessageWriter) (c : Conn) (final : Bool) : Kept c (w.flushDataFrame c final).1 w (w.flushDataFrame c final).2 :=
  ⟨rfl,rfl,rfl,rfl,rfl,rfl⟩

theorem flush_room (w : MessageWriter) (c : Conn) (final : Bool) :
    ¬(w.flushDataFrame c final).1.limits.maxFrame ≤ (w.flushDataFrame c final).2.buf.length :=
  Nat.not_le.mpr c.limits.some_frame

theorem buffer_data (data : Data c log w accepted) (room : w.buf.length+(p.take n).length ≤ c.limits.maxFrame) (total : Nat) :
    Data c log {w with buf := w.buf ++ p.take n, total := total} (accepted ++ p.take n) := by
  obtain ⟨flushed,whole,start,sent⟩ := data.wire
  refine ⟨data.opcode,by rw [length_append]; exact room,flushed,?_,start,sent⟩
  rw [whole,append_assoc]

theorem writeLoop_data (rounds : Nat) (data : Data c log w accepted)
    (enough : 2*p.length+(if c.limits.maxFrame ≤ w.buf.length then 1 else 0) ≤ rounds) :
    Data (writeLoop rounds c w p).1 log (writeLoop rounds c w p).2 (accepted ++ p) ∧ Kept c (writeLoop rounds c w p).1 w (writeLoop rounds c w p).2 := by
  induction rounds generalizing c w accepted p with
  | zero =>
    have none : p = [] := eq_nil_of_length_eq_zero (by lia)
    rw [none,append_nil]
    exact ⟨data,rfl,rfl,rfl,rfl,rfl,rfl⟩
  | succ rounds ih =>
    have some := c.limits.some_frame
    rw [writeLoop]
    by_cases none : p.length = 0
    · rw [if_pos none,eq_nil_of_length_eq_zero none,append_nil]
      exact ⟨data,rfl,rfl,rfl,rfl,rfl,rfl⟩
    rw [if_neg none]
    simp only [if_neg (Nat.pos_iff_ne_zero.mp some)]
    by_cases full : c.limits.maxFrame ≤ w.buf.length
    · -- a full buffer is sent before the next byte is taken
      rw [if_pos full] at enough ⊢
      obtain ⟨later,kept⟩ := ih (p := p) (flush_data data) (by rw [if_neg (flush_room w c false)]; lia)
      exact ⟨later,(flush_kept w c false).trans kept⟩
    · rw [if_neg full] at enough ⊢
      generalize space_is : min (c.limits.maxFrame-w.buf.length) p.length = space
      have taken : (p.take space).length = space := by
        rw [length_take]
        lia
      have left : (p.drop space).length = p.length-space := length_drop
      have buffered := buffer_data (p := p) (n := space) data (by rw [taken]; lia) (w.total+space)
      have joined : accepted ++ p.take space ++ p.drop space = accepted ++ p := by rw [append_assoc,take_append_drop]
      have stays : Kept c c w {w with buf := w.buf ++ p.take space, total := w.total+space} := ⟨rfl,rfl,rfl,rfl,rfl,rfl⟩
      split
      · obtain ⟨later,kept⟩ := ih (p := p.drop space) (flush_data buffered) (by rw [left,if_neg (flush_room _ c false)]; lia)
        rw [joined] at later
        exact ⟨later,(stays.trans (flush_kept _ c false)).trans kept⟩
      · rename_i going
        obtain ⟨later,kept⟩ := ih (p := p.drop space) buffered (by
          split
          · lia
          · lia)
        rw [joined] at later
        exact ⟨later,stays.trans kept⟩
end MessageWriter

structure Control (c : Conn) (log : List Message) (w : MessageWriter) (accepted : Bytes) : Prop where
  opcode : w.opcode = close ∨ w.opcode = ping ∨ w.opcode = pong
  buffered : accepted = w.buf
  short : w.buf.length ≤ 125
  wire : Sent c.output ⟨log,none⟩

def Writing (c : Conn) (log : List Message) (w : MessageWriter) (accepted : Bytes) : Prop :=
  if w.control then Control c log w accepted else Data c log w accepted

namespace MessageWriter
variable {c : Conn} {log : List Message} {w : MessageWriter} {accepted p : Bytes}

theorem newWriter_writing {opcode : UInt8} (may : writable opcode = true) (sent : Sent c.output ⟨log,none⟩) : Writing c log (newWriter opcode) [] := by
  have data : newWriter opcode = {opcode := opcode, control := false} → (opcode = text ∨ opcode = binary) → Writing c log (newWriter opcode) [] := by
    intro plain is
    rw [plain]
    exact ⟨is,Nat.zero_le _,[],rfl,fun _ => rfl,sent⟩
  have control : newWriter opcode = {opcode := opcode, control := true} → (opcode = Opcode.close ∨ opcode = Opcode.ping ∨ opcode = Opcode.pong) →
      Writing c log (newWriter opcode) [] := by
    intro short is
    rw [short]
    exact ⟨is,rfl,Nat.zero_le _,sent⟩
  simp only [writable,Bool.or_eq_true,beq_iff_eq,or_assoc] at may
  rcases may with rfl | rfl | rfl | rfl | rfl
  · exact data rfl (.inl rfl)
  · exact data rfl (.inr rfl)
  · exact control rfl (.inl rfl)
  · exact control rfl (.inr (.inl rfl))
  · exact control rfl (.inr (.inr rfl))

def Refuses (w : MessageWriter) (c : Conn) (p : Bytes) : Prop :=
  w.total+p.length > c.limits.maxMessage ∨ (w.validate p).2 = true ∨ (w.control = true ∧ w.buf.length+p.length > 125)

instance (w : MessageWriter) (c : Conn) (p : Bytes) : Decidable (w.Refuses c p) := inferInstanceAs (Decidable (_ ∨ _))

theorem write_refused (going : w.closed = false) (some : p ≠ []) (refused : w.Refuses c p) :
    ∃ e v, w.write c p = (c,{w with utf8val := v},.error e) ∧ (v = w.utf8val ∨ v = (w.validate p).1 ∧ ((w.validate p).2 = true ∨ w.control = true)) := by
  obtain ⟨opcode,first,control,closed,buf,total,val⟩ := w
  cases going
  have message : 0 < c.limits.maxMessage := Nat.lt_of_lt_of_le c.limits.some_frame c.limits.frame_le
  rw [write,if_neg Bool.false_ne_true,if_neg fun none => some (eq_nil_of_length_eq_zero none)]
  split
  · exact ⟨_,val,rfl,.inl rfl⟩
  rename_i within
  simp only []
  split
  · rename_i invalid
    exact ⟨_,_,rfl,.inr ⟨rfl,.inl invalid⟩⟩
  rename_i valid
  rcases refused with long | bad | ⟨short,long⟩
  · exact absurd ⟨message,long⟩ within
  · exact absurd bad valid
  · rw [if_pos short,if_pos long]
    exact ⟨_,_,rfl,.inr ⟨rfl,.inr short⟩⟩

theorem newWriter_refused {opcode : UInt8} (some : p ≠ []) (refused : (newWriter opcode).Refuses c p) :
    ∃ e, (newWriter opcode).write c p = (c,newWriter opcode,.error e) := by
  obtain ⟨e,v,wrote,is⟩ := write_refused rfl some refused
  have fresh : v = {} := by
    rcases is with rfl | ⟨rfl,why⟩
    · rfl
    rw [validate] at why ⊢
    split at why
    · rename_i text
      rw [if_pos text]
      rcases why with bad | control
      · rw [Utf8StreamValidator.write] at bad ⊢
        split at bad
        · cases bad
        split at bad
        · cases bad
        · rename_i none long failed
          rw [if_neg none]
      · rw [newWriter] at text control
        simp only [decide_eq_true_eq] at text control
        rw [text] at control
        exact absurd control (by decide)
    · rename_i other
      rw [if_neg other]
      rfl
  rw [wrote,fresh]
  exact ⟨e,rfl⟩

def Declines (w : MessageWriter) : Prop :=
  (w.control = true ∧ w.opcode = Opcode.close ∧ ¬validClosePayload w.buf) ∨ (w.control = false ∧ w.opcode = Opcode.text ∧ w.utf8val.finish)

instance (w : MessageWriter) : Decidable w.Declines := inferInstanceAs (Decidable (_ ∨ _))

theorem close_declined (going : w.closed = false) (declined : w.Declines) : w.close c = (c,{w with closed := true},some .protocol) := by
  obtain ⟨opcode,first,control,closed,buf,total,val⟩ := w
  cases going
  rcases declined with ⟨is,why⟩ | ⟨is,why⟩
  · cases is
    exact if_pos why
  · cases is
    exact if_pos why

section
variable (writing : Writing c log w accepted)
include writing

theorem write_taken (going : w.closed = false) (some : p ≠ []) (fine : ¬w.Refuses c p) :
    ∃ c' w', w.write c p = (c',w',.ok p.length) ∧ Writing c' log w' (accepted ++ p) ∧ Kept c c' {w with utf8val := (w.validate p).1} w' := by
  obtain ⟨opcode,first,control,closed,buf,total,val⟩ := w
  cases going
  rw [Refuses,not_or,not_or] at fine
  obtain ⟨within,valid,short⟩ := fine
  rw [write,if_neg Bool.false_ne_true,if_neg fun none => some (eq_nil_of_length_eq_zero none),if_neg fun both => within both.2]
  simp only [if_neg valid]
  cases control with
  | true =>
    have fits : ¬buf.length+p.length > 125 := fun long => short ⟨rfl,long⟩
    rw [if_pos rfl,if_neg fits]
    refine ⟨_,_,rfl,?_,⟨rfl,rfl,rfl,rfl,rfl,rfl⟩⟩
    have buffered := writing.buffered
    refine ⟨writing.opcode,?_,?_,writing.wire⟩
    · rw [buffered]
    · rw [length_append]
      lia
  | false =>
    generalize (validate ⟨opcode,first,false,false,buf,total,val⟩ p).1 = v
    have checked : Data c log ⟨opcode,first,false,false,buf,total,v⟩ accepted := ⟨writing.opcode,writing.room,writing.wire⟩
    obtain ⟨data,kept⟩ := writeLoop_data (p := p) (2*p.length+1) checked (by split; all_goals lia)
    refine ⟨_,_,rfl,?_,kept⟩
    rw [Writing,kept.control]
    exact data

theorem close_sent (going : w.closed = false) (fine : ¬w.Declines) :
    ∃ c' w', w.close c = (c',w',none) ∧ w'.closed = true ∧ w'.opcode = w.opcode ∧ Sent c'.output ⟨log ++ [⟨w.opcode,accepted⟩],none⟩ := by
  obtain ⟨opcode,first,control,closed,buf,total,val⟩ := w
  cases going
  rw [Declines,not_or] at fine
  rw [close,if_neg Bool.false_ne_true]
  cases control with
  | true =>
    have formed : Frame.WellFormed ⟨true,opcode,buf⟩ := by
      have short := writing.short
      refine ⟨?_,fun _ => ⟨rfl,short⟩,Nat.lt_of_le_of_lt short (by decide)⟩
      rcases writing.opcode with is | is | is
      all_goals
        cases is
        rfl
    have high : (0x8 : UInt8) ≤ opcode := by
      rcases writing.opcode with is | is | is
      all_goals
        cases is
        decide
    have absorbed : Assembly.absorb ⟨log,none⟩ ⟨true,opcode,buf⟩ = some ⟨log ++ [⟨opcode,accepted⟩],none⟩ := by
      rw [Assembly.absorb,if_pos high,writing.buffered]
    have sent := Sent.frame writing.wire formed absorbed
    simp only [if_true,if_neg fun why => fine.1 ⟨rfl,why⟩]
    refine ⟨_,_,rfl,rfl,rfl,?_⟩
    split
    · exact sent
    · exact sent
  | false =>
    simp only [Bool.false_eq_true,if_false,if_neg fun why => fine.2 ⟨rfl,why⟩]
    exact ⟨_,_,rfl,rfl,rfl,absorb_data (w := ⟨opcode,first,false,true,buf,total,val⟩) ⟨writing.opcode,writing.room,writing.wire⟩ true⟩

theorem writing_validated (v : Utf8StreamValidator) : Writing c log {w with utf8val := v} accepted := by
  rw [Writing] at writing ⊢
  split
  · rename_i control
    rw [if_pos control] at writing
    exact ⟨writing.opcode,writing.buffered,writing.short,writing.wire⟩
  · rename_i data
    rw [if_neg data] at writing
    exact ⟨writing.opcode,writing.room,writing.wire⟩

theorem writing_waits (waits : w.control = true ∨ w.first = true) : Sent c.output ⟨log,none⟩ := by
  rw [Writing] at writing
  split at writing
  · exact writing.wire
  rename_i data
  obtain ⟨_,_,_,sent⟩ := writing.wire
  rw [if_pos (waits.resolve_left data)] at sent
  exact sent

theorem writing_begun (data : w.control = false) (begun : w.first = false) : ∃ m, Sent c.output ⟨log,some m⟩ := by
  rw [Writing,data,if_neg Bool.false_ne_true] at writing
  obtain ⟨flushed,_,_,sent⟩ := writing.wire
  rw [begun] at sent
  exact ⟨_,sent⟩

theorem writing_long (data : w.control = false) (long : accepted.length > c.limits.maxFrame) : w.first = false := by
  rw [Writing,data,if_neg Bool.false_ne_true] at writing
  obtain ⟨flushed,whole,start,_⟩ := writing.wire
  cases first : w.first with
  | false => rfl
  | true =>
    rw [whole,start first,nil_append] at long
    exact absurd writing.room (Nat.not_le.mpr long)

theorem writing_sent : ∃ unfinished, Sent c.output ⟨log,unfinished⟩ := by
  rw [Writing] at writing
  split at writing
  · exact ⟨_,writing.wire⟩
  · obtain ⟨_,_,_,sent⟩ := writing.wire
    exact ⟨_,sent⟩
end

theorem write_small {opcode : UInt8} (text : opcode = text) (some : p ≠ []) (fine : ¬(newWriter opcode).Refuses c p) (small : p.length ≤ c.limits.maxFrame) :
    ∃ w', (newWriter opcode).write c p = (c,w',.ok p.length) ∧ w'.first = true ∧ w'.closed = false := by
  subst text
  have frame := Nat.pos_iff_ne_zero.mp c.limits.some_frame
  have length : p.length ≠ 0 := fun none => some (eq_nil_of_length_eq_zero none)
  rw [Refuses,not_or,not_or] at fine
  obtain ⟨within,valid,_⟩ := fine
  have once : ∀ v, writeLoop (2*p.length+1) c ⟨text,true,false,false,[],0,v⟩ p = (c,⟨text,true,false,false,p,p.length,v⟩) := by
    intro v
    have space : min (c.limits.maxFrame-0) p.length = p.length := by lia
    obtain ⟨rounds,more⟩ : ∃ rounds, 2*p.length+1 = rounds+1+1 := ⟨2*p.length-1,by lia⟩
    rw [more,writeLoop,if_neg length]
    simp only [if_neg frame,length_nil,Nat.le_zero,space,take_length,drop_length,nil_append,Nat.zero_add,if_neg fun both : _ ∧ 0 > 0 => Nat.lt_irrefl 0 both.2]
    rw [writeLoop,if_pos length_nil]
  refine ⟨⟨text,true,false,false,p,p.length,((newWriter text).validate p).1⟩,?_,rfl,rfl⟩
  rw [write,if_neg (by exact Bool.false_ne_true),if_neg length,if_neg fun both => within both.2]
  simp only [if_neg valid]
  have taken := once ((newWriter text).validate p).1
  exact congrArg (fun pair : Conn × MessageWriter => (pair.1,pair.2,(.ok p.length : Except WsError Nat))) taken
end MessageWriter
end FhServer.WebSocket

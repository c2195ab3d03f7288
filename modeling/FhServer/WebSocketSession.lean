import FhServer.WebSocketWriter

namespace FhServer.WebSocket
open MessageWriter List Opcode

-- A writer in the application's hands, the bytes of its successful Writes, and whether a Close of it has returned nil.
structure Handle where
  writer : Writer
  accepted : Bytes := []
  reported : Bool := false

def Handle.message (h : Handle) : Message :=
  match h.writer with
  | .message w => ⟨w.opcode,h.accepted⟩
  | .nop => ⟨close,h.accepted⟩

-- The writers handed out on a connection, the one that holds the write lock, and the messages reported as sent.
structure Session where
  conn : Conn
  handles : List Handle := []
  holder : Option Nat := none
  log : List Message := []

inductive WriteCall where
  | nextWriter (opcode : UInt8)
  | write (i : Nat) (p : Bytes)
  | close (i : Nat)
  | writeMessage (opcode : UInt8) (payload : Bytes)

namespace Session

-- A message counts once, however often its Close returns nil.
def report (s : Session) (i : Nat) (h : Handle) : Session :=
  if h.reported then {s with handles := s.handles.set i h}
  else {s with handles := s.handles.set i {h with reported := true}, log := s.log ++ [h.message]}

-- NextWriter waits for the lock. A call that waits for ever, or that is made on no writer, is not a step.
def step (s : Session) : WriteCall → Option Session
  | .nextWriter opcode =>
    match s.conn.nextWriter opcode with
    | .error _ => some s
    | .ok .nop => some {s with handles := s.handles ++ [{writer := .nop}]}
    | .ok (.message w) =>
      if s.holder.isSome then none
      else some {s with handles := s.handles ++ [{writer := .message w}], holder := some s.handles.length}
  | .write i p =>
    match s.handles[i]? with
    | none => none
    | some h =>
      match h.writer with
      | .nop => some {s with handles := s.handles.set i {h with accepted := h.accepted ++ p}}
      | .message w =>
        match w.write s.conn p with
        | (c,w,.error _) => some {s with conn := c, handles := s.handles.set i {h with writer := .message w}}
        | (c,w,.ok _) => some {s with conn := c, handles := s.handles.set i {h with writer := .message w, accepted := h.accepted ++ p}}
  | .close i =>
    match s.handles[i]? with
    | none => none
    | some h =>
      match h.writer with
      | .nop => some (s.report i h)
      | .message w =>
        let s := {s with holder := if w.closed then s.holder else none}
        match w.close s.conn with
        | (c,w,some _) => some {s with conn := c, handles := s.handles.set i {h with writer := .message w}}
        | (c,w,none) => some (report {s with conn := c} i {h with writer := .message w})
  | .writeMessage opcode payload =>
    match s.conn.nextWriter opcode with
    | .error _ => some s
    | .ok .nop => some {s with log := s.log ++ [⟨opcode,payload⟩]}
    | .ok (.message _) =>
      if s.holder.isSome then none
      else
        match s.conn.writeMessage opcode payload with
        | (c,some _) => some {s with conn := c}
        | (c,none) => some {s with conn := c, log := s.log ++ [⟨opcode,payload⟩]}

def start (limits : Limits) : Session := {conn := newConn limits []}

example (limits : Limits) : (start limits).step (.close 0) = none := by rw [step]; rfl

-- The bytes written are whole frames, these group into the messages reported, and no message is left without its end once its writer has let go.
def Intact (s : Session) : Prop :=
  ∃ a, receive s.conn.output = some a ∧ a.messages = s.log ∧ (s.holder = none → a.unfinished = none)

instance (s : Session) : Decidable s.Intact :=
  decidable_of_iff ((receive s.conn.output).any (fun a => a.messages = s.log ∧ (s.holder = none → a.unfinished = none)) = true) (by
    rw [Option.any_eq_true,Intact]
    exact ⟨fun ⟨a,received,holds⟩ => ⟨a,received,of_decide_eq_true holds⟩,fun ⟨a,received,holds⟩ => ⟨a,received,decide_eq_true holds⟩⟩)

def Fits (limits : Limits) (opcode : UInt8) (payload : Bytes) : Prop :=
  payload ≠ [] → ¬(newWriter opcode).Refuses (newConn limits []) payload ∧
    (opcode = text → ((newWriter opcode).validate payload).1.finish = true → payload.length ≤ limits.maxFrame)

instance (limits : Limits) (opcode : UInt8) (payload : Bytes) : Decidable (Fits limits opcode payload) := inferInstanceAs (Decidable (_ → _))

-- A Close that reports what it does: the writer sends its message, or has sent no part of it.
def Ready : Writer → Prop
  | .nop => False
  | .message w => w.closed = false ∧ (w.Declines → w.control = true ∨ w.first = true)

instance : DecidablePred Ready
  | .nop => .isFalse id
  | .message w => inferInstanceAs (Decidable (w.closed = false ∧ (w.Declines → w.control = true ∨ w.first = true)))

-- A message is closed once, a payload is one that Write takes, and no close message is sent on a closed connection.
def Good (s : Session) : WriteCall → Prop
  | .nextWriter _ => True
  | .write _ _ => True
  | .close i => ∀ h ∈ s.handles[i]?, h.reported = true ∨ Ready h.writer
  | .writeMessage opcode payload =>
    writable opcode = true → (s.conn.closed = true → opcode ≠ Opcode.close) ∧ (s.conn.closed = false → Fits s.conn.limits opcode payload)

instance (s : Session) : DecidablePred s.Good
  | .nextWriter _ => .isTrue trivial
  | .write _ _ => .isTrue trivial
  | .close i => inferInstanceAs (Decidable (∀ h ∈ s.handles[i]?, h.reported = true ∨ Ready h.writer))
  | .writeMessage _ _ => inferInstanceAs (Decidable (_ → _))

-- The writer that holds the lock is the one that is not closed, and the wire holds what was reported and its part of a message.
structure Sound (s : Session) : Prop where
  idle : s.holder = none → Sent s.conn.output ⟨s.log,none⟩
  held : ∀ i, s.holder = some i → ∃ h w, s.handles[i]? = some h ∧ h.writer = .message w ∧ w.closed = false ∧ h.reported = false ∧ Writing s.conn s.log w h.accepted
  others : ∀ i h w, s.handles[i]? = some h → h.writer = .message w → w.closed = false → s.holder = some i

theorem start_sound (limits : Limits) : (start limits).Sound :=
  ⟨fun _ => .nothing,by simp [start],by simp [start]⟩

theorem Sound.intact {s : Session} (sound : s.Sound) : s.Intact := by
  cases holder : s.holder with
  | none => exact ⟨_,receive_sent (sound.idle holder),rfl,fun _ => rfl⟩
  | some i =>
    obtain ⟨h,w,_,_,_,_,writing⟩ := sound.held i holder
    obtain ⟨unfinished,sent⟩ := writing_sent writing
    exact ⟨_,receive_sent sent,rfl,fun free => by rw [holder] at free; cases free⟩

theorem intact_iff {s : Session} (sent : Sent s.conn.output a) : s.Intact ↔ a.messages = s.log ∧ (s.holder = none → a.unfinished = none) := by
  have received := receive_sent sent
  constructor
  · rintro ⟨b,same,holds⟩
    rw [received] at same
    cases same
    exact holds
  · exact fun holds => ⟨a,received,holds⟩

theorem Sound.wire {s : Session} (sound : s.Sound) : ∃ unfinished, Sent s.conn.output ⟨s.log,unfinished⟩ := by
  cases holder : s.holder with
  | none => exact ⟨_,sound.idle holder⟩
  | some i =>
    obtain ⟨h,w,_,_,_,_,writing⟩ := sound.held i holder
    exact writing_sent writing

theorem report_broken {s t : Session} (sound : s.Sound) (output : t.conn.output = s.conn.output) (log : t.log = s.log ++ [m]) : ¬t.Intact := by
  obtain ⟨unfinished,sent⟩ := sound.wire
  rw [← output] at sent
  rw [intact_iff sent,log]
  rintro ⟨same,_⟩
  have length : s.log.length = (s.log ++ [m]).length := congrArg List.length same
  rw [length_append,length_singleton] at length
  lia

theorem unfinished_broken {s : Session} {log : List Message} (sent : Sent s.conn.output ⟨log,some m⟩) (free : s.holder = none) : ¬s.Intact :=
  fun intact => nomatch ((intact_iff sent).mp intact).2 free

theorem unreported_broken {s : Session} (sent : Sent s.conn.output ⟨s.log ++ [m],none⟩) : ¬s.Intact := by
  intro intact
  have length : (s.log ++ [m]).length = s.log.length := congrArg List.length ((intact_iff sent).mp intact).1
  rw [length_append,length_singleton] at length
  lia

section
variable {s : Session} {i : Nat} {h : Handle}

theorem set_self (handle : (s.handles.set i h)[i]? = some h') : h' = h := by
  rw [List.getElem?_set_self'] at handle
  obtain ⟨_,_,same⟩ := Option.map_eq_some_iff.mp handle
  exact same.symm

theorem Sound.set (sound : s.Sound) (free : s.holder ≠ some i) (done : ∀ w, h.writer = .message w → w.closed = true) :
    Sound {s with handles := s.handles.set i h} := by
  refine ⟨sound.idle,fun j held => ?_,fun j h' w handle is going => ?_⟩
  · obtain ⟨h',w,handle,rest⟩ := sound.held j held
    have other : i ≠ j := fun same => free (same ▸ held)
    exact ⟨h',w,by rw [List.getElem?_set_ne other]; exact handle,rest⟩
  · by_cases same : i = j
    · subst same
      rw [set_self handle] at is
      rw [done w is] at going
      cases going
    · rw [List.getElem?_set_ne same] at handle
      exact sound.others j h' w handle is going

theorem Sound.hold (sound : s.Sound) (held : s.holder = some i) (bound : i < s.handles.length)
    (is : h.writer = .message w) (going : w.closed = false) (quiet : h.reported = false) (writing : Writing c s.log w h.accepted) :
    Sound {s with conn := c, handles := s.handles.set i h} := by
  refine ⟨fun free => (by rw [held] at free; cases free),fun j same => ?_,fun j h' w' handle is' going' => ?_⟩
  · rw [held] at same
    cases same
    exact ⟨h,w,List.getElem?_set_self bound,is,going,quiet,writing⟩
  · by_cases same : i = j
    · exact same ▸ held
    · rw [List.getElem?_set_ne same] at handle
      exact sound.others j h' w' handle is' going'

theorem Sound.release {log : List Message} (sound : s.Sound) (held : s.holder = some i)
    (done : ∀ w, h.writer = .message w → w.closed = true) (sent : Sent c.output ⟨log,none⟩) :
    Sound {conn := c, handles := s.handles.set i h, holder := none, log := log} := by
  refine ⟨fun _ => sent,nofun,fun j h' w handle is going => ?_⟩
  by_cases same : i = j
  · subst same
    rw [set_self handle] at is
    rw [done w is] at going
    cases going
  · rw [List.getElem?_set_ne same] at handle
    rw [sound.others j h' w handle is going] at held
    cases held
    exact absurd rfl same
end
section
variable {s : Session} {h : Handle}

theorem appended (handle : (s.handles ++ [h])[i]? = some h') :
    s.handles[i]? = some h' ∨ (i = s.handles.length ∧ h' = h) := by
  rw [List.getElem?_append] at handle
  split at handle
  · exact .inl handle
  rw [List.getElem?_singleton] at handle
  split at handle
  · cases handle
    exact .inr ⟨by lia,rfl⟩
  · cases handle

theorem kept {i : Nat} (handle : s.handles[i]? = some h') : (s.handles ++ [h])[i]? = some h' := by
  obtain ⟨bound,_⟩ := List.getElem?_eq_some_iff.mp handle
  rw [List.getElem?_append_left bound]
  exact handle

theorem Sound.handOutNop (sound : s.Sound) (nop : h.writer = .nop) : Sound {s with handles := s.handles ++ [h]} := by
  refine ⟨sound.idle,fun j held => ?_,fun j h' w handle is going => ?_⟩
  · obtain ⟨h',w,handle,rest⟩ := sound.held j held
    exact ⟨h',w,kept handle,rest⟩
  rcases appended handle with old | ⟨_,rfl⟩
  · exact sound.others j h' w old is going
  · rw [nop] at is
    cases is

theorem Sound.handOut (sound : s.Sound) (free : s.holder = none) (message : h.writer = .message w) (going : w.closed = false)
    (quiet : h.reported = false) (writing : Writing s.conn s.log w h.accepted) :
    Sound {s with handles := s.handles ++ [h], holder := some s.handles.length} := by
  refine ⟨nofun,fun j held => ?_,fun j h' w' handle is going' => ?_⟩
  · cases held
    exact ⟨h,w,List.getElem?_concat_length,message,going,quiet,writing⟩
  rcases appended handle with old | ⟨rfl,_⟩
  · have held := sound.others j h' w' old is going'
    rw [free] at held
    cases held
  · rfl
end

theorem nextWriter_message {c : Conn} {opcode : UInt8} (got : c.nextWriter opcode = .ok (.message w)) :
    writable opcode = true ∧ c.closed = false ∧ w = newWriter opcode := by
  rw [Conn.nextWriter] at got
  split at got
  · cases got
  rename_i may
  split at got
  · split at got
    · cases got
    · cases got
  · rename_i going
    cases got
    exact ⟨not_not.mp may,Bool.eq_false_iff.mpr going,rfl⟩

theorem nextWriter_nop {c : Conn} {opcode : UInt8} (got : c.nextWriter opcode = .ok .nop) :
    writable opcode = true ∧ c.closed = true ∧ opcode = Opcode.close := by
  rw [Conn.nextWriter] at got
  split at got
  · cases got
  rename_i may
  split at got
  · rename_i closed
    split at got
    · rename_i is
      exact ⟨not_not.mp may,closed,is⟩
    · cases got
  · cases got

theorem newWriter_accepts (opcode : UInt8) : ¬(newWriter opcode).Declines := by
  rintro (⟨_,_,invalid⟩ | ⟨_,_,cut⟩)
  · exact invalid rfl
  · cases cut

section
variable {c : Conn} {log : List Message} {opcode : UInt8} {payload : Bytes}
variable (may : writable opcode = true) (going : c.closed = false) (sent : Sent c.output ⟨log,none⟩)
include may going

theorem writeMessage_eq : c.writeMessage opcode payload = (newWriter opcode).writeWhole c payload := by
  have next : c.nextWriter opcode = .ok (.message (newWriter opcode)) := by
    rw [Conn.nextWriter,if_neg (not_not.mpr may),if_neg (by rw [going]; exact Bool.false_ne_true)]
  rw [Conn.writeMessage,next]

include sent

theorem writeMessage_refused (some : payload ≠ []) (refused : (newWriter opcode).Refuses c payload) :
    ∃ c' e, c.writeMessage opcode payload = (c',.some e) ∧ Sent c'.output ⟨log ++ [⟨opcode,[]⟩],none⟩ := by
  obtain ⟨e,wrote⟩ := newWriter_refused some refused
  obtain ⟨c',w',closed,_,_,sent'⟩ := close_sent (newWriter_writing may sent) rfl (newWriter_accepts opcode)
  rw [writeMessage_eq may going,writeWhole,if_pos (length_pos_iff.mpr some),wrote]
  simp only [closed]
  exact ⟨c',e,rfl,sent'⟩

theorem writeMessage_empty : ∃ c', c.writeMessage opcode [] = (c',none) ∧ Sent c'.output ⟨log ++ [⟨opcode,[]⟩],none⟩ := by
  obtain ⟨c',w',closed,_,_,sent'⟩ := close_sent (newWriter_writing may sent) rfl (newWriter_accepts opcode)
  rw [writeMessage_eq may going,writeWhole,if_neg (by decide),closed]
  exact ⟨c',rfl,sent'⟩

theorem writeMessage_taken (some : payload ≠ []) (fine : ¬(newWriter opcode).Refuses c payload) :
    ∃ c' w', (newWriter opcode).write c payload = (c',w',.ok payload.length) ∧ Writing c' log w' payload ∧
      Kept c c' {newWriter opcode with utf8val := ((newWriter opcode).validate payload).1} w' ∧
      (w'.Declines → c.writeMessage opcode payload = (c',.some .protocol)) ∧
      (¬w'.Declines → ∃ c'', c.writeMessage opcode payload = (c'',none) ∧ Sent c''.output ⟨log ++ [⟨opcode,payload⟩],none⟩) := by
  obtain ⟨c',w',wrote,writing,kept⟩ := write_taken (newWriter_writing may sent) rfl some fine
  have going' : w'.closed = false := kept.closed
  rw [writeMessage_eq may going,writeWhole,if_pos (length_pos_iff.mpr some),wrote]
  refine ⟨c',w',rfl,writing,kept,fun declined => ?_,fun fine => ?_⟩
  · simp [close_declined going' declined]
  obtain ⟨c'',w'',closed,_,_,sent'⟩ := close_sent writing going' fine
  rw [kept.opcode] at sent'
  simp only [closed]
  exact ⟨c'',rfl,sent'⟩
end
section
variable {s t : Session} {i : Nat} {opcode : UInt8} {p : Bytes}

theorem nextWriter_sound (sound : s.Sound) (did : s.step (.nextWriter opcode) = some t) : t.Sound := by
  rw [step] at did
  split at did
  · cases did
    exact sound
  · cases did
    exact sound.handOutNop rfl
  rename_i w got
  obtain ⟨may,_,rfl⟩ := nextWriter_message got
  split at did
  · cases did
  rename_i free
  cases did
  have free := Option.not_isSome_iff_eq_none.mp free
  exact sound.handOut free rfl rfl rfl (newWriter_writing may (sound.idle free))

theorem Sound.holds (sound : s.Sound) (handle : s.handles[i]? = some h) (is : h.writer = .message w) (going : w.closed = false) :
    s.holder = some i ∧ i < s.handles.length ∧ h.reported = false ∧ Writing s.conn s.log w h.accepted := by
  have held := sound.others i h w handle is going
  obtain ⟨h',w',handle',is',_,quiet,writing⟩ := sound.held i held
  rw [handle] at handle'
  cases handle'
  rw [is] at is'
  cases is'
  exact ⟨held,(List.getElem?_eq_some_iff.mp handle).1,quiet,writing⟩

theorem Sound.free (sound : s.Sound) (handle : s.handles[i]? = some h) (done : ∀ w, h.writer = .message w → w.closed = true) : s.holder ≠ some i := by
  intro held
  obtain ⟨h',w,handle',is,going,_⟩ := sound.held i held
  rw [handle] at handle'
  cases handle'
  rw [done w is] at going
  cases going

theorem write_sound (sound : s.Sound) (did : s.step (.write i p) = some t) : t.Sound := by
  rw [step] at did
  split at did
  · cases did
  rename_i h handle
  split at did
  · rename_i nop
    cases did
    have done : ∀ w, h.writer = .message w → w.closed = true := fun w is => (by rw [nop] at is; cases is)
    exact sound.set (sound.free handle done) done
  · rename_i w is
    cases going : w.closed with
    | true =>
      have refused : w.write s.conn p = (s.conn,w,.error .closed) := by rw [MessageWriter.write,if_pos going]
      rw [refused] at did
      cases did
      have done : ∀ v, h.writer = .message v → v.closed = true := by
        intro v same
        rw [is] at same
        cases same
        exact going
      exact sound.set (sound.free handle done) (fun v same => by cases same; exact going)
    | false =>
      obtain ⟨held,bound,quiet,writing⟩ := sound.holds handle is going
      by_cases some : p = []
      · have taken : w.write s.conn p = (s.conn,w,.ok 0) := by rw [MessageWriter.write,if_neg (by rw [going]; exact Bool.false_ne_true),if_pos (by rw [some]; rfl)]
        rw [taken] at did
        cases did
        exact sound.hold held bound rfl going quiet (by rw [some,append_nil]; exact writing)
      · by_cases refused : w.Refuses s.conn p
        · obtain ⟨e,v,wrote,_⟩ := write_refused going some refused
          rw [wrote] at did
          cases did
          exact sound.hold held bound rfl going quiet (writing_validated writing v)
        · obtain ⟨c',w',wrote,later,kept⟩ := write_taken writing going some refused
          rw [wrote] at did
          cases did
          exact sound.hold held bound rfl (kept.closed.trans going) quiet later

theorem close_nop (handle : s.handles[i]? = some h) (is : h.writer = .nop) (did : s.step (.close i) = some t) : t = s.report i h := by
  rw [step,handle] at did
  simp only [is] at did
  cases did
  rfl

section
variable {h : Handle} {w : MessageWriter} (handle : s.handles[i]? = some h) (is : h.writer = .message w)
include handle is

theorem close_again (closed : w.closed = true)
    (did : s.step (.close i) = some t) : t = s.report i h := by
  have same : w.close s.conn = (s.conn,w,none) := by rw [MessageWriter.close,if_pos closed]
  rw [step,handle] at did
  simp only [is,closed,if_true,same] at did
  cases did
  rw [← is]

theorem close_open (going : w.closed = false)
    (declined : w.Declines) (did : s.step (.close i) = some t) :
    t = {s with holder := none, handles := s.handles.set i {h with writer := .message {w with closed := true}}} := by
  rw [step,handle] at did
  simp only [is,close_declined going declined,going] at did
  cases did
  rfl
end

theorem nextWriter_error {c : Conn} (may : writable opcode = true) (got : c.nextWriter opcode = .error e) :
    c.closed = true ∧ opcode ≠ Opcode.close := by
  rw [Conn.nextWriter,if_neg (not_not.mpr may)] at got
  split at got
  · rename_i closed
    split at got
    · cases got
    · rename_i other
      exact ⟨closed,other⟩
  · cases got

section
variable (sound : s.Sound)
include sound

theorem report_reported (handle : s.handles[i]? = some h) (reported : h.reported = true) : (s.report i h).Sound := by
  have done : ∀ w, h.writer = .message w → w.closed = true := by
    intro w is
    cases going : w.closed with
    | true => rfl
    | false =>
      obtain ⟨_,_,quiet,_⟩ := sound.holds handle is going
      rw [reported] at quiet
      cases quiet
  rw [report,if_pos reported]
  exact sound.set (sound.free handle done) done

theorem close_sound (good : s.Good (.close i)) (did : s.step (.close i) = some t) : t.Sound := by
  cases handle : s.handles[i]? with
  | none =>
    rw [step,handle] at did
    cases did
  | some h =>
    have good := good h handle
    cases is : h.writer with
    | nop =>
      simp only [is,Ready,or_false] at good
      rw [close_nop handle is did]
      exact report_reported sound handle good
    | message w =>
      simp only [is,Ready] at good
      cases going : w.closed with
      | true =>
        simp only [going,Bool.true_eq_false,false_and,or_false] at good
        rw [close_again handle is going did]
        exact report_reported sound handle good
      | false =>
        obtain ⟨held,bound,quiet,writing⟩ := sound.holds handle is going
        simp only [quiet,Bool.false_eq_true,false_or] at good
        by_cases declined : w.Declines
        · rw [close_open handle is going declined did]
          exact sound.release held (fun v same => by cases same; rfl) (writing_waits writing (good.2 declined))
        obtain ⟨c',w',closed,shut,same,sent⟩ := close_sent writing going declined
        rw [step,handle] at did
        simp only [is,closed,going] at did
        cases did
        rw [report,if_neg (by rw [quiet]; exact Bool.false_ne_true)]
        refine sound.release held (fun v same => by cases same; exact shut) ?_
        rw [← same] at sent
        exact sent

theorem close_broken (bad : ¬s.Good (.close i)) (did : s.step (.close i) = some t) : ¬t.Intact := by
  cases handle : s.handles[i]? with
  | none =>
    rw [step,handle] at did
    cases did
  | some h =>
    have bad : ¬(h.reported = true ∨ Ready h.writer) := by
      intro good
      refine bad fun h' same => ?_
      rw [Option.mem_def,handle] at same
      cases same
      exact good
    rw [not_or] at bad
    obtain ⟨quiet,why⟩ := bad
    have reports : ¬(s.report i h).Intact := by
      rw [report,if_neg quiet]
      exact report_broken sound rfl rfl
    cases is : h.writer with
    | nop =>
      rw [close_nop handle is did]
      exact reports
    | message w =>
      simp only [is,Ready] at why
      cases going : w.closed with
      | true =>
        rw [close_again handle is going did]
        exact reports
      | false =>
        -- the first frames of a text are sent and its last rune has no end
        obtain ⟨held,bound,_,writing⟩ := sound.holds handle is going
        simp only [going,true_and,Classical.not_imp,not_or] at why
        obtain ⟨declined,data,begun⟩ := why
        obtain ⟨m,sent⟩ := writing_begun writing (Bool.eq_false_iff.mpr data) (Bool.eq_false_iff.mpr begun)
        rw [close_open handle is going declined did]
        exact unfinished_broken sent rfl

theorem writeMessage_sound (good : s.Good (.writeMessage opcode p)) (did : s.step (.writeMessage opcode p) = some t) : t.Sound := by
  rw [step] at did
  split at did
  · cases did
    exact sound
  · rename_i got
    obtain ⟨may,closed,is⟩ := nextWriter_nop got
    exact absurd is ((good may).1 closed)
  · rename_i got
    obtain ⟨may,going,_⟩ := nextWriter_message got
    split at did
    · cases did
    rename_i free
    have free := Option.not_isSome_iff_eq_none.mp free
    have sent := sound.idle free
    have fits := (good may).2 going
    have later : ∀ {c log}, Sent c.output ⟨log,none⟩ → Sound {s with conn := c, log := log} := by
      intro c log sent'
      refine ⟨fun _ => sent',fun j held => ?_,sound.others⟩
      rw [free] at held
      cases held
    by_cases some : p = []
    · obtain ⟨c',wrote,sent'⟩ := writeMessage_empty may going sent
      rw [some,wrote] at did
      cases did
      exact later sent'
    · obtain ⟨fine,small⟩ := fits some
      have fine : ¬(newWriter opcode).Refuses s.conn p := fine
      obtain ⟨c',w',took,writing,kept,declines,sends⟩ := writeMessage_taken may going sent some fine
      by_cases declined : w'.Declines
      · rw [declines declined] at did
        cases did
        refine later (writing_waits writing ?_)
        rcases declined with ⟨control,_⟩ | ⟨_,text,cut⟩
        · exact .inl control
        -- the whole text waits in the buffer
        have text : opcode = Opcode.text := kept.opcode.symm.trans text
        rw [kept.utf8val] at cut
        obtain ⟨w'',took',first,_⟩ := write_small text some fine (small text cut)
        rw [took] at took'
        cases took'
        exact .inr first
      · obtain ⟨c'',wrote,sent'⟩ := sends declined
        rw [wrote] at did
        cases did
        exact later sent'

theorem writeMessage_broken (bad : ¬s.Good (.writeMessage opcode p)) (did : s.step (.writeMessage opcode p) = some t) : ¬t.Intact := by
  simp only [Good,Classical.not_imp] at bad
  obtain ⟨may,why⟩ := bad
  rw [step] at did
  split at did
  · rename_i got
    obtain ⟨closed,other⟩ := nextWriter_error may got
    exact absurd ⟨fun _ => other,fun going => (by rw [closed] at going; cases going)⟩ why
  · cases did
    exact report_broken sound rfl rfl
  · rename_i got
    obtain ⟨_,going,_⟩ := nextWriter_message got
    split at did
    · cases did
    rename_i free
    have sent := sound.idle (Option.not_isSome_iff_eq_none.mp free)
    have unfit : ¬Fits s.conn.limits opcode p := fun fits => why ⟨fun closed => (by rw [going] at closed; cases closed),fun _ => fits⟩
    rw [Fits,Classical.not_imp] at unfit
    obtain ⟨some,unfit⟩ := unfit
    by_cases refused : (newWriter opcode).Refuses s.conn p
    · -- the empty message that Close sends after the error
      obtain ⟨c',e,wrote,sent'⟩ := writeMessage_refused may going sent some refused
      rw [wrote] at did
      cases did
      exact unreported_broken sent'
    · -- the first frames of a text whose last rune has no end
      have unfit : ¬(opcode = text → ((newWriter opcode).validate p).1.finish = true → p.length ≤ s.conn.limits.maxFrame) :=
        fun small => unfit ⟨refused,small⟩
      simp only [Classical.not_imp,Nat.not_le] at unfit
      obtain ⟨text,cut,long⟩ := unfit
      obtain ⟨c',w',took,writing,kept,declines,_⟩ := writeMessage_taken may going sent some refused
      have data : w'.control = false := by
        rw [kept.control,text]
        rfl
      have declined : w'.Declines := .inr ⟨data,kept.opcode.trans text,by rw [kept.utf8val]; exact cut⟩
      rw [← kept.limits] at long
      obtain ⟨m,sent'⟩ := writing_begun writing data (writing_long writing data long)
      rw [declines declined] at did
      cases did
      exact unfinished_broken sent' (Option.not_isSome_iff_eq_none.mp free)

theorem step_sound (good : s.Good call) (did : s.step call = some t) : t.Sound := by
  cases call with
  | nextWriter opcode => exact nextWriter_sound sound did
  | write i p => exact write_sound sound did
  | close i => exact close_sound sound good did
  | writeMessage opcode payload => exact writeMessage_sound sound good did

theorem step_broken (bad : ¬s.Good call) (did : s.step call = some t) : ¬t.Intact := by
  cases call with
  | nextWriter opcode | write i p => exact absurd trivial bad
  | close i => exact close_broken sound bad did
  | writeMessage opcode payload => exact writeMessage_broken sound bad did
end
end

def states (s : Session) : List WriteCall → List Session
  | [] => [s]
  | call :: calls =>
    match s.step call with
    | none => [s]
    | some t => s :: t.states calls

def AllGood (s : Session) : List WriteCall → Prop
  | [] => True
  | call :: calls => ∀ t ∈ s.step call, s.Good call ∧ t.AllGood calls

def decideGood : ∀ (calls : List WriteCall) (s : Session), Decidable (s.AllGood calls)
  | [],_ => .isTrue trivial
  | call :: calls,s =>
    have := decideGood calls
    inferInstanceAs (Decidable (∀ t ∈ s.step call, s.Good call ∧ t.AllGood calls))

instance (s : Session) (calls : List WriteCall) : Decidable (s.AllGood calls) := decideGood calls s

theorem first_state (s : Session) (calls : List WriteCall) : s ∈ s.states calls := by
  cases calls with
  | nil => exact mem_singleton_self s
  | cons call calls =>
    rw [states]
    cases s.step call with
    | none => exact mem_singleton_self s
    | some t => exact mem_cons_self

theorem states_intact {s : Session} (sound : s.Sound) (calls : List WriteCall) : (∀ t ∈ s.states calls, t.Intact) ↔ s.AllGood calls := by
  induction calls generalizing s with
  | nil => exact ⟨fun _ => trivial,fun _ t mem => by rw [mem_singleton.mp mem]; exact sound.intact⟩
  | cons call calls ih =>
    rw [states,AllGood]
    cases did : s.step call with
    | none => exact ⟨by rintro - _ ⟨⟩,fun _ t mem => by rw [mem_singleton.mp mem]; exact sound.intact⟩
    | some t =>
      constructor
      · intro intact u same
        cases same
        by_cases good : s.Good call
        · exact ⟨good,(ih (step_sound sound good did)).mp fun u mem => intact u (mem_cons_of_mem s mem)⟩
        · exact absurd (intact t (mem_cons_of_mem s (t.first_state calls))) (step_broken sound good did)
      · intro good u mem
        obtain ⟨good,later⟩ := good t rfl
        rcases mem_cons.mp mem with rfl | mem
        · exact sound.intact
        · exact (ih (step_sound sound good did)).mpr later u mem

-- The wire holds the messages reported, after every call, exactly when every call is a good one.
theorem wire_intact_iff (cfg : Config) (calls : List WriteCall) :
    (∀ s ∈ (start (normalizeConfig cfg)).states calls, s.Intact) ↔ (start (normalizeConfig cfg)).AllGood calls :=
  states_intact (start_sound _) calls

-- A text that is no UTF-8 is refused, and an empty message is sent in its place.
theorem refused_text_sent :
    ((start (normalizeConfig {})).conn.writeMessage text [0xFF]).2 = some .protocol ∧
      ((start (normalizeConfig {})).step (.writeMessage text [0xFF])).any (fun s => s.conn.output = [0x81,0x00] ∧ s.log = [] ∧ ¬s.Intact) := by
  decide

def smallFrames : List WriteCall :=
  [.nextWriter text,.write 0 [0x61,0xC3],.write 0 [0xA9,0x62],.write 0 [0xFF],.close 0,.close 0,.writeMessage ping [0x70],.writeMessage close [],
    .writeMessage text [0x61]]

theorem small_frames_intact :
    (start (normalizeConfig {maxFrameSize := 2})).AllGood smallFrames ∧
      (∀ s ∈ (start (normalizeConfig {maxFrameSize := 2})).states smallFrames, s.Intact) ∧
      ((start (normalizeConfig {maxFrameSize := 2})).states smallFrames).getLast?.any (fun s => s.log = [⟨Opcode.text,[0x61,0xC3,0xA9,0x62]⟩,⟨Opcode.ping,[0x70]⟩,⟨Opcode.close,[]⟩]) := by
  have good : (start (normalizeConfig {maxFrameSize := 2})).AllGood smallFrames := by decide
  exact ⟨good,(wire_intact_iff {maxFrameSize := 2} smallFrames).mpr good,by decide⟩
end Session
end FhServer.WebSocket

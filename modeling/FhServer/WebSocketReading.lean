import FhServer.WebSocketReader

namespace FhServer.WebSocket
open WebSocket.Conn GoText List Opcode Nat

structure PeerControl where
  isPing : Bool
  mask : Mask
  payload : Bytes
  short : payload.length ≤ 125

def PeerControl.frame (k : PeerControl) : Frame := ⟨true,if k.isPing then ping else pong,k.payload⟩

def PeerControl.bytes (k : PeerControl) : Bytes := k.frame.masked k.mask

structure Fragment where
  before : List PeerControl := []
  mask : Mask
  payload : Bytes

def Fragment.bytes (f : Fragment) (fin : Bool) (opcode : UInt8) : Bytes := f.before.flatMap PeerControl.bytes ++ (⟨fin,opcode,f.payload⟩ : Frame).masked f.mask

def moreBytes : List Fragment → Bytes
  | [] => []
  | f :: more => f.bytes more.isEmpty continuation ++ moreBytes more

structure PeerMessage where
  isText : Bool
  first : Fragment
  more : List Fragment := []

namespace PeerMessage

def opcode (m : PeerMessage) : UInt8 := if m.isText then text else binary
def payload (m : PeerMessage) : Bytes := m.first.payload ++ m.more.flatMap Fragment.payload
def message (m : PeerMessage) : Message := ⟨m.opcode,m.payload⟩
def bytes (m : PeerMessage) : Bytes := m.first.bytes m.more.isEmpty m.opcode ++ moreBytes m.more

structure Within (limits : Limits) (m : PeerMessage) : Prop where
  text : m.isText = true → validUtf8 m.payload = true
  size : m.payload.length ≤ limits.maxMessage
  count : m.more.length+1 ≤ limits.maxFragments
  frames : ∀ f ∈ m.first :: m.more, f.payload.length ≤ limits.maxFrame
end PeerMessage

def ControlsFit (limits : Limits) (controls : List PeerControl) : Prop := ∀ k ∈ controls, k.payload.length ≤ limits.maxFrame

instance (limits : Limits) (controls : List PeerControl) : Decidable (ControlsFit limits controls) :=
  inferInstanceAs (Decidable (∀ k ∈ controls, k.payload.length ≤ limits.maxFrame))

structure At (limits : Limits) (rate : RateWindow) (input : Bytes) (c : Conn) : Prop where
  going : c.closed = false
  limits : c.limits = limits
  rate : c.rate = rate
  input : c.input = input

section
open PeerControl
variable {limits : Limits} {rate : RateWindow} {c : Conn} {rest : Bytes}

theorem PeerControl.formed (k : PeerControl) : k.frame.WellFormed := by
  refine ⟨?_,fun _ => ⟨rfl,k.short⟩,lt_of_le_of_lt k.short (by decide)⟩
  rw [frame]
  cases k.isPing with
  | true => rfl
  | false => rfl

theorem writeMessage_pong (going : c.closed = false) (short : p.length ≤ 125) (fits : p.length ≤ c.limits.maxMessage) :
    c.writeMessage pong p = (c.writeFrame ⟨true,pong,p⟩,none) := by
  have next : c.nextWriter pong = .ok (.message (newWriter pong)) := by
    rw [Conn.nextWriter,if_neg (by decide),if_neg (by rw [going]; exact Bool.false_ne_true)]
  rw [Conn.writeMessage,next]
  simp only [MessageWriter.writeWhole]
  split
  · rename_i some
    have taken : (newWriter pong).write c p = (c,{newWriter pong with buf := p, total := p.length},.ok p.length) := by
      have length : (newWriter pong).total+p.length = p.length := Nat.zero_add _
      have room : ¬(newWriter pong).buf.length+p.length > 125 := by
        show ¬0+p.length > 125
        lia
      have quiet : (newWriter pong).validate p = ({},false) := rfl
      rw [MessageWriter.write,if_neg (by decide),if_neg (by lia),if_neg (by rw [length]; lia)]
      simp only [quiet]
      rw [if_neg Bool.false_ne_true,if_pos (by rfl),if_neg room,length]
      rfl
    rw [taken]
    rfl
  · rename_i none
    rw [eq_nil_of_length_eq_zero (Nat.eq_zero_of_not_pos none)]
    rfl

theorem dataFrame_control {k : PeerControl} (rounds : Nat) (stands : At limits rate (k.bytes ++ rest) c) :
    (k.payload.length ≤ limits.maxFrame → ∃ c', Conn.dataFrame (rounds+1) c = Conn.dataFrame rounds c' ∧ At limits rate rest c') ∧
      (limits.maxFrame < k.payload.length → ∃ c', Conn.dataFrame (rounds+1) c = (c',.error .tooLarge)) := by
  obtain ⟨going,rfl,rfl,input⟩ := stands
  obtain ⟨reads,refuses⟩ := readFrame_masked going k.formed input
  constructor
  · intro fits
    have message := le_trans fits c.limits.frame_le
    rw [Conn.dataFrame,reads fits]
    simp only [andThen]
    cases kind : k.isPing with
    | true =>
      have ping : k.frame.opcode = ping := by
        rw [frame,kind]
        rfl
      rw [if_pos ping,show k.frame.payload = k.payload from rfl,writeMessage_pong (c := {c with input := rest}) going k.short message]
      exact ⟨_,rfl,going,rfl,rfl,rfl⟩
    | false =>
      have pong : k.frame.opcode = pong := by
        rw [frame,kind]
        rfl
      rw [if_neg (by rw [pong]; decide),if_pos pong]
      exact ⟨_,rfl,going,rfl,rfl,rfl⟩
  · intro large
    obtain ⟨c',refused⟩ := refuses large
    exact ⟨c',by rw [Conn.dataFrame,refused]; rfl⟩

theorem dataFrame_controls (rounds : Nat) (controls : List PeerControl) (stands : At limits rate (controls.flatMap bytes ++ rest) c) :
    (ControlsFit limits controls → ∃ c', Conn.dataFrame (controls.length+rounds) c = Conn.dataFrame rounds c' ∧ At limits rate rest c') ∧
      (¬ControlsFit limits controls → ∃ c', Conn.dataFrame (controls.length+rounds) c = (c',.error .tooLarge)) := by
  induction controls generalizing c with
  | nil => exact ⟨fun _ => ⟨c,by rw [length_nil,Nat.zero_add],stands⟩,fun unfit => absurd nofun unfit⟩
  | cons k controls ih =>
    rw [flatMap_cons,append_assoc] at stands
    have length : (k :: controls).length+rounds = controls.length+rounds+1 := by
      rw [length_cons]
      lia
    rw [length]
    obtain ⟨passes,refuses⟩ := dataFrame_control (controls.length+rounds) stands
    by_cases fits : k.payload.length ≤ limits.maxFrame
    · obtain ⟨c',same,later⟩ := passes fits
      rw [same]
      obtain ⟨all,some⟩ := ih later
      refine ⟨fun fit => all fun j mem => fit j (mem_cons_of_mem k mem),fun unfit => some fun fit => unfit fun j mem => ?_⟩
      rcases mem_cons.mp mem with rfl | mem
      · exact fits
      · exact fit j mem
    · exact ⟨fun fit => absurd (fit k mem_cons_self) fits,fun _ => refuses (not_le.mp fits)⟩

theorem controls_length (controls : List PeerControl) : controls.length ≤ (controls.flatMap bytes).length := by
  induction controls with
  | nil => exact le_refl 0
  | cons k controls ih =>
    rw [flatMap_cons,length_append,length_cons,bytes,Frame.masked,length_cons]
    lia

theorem nextData_controls (controls : List PeerControl) (stands : At limits rate (controls.flatMap bytes ++ rest) c) :
    (ControlsFit limits controls → ∃ c' rounds, c.nextData = Conn.dataFrame (rounds+1) c' ∧ At limits rate rest c') ∧
      (¬ControlsFit limits controls → ∃ c', c.nextData = (c',.error .tooLarge)) := by
  have enough := controls_length controls
  have length : c.input.length+1 = controls.length+(c.input.length-controls.length+1) := by
    have input := stands.input
    rw [input,length_append]
    lia
  obtain ⟨passes,refuses⟩ := dataFrame_controls (c.input.length-controls.length+1) controls stands
  rw [nextData,length]
  refine ⟨fun fit => ?_,refuses⟩
  obtain ⟨c',same,later⟩ := passes fit
  exact ⟨c',_,same,later⟩

theorem nextData_fragment {f : Fragment} (data : opcode = Opcode.continuation ∨ opcode = Opcode.text ∨ opcode = Opcode.binary)
    (size : f.payload.length ≤ limits.maxFrame) (stands : At limits rate (f.bytes fin opcode ++ rest) c) :
    (ControlsFit limits f.before → ∃ c', c.nextData = (c',.ok ⟨fin,opcode,f.payload⟩) ∧ At limits rate rest c') ∧
      (¬ControlsFit limits f.before → ∃ c', c.nextData = (c',.error .tooLarge)) := by
  rw [Fragment.bytes,append_assoc] at stands
  obtain ⟨passes,refuses⟩ := nextData_controls f.before stands
  refine ⟨fun fit => ?_,refuses⟩
  obtain ⟨c',rounds,same,later⟩ := passes fit
  obtain ⟨going,rfl,rfl,input⟩ := later
  have long := c'.limits.message_lt
  have frame := c'.limits.frame_le
  have plain : ¬(0x8 : UInt8) ≤ opcode ∧ knownOpcode opcode = true ∧ opcode ≠ ping ∧ opcode ≠ pong ∧ opcode ≠ close := by
    rcases data with rfl | rfl | rfl
    · decide
    · decide
    · decide
  obtain ⟨low,known,ping,pong,close⟩ := plain
  have formed : (⟨fin,opcode,f.payload⟩ : Frame).WellFormed := ⟨known,fun high => absurd high low,by show f.payload.length < 2^63; lia⟩
  rw [same,Conn.dataFrame,(readFrame_masked going formed input).1 size]
  simp only [andThen,if_neg ping,if_neg pong,if_neg close]
  exact ⟨_,rfl,going,rfl,rfl,rfl⟩

theorem nextData_end (stands : At limits rate (controls.flatMap bytes) c) :
    (ControlsFit limits controls → ∃ c', c.nextData = (c',.error .eof)) ∧ (¬ControlsFit limits controls → ∃ c', c.nextData = (c',.error .tooLarge)) := by
  rw [← append_nil (controls.flatMap bytes)] at stands
  obtain ⟨passes,refuses⟩ := nextData_controls controls stands
  refine ⟨fun fit => ?_,refuses⟩
  obtain ⟨c',rounds,same,going,_,_,input⟩ := passes fit
  have ended : c'.readFull 2 = ({c' with input := []},.error .eof) := by rw [Conn.readFull,input,if_neg (by decide),if_pos rfl]
  refine ⟨{c' with input := []},?_⟩
  rw [same,Conn.dataFrame,readFrame,if_neg (by rw [going]; exact Bool.false_ne_true),ended]
  simp [andThen]
end

-- A message part of which has been read: what was delivered, what is left of it, and what the connection still holds.
structure Midway (limits : Limits) (rate : RateWindow) (after seen left : Bytes) (more : List Fragment) (r : MessageReader) (c : Conn) : Prop where
  stands : At limits rate (moreBytes more ++ after) c
  final : r.finalFrame = more.isEmpty
  rest : left = r.currentPayload.drop r.currentOffset ++ more.flatMap Fragment.payload
  count : r.fragments+more.length ≤ limits.maxFragments
  size : r.total+(more.flatMap Fragment.payload).length ≤ limits.maxMessage
  frames : ∀ f ∈ more, f.payload.length ≤ limits.maxFrame
  going : r.closed = false
  fresh : r.finished = false
  text : r.firstOpcode = text → r.utf8val.Saw seen ∧ validUtf8 (seen ++ left) = true

structure Ended (limits : Limits) (rate : RateWindow) (after : Bytes) (opcode : UInt8) (r : MessageReader) (c : Conn) : Prop where
  stands : At limits rate after c
  finished : r.finished = true
  opcode : r.firstOpcode = opcode

def FragmentsFit (limits : Limits) (more : List Fragment) : Prop := ∀ f ∈ more, ControlsFit limits f.before

instance (limits : Limits) (more : List Fragment) : Decidable (FragmentsFit limits more) := inferInstanceAs (Decidable (∀ f ∈ more, ControlsFit limits f.before))

inductive Gives (limits : Limits) (rate later : RateWindow) (after seen left : Bytes) (more : List Fragment) (opcode : UInt8) :
    Conn × MessageReader × Except WsError Bytes → Prop
  | chunk (some : chunk ≠ []) (rest : left = chunk ++ left') (midway : Midway limits rate after (seen ++ chunk) left' more' r c)
      (same : r.firstOpcode = opcode) (fit : FragmentsFit limits more' ↔ FragmentsFit limits more) : Gives limits rate later after seen left more opcode (c,r,.ok chunk)
  | finished (none : left = []) (fit : FragmentsFit limits more) (ended : Ended limits later after opcode r c) :
      Gives limits rate later after seen left more opcode (c,r,.error .eof)
  | refused (unfit : ¬FragmentsFit limits more) : Gives limits rate later after seen left more opcode (c,r,.error .tooLarge)

inductive GivesAll (limits : Limits) (later : RateWindow) (after left : Bytes) (more : List Fragment) (opcode : UInt8) :
    Conn × MessageReader × Bytes × Option WsError → Prop
  | whole (fit : FragmentsFit limits more) (ended : Ended limits later after opcode r c) : GivesAll limits later after left more opcode (c,r,left,some .eof)
  | refused (unfit : ¬FragmentsFit limits more) : GivesAll limits later after left more opcode (c,r,data,some .tooLarge)

section
open MessageReader
variable {limits : Limits} {rate : RateWindow} {after seen left : Bytes} {more : List Fragment} {r : MessageReader} {c : Conn} {now n : Nat}

theorem fragmentsFit_cons (limits : Limits) (f : Fragment) (more : List Fragment) : FragmentsFit limits (f :: more) ↔ ControlsFit limits f.before ∧ FragmentsFit limits more :=
  forall_mem_cons

theorem validate_part (text : r.firstOpcode = text → r.utf8val.Saw seen ∧ validUtf8 (seen ++ (part ++ left')) = true) :
    (r.validate part).2 = false ∧ (r.firstOpcode = Opcode.text → (r.validate part).1.Saw (seen ++ part)) := by
  rw [validate]
  split
  · rename_i is
    obtain ⟨saw,valid⟩ := text is
    rw [← append_assoc,validUtf8_iff,Fragments.run_append runeStep_steady] at valid
    rw [Utf8StreamValidator.write_saw saw part]
    cases ran : Fragments.run runeStep () (seen ++ part) with
    | stopped t tail => exact ⟨rfl,fun _ => ran⟩
    | failed t =>
      rw [ran] at valid
      cases valid
  · rename_i other
    exact ⟨rfl,fun is => absurd is other⟩

theorem finish_valid (text : r.firstOpcode = text → r.utf8val.Saw seen ∧ validUtf8 (seen ++ []) = true) :
    ¬(r.firstOpcode = Opcode.text ∧ r.utf8val.finish = true) := by
  rintro ⟨is,cut⟩
  obtain ⟨saw,valid⟩ := text is
  rw [append_nil,validUtf8_iff] at valid
  rw [Utf8StreamValidator.Saw,valid] at saw
  cases saw_is : r.utf8val.tail with
  | nil =>
    rw [Utf8StreamValidator.finish,saw_is] at cut
    cases cut
  | cons b tail =>
    rw [saw_is] at saw
    cases saw

theorem nextContinuation_spec (midway : Midway limits rate after seen left (f :: more) r c) (used : r.currentPayload.length ≤ r.currentOffset) :
    (ControlsFit limits f.before → ∃ c' r', r.nextContinuationFrame c = (c',.ok r') ∧ r'.firstOpcode = r.firstOpcode ∧ Midway limits rate after seen left more r' c') ∧
      (¬ControlsFit limits f.before → ∃ c', r.nextContinuationFrame c = (c',.error .tooLarge)) := by
  have stands := midway.stands
  rw [moreBytes,append_assoc] at stands
  obtain ⟨passes,refuses⟩ := nextData_fragment (.inl rfl) (midway.frames f mem_cons_self) stands
  constructor
  · intro fit
    obtain ⟨c',next,stands'⟩ := passes fit
    have count := midway.count
    have size := midway.size
    have rest := midway.rest
    rw [drop_eq_nil_of_le used,nil_append,flatMap_cons] at rest
    rw [length_cons] at count
    rw [flatMap_cons,length_append] at size
    have fewer : r.fragments+1+more.length ≤ limits.maxFragments := by lia
    have less : r.total+f.payload.length+(more.flatMap Fragment.payload).length ≤ limits.maxMessage := by lia
    rw [nextContinuationFrame,next]
    simp only [andThen,if_true]
    rw [stands'.limits,if_neg (by lia),if_neg (by lia)]
    exact ⟨_,_,rfl,rfl,stands',rfl,rest,fewer,less,fun g mem => midway.frames g (mem_cons_of_mem f mem),midway.going,midway.fresh,midway.text⟩
  · intro unfit
    obtain ⟨c',next⟩ := refuses unfit
    exact ⟨c',by rw [nextContinuationFrame,next]; rfl⟩

theorem readLoop_spec (some : 0 < n) (allowed : (rate.allow limits.rateLimit now).2 = true) (enough : more.length < rounds)
    (midway : Midway limits rate after seen left more r c) :
    Gives limits rate (rate.allow limits.rateLimit now).1 after seen left more r.firstOpcode (readLoop now n rounds r c) := by
  induction rounds generalizing more r c with
  | zero => cases enough
  | succ rounds ih =>
    rw [readLoop]
    by_cases available : r.currentOffset < r.currentPayload.length
    · rw [if_pos available]
      generalize chunk_is : (r.currentPayload.drop r.currentOffset).take n = chunk
      have length : chunk.length = min n (r.currentPayload.length-r.currentOffset) := by rw [← chunk_is,length_take,length_drop]
      have filled : chunk ≠ [] := by
        intro none
        rw [none,length_nil] at length
        lia
      have rest : left = chunk ++ (r.currentPayload.drop (r.currentOffset+chunk.length) ++ more.flatMap Fragment.payload) := by
        have front : (r.currentPayload.drop r.currentOffset).take chunk.length = chunk := by
          rw [length,← length_drop,← take_eq_take_min,chunk_is]
        have whole := take_append_drop chunk.length (r.currentPayload.drop r.currentOffset)
        rw [front] at whole
        rw [midway.rest,← drop_drop,← append_assoc,whole]
      have text := midway.text
      rw [rest] at text
      obtain ⟨passes,saw⟩ := validate_part text
      simp only [passes]
      refine .chunk filled rest ⟨midway.stands,midway.final,rfl,midway.count,midway.size,midway.frames,midway.going,midway.fresh,fun is => ⟨saw is,?_⟩⟩ rfl Iff.rfl
      rw [append_assoc]
      exact (text is).2
    · rw [if_neg available]
      have used := not_lt.mp available
      cases more with
      | nil =>
        have none : left = [] := by rw [midway.rest,drop_eq_nil_of_le used]; rfl
        have text := midway.text
        rw [none] at text
        rw [midway.final,if_pos isEmpty_nil,finishMessage,midway.fresh,if_neg Bool.false_ne_true,if_neg (finish_valid text),allowMessage,midway.stands.rate,midway.stands.limits,allowed]
        exact .finished none nofun ⟨⟨midway.stands.going,rfl,rfl,midway.stands.input⟩,rfl,rfl⟩
      | cons f more =>
        obtain ⟨passes,refuses⟩ := nextContinuation_spec midway used
        rw [midway.final,if_neg (by exact Bool.false_ne_true)]
        by_cases fit : ControlsFit limits f.before
        · obtain ⟨c',r',next,same,midway'⟩ := passes fit
          rw [next]
          have fits : FragmentsFit limits more ↔ FragmentsFit limits (f :: more) := by
            rw [fragmentsFit_cons]
            exact ⟨fun later => ⟨fit,later⟩,fun all => all.2⟩
          have gives := ih (lt_of_succ_lt_succ enough) midway'
          simp only []
          generalize readLoop now n rounds r' c' = result at gives ⊢
          cases gives with
          | chunk some rest midway same' fit' => exact .chunk some rest midway (same'.trans same) (fit'.trans fits)
          | finished none fit' ended => exact .finished none (fits.mp fit') ⟨ended.stands,ended.finished,ended.opcode.trans same⟩
          | refused unfit => exact .refused fun all => unfit (fits.mpr all)
        · obtain ⟨c',next⟩ := refuses fit
          rw [next]
          exact .refused fun all => fit ((fragmentsFit_cons limits f more).mp all).1

theorem moreBytes_length (more : List Fragment) : more.length ≤ (moreBytes more).length := by
  induction more with
  | nil => exact le_refl 0
  | cons f more ih =>
    rw [moreBytes,length_append,length_cons,Fragment.bytes,length_append,Frame.masked,length_cons]
    lia

theorem read_spec (some : 0 < n) (allowed : (rate.allow limits.rateLimit now).2 = true) (midway : Midway limits rate after seen left more r c) :
    Gives limits rate (rate.allow limits.rateLimit now).1 after seen left more r.firstOpcode (r.read c now n) := by
  have length := moreBytes_length more
  have enough : more.length < c.input.length+1 := by
    rw [midway.stands.input,length_append]
    lia
  rw [MessageReader.read,midway.going,if_neg Bool.false_ne_true,if_neg (Nat.pos_iff_ne_zero.mp some)]
  exact readLoop_spec some allowed enough midway

theorem goesOn_later {sizes : Nat → Nat} (goesOn : ∀ i, ∃ j, i ≤ j ∧ 0 < sizes j) (i : Nat) : ∃ j, i ≤ j ∧ 0 < sizes (j+1) := by
  obtain ⟨j,beyond,room⟩ := goesOn (i+1)
  exact ⟨j-1,by lia,by rwa [Nat.sub_add_cancel (by lia)]⟩

-- With enough Reads the message comes to its end, and more of them change nothing.
def Settles (limits : Limits) (later : RateWindow) (after left : Bytes) (more : List Fragment) (opcode : UInt8) (now : Nat) (sizes : Nat → Nat)
    (r : MessageReader) (c : Conn) : Prop :=
  ∃ enough result, GivesAll limits later after left more opcode result ∧ ∀ reads, enough ≤ reads → readAll now reads sizes r c = result

theorem readAll_chunk
    (got : r.read c now (sizes 0) = (c',r',.ok chunk)) (rest : left = chunk ++ left') (fit : FragmentsFit limits more' ↔ FragmentsFit limits more)
    (settles : Settles limits later after left' more' opcode now (fun i => sizes (i+1)) r' c') : Settles limits later after left more opcode now sizes r c := by
  obtain ⟨enough,result,gives,all⟩ := settles
  have first : ∀ reads, enough+1 ≤ reads → readAll now reads sizes r c = (result.1,result.2.1,chunk ++ result.2.2.1,result.2.2.2) := by
    intro reads more
    obtain ⟨reads,rfl⟩ : ∃ n, reads = n+1 := ⟨reads-1,by lia⟩
    rw [readAll,got]
    simp [all reads (by lia)]
  refine ⟨enough+1,_,?_,first⟩
  cases gives with
  | whole fit' ended =>
    rw [rest]
    exact .whole (fit.mp fit') ended
  | refused unfit => exact .refused fun all => unfit (fit.mpr all)

theorem readAll_last
    (got : r.read c now (sizes 0) = (c',r',.error e)) (gives : GivesAll limits later after left more opcode (c',r',[],some e)) :
    Settles limits later after left more opcode now sizes r c := by
  refine ⟨1,_,gives,fun reads more => ?_⟩
  obtain ⟨reads,rfl⟩ : ∃ n, reads = n+1 := ⟨reads-1,by lia⟩
  rw [readAll,got]

theorem readAll_spec (allowed : (rate.allow limits.rateLimit now).2 = true) {bound : Nat} : ∀ {seen left : Bytes} {more : List Fragment} {r : MessageReader} {c : Conn},
    left.length ≤ bound → ∀ (gap : Nat) (sizes : Nat → Nat), 0 < sizes gap → (∀ i, ∃ j, i ≤ j ∧ 0 < sizes j) → Midway limits rate after seen left more r c →
    Settles limits (rate.allow limits.rateLimit now).1 after left more r.firstOpcode now sizes r c := by
  induction bound using Nat.strongRecOn with
  | ind bound shorter =>
    intro seen left more r c length gap sizes room goesOn midway
    have here : ∀ sizes : Nat → Nat, 0 < sizes 0 → (∀ i, ∃ j, i ≤ j ∧ 0 < sizes j) →
        Settles limits (rate.allow limits.rateLimit now).1 after left more r.firstOpcode now sizes r c := by
      intro sizes room goesOn
      have gives := read_spec room allowed midway
      generalize got : r.read c now (sizes 0) = result at gives
      cases gives with
      | @chunk chunk left' more' r' c' some rest midway' same fit =>
        have less : left'.length < bound := by
          have filled := length_pos_iff.mpr some
          rw [rest,length_append] at length
          lia
        obtain ⟨gap,_,room'⟩ := goesOn_later goesOn 0
        have settles := shorter left'.length less (Nat.le_refl _) gap (fun i => sizes (i+1)) room' (goesOn_later goesOn) midway'
        rw [same] at settles
        exact readAll_chunk got rest fit settles
      | finished none fit ended =>
        rw [none]
        exact readAll_last got (.whole fit ended)
      | refused unfit => exact readAll_last got (.refused unfit)
    induction gap generalizing sizes with
    | zero => exact here sizes room goesOn
    | succ gap ih =>
      by_cases none : sizes 0 = 0
      · -- an empty buffer changes nothing
        have got : r.read c now (sizes 0) = (c,r,.ok []) := by rw [MessageReader.read,midway.going,if_neg Bool.false_ne_true,if_pos none]
        exact readAll_chunk got rfl Iff.rfl (ih (fun i => sizes (i+1)) room (goesOn_later goesOn))
      · exact here sizes (Nat.pos_of_ne_zero none) goesOn
end

def Paced (limit : Nat) (rate : RateWindow) : List Nat → Prop
  | [] => True
  | now :: later => (rate.allow limit now).2 = true ∧ Paced limit (rate.allow limit now).1 later

instance decidePaced (limit : Nat) : ∀ (rate : RateWindow) (times : List Nat), Decidable (Paced limit rate times)
  | _,[] => .isTrue trivial
  | rate,now :: later =>
    have := decidePaced limit (rate.allow limit now).1 later
    inferInstanceAs (Decidable (_ ∧ _))

structure Exchange where
  sent : PeerMessage
  script : Script

def Exchange.fragments (x : Exchange) : List Fragment := x.sent.first :: x.sent.more

section
variable {limits : Limits} {rate : RateWindow} {after : Bytes} {c : Conn}

theorem nextReader_spec {m : PeerMessage} (within : m.Within limits) (stands : At limits rate (m.bytes ++ after) c) :
    (ControlsFit limits m.first.before → ∃ c' r, c.nextReader = (c',.ok r) ∧ r.firstOpcode = m.opcode ∧ Midway limits rate after [] m.payload m.more r c') ∧
      (¬ControlsFit limits m.first.before → ∃ c', c.nextReader = (c',.error .tooLarge)) := by
  have start : c.nextReader = c.prepareFirstFrame := by rw [nextReader,if_neg (by rw [stands.going]; exact Bool.false_ne_true)]
  have kind : m.opcode = text ∨ m.opcode = binary := by
    rw [PeerMessage.opcode]
    split
    · exact .inl rfl
    · exact .inr rfl
  have text : m.opcode = text → validUtf8 m.payload = true := by
    intro is
    rw [PeerMessage.opcode] at is
    split at is
    · rename_i isText
      exact within.text isText
    · exact absurd is (by decide)
  rw [PeerMessage.bytes,append_assoc] at stands
  obtain ⟨passes,refuses⟩ := nextData_fragment (.inr kind) (within.frames m.first mem_cons_self) stands
  rw [start,prepareFirstFrame]
  constructor
  · intro fit
    obtain ⟨c',next,stands'⟩ := passes fit
    have size := within.size
    rw [PeerMessage.payload,length_append] at size
    have first : ¬(0 < c'.limits.maxMessage ∧ m.first.payload.length > c'.limits.maxMessage) := by
      rw [stands'.limits]
      lia
    rw [next]
    simp only [andThen,if_pos kind,if_neg first]
    have count : 1+m.more.length ≤ limits.maxFragments := by
      have count := within.count
      lia
    exact ⟨_,_,rfl,rfl,stands',rfl,rfl,count,size,fun f mem => within.frames f (mem_cons_of_mem _ mem),rfl,rfl,fun is => ⟨Utf8StreamValidator.saw_nothing,text is⟩⟩
  · intro unfit
    obtain ⟨c',next⟩ := refuses unfit
    rw [next]
    exact ⟨c',rfl⟩

theorem readBy_spec {x : Exchange} (within : x.sent.Within limits) (allowed : (rate.allow limits.rateLimit x.script.now).2 = true)
    (stands : At limits rate (x.sent.bytes ++ after) c) :
    (FragmentsFit limits x.fragments → ∃ enough c', At limits (rate.allow limits.rateLimit x.script.now).1 after c' ∧
        ∀ reads, enough ≤ reads → c.readBy reads x.script = (c',.message x.sent.message)) ∧
      (¬FragmentsFit limits x.fragments → ∃ enough c', ∀ reads, enough ≤ reads → c.readBy reads x.script = (c',.failed .tooLarge)) := by
  obtain ⟨passes,refuses⟩ := nextReader_spec within stands
  have parts := fragmentsFit_cons limits x.sent.first x.sent.more
  by_cases fit : ControlsFit limits x.sent.first.before
  · obtain ⟨c',r,next,opcode,midway⟩ := passes fit
    obtain ⟨gap,_,room⟩ := x.script.goesOn 0
    obtain ⟨enough,result,gives,all⟩ := readAll_spec allowed (le_refl _) gap x.script.sizes room x.script.goesOn midway
    cases gives with
    | @whole r' c'' fit' ended =>
      -- Close has nothing left to do
      have closed : (if x.script.whole then (r'.close c'' x.script.now).1 else c'') = c'' := by
        have done : r'.close c'' x.script.now = (c'',none) := by rw [MessageReader.close,if_pos (Or.inr ended.finished)]
        rw [done]
        split
        · rfl
        · rfl
      refine ⟨fun _ => ⟨enough,c'',ended.stands,fun reads more => ?_⟩,fun unfit => absurd (parts.mpr ⟨fit,fit'⟩) unfit⟩
      rw [readBy,next]
      simp only [all reads more,closed,ended.opcode,opcode]
      rfl
    | @refused c'' r' data unfit =>
      refine ⟨fun all => absurd (parts.mp all).2 unfit,fun _ => ⟨enough,if x.script.whole then (r'.close c'' x.script.now).1 else c'',fun reads more => ?_⟩⟩
      rw [readBy,next]
      simp [all reads more]
  · obtain ⟨c',next⟩ := refuses fit
    refine ⟨fun all => absurd (parts.mp all).1 fit,fun _ => ⟨0,c',fun reads _ => ?_⟩⟩
    rw [readBy,next]

def AllFit (limits : Limits) (exchanges : List Exchange) (trailing : List PeerControl) : Prop :=
  (∀ x ∈ exchanges, FragmentsFit limits x.fragments) ∧ ControlsFit limits trailing

instance (limits : Limits) (exchanges : List Exchange) (trailing : List PeerControl) : Decidable (AllFit limits exchanges trailing) :=
  inferInstanceAs (Decidable ((∀ x ∈ exchanges, FragmentsFit limits x.fragments) ∧ ControlsFit limits trailing))

theorem readMessages_spec (exchanges : List Exchange) : ∀ {rate : RateWindow} {c : Conn},
    (∀ x ∈ exchanges, x.sent.Within limits) → Paced limits.rateLimit rate (exchanges.map fun x => x.script.now) →
    At limits rate (exchanges.flatMap (fun x => x.sent.bytes) ++ trailing.flatMap PeerControl.bytes) c →
    ∃ enough, ∀ reads, enough ≤ reads →
      (AllFit limits exchanges trailing → c.readMessages reads (exchanges.map Exchange.script) = (exchanges.map fun x => x.sent.message,some .eof)) ∧
      (¬AllFit limits exchanges trailing → (c.readMessages reads (exchanges.map Exchange.script)).2 = some .tooLarge) := by
  induction exchanges with
  | nil =>
    intro rate c _ _ stands
    obtain ⟨passes,refuses⟩ := nextData_end stands
    have start : c.nextReader = c.prepareFirstFrame := by rw [nextReader,if_neg (by rw [stands.going]; exact Bool.false_ne_true)]
    refine ⟨0,fun reads _ => ⟨fun fit => ?_,fun unfit => ?_⟩⟩
    · obtain ⟨c',next⟩ := passes fit.2
      rw [map_nil,readMessages,start,prepareFirstFrame,next]
      rfl
    · obtain ⟨c',next⟩ := refuses fun fit => unfit ⟨nofun,fit⟩
      rw [map_nil,readMessages,start,prepareFirstFrame,next]
      rfl
  | cons x exchanges ih =>
    intro rate c within paced stands
    obtain ⟨allowed,paced⟩ := paced
    rw [flatMap_cons,append_assoc] at stands
    obtain ⟨reads,refuses⟩ := readBy_spec (within x mem_cons_self) allowed stands
    by_cases fit : FragmentsFit limits x.fragments
    · obtain ⟨enough,c',stands',first⟩ := reads fit
      obtain ⟨enough',later⟩ := ih (fun y mem => within y (mem_cons_of_mem x mem)) paced stands'
      have parts : AllFit limits (x :: exchanges) trailing ↔ AllFit limits exchanges trailing := by
        rw [AllFit,AllFit,forall_mem_cons]
        exact ⟨fun all => ⟨all.1.2,all.2⟩,fun all => ⟨⟨fit,all.1⟩,all.2⟩⟩
      refine ⟨max enough enough',fun reads more => ?_⟩
      obtain ⟨passes,fails⟩ := later reads (by lia)
      rw [map_cons,readMessages,first reads (by lia)]
      refine ⟨fun all => ?_,fun unfit => fails fun all => unfit (parts.mpr all)⟩
      simp only [passes (parts.mp all)]
      rfl
    · obtain ⟨enough,c',first⟩ := refuses fit
      refine ⟨enough,fun reads more => ⟨fun all => absurd (all.1 x mem_cons_self) fit,fun _ => ?_⟩⟩
      rw [map_cons,readMessages,first reads more]
end

def Yields (limits : Limits) (exchanges : List Exchange) (trailing : List PeerControl) (messages : List Message) (e : WsError) : Prop :=
  ∃ enough, ∀ reads, enough ≤ reads →
    (newConn limits (exchanges.flatMap (fun x => x.sent.bytes) ++ trailing.flatMap PeerControl.bytes)).readMessages reads (exchanges.map Exchange.script) = (messages,some e)

theorem yields_unfit {limits : Limits} (within : ∀ x ∈ exchanges, x.sent.Within limits)
    (paced : Paced limits.rateLimit {} (exchanges.map fun x => x.script.now)) (unfit : ¬AllFit limits exchanges trailing) (messages : List Message) :
    ¬Yields limits exchanges trailing messages .eof := by
  rintro ⟨enough',read⟩
  obtain ⟨enough,all⟩ := readMessages_spec exchanges within paced (c := newConn limits _) ⟨rfl,rfl,rfl,rfl⟩
  have refused := (all (max enough enough') (le_max_left _ _)).2 unfit
  rw [read (max enough enough') (le_max_right _ _)] at refused
  cases refused

-- Every message is read as it was sent, up to the end of the stream, exactly when the limit on frames lets every ping and pong through.
theorem messages_read_iff (cfg : Config) (exchanges : List Exchange) (trailing : List PeerControl)
    (within : ∀ x ∈ exchanges, x.sent.Within (normalizeConfig cfg))
    (paced : Paced (normalizeConfig cfg).rateLimit {} (exchanges.map fun x => x.script.now)) :
    Yields (normalizeConfig cfg) exchanges trailing (exchanges.map fun x => x.sent.message) .eof ↔ AllFit (normalizeConfig cfg) exchanges trailing := by
  constructor
  · intro yields
    by_contra unfit
    exact yields_unfit within paced unfit _ yields
  · intro fit
    obtain ⟨enough,all⟩ := readMessages_spec exchanges within paced (c := newConn (normalizeConfig cfg) _) ⟨rfl,rfl,rfl,rfl⟩
    exact ⟨enough,fun reads more => (all reads more).1 fit⟩

def zeroMask : Mask := ⟨[0,0,0,0],rfl⟩

example : Frame.masked ⟨true,0x9,[1]⟩ zeroMask = [0x89,0x81,0,0,0,0,1] := by decide +kernel

def earlyPing : Exchange where
  sent := {isText := true, first := {before := [⟨true,zeroMask,[1,2,3,4,5],by decide⟩], mask := zeroMask, payload := [0x61]}}
  script := ⟨true,fun _ => 512,0,fun i => ⟨i,le_refl i,by decide⟩⟩

theorem earlyPing_within : earlyPing.sent.Within (normalizeConfig {maxFrameSize := 4}) :=
  ⟨by decide,by decide,by decide,by decide⟩

theorem early_ping_refused :
    earlyPing.sent.Within (normalizeConfig {maxFrameSize := 4}) ∧ Paced (normalizeConfig {maxFrameSize := 4}).rateLimit {} [earlyPing.script.now] ∧
      (newConn (normalizeConfig {maxFrameSize := 4}) earlyPing.sent.bytes).readMessages 9 [earlyPing.script] = ([],some .tooLarge) ∧
      ∀ messages, ¬Yields (normalizeConfig {maxFrameSize := 4}) [earlyPing] [] messages .eof := by
  have paced : Paced (normalizeConfig {maxFrameSize := 4}).rateLimit {} [earlyPing.script.now] := by decide
  refine ⟨earlyPing_within,paced,by decide,yields_unfit (fun x mem => ?_) paced (by decide)⟩
  rw [mem_singleton.mp mem]
  exact earlyPing_within

def cutText : Exchange where
  sent := {isText := true, first := {mask := ⟨[1,2,3,4],rfl⟩, payload := [0x61,0xC3]}, more := [{before := [⟨true,zeroMask,[1,2,3,4],by decide⟩], mask := zeroMask, payload := [0xA9]}]}
  script := ⟨false,fun i => i % 2,0,fun i => ⟨2*i+1,by lia,by lia⟩⟩

theorem cut_text_read : Yields (normalizeConfig {maxFrameSize := 4}) [cutText] [] [⟨text,[0x61,0xC3,0xA9]⟩] .eof := by
  refine (messages_read_iff {maxFrameSize := 4} [cutText] [] (fun x mem => ?_) (by decide)).mpr (by decide)
  rw [mem_singleton.mp mem]
  exact ⟨by decide,by decide,by decide,by decide⟩
end FhServer.WebSocket

import FhServer.RequestStream
import FhServer.ChunkedMessage

namespace FhServer
open List hiding count after
open GoBytes ChunkedMessage

-- The line reader of the stream over the bytes to come: a line ends at the first
-- LF, which a CR must precede, within the first maxChunkLine+1 bytes.
def streamLine (w : Bytes) : Taken (Bytes × Bytes) :=
  let text := w.takeWhile (· != lf)
  if text.length = w.length then (if w.length ≤ maxChunkLine then .short else .bad)
  else if text.length ≤ maxChunkLine ∧ text.getLast? = some cr then
    .got (text.dropLast,w.drop (text.length+1))
  else .bad

def streamData (n : Nat) (w : Bytes) : Taken (Bytes × Bytes) :=
  if w.length < n + 2 then .short
  else if (w.drop n).take 2 = crlf then .got (w.take n,w.drop (n+2))
  else .bad

def streamReader : LineReader Bytes := ⟨id,streamLine,streamData⟩

def streamRules (max : Int) : Rules where
  size := RequestBodyStream.chunkSize
  trailer seen line := (RequestBodyStream.trailerField seen line).toOption
  admits total size := decide ((total + size : Int) ≤ max)

def StreamLine (line : Bytes) : Prop := lf ∉ line ∧ line.length < maxChunkLine
deriving Decidable

theorem takeWhile_line (line rest : Bytes) (clear : lf ∉ line) :
    (line ++ lf :: rest).takeWhile (· != lf) = line := by
  rw [takeWhile_append_of_pos]
  · simp
  intro b mem
  simp only [bne_iff_ne,ne_eq]
  rintro rfl
  exact clear mem

theorem streamLine_none (clear : lf ∉ w) :
    streamLine w = if w.length ≤ maxChunkLine then .short else .bad := by
  have all : w.takeWhile (· != lf) = w := by
    rw [takeWhile_eq_self_iff]
    intro b mem
    simp only [bne_iff_ne,ne_eq]
    rintro rfl
    exact clear mem
  simp [streamLine,all]

theorem streamLine_at (clear : lf ∉ text) :
    streamLine (text ++ lf :: rest) =
      if text.length ≤ maxChunkLine ∧ text.getLast? = some cr then .got (text.dropLast,rest) else .bad := by
  have after : (text ++ lf :: rest).drop (text.length + 1) = rest := by rw [drop_append]; simp
  simp only [streamLine,takeWhile_line text rest clear,after]
  simp

theorem streamLine_got : streamLine w = .got (line,rest) ↔ w = line ++ crlf ++ rest ∧ StreamLine line := by
  by_cases has : lf ∈ w
  · obtain ⟨text,tail,rfl,clear⟩ := eq_append_cons_of_mem has
    rw [streamLine_at clear]
    constructor
    · intro got
      split at got
      · rename_i ended
        obtain ⟨line',rfl⟩ := List.getLast?_eq_some_iff.mp ended.2
        simp only [dropLast_concat,Taken.got.injEq,Prod.mk.injEq] at got
        obtain ⟨rfl,rfl⟩ := got
        have bound := ended.1
        simp only [mem_append,not_or] at clear
        simp only [length_append,length_singleton] at bound
        exact ⟨by simp [crlf],clear.1,bound⟩
      · cases got
    · rintro ⟨eq,free,short⟩
      have shape : line ++ crlf ++ rest = (line ++ [cr]) ++ lf :: rest := by simp [crlf]
      have free' : lf ∉ line ++ [cr] := by simpa [cr,lf] using free
      rw [shape] at eq
      have first : text = line ++ [cr] := by rw [← takeWhile_line text tail clear,eq,takeWhile_line _ _ free']
      subst first
      have same : tail = rest := by simpa using eq
      have bound : line.length + 1 ≤ maxChunkLine := short
      simp [same,bound]
  · constructor
    · intro got
      rw [streamLine_none has] at got
      split at got <;> cases got
    · rintro ⟨rfl,-,-⟩
      exact absurd (by simp [crlf]) has

theorem streamLine_short : streamLine w = .short ↔ lf ∉ w ∧ w.length ≤ maxChunkLine := by
  by_cases has : lf ∈ w
  · obtain ⟨text,tail,rfl,clear⟩ := eq_append_cons_of_mem has
    rw [streamLine_at clear]
    constructor
    · intro short; split at short <;> cases short
    · rintro ⟨free,-⟩; exact absurd has free
  · rw [streamLine_none has]
    by_cases fits : w.length ≤ maxChunkLine <;> simp [has]

theorem streamData_got : streamData n w = .got (data,rest) ↔ w = data ++ crlf ++ rest ∧ data.length = n := by
  unfold streamData
  constructor
  · intro got
    split at got
    · cases got
    split at got
    · rename_i ended
      obtain ⟨rfl,rfl⟩ := got
      refine ⟨?_,by simp; lia⟩
      rw [← ended,append_assoc,← drop_drop,take_append_drop,take_append_drop]
    · cases got
  · rintro ⟨rfl,rfl⟩
    have long : ¬ (data ++ crlf ++ rest).length < data.length + 2 := by simp [crlf]
    have middle : ((data ++ crlf ++ rest).drop data.length).take 2 = crlf := by simp [crlf]
    have after : (data ++ crlf ++ rest).drop (data.length + 2) = rest := by rw [← drop_drop]; simp [crlf]
    rw [if_neg long,if_pos middle,after]
    simp

theorem streamReader_lawful : streamReader.Lawful where
  data_length got := (streamData_got.mp got).2
  line_shrinks {s text next} got := by
    obtain ⟨eq,-⟩ := streamLine_got.mp (show streamLine s = _ from got)
    simp only [streamReader,id,eq,length_append,crlf,length_cons,length_nil]
    lia
  data_shrinks {n s stretch next} got := by
    obtain ⟨eq,-⟩ := streamData_got.mp (show streamData n s = _ from got)
    simp only [streamReader,id,eq,length_append]
    lia

theorem streamData_split (k : Nat) (part : k ≤ n) :
    streamData n w = match streamData (n-k) (w.drop k) with
      | .got (data,rest) => .got (w.take k ++ data,rest)
      | .short => .short
      | .bad => .bad := by
  unfold streamData
  by_cases short : w.length < n + 2
  · have short' : (w.drop k).length < n - k + 2 := by simp; lia
    rw [if_pos short,if_pos short']
  have long' : ¬ (w.drop k).length < n - k + 2 := by simp; lia
  have at' : (w.drop k).drop (n-k) = w.drop n := by rw [drop_drop]; congr 1; lia
  have past : (w.drop k).drop (n-k+2) = w.drop (n+2) := by rw [drop_drop]; congr 1; lia
  have joined : w.take k ++ (w.drop k).take (n-k) = w.take n := by rw [← take_add]; congr 1; lia
  rw [if_neg short,if_neg long',at',past]
  split <;> simp [joined]

namespace RequestBodyStream

def consume (r : RequestBodyStream) (k : Nat) : RequestBodyStream :=
  {r with prefixBytes:=r.prefixBytes.drop k,conn:=r.conn.drop (k - r.prefixBytes.length)}

theorem readByte_got {r : RequestBodyStream} (next : r.bytes = b :: rest) : r.readByte = (.ok b,r.consume 1) := by
  cases held : r.prefixBytes with
  | cons c tail =>
    simp only [bytes,held,cons_append,List.cons.injEq] at next
    simp [readByte,consume,held,next.1,Conn.drop_zero]
  | nil =>
    have coming : r.conn.bytes = b :: rest := by simpa [bytes,held] using next
    obtain ⟨k,error,eq,small,within,zero,-⟩ := r.conn.read_spec (by decide : 0 < 1)
    have one : k = 1 := by
      rcases Nat.eq_zero_or_pos k with none_read | some_read
      · simp [coming] at zero; lia
      · lia
    subst one
    simp [readByte,consume,held,eq,coming]

theorem readByte_short {r : RequestBodyStream} (empty : r.bytes = []) :
    r.readByte = r.fail (.read r.conn.closing) := by
  simp only [bytes,append_eq_nil_iff] at empty
  simp [readByte,empty.1,Conn.read_empty empty.2,fail]

section
variable (r : RequestBodyStream)

theorem consume_bytes (k : Nat) : (r.consume k).bytes = r.bytes.drop k := by
  simp [consume,bytes,Conn.drop_bytes,drop_append]

theorem consume_zero : r.consume 0 = r := by
  simp [consume,Conn.drop_zero]

theorem consume_consume (j k : Nat) : (r.consume j).consume k = r.consume (j+k) := by
  have counts : j - r.prefixBytes.length + (k - (r.prefixBytes.length - j)) = j + k - r.prefixBytes.length := by lia
  simp [consume,Conn.drop_drop,counts]

theorem readSome_spec (positive : 0 < n) :
    ∃ k error, r.readSome n = (r.bytes.take k,{r.consume k with err:=error}) ∧ k ≤ n ∧ k ≤ r.bytes.length ∧
      (k = 0 → r.bytes = [] ∧ error = some (.read r.conn.closing)) ∧
      (error = r.err ∨ (r.consume k).bytes = []) := by
  by_cases held : r.prefixBytes ≠ []
  · have some_held : 0 < r.prefixBytes.length := length_pos_iff.mpr held
    have within : min n r.prefixBytes.length ≤ r.bytes.length := by rw [bytes,length_append]; lia
    refine ⟨min n r.prefixBytes.length,r.err,?_,by lia,within,by lia,Or.inl rfl⟩
    have taken : r.prefixBytes.take n = r.bytes.take (min n r.prefixBytes.length) := by
      rw [bytes,take_append_of_le_length (by lia)]
      rcases Nat.le_total n r.prefixBytes.length with le | le
      · rw [Nat.min_eq_left le]
      · rw [Nat.min_eq_right le,take_of_length_le le,take_length]
    have dropped : r.prefixBytes.drop n = r.prefixBytes.drop (min n r.prefixBytes.length) := by
      rcases Nat.le_total n r.prefixBytes.length with le | le
      · rw [Nat.min_eq_left le]
      · rw [Nat.min_eq_right le,drop_eq_nil_of_le le,drop_length]
    have still : min n r.prefixBytes.length - r.prefixBytes.length = 0 := by lia
    simp [readSome,if_pos held,taken,consume,still,Conn.drop_zero]
  · have none_held : r.prefixBytes = [] := by simpa using held
    obtain ⟨k,error,eq,small,within,zero,reported⟩ := r.conn.read_spec positive
    have flat : r.bytes = r.conn.bytes := by simp [bytes,none_held]
    refine ⟨k,(error.map BodyError.read).or r.err,?_,small,by rw [flat]; exact within,?_,?_⟩
    · simp [readSome,none_held,eq,flat,consume]
    · intro none_read
      obtain ⟨empty,rfl⟩ := zero none_read
      exact ⟨by rw [flat]; exact empty,rfl⟩
    · cases error with
      | none => exact Or.inl (by simp)
      | some cause =>
        refine Or.inr ?_
        rw [consume_bytes,flat,drop_eq_nil_iff]
        exact Nat.le_of_eq (reported (by simp))

theorem skipCRLF_spec (need : r.needCRLF = true) :
    match streamData 0 r.bytes with
    | .got (_,rest) => r.skipCRLF = (.ok (),{r.consume 2 with needCRLF:=false}) ∧ (r.consume 2).bytes = rest
    | .short => ∃ after, r.skipCRLF = (.error (.read r.conn.closing),after) ∧ after.bytes = [] ∧
        after.trailers = r.trailers
    | .bad => ∃ error after, r.skipCRLF = (.error error,after) ∧ ∀ cause, error ≠ .read cause := by
  cases held : r.bytes with
  | nil =>
    have read : r.skipCRLF = r.fail (.read r.conn.closing) := by simp [skipCRLF,need,expectCRLF,readByte_short held,fail]
    exact ⟨_,read,by simpa [bytes] using held,rfl⟩
  | cons a rest =>
    have first : (r.consume 1).bytes = rest := by rw [consume_bytes,held]; rfl
    cases rest with
    | nil =>
      have read : r.skipCRLF = (r.consume 1).fail (.read r.conn.closing) := by
        have out := readByte_short first
        simp only [skipCRLF,need,if_true,expectCRLF,readByte_got held,out,fail]
        rfl
      exact ⟨_,read,by simpa [bytes] using first,rfl⟩
    | cons b rest =>
      have second : (r.consume 2).bytes = rest := by rw [consume_bytes,held]; rfl
      have both : r.expectCRLF = if a == cr && b == lf then (.ok (),r.consume 2)
          else (r.consume 2).fail .malformedRequest := by
        simp [expectCRLF,readByte_got held,readByte_got first,consume_consume]
      by_cases ended : a = cr ∧ b = lf
      · have got : streamData 0 (a :: b :: rest) = .got ([],rest) := by simp [streamData,ended.1,ended.2,crlf]
        have read : r.expectCRLF = (.ok (),r.consume 2) := by simp [both,ended.1,ended.2]
        rw [got]
        simp only [skipCRLF,need,if_true,read]
        exact ⟨trivial,second⟩
      · have bad : streamData 0 (a :: b :: rest) = .bad := by
          have long : ¬ rest.length + 1 + 1 < 2 := by lia
          simp [streamData,crlf,ended]
        have read : r.expectCRLF = (r.consume 2).fail .malformedRequest := by
          rw [both]
          split
          · rename_i same
            exact absurd (by simpa using same) ended
          · rfl
        rw [bad]
        exact ⟨.malformedRequest,{r.consume 2 with err:=some .malformedRequest,done:=true},
          by simp [skipCRLF,need,read,fail],by simp⟩
end
section
variable (more : Nat) (acc : Bytes)

theorem readLineLoop_clear {r : RequestBodyStream} (next : r.bytes = text ++ rest) (clear : lf ∉ text) :
    readLineLoop (text.length+more) acc r = readLineLoop more (acc ++ text) (r.consume text.length) := by
  induction text generalizing acc r with
  | nil => simp [consume_zero]
  | cons b text ih =>
    simp only [mem_cons,not_or] at clear
    have other : (b == lf) = false := by simpa using Ne.symm clear.1
    have after : (r.consume 1).bytes = text ++ rest := by rw [consume_bytes,next]; rfl
    have inner := ih (acc ++ [b]) after clear.2
    rw [length_cons,Nat.add_right_comm]
    simp only [readLineLoop,readByte_got next,other,Bool.false_eq_true,if_false,inner,consume_consume,append_assoc,singleton_append]
    rw [Nat.add_comm 1]

theorem readLineLoop_at {r : RequestBodyStream} (next : r.bytes = text ++ lf :: rest)
    (clear : lf ∉ text) (within : text.length < more) :
    readLineLoop more acc r =
      if (acc ++ text).getLast? = some cr then (.ok (acc ++ text).dropLast,r.consume (text.length+1))
      else (r.consume (text.length+1)).fail .malformedRequest := by
  obtain ⟨more,rfl⟩ := Nat.exists_eq_add_of_lt within
  have here : (r.consume text.length).bytes = lf :: rest := by rw [consume_bytes,next,drop_left]
  rw [Nat.add_assoc,readLineLoop_clear _ _ next clear]
  simp only [readLineLoop,readByte_got here,consume_consume]
  simp

theorem readLineLoop_short {r : RequestBodyStream} (clear : lf ∉ r.bytes)
    (within : r.bytes.length < more) :
    readLineLoop more acc r = (r.consume r.bytes.length).fail (.read r.conn.closing) := by
  obtain ⟨more,rfl⟩ := Nat.exists_eq_add_of_lt within
  have empty : (r.consume r.bytes.length).bytes = [] := by rw [consume_bytes,drop_length]
  rw [Nat.add_assoc,readLineLoop_clear _ _ (append_nil _).symm clear]
  simp only [readLineLoop,readByte_short empty]
  rfl

theorem readLineLoop_long {r : RequestBodyStream} (clear : lf ∉ r.bytes.take more)
    (beyond : more ≤ r.bytes.length) :
    readLineLoop more acc r = (r.consume more).fail .invalidChunkedBody := by
  have loop := readLineLoop_clear 0 acc (take_append_drop more r.bytes).symm clear
  rw [length_take_of_le beyond,Nat.add_zero] at loop
  rw [loop,readLineLoop]
end

theorem readLine_got {r : RequestBodyStream} (got : streamLine r.bytes = .got (line,rest)) :
    r.readLine = (.ok line,r.consume (line.length+2)) ∧ (r.consume (line.length+2)).bytes = rest := by
  obtain ⟨eq,clear,short⟩ := streamLine_got.mp got
  have shape : r.bytes = (line ++ [cr]) ++ lf :: rest := by simp [eq,crlf]
  have read := readLineLoop_at (maxChunkLine+1) [] shape (by simpa [cr,lf] using clear) (by simp; lia)
  refine ⟨by simpa [readLine] using read,?_⟩
  rw [consume_bytes,eq,append_assoc,drop_append]
  simp [crlf]

theorem readLine_short {r : RequestBodyStream} (short : streamLine r.bytes = .short) :
    r.readLine = (r.consume r.bytes.length).fail (.read r.conn.closing) := by
  obtain ⟨clear,fits⟩ := streamLine_short.mp short
  exact readLineLoop_short _ [] clear (by lia)

theorem readLine_bad {r : RequestBodyStream} (bad : streamLine r.bytes = .bad) :
    ∃ error after, r.readLine = (.error error,after) ∧ ∀ cause, error ≠ .read cause := by
  by_cases has : lf ∈ r.bytes
  · obtain ⟨text,tail,eq,clear⟩ := eq_append_cons_of_mem has
    rw [eq,streamLine_at clear] at bad
    by_cases near : text.length ≤ maxChunkLine
    · have read := readLineLoop_at (maxChunkLine+1) [] eq clear (by lia)
      have unended : ¬ text.getLast? = some cr := by
        intro ended
        simp [near,ended] at bad
      simp only [nil_append,if_neg unended] at read
      exact ⟨_,_,read,by simp⟩
    · have early : lf ∉ r.bytes.take (maxChunkLine+1) := by
        rw [eq,take_append_of_le_length (by lia)]
        exact fun mem => clear (mem_of_mem_take mem)
      have read := readLineLoop_long (maxChunkLine+1) [] early (by rw [eq]; simp; lia)
      exact ⟨_,_,read,by simp⟩
  · rw [streamLine_none has] at bad
    by_cases fits : r.bytes.length ≤ maxChunkLine
    · simp [fits] at bad
    · have read := readLineLoop_long (maxChunkLine+1) [] (fun mem => has (mem_of_mem_take mem))
        (show maxChunkLine+1 ≤ r.bytes.length by lia)
      exact ⟨_,_,read,by simp⟩

theorem trailerName_count (named : trailerName count line = some (name,text)) : count < maxHeaders := by
  unfold trailerName at named
  split at named
  · cases named
  dsimp only at named
  split at named
  · cases named
  · rename_i open_
    lia

theorem trailerField_count (read : trailerField count line = .ok header) : count < maxHeaders := by
  unfold trailerField at read
  split at read
  · cases read
  · rename_i named
    exact trailerName_count named

theorem trailerField_error (failed : trailerField count line = .error error) (cause : ReadError) :
    error ≠ .read cause := by
  unfold trailerField at failed
  split at failed
  · cases failed; simp
  dsimp only at failed
  split at failed
  · cases failed; simp
  · cases failed

def FieldsEnd (r : RequestBodyStream) (result : Except BodyError Unit × RequestBodyStream) : Decoded Bytes → Prop
  | .clean _ fields rest => ∃ k, result = (.ok (),{r.consume k with trailers:=r.trailers ++ fields}) ∧
      r.bytes.length = k + rest.length ∧ (r.consume k).bytes = rest
  | .short _ fields => ∃ after, result = (.error (.read r.conn.closing),after) ∧ after.bytes = [] ∧
      after.trailers = r.trailers ++ fields
  | .bad => ∃ error after, result = (.error error,after) ∧ ∀ cause, error ≠ .read cause

theorem FieldsEnd.field {r : RequestBodyStream} (header : Header) (k : Nat) (within : k ≤ r.bytes.length)
    (later : FieldsEnd {r.consume k with trailers:=r.trailers ++ [header]} result decoded) :
    FieldsEnd r result (decoded.field header) := by
  cases decoded with
  | clean text fields rest =>
    obtain ⟨more,eq,length,left⟩ := later
    have size : (r.consume k).bytes.length = more + rest.length := length
    rw [consume_bytes,length_drop] at size
    refine ⟨k+more,?_,by lia,?_⟩
    · rw [eq,← consume_consume]
      simp [consume]
    · rw [← consume_consume]; exact left
  | short text fields =>
    obtain ⟨after,eq,empty,recorded⟩ := later
    exact ⟨after,eq,empty,by simpa using recorded⟩
  | bad => exact later

-- The induction is on the rounds of the loop; every trailer uses one up, and a
-- line beyond maxHeaders trailers fails before the rounds are over.
theorem readTrailersLoop_decodes (max : Int) (rounds fuel : Nat) (r : RequestBodyStream)
    (rounds_left : maxHeaders < r.trailers.length + rounds) (room : r.trailers.length ≤ maxHeaders)
    (enough : r.bytes.length < fuel) :
    FieldsEnd r (readTrailersLoop rounds r)
      (decodeFields streamReader (streamRules max) fuel r.trailers.length r.bytes) := by
  induction rounds generalizing r fuel with
  | zero => lia
  | succ rounds ih =>
    obtain ⟨fuel,rfl⟩ := Nat.exists_eq_succ_of_ne_zero (by lia : fuel ≠ 0)
    cases split : streamReader.line r.bytes with
    | short =>
      have read := readLine_short split
      simp only [decodeFields,split]
      refine ⟨{r.consume r.bytes.length with err:=some (.read r.conn.closing),done:=true},
        by simp [readTrailersLoop,read,fail],?_,by simp [consume]⟩
      have empty := consume_bytes r r.bytes.length
      simpa [bytes] using empty
    | bad =>
      obtain ⟨error,after,read,other⟩ := readLine_bad split
      simp only [decodeFields,split]
      exact ⟨error,after,by simp [readTrailersLoop,read],other⟩
    | got pair =>
      obtain ⟨line,rest⟩ := pair
      obtain ⟨read,left⟩ := readLine_got split
      have length : r.bytes.length = line.length + 2 + rest.length := by rw [(streamLine_got.mp split).1]; simp [crlf]; lia
      simp only [decodeFields,split]
      by_cases blank : line = []
      · subst blank
        exact ⟨2,by simp [readTrailersLoop,read,consume],by simpa using length,by simpa using left⟩
      · simp only [if_neg blank]
        cases parsed : trailerField r.trailers.length line with
        | error error =>
          have rule : (streamRules max).trailer r.trailers.length line = none := by simp [streamRules,parsed,Except.toOption]
          simp only [rule]
          exact ⟨error,{r.consume (line.length+2) with err:=some error,done:=true},
            by simp [readTrailersLoop,read,if_neg blank,consume,parsed,fail],
            trailerField_error parsed⟩
        | ok header =>
          have rule : (streamRules max).trailer r.trailers.length line = some header := by simp [streamRules,parsed,Except.toOption]
          have below := trailerField_count parsed
          let next : RequestBodyStream := {r.consume (line.length+2) with trailers:=r.trailers ++ [header]}
          have nextBytes : next.bytes = rest := left
          have inner := ih fuel next (by simp [next]; lia) (by simp [next]; lia) (by rw [nextBytes]; lia)
          have step : readTrailersLoop (rounds+1) r = readTrailersLoop rounds next := by
            simp [readTrailersLoop,read,if_neg blank,consume,parsed,next]
          have count : next.trailers.length = r.trailers.length + 1 := by simp [next]
          rw [nextBytes,count] at inner
          simp only [rule]
          rw [step]
          exact FieldsEnd.field header (line.length+2) (by lia) inner

-- A chunked stream in the middle of its body. A read error can only be on record
-- once the last byte is in.
structure Ready (r : RequestBodyStream) : Prop where
  chunked : r.chunked = true
  running : r.done = false
  fresh : r.trailers = []
  sound : r.err = none ∨ r.bytes = []

theorem newRequestBodyStream_ready (conn : Conn) (start : Bytes) (length : Nat) (max : Int) :
    Ready (newRequestBodyStream conn start length true max) := ⟨rfl,rfl,rfl,.inl rfl⟩

-- What the line-by-line decoder makes of the bytes still to come, from inside a
-- chunk, before the CRLF after one, or at a size line.
def pending (r : RequestBodyStream) : Decoded Bytes :=
  if r.chunkLeft = 0 ∧ r.needCRLF = false then
    decode streamReader (streamRules r.max) (r.bytes.length+1) r.total r.bytes
  else
    match streamData r.chunkLeft r.bytes with
    | .short => .short (r.bytes.take r.chunkLeft) []
    | .bad => .bad
    | .got (data,next) => (decode streamReader (streamRules r.max) (next.length+1) (r.total + r.chunkLeft) next).prepend data

-- `after` is `r` with k bytes less in front of it, whatever else has changed.
structure Moved (r after : RequestBodyStream) (k : Nat) : Prop where
  start : after.prefixBytes = (r.consume k).prefixBytes
  conn : after.conn = (r.consume k).conn
  kept : after.leftover = r.leftover
  within : k ≤ r.bytes.length

theorem Moved.bytes (moved : Moved r after k) : after.bytes = r.bytes.drop k := by
  rw [← consume_bytes]
  simp [RequestBodyStream.bytes,moved.start,moved.conn]

theorem Moved.consume (moved : Moved r after k) (more : Nat) :
    (after.consume more).prefixBytes = (r.consume (k+more)).prefixBytes ∧
      (after.consume more).conn = (r.consume (k+more)).conn := by
  rw [← consume_consume]
  simp [RequestBodyStream.consume,moved.start,moved.conn]

theorem Moved.closing (moved : Moved r after k) : after.conn.closing = r.conn.closing := by
  rw [moved.conn]; rfl

theorem Moved.trans (first : Moved r middle j) (second : Moved middle after k) : Moved r after (j+k) := by
  obtain ⟨start,conn⟩ := first.consume k
  have size := second.within
  rw [first.bytes,length_drop] at size
  have within := first.within
  exact ⟨second.start.trans start,second.conn.trans conn,second.kept.trans first.kept,by lia⟩

def BodyEnd (r : RequestBodyStream) (result : Option (Bytes × BodyError × RequestBodyStream)) : Decoded Bytes → Prop
  | .clean body fields rest => ∃ after k, result = some (body,.eof,after) ∧ Moved r after k ∧
      r.bytes.length = k + rest.length ∧ after.bytes = rest ∧ after.trailers = fields ∧ after.done = true ∧
      after.err = none
  | .short body fields => ∃ after, result = some (body,.read r.conn.closing,after) ∧ after.bytes = [] ∧
      after.trailers = fields
  | .bad => ∃ body error after, result = some (body,error,after) ∧ ∀ cause, error ≠ .read cause

theorem BodyEnd.prepend (data : Bytes) (moved : Moved r middle k) (later : BodyEnd middle result decoded) :
    BodyEnd r (result.map fun (rest,error,after) => (data ++ rest,error,after)) (decoded.prepend data) := by
  cases decoded with
  | clean body fields rest =>
    obtain ⟨after,more,rfl,later,length,left⟩ := later
    have within := moved.within
    rw [moved.bytes,length_drop] at length
    exact ⟨after,k+more,rfl,moved.trans later,by lia,left⟩
  | short body fields =>
    obtain ⟨after,rfl,empty,recorded⟩ := later
    exact ⟨after,by rw [moved.closing]; rfl,empty,recorded⟩
  | bad =>
    obtain ⟨body,error,after,rfl,other⟩ := later
    exact ⟨data ++ body,error,after,rfl,other⟩

theorem BodyEnd.moved (moved : Moved r middle k) (later : BodyEnd middle result decoded) :
    BodyEnd r result decoded := by
  have shifted := BodyEnd.prepend [] moved later
  simpa using shifted

-- One Read call in a running body: it delivers some of the bytes and the body
-- goes on, or it reports how the body ended.
def ReadStep (r : RequestBodyStream) : Bytes × Option BodyError × RequestBodyStream → Prop
  | (data,none,after) => Ready after ∧ (∃ k, 0 < k ∧ Moved r after k) ∧ pending r = (pending after).prepend data
  | (data,some error,after) => BodyEnd r (some (data,error,after)) (pending r)

theorem ReadStep.moved (moved : Moved r middle k) (same : pending r = pending middle)
    (step : ReadStep middle result) : ReadStep r result := by
  obtain ⟨data,error,after⟩ := result
  cases error with
  | none =>
    obtain ⟨ready,⟨more,positive,later⟩,eq⟩ := step
    exact ⟨ready,⟨k+more,by lia,moved.trans later⟩,same.trans eq⟩
  | some error =>
    have ended : BodyEnd middle _ (pending middle) := step
    show BodyEnd r _ (pending r)
    rw [same]
    exact ended.moved moved

theorem readChunk_step (ready : Ready r) (mem : 0 < r.chunkLeft) (positive : 0 < n) :
    ReadStep r (r.readChunk n) := by
  have now : ¬ (r.chunkLeft = 0 ∧ r.needCRLF = false) := by lia
  obtain ⟨k,error,eq,small,within,zero,kept⟩ := r.readSome_spec (show 0 < min n r.chunkLeft by lia)
  rcases Nat.eq_zero_or_pos k with none_read | some_read
  · obtain ⟨empty,rfl⟩ := zero none_read
    subst none_read
    have short : streamData r.chunkLeft [] = .short := by simp [streamData]
    have result : r.readChunk n = ([],some (.read r.conn.closing),{r with err:=some (.read r.conn.closing)}) := by simp [readChunk,eq,consume_zero]
    rw [result]
    simp only [ReadStep,pending,if_neg now,empty,short,take_nil]
    exact ⟨_,rfl,by simpa [bytes] using empty,ready.fresh⟩
  · have length : (r.bytes.take k).length = k := by simp; lia
    have nonempty : r.bytes.take k ≠ [] := by intro empty; rw [empty] at length; simp at length; lia
    let after : RequestBodyStream := {r.consume k with
      chunkLeft:=r.chunkLeft - k,total:=r.total + k,err:=error,needCRLF:=r.needCRLF || r.chunkLeft - k == 0}
    have result : r.readChunk n = (r.bytes.take k,none,after) := by simp [readChunk,eq,length,nonempty,consume,after]
    have left : after.bytes = r.bytes.drop k := consume_bytes r k
    have then_ : ¬ (after.chunkLeft = 0 ∧ after.needCRLF = false) := by
      simp only [after,Bool.or_eq_false_iff,beq_eq_false_iff_ne]
      rintro ⟨last,-,more⟩
      exact more last
    rw [result]
    refine ⟨⟨ready.chunked,ready.running,ready.fresh,?_⟩,⟨k,some_read,rfl,rfl,rfl,within⟩,?_⟩
    · rcases kept with same | gone
      · rcases ready.sound with clear | empty
        · exact .inl (same.trans clear)
        · exact .inr (by rw [left,empty,drop_nil])
      · exact .inr gone
    · simp only [pending,if_neg now,if_neg then_,left]
      rw [streamData_split k (by lia)]
      have counts : r.total + r.chunkLeft = after.total + after.chunkLeft := by simp only [after]; lia
      have limit : after.max = r.max := rfl
      rw [counts,limit,chunkLeft]
      cases streamData (r.chunkLeft - k) (r.bytes.drop k) with
      | short =>
        simp only [Decoded.prepend]
        rw [← take_add]
        congr 2; lia
      | bad => rfl
      | got pair => simp [Decoded.prepend_prepend]

section
variable {r : RequestBodyStream} {line rest : Bytes} {size n : Nat}

structure AtSize (r : RequestBodyStream) : Prop where
  none_left : r.chunkLeft = 0
  clear : r.needCRLF = false

theorem AtSize.decodes (at_ : AtSize r) :
    pending r = decode streamReader (streamRules r.max) (r.bytes.length+1) r.total r.bytes := by
  simp [pending,at_.none_left,at_.clear]

theorem line_length (split : streamLine r.bytes = .got (line,rest)) :
    r.bytes.length = line.length + 2 + rest.length := by
  rw [(streamLine_got.mp split).1]
  simp only [length_append,crlf,length_cons,length_nil]

theorem line_moved (split : streamLine r.bytes = .got (line,rest)) :
    Moved r (r.consume (line.length+2)) (line.length+2) :=
  ⟨rfl,rfl,rfl,by have := line_length split; lia⟩

theorem line_unread (ready : Ready r) (split : streamLine r.bytes = .got (line,rest)) : r.err = none := by
  rcases ready.sound with clear | empty
  · exact clear
  · have length := line_length split
    rw [empty,length_nil] at length
    lia

theorem last_step (ready : Ready r) (at_ : AtSize r) (split : streamLine r.bytes = .got (line,rest))
    (sized : chunkSize line = some 0) (fits : ¬ ((0 : Nat) : Int) > r.max - r.total) :
    ReadStep r (r.readSize n) := by
  obtain ⟨read,left⟩ := readLine_got split
  have length := line_length split
  have got : streamReader.line r.bytes = .got (line,rest) := split
  have rule : (streamRules r.max).size line = some 0 := sized
  have admitted : (streamRules r.max).admits r.total 0 = true := by simp [streamRules]; lia
  have decoded : pending r = decodeFields streamReader (streamRules r.max) r.bytes.length 0 rest := by
    simp [at_.decodes,decode,got,rule,admitted]
  let middle := r.consume (line.length+2)
  have none_yet : middle.trailers = [] := ready.fresh
  have within : ¬ ((0 : Nat) : Int) > middle.max - middle.total := fits
  have result : r.readSize n = middle.readLast := by
    simp only [readSize,read,sized]
    rw [if_neg within,if_pos trivial]
  have ended := readTrailersLoop_decodes r.max (maxHeaders+1) r.bytes.length middle
    (by simp [none_yet]) (by simp [none_yet]) (by rw [left]; lia)
  rw [none_yet,left,length_nil,← decoded] at ended
  rw [result,readLast,readTrailers]
  cases future : pending r with
  | clean text fields final =>
    rw [future] at ended
    obtain ⟨k,eq,size,after⟩ := ended
    obtain rfl : text = [] := by
      rw [decoded] at future
      exact (decodeFields_sound future).1
    rw [none_yet,nil_append] at eq
    simp only [eq,ReadStep,future]
    have moved : Moved r (middle.consume k) (line.length+2+k) :=
      (line_moved split).trans ⟨rfl,rfl,rfl,by rw [left]; lia⟩
    have unread : r.err = none := line_unread ready split
    exact ⟨_,line.length+2+k,rfl,⟨moved.start,moved.conn,moved.kept,moved.within⟩,by lia,after,rfl,rfl,unread⟩
  | short text fields =>
    rw [future] at ended
    obtain ⟨final,eq,empty,recorded⟩ := ended
    obtain rfl : text = [] := by
      rw [decoded] at future
      exact (decodeFields_short_sound future).1
    simp only [eq,ReadStep,future]
    exact ⟨_,rfl,empty,by rw [recorded,none_yet]; rfl⟩
  | bad =>
    rw [future] at ended
    obtain ⟨error,final,eq,other⟩ := ended
    simp only [eq,ReadStep,future]
    exact ⟨_,_,_,rfl,other⟩

theorem chunk_step (ready : Ready r) (at_ : AtSize r) (split : streamLine r.bytes = .got (line,rest))
    (sized : chunkSize line = some (size+1)) (fits : ¬ ((size+1 : Nat) : Int) > r.max - r.total)
    (positive : 0 < n) : ReadStep r (r.readSize n) := by
  obtain ⟨read,left⟩ := readLine_got split
  have length := line_length split
  have got : streamReader.line r.bytes = .got (line,rest) := split
  have rule : (streamRules r.max).size line = some (size+1) := sized
  have admitted : (streamRules r.max).admits r.total (size+1) = true := by simp [streamRules]; lia
  let chunk : RequestBodyStream := {r.consume (line.length+2) with chunkLeft:=size+1}
  have within : ¬ ((size+1 : Nat) : Int) > (r.consume (line.length+2)).max - (r.consume (line.length+2)).total := fits
  have result : r.readSize n = chunk.readChunk n := by
    simp only [readSize,read,sized]
    rw [if_neg within,if_neg (Nat.succ_ne_zero size)]
  have chunkBytes : chunk.bytes = rest := left
  have mem : ¬ (chunk.chunkLeft = 0 ∧ chunk.needCRLF = false) := fun none => Nat.succ_ne_zero size none.1
  have same : pending r = pending chunk := by
    have first := decode_chunk got rule admitted (Nat.succ_ne_zero size) r.bytes.length
    rw [at_.decodes,first,pending,if_neg mem,chunkBytes]
    cases held : streamData (size+1) rest with
    | short =>
      have taken : streamReader.data (size+1) rest = .short := held
      rw [taken]; rfl
    | bad =>
      have taken : streamReader.data (size+1) rest = .bad := held
      rw [taken]
    | got pair =>
      obtain ⟨data,next⟩ := pair
      have taken : streamReader.data (size+1) rest = .got (data,next) := held
      have shrinks : next.length ≤ rest.length := streamReader_lawful.data_shrinks taken
      rw [taken]
      exact congrArg (Decoded.prepend data) (decode_rounds streamReader_lawful _ _
        (show next.length < _ by lia) (Nat.lt_succ_self _))
  rw [result]
  have unread : r.err = none := line_unread ready split
  have inChunk : Ready chunk := ⟨ready.chunked,ready.running,ready.fresh,.inl unread⟩
  have line_read := line_moved split
  have moved : Moved r chunk (line.length+2) := ⟨line_read.start,line_read.conn,line_read.kept,line_read.within⟩
  exact (readChunk_step inChunk (Nat.succ_pos size) positive).moved moved same

theorem readSize_step (ready : Ready r) (at_ : AtSize r) (positive : 0 < n) : ReadStep r (r.readSize n) := by
  cases split : streamReader.line r.bytes with
  | short =>
    have ended : pending r = .short [] [] := by simp [at_.decodes,decode,split]
    have read := readLine_short split
    simp only [readSize,read,fail,ReadStep,ended]
    refine ⟨_,rfl,?_,ready.fresh⟩
    have empty := consume_bytes r r.bytes.length
    rw [drop_length] at empty
    exact empty
  | bad =>
    have ended : pending r = .bad := by simp [at_.decodes,decode,split]
    obtain ⟨error,after,read,other⟩ := readLine_bad split
    simp only [readSize,read,ReadStep,ended]
    exact ⟨_,_,_,rfl,other⟩
  | got pair =>
    obtain ⟨line,rest⟩ := pair
    obtain ⟨read,-⟩ := readLine_got split
    cases sized : chunkSize line with
    | none =>
      have rule : (streamRules r.max).size line = none := sized
      have ended : pending r = .bad := by simp [at_.decodes,decode,split,rule]
      simp only [readSize,read,sized,ReadStep,ended]
      exact ⟨_,_,_,rfl,by simp⟩
    | some size =>
      by_cases fits : (size : Int) > r.max - r.total
      · have rule : (streamRules r.max).size line = some size := sized
        have refused : (streamRules r.max).admits r.total size = false := by simp [streamRules]; lia
        have ended : pending r = .bad := by simp [at_.decodes,decode,split,rule,refused]
        have beyond : (size : Int) > (r.consume (line.length+2)).max - (r.consume (line.length+2)).total := fits
        simp only [readSize,read,sized,if_pos beyond,ReadStep,ended]
        exact ⟨_,_,_,rfl,by simp⟩
      · cases size with
        | zero => exact last_step ready at_ split sized fits
        | succ size => exact chunk_step ready at_ split sized fits positive

theorem readChunked_step (ready : Ready r) (positive : 0 < n) : ReadStep r (r.readChunked n) := by
  by_cases mem : 0 < r.chunkLeft
  · rw [readChunked,if_pos mem]
    exact readChunk_step ready mem positive
  have none_left : r.chunkLeft = 0 := by lia
  rw [readChunked,if_neg mem]
  cases need : r.needCRLF with
  | false =>
    have skipped : r.skipCRLF = (.ok (),r) := by simp [skipCRLF,need]
    rw [skipped]
    exact readSize_step ready ⟨none_left,need⟩ positive
  | true =>
    have spec := r.skipCRLF_spec need
    have now : ¬ (r.chunkLeft = 0 ∧ r.needCRLF = false) := by simp [need]
    cases held : streamData 0 r.bytes with
    | short =>
      rw [held] at spec
      obtain ⟨after,skipped,empty,recorded⟩ := spec
      have ended : pending r = .short [] [] := by rw [pending,if_neg now,none_left,held,take_zero]
      simp only [skipped,ReadStep,ended]
      exact ⟨_,rfl,empty,recorded.trans ready.fresh⟩
    | bad =>
      rw [held] at spec
      obtain ⟨error,after,skipped,other⟩ := spec
      have ended : pending r = .bad := by rw [pending,if_neg now,none_left,held]
      simp only [skipped,ReadStep,ended]
      exact ⟨_,_,_,rfl,other⟩
    | got pair =>
      obtain ⟨data,rest⟩ := pair
      rw [held] at spec
      obtain ⟨skipped,left⟩ := spec
      let next : RequestBodyStream := {r.consume 2 with needCRLF:=false}
      have nextBytes : next.bytes = rest := left
      obtain ⟨rfl,length⟩ : data = [] ∧ 2 ≤ r.bytes.length := by
        obtain ⟨eq,empty⟩ := streamData_got.mp held
        refine ⟨eq_nil_of_length_eq_zero empty,?_⟩
        rw [eq]
        simp only [length_append,crlf,length_cons,length_nil]
        lia
      have at_ : AtSize next := ⟨none_left,rfl⟩
      have same : pending r = pending next := by
        rw [at_.decodes,nextBytes,pending,if_neg now,none_left,held]
        exact Decoded.prepend_nil _
      have sound : Ready next := by
        refine ⟨ready.chunked,ready.running,ready.fresh,?_⟩
        rcases ready.sound with clear | empty
        · exact .inl clear
        · rw [empty] at length; cases length
      rw [skipped]
      have moved : Moved r next 2 := ⟨rfl,rfl,rfl,length⟩
      exact (readSize_step sound at_ positive).moved moved same
end

theorem readAll_decodes (size : Nat → Nat) (rounds : Nat) (ready : Ready r) (enough : r.bytes.length < rounds) :
    BodyEnd r (r.readAll size rounds) (pending r) := by
  induction rounds generalizing r with
  | zero => lia
  | succ rounds ih =>
    have step := readChunked_step (n := size rounds + 1) ready (Nat.succ_pos _)
    have reads : r.read (size rounds + 1) = r.readChunked (size rounds + 1) := by simp [read,ready.running,ready.chunked]
    rw [readAll,reads]
    generalize r.readChunked (size rounds + 1) = result at step
    obtain ⟨data,error,after⟩ := result
    cases error with
    | some error => exact step
    | none =>
      obtain ⟨more,⟨k,positive,moved⟩,eq⟩ := step
      have within := moved.within
      have shorter : after.bytes.length < rounds := by rw [moved.bytes,length_drop]; lia
      rw [eq]
      exact (ih more shorter).prepend data moved
end RequestBodyStream

theorem streamReader_line : streamReader.line w = .got (line,rest) ↔ w = line ++ crlf ++ rest ∧ StreamLine line :=
  streamLine_got

theorem streamReader_data : streamReader.data n w = .got (data,rest) ↔ w = data ++ crlf ++ rest ∧ data.length = n :=
  streamData_got

theorem messageRead_stream : MessageRead streamReader w m rest ↔ w = m.render ++ rest ∧ ∀ line ∈ m.allLines, StreamLine line :=
  messageRead_render streamReader_line streamReader_data ⟨by simp,by decide⟩

theorem stream_clean_iff {max : Int} : decode streamReader (streamRules max) (w.length+1) 0 w =
    .clean text headers rest ↔ ∃ m, w = m.render ++ rest ∧ (∀ line ∈ m.allLines, StreamLine line) ∧
      (streamRules max).Reads m headers ∧ m.body = text := by
  constructor
  · intro clean
    obtain ⟨m,path,chunks,last,room,read,rfl⟩ := decode_sound streamReader_lawful clean
    obtain ⟨eq,lines⟩ := messageRead_stream.mp path
    exact ⟨m,eq,lines,⟨chunks,last,by simpa using room,read⟩,rfl⟩
  · rintro ⟨m,eq,lines,reads,rfl⟩
    exact decode_complete streamReader_lawful _ (messageRead_stream.mpr ⟨eq,lines⟩) reads.chunks reads.last
      (by simpa using reads.room) reads.fields (Nat.lt_succ_self _)

theorem stream_short_iff {max : Int} : decode streamReader (streamRules max) (w.length+1) 0 w =
    .short text headers ↔ ShortRead streamReader (streamRules max) 0 w text headers :=
  ⟨decode_short_sound streamReader_lawful,fun short => decode_short_complete streamReader_lawful _ short (Nat.lt_succ_self _)⟩

-- However the bytes of a body arrive and whatever buffers it is read with, the same is read and the same end reported.
open RequestBodyStream in
theorem stream_reads_alike {conn wire : Conn} (size sizes : Nat → Nat) (length other : Nat) (max : Int) (same : start ++ conn.bytes = begun ++ wire.bytes)
    (ends : conn.closing = wire.closing) (enough : (start ++ conn.bytes).length < rounds)
    (got : (newRequestBodyStream conn start length true max).readAll size rounds = some (text,.read cause,r)) :
    ∃ r', (newRequestBodyStream wire begun other true max).readAll sizes rounds = some (text,.read cause,r') ∧ r'.trailers = r.trailers := by
  have one := readAll_decodes size rounds (newRequestBodyStream_ready conn start length max) enough
  have two := readAll_decodes sizes rounds (newRequestBodyStream_ready wire begun other max) (same ▸ enough : (begun ++ wire.bytes).length < rounds)
  have ahead : pending (newRequestBodyStream conn start length true max) = pending (newRequestBodyStream wire begun other true max) := by
    simp only [pending,newRequestBodyStream,RequestBodyStream.bytes,same]
  rw [← ahead] at two
  generalize pending (newRequestBodyStream conn start length true max) = decoded at one two
  cases decoded with
  | clean body fields rest =>
    obtain ⟨a,-,eq,-,-,-,first,-⟩ := one
    obtain ⟨b,-,eq',-,-,-,second,-⟩ := two
    cases got.symm.trans eq
    exact ⟨b,eq',second.trans first.symm⟩
  | short body fields =>
    obtain ⟨a,eq,-,first⟩ := one
    obtain ⟨b,eq',-,second⟩ := two
    cases got.symm.trans eq
    exact ⟨b,ends ▸ eq',second.trans first.symm⟩
  | bad =>
    obtain ⟨_,_,_,eq,unread⟩ := one
    cases eq.symm.trans got
    exact absurd rfl (unread cause)

theorem short_body_alike : ∃ r', (newRequestBodyStream ⟨[⟨ascii "2\r\nh",by decide⟩,⟨ascii "i\r\n0\r\n\r\n",by decide⟩],.eof,false⟩ [] 0 true 9).readAll
    id 13 = some (ascii "hi",.read .eof,r') ∧ r'.trailers = [] := by
  have same : ascii "2\r\nhi\r\n0\r\n\r\n" ++ Conn.bytes ⟨[],.eof,false⟩ =
      [] ++ Conn.bytes ⟨[⟨ascii "2\r\nh",by decide⟩,⟨ascii "i\r\n0\r\n\r\n",by decide⟩],.eof,false⟩ := rfl
  exact stream_reads_alike (fun _ => 7) id 0 0 9 same rfl (by decide : 12 < 13) rfl
end FhServer

import FhServer.ChunkedBody
import FhServer.StreamDecoding

namespace FhServer
open GoBytes ChunkedMessage

def bufferedRules (max : Int) (reserve : Nat → Nat → Bool) : Rules where
  size line := parseHex (trimOWS (before line 59))
  trailer := Wire.trailerField
  admits total size := size = 0 || (decide ((size : Int) ≤ max - total) && reserve total size)

def flatLine (w : Bytes) : Taken (Bytes × Bytes) :=
  match index crlf w with
  | some i => .got (w.take i,w.drop (i+2))
  | none => .short

def flatReader : LineReader Bytes := ⟨id,flatLine,streamData⟩

def taken : Except BodyError α → Taken α
  | .ok value => .got value
  | .error (.read _) => .short
  | .error _ => .bad

def wireReader : LineReader Wire :=
  ⟨Wire.bytes,fun w => taken w.readLine,fun n w => taken (w.readChunk n)⟩

theorem taken_got : taken result = .got value ↔ result = .ok value := by
  cases result with
  | ok other => simp [taken]
  | error error => cases error <;> simp [taken]

theorem flatLine_got : flatLine w = .got (line,rest) ↔ w = line ++ crlf ++ rest ∧ index crlf line = none := by
  unfold flatLine
  constructor
  · intro got
    split at got
    · rename_i i found
      obtain ⟨text,tail,rfl,rfl⟩ := index_split found
      obtain ⟨rfl,rfl⟩ := got
      rw [List.take_left]
      refine ⟨?_,(index_crlf_iff.mp ⟨found,List.take_left⟩).1⟩
      simp [crlf]
    · cases got
  · rintro ⟨rfl,free⟩
    have found := index_crlf free rest
    rw [List.append_assoc,found]
    simp [crlf]

theorem flatReader_lawful : flatReader.Lawful where
  data_length got := (streamData_got.mp got).2
  line_shrinks {s text next} got := by
    obtain ⟨eq,-⟩ := flatLine_got.mp (show flatLine s = _ from got)
    simp only [flatReader,id,eq,List.length_append,crlf,List.length_cons,List.length_nil]
    lia
  data_shrinks {n s stretch next} got := streamReader_lawful.data_shrinks (show streamReader.data n s = _ from got)

namespace Wire
variable {w after : Wire} {line data rest : Bytes} {rounds size : Nat}

theorem readMore_spec (w : Wire) : (w.conn.bytes = [] ∧ w.readMore = .error (.read w.conn.closing)) ∨
    ∃ next, w.readMore = .ok next ∧ next.bytes = w.bytes ∧ next.conn.bytes.length < w.conn.bytes.length ∧
      w.held.length ≤ next.held.length := by
  obtain ⟨k,error,eq,-,within,zero,-⟩ := w.conn.read_spec (show 0 < 4096 by lia)
  rcases Nat.eq_zero_or_pos k with none_read | some_read
  · obtain ⟨empty,rfl⟩ := zero none_read
    subst none_read
    exact .inl ⟨empty,by simp [readMore,eq]⟩
  · have length : (w.conn.bytes.take k).length = k := by rw [List.length_take]; lia
    have nonempty : w.conn.bytes.take k ≠ [] := fun empty => by rw [empty,List.length_nil] at length; lia
    refine .inr ⟨⟨w.held ++ w.conn.bytes.take k,w.conn.drop k⟩,by simp [readMore,eq,nonempty],?_,?_,?_⟩
    · simp [bytes,Conn.drop_bytes]
    · rw [Conn.drop_bytes,List.length_drop]; lia
    · simp

theorem readLineLoop_sound (got : readLineLoop rounds w = .ok (line,after)) :
    w.bytes = line ++ crlf ++ after.bytes ∧ index crlf line = none := by
  induction rounds generalizing w with
  | zero => cases got
  | succ rounds ih =>
    unfold readLineLoop at got
    split at got
    · rename_i i found
      cases got
      have flat : flatLine w.held = .got (w.held.take i,w.held.drop (i+2)) := by simp [flatLine,found]
      obtain ⟨eq,free⟩ := flatLine_got.mp flat
      refine ⟨?_,free⟩
      simp only [bytes]
      rw [← List.append_assoc,← eq]
    · split at got
      · cases got
      rcases w.readMore_spec with ⟨-,failed⟩ | ⟨next,more,same,-⟩
      · rw [failed] at got; cases got
      · rw [more] at got
        rw [← same]
        exact ih got

theorem readLineLoop_complete (split : w.bytes = line ++ crlf ++ rest) (free : index crlf line = none)
    (reachable : line.length < maxChunkLine ∨ w.conn.bytes = []) (enough : w.conn.bytes.length < rounds) :
    ∃ after, readLineLoop rounds w = .ok (line,after) ∧ after.bytes = rest ∧
      after.conn.bytes.length ≤ w.conn.bytes.length := by
  induction rounds generalizing w with
  | zero => lia
  | succ rounds ih =>
    have found : index crlf w.bytes = some line.length := by rw [split,List.append_assoc]; exact index_crlf free rest
    have held : w.held = w.bytes.take w.held.length := by rw [bytes,List.take_left]
    have here := index_take found w.held.length
    rw [← held] at here
    by_cases reaches : line.length + crlf.length ≤ w.held.length
    · rw [if_pos reaches] at here
      have flat : flatLine w.bytes = .got (line,rest) := flatLine_got.mpr ⟨split,free⟩
      simp only [flatLine,found,Taken.got.injEq,Prod.mk.injEq] at flat
      have size : line.length + 2 ≤ w.held.length := reaches
      have start : w.held.take line.length = line := by rw [held,List.take_take,min_eq_left (by lia)]; exact flat.1
      refine ⟨{w with held:=w.held.drop (line.length+2)},by simp [readLineLoop,here,start],?_,le_refl _⟩
      rw [← flat.2]
      simp only [bytes]
      rw [List.drop_append_of_le_length size]
    · rw [if_neg reaches] at here
      have pending : w.conn.bytes ≠ [] := by
        intro empty
        have length := congrArg List.length split
        simp only [bytes,empty,List.append_nil,List.length_append] at length
        lia
      have short : line.length < maxChunkLine := reachable.resolve_right pending
      have size : ¬ maxChunkLine < w.held.length := by
        have two : crlf.length = 2 := rfl
        lia
      rcases w.readMore_spec with ⟨empty,-⟩ | ⟨next,more,same,fewer,-⟩
      · exact absurd empty pending
      · obtain ⟨after,read,left,less⟩ := ih (same.trans split) (.inl short) (by lia)
        exact ⟨after,by simp [readLineLoop,here,if_neg size,more,read],left,by lia⟩

theorem ensureLoop_sound (got : ensureLoop n rounds w = .ok after) : after.bytes = w.bytes ∧ n ≤ after.held.length := by
  induction rounds generalizing w with
  | zero => cases got
  | succ rounds ih =>
    unfold ensureLoop at got
    split at got
    · rcases w.readMore_spec with ⟨-,failed⟩ | ⟨next,more,same,-⟩
      · rw [failed] at got; cases got
      · rw [more] at got
        rw [← same]
        exact ih got
    · cases got
      exact ⟨rfl,by lia⟩

theorem ensureLoop_complete (long : n ≤ w.bytes.length) (enough : w.conn.bytes.length < rounds) :
    ∃ after, ensureLoop n rounds w = .ok after ∧ after.conn.bytes.length ≤ w.conn.bytes.length := by
  induction rounds generalizing w with
  | zero => lia
  | succ rounds ih =>
    unfold ensureLoop
    by_cases less : w.held.length < n
    · rcases w.readMore_spec with ⟨empty,-⟩ | ⟨next,more,same,fewer,-⟩
      · rw [bytes,empty,List.append_nil] at long; lia
      · obtain ⟨after,got,smaller⟩ := ih (by rw [same]; exact long) (by lia)
        exact ⟨after,by rw [if_pos less,more]; exact got,by lia⟩
    · exact ⟨w,by rw [if_neg less],le_refl _⟩

theorem readChunk_sound (got : w.readChunk size = .ok (data,after)) :
    w.bytes = data ++ crlf ++ after.bytes ∧ data.length = size := by
  unfold readChunk at got
  split at got
  · cases got
  split at got
  · cases got
  rename_i full ensured
  obtain ⟨same,long⟩ := ensureLoop_sound ensured
  split at got
  · rename_i ended
    cases got
    have flat : streamData size full.held = .got (full.held.take size,full.held.drop (size+2)) := by
      simp [streamData,if_neg (show ¬ full.held.length < size + 2 by lia),ended]
    obtain ⟨eq,length⟩ := streamData_got.mp flat
    refine ⟨?_,length⟩
    rw [← same]
    simp only [bytes]
    rw [← List.append_assoc,← eq]
  · cases got

theorem readChunk_complete (split : w.bytes = data ++ crlf ++ rest) (fits : data.length + 2 ≤ maxInt) :
    ∃ after, w.readChunk data.length = .ok (data,after) ∧ after.bytes = rest ∧
      after.conn.bytes.length ≤ w.conn.bytes.length := by
  have length := congrArg List.length split
  simp only [List.length_append,crlf,List.length_cons,List.length_nil] at length
  obtain ⟨full,ensured,less⟩ := ensureLoop_complete (n := data.length+2) (show _ ≤ w.bytes.length by lia)
    (Nat.lt_succ_self w.conn.bytes.length)
  obtain ⟨same,long⟩ := ensureLoop_sound ensured
  obtain ⟨tail,held,eq⟩ : ∃ tail, full.held = data ++ crlf ++ tail ∧ rest = tail ++ full.conn.bytes := by
    rw [← same,bytes] at split
    rcases List.append_eq_append_iff.mp split with ⟨more,eq,-⟩ | ⟨tail,eq,rest⟩
    · have size := congrArg List.length eq
      simp only [List.length_append,crlf,List.length_cons,List.length_nil] at size
      have none_more : more = [] := List.eq_nil_of_length_eq_zero (by lia)
      subst none_more
      exact ⟨[],by simpa using eq.symm,by simp_all⟩
    · exact ⟨tail,eq,rest⟩
  have ended : (full.held.drop data.length).take 2 = crlf := by rw [held]; simp [crlf]
  have start : full.held.take data.length = data := by rw [held]; simp
  have stop : full.held.drop (data.length+2) = tail := by rw [held,← List.drop_drop]; simp [crlf]
  refine ⟨⟨tail,full.conn⟩,?_,eq.symm,less⟩
  simp [readChunk,if_neg (show ¬ maxInt < data.length + 2 by lia),ensure,ensured,ended,start,stop]
end Wire

theorem wireReader_lawful : wireReader.Lawful where
  data_length got := (Wire.readChunk_sound (taken_got.mp got)).2
  line_shrinks {s text next} got := by
    obtain ⟨eq,-⟩ := Wire.readLineLoop_sound (taken_got.mp got)
    simp only [wireReader,eq,List.length_append,crlf,List.length_cons,List.length_nil]
    lia
  data_shrinks {n s stretch next} got := by
    obtain ⟨eq,-⟩ := Wire.readChunk_sound (taken_got.mp got)
    simp only [wireReader,eq,List.length_append]
    lia

theorem wire_line (got : w.readLine = .ok pair) : wireReader.line w = .got pair := taken_got.mpr got

theorem wire_line_error (failed : w.readLine = .error error) (pair : Bytes × Wire) :
    wireReader.line w ≠ .got pair := by
  intro got
  rw [taken_got.mp got] at failed
  cases failed

theorem decodeFields_got (clean : decodeFields reader rules (rounds+1) seen s = .clean text fields after) :
    ∃ line next, reader.line s = .got (line,next) := by
  simp only [decodeFields] at clean
  cases got : reader.line s with
  | got pair => exact ⟨pair.1,pair.2,rfl⟩
  | short | bad => rw [got] at clean; cases clean

theorem decode_got (clean : decode reader rules (rounds+1) total s = .clean text fields after) :
    ∃ line next, reader.line s = .got (line,next) := by
  simp only [decode] at clean
  cases got : reader.line s with
  | got pair => exact ⟨pair.1,pair.2,rfl⟩
  | short | bad => rw [got] at clean; cases clean

namespace Wire
variable {w after : Wire} {max : Int} {reserve : Nat → Nat → Bool}

theorem readTrailersLoop_decodes {trailers : List Header} : readTrailersLoop rounds seen w = .ok (trailers,after) ↔
    ∃ fields, decodeFields wireReader (bufferedRules max reserve) rounds seen.length w = .clean [] fields after ∧
      trailers = seen ++ fields := by
  induction rounds generalizing w seen with
  | zero => simp [readTrailersLoop,decodeFields]
  | succ rounds ih =>
    cases read : w.readLine with
    | error error =>
      constructor
      · intro got; simp [readTrailersLoop,read] at got
      · rintro ⟨fields,clean,-⟩
        obtain ⟨line,next,got⟩ := decodeFields_got clean
        exact absurd got (wire_line_error read _)
    | ok pair =>
      obtain ⟨line,next⟩ := pair
      simp only [readTrailersLoop,read,decodeFields,wire_line read]
      by_cases blank : line = []
      · simp only [if_pos blank,Except.ok.injEq,Prod.mk.injEq,Decoded.clean.injEq,true_and]
        constructor
        · rintro ⟨rfl,rfl⟩; exact ⟨[],⟨rfl,rfl⟩,by simp⟩
        · rintro ⟨fields,⟨rfl,rfl⟩,rfl⟩; exact ⟨by simp,rfl⟩
      · simp only [if_neg blank]
        have rule : (bufferedRules max reserve).trailer seen.length line = trailerField seen.length line := rfl
        rw [rule]
        cases trailerField seen.length line with
        | none => simp
        | some header =>
          have count : (seen ++ [header]).length = seen.length + 1 := by simp
          simp only [ih,count]
          constructor
          · rintro ⟨fields,clean,rfl⟩
            exact ⟨header :: fields,by rw [clean]; rfl,by simp⟩
          · rintro ⟨fields,clean,rfl⟩
            obtain ⟨others,inner,rfl⟩ := Decoded.field_clean clean
            exact ⟨others,inner,by simp⟩

theorem readChunksLoop_extends {held : Bytes} (got : readChunksLoop max reserve rounds held w = .ok (all,next)) :
    held <+: all := by
  induction rounds generalizing w held with
  | zero => cases got
  | succ rounds ih =>
    unfold readChunksLoop at got
    split at got
    · cases got
    split at got
    · cases got
    split at got
    · cases got; exact List.prefix_rfl
    split at got
    · cases got
    split at got
    · cases got
    split at got
    · cases got
    · exact (List.prefix_append _ _).trans (ih got)

theorem readChunksLoop_decodes {held : Bytes} (enough : w.bytes.length < rounds) :
    decode wireReader (bufferedRules max reserve) rounds held.length w = .clean text fields after ↔
      ∃ next, readChunksLoop max reserve rounds held w = .ok (held ++ text,next) ∧
        decodeFields wireReader (bufferedRules max reserve) (next.bytes.length+1) 0 next = .clean [] fields after := by
  induction rounds generalizing w held text with
  | zero => lia
  | succ rounds ih =>
    cases read : w.readLine with
    | error error =>
      constructor
      · intro clean
        obtain ⟨line,next,got⟩ := decode_got clean
        exact absurd got (wire_line_error read _)
      · rintro ⟨next,got,-⟩; simp [readChunksLoop,read] at got
    | ok pair =>
      obtain ⟨line,next⟩ := pair
      have split := wire_line read
      have shrinks : next.bytes.length < w.bytes.length := wireReader_lawful.line_shrinks split
      have rule : (bufferedRules max reserve).size line = parseHex (trimOWS (before line 59)) := rfl
      simp only [readChunksLoop,read,decode,split]
      rw [← rule]
      cases sized : (bufferedRules max reserve).size line with
      | none => simp
      | some size =>
        by_cases zero : size = 0
        · subst zero
          have admitted : (bufferedRules max reserve).admits held.length 0 = true := by simp [bufferedRules]
          have same : decodeFields wireReader (bufferedRules max reserve) rounds 0 next =
              decodeFields wireReader (bufferedRules max reserve) (next.bytes.length+1) 0 next :=
            decodeFields_rounds wireReader_lawful _ _ (show next.bytes.length < rounds by lia) (Nat.lt_succ_self _)
          simp only [admitted,if_true,same,Except.ok.injEq,Prod.mk.injEq]
          constructor
          · intro clean
            obtain ⟨rfl,-⟩ := decodeFields_sound clean
            exact ⟨next,⟨by simp,rfl⟩,clean⟩
          · rintro ⟨_,⟨eq,rfl⟩,clean⟩
            obtain rfl : text = [] := by simpa using eq
            exact clean
        · simp only [if_neg zero]
          by_cases beyond : (size : Int) > max - held.length
          · have refused : (bufferedRules max reserve).admits held.length size = false := by simp [bufferedRules,zero]; lia
            simp [if_pos beyond,refused]
          cases budget : reserve held.length size with
          | false =>
            have refused : (bufferedRules max reserve).admits held.length size = false := by simp [bufferedRules,zero,budget]
            simp [if_neg beyond,refused]
          | true =>
            have admitted : (bufferedRules max reserve).admits held.length size = true := by simp [bufferedRules,budget]; lia
            simp only [admitted,if_true,if_neg beyond,Bool.not_true,Bool.false_eq_true,if_false]
            cases chunk : next.readChunk size with
            | error error =>
              have none_taken : ∀ pair, wireReader.data size next ≠ .got pair := fun pair got => by rw [taken_got.mp got] at chunk; cases chunk
              constructor
              · intro clean
                cases got : wireReader.data size next with
                | got pair => exact absurd got (none_taken pair)
                | short | bad => rw [got] at clean; cases clean
              · rintro ⟨_,got,-⟩; cases got
            | ok pair =>
              obtain ⟨data,later⟩ := pair
              have got : wireReader.data size next = .got (data,later) := taken_got.mpr chunk
              have length : data.length = size := wireReader_lawful.data_length got
              have less : later.bytes.length ≤ next.bytes.length := wireReader_lawful.data_shrinks got
              have total : held.length + size = (held ++ data).length := by simp [length]
              rw [got]
              simp only [total]
              constructor
              · intro clean
                obtain ⟨more,inner,rfl⟩ := Decoded.prepend_clean clean
                obtain ⟨last,read,tail⟩ := (ih (by lia)).mp inner
                exact ⟨last,by rw [read,List.append_assoc],tail⟩
              · rintro ⟨last,read,tail⟩
                obtain ⟨more,eq⟩ := readChunksLoop_extends read
                obtain rfl : data ++ more = text := by simpa using eq
                rw [← List.append_assoc] at read
                rw [(ih (by lia)).mpr ⟨last,read,tail⟩]
                rfl
end Wire

theorem readChunkedBodyWithReserve_decodes (conn : Conn) (initial : Bytes) (max : Int) (reserve : Nat → Nat → Bool)
    (result : ChunkedBody) : readChunkedBodyWithReserve conn initial max reserve = .ok result ↔
      decode wireReader (bufferedRules max reserve) ((Wire.mk initial conn).bytes.length+1) 0 ⟨initial,conn⟩ =
        .clean result.body result.trailers ⟨result.leftover,result.conn⟩ := by
  rw [show 0 = ([] : Bytes).length from rfl,Wire.readChunksLoop_decodes (Nat.lt_succ_self _)]
  simp only [readChunkedBodyWithReserve,List.nil_append]
  constructor
  · intro got
    split at got
    · cases got
    rename_i text next read
    split at got
    · cases got
    rename_i trailers after tail
    cases got
    obtain ⟨fields,clean,rfl⟩ := Wire.readTrailersLoop_decodes.mp tail
    exact ⟨next,read,clean⟩
  · rintro ⟨next,read,clean⟩
    have tail : next.readTrailersLoop (next.bytes.length+1) [] = .ok (result.trailers,⟨result.leftover,result.conn⟩) :=
      Wire.readTrailersLoop_decodes.mpr ⟨result.trailers,clean,rfl⟩
    rw [read]
    simp [tail]

theorem readChunkedBodyWithReserve_iff {max : Int}
    : readChunkedBodyWithReserve conn initial max reserve = .ok result ↔
      ∃ m, MessageRead wireReader ⟨initial,conn⟩ m ⟨result.leftover,result.conn⟩ ∧
        (bufferedRules max reserve).Reads m result.trailers ∧ m.body = result.body := by
  rw [readChunkedBodyWithReserve_decodes]
  constructor
  · intro clean
    obtain ⟨m,path,chunks,last,room,read,text⟩ := decode_sound wireReader_lawful clean
    exact ⟨m,path,⟨chunks,last,by simpa using room,read⟩,text.symm⟩
  · rintro ⟨m,path,reads,text⟩
    rw [← text]
    exact decode_complete wireReader_lawful _ path reads.chunks reads.last (by simpa using reads.room) reads.fields
      (Nat.lt_succ_self _)
end FhServer

import FhServer.BufferedDecoding

namespace FhServer
open List hiding count after
open GoBytes ChunkedMessage Option

def SolidByte (c : UInt8) : Prop := 0x20 < c ∧ c < 0x80

theorem solid_first (solid : SolidByte c) : asciiSpace c = false ∧ (∀ b, space2 c b = false) ∧ ∀ a b, space3 c a b = false := by
  obtain ⟨low,high⟩ := solid
  have low' : 32 < c.toNat := low
  have high' : c.toNat < 128 := high
  refine ⟨?_,fun b => ?_,fun a b => ?_⟩ <;> simp [asciiSpace,space2,space3,← UInt8.toNat_inj,UInt8.le_iff_toNat_le] <;> lia

theorem solid_last (solid : SolidByte c) : asciiSpace c = false ∧ (∀ b, space2 b c = false) ∧ ∀ a b, space3 b a c = false := by
  obtain ⟨low,high⟩ := solid
  have low' : 32 < c.toNat := low
  have high' : c.toNat < 128 := high
  refine ⟨?_,fun b => ?_,fun a b => ?_⟩ <;> simp [asciiSpace,space2,space3,← UInt8.toNat_inj,UInt8.le_iff_toNat_le] <;> lia

section
variable {one : UInt8 → Bool} {two : UInt8 → UInt8 → Bool} {three : UInt8 → UInt8 → UInt8 → Bool}

theorem trimRunes_space (space : one a = true) (rest : Bytes) :
    trimRunes one two three (a :: rest) = trimRunes one two three rest := by
  match rest with
  | [] | [b] | b :: c :: rest => simp [trimRunes,space]

theorem trimRunes_solid (solid : one a = false ∧ (∀ b, two a b = false) ∧ ∀ b c, three a b c = false) (rest : Bytes) :
    trimRunes one two three (a :: rest) = a :: rest := by
  obtain ⟨first,second,third⟩ := solid
  match rest with
  | [] => simp [trimRunes,first]
  | [b] => simp [trimRunes,first,second]
  | b :: c :: rest => simp [trimRunes,first,second,third]

theorem trimRunes_spaces (all : ∀ a ∈ spaces, one a = true)
    (solid : one c = false ∧ (∀ b, two c b = false) ∧ ∀ a b, three c a b = false) (rest : Bytes) :
    trimRunes one two three (spaces ++ c :: rest) = c :: rest := by
  induction spaces with
  | nil => exact trimRunes_solid solid rest
  | cons a spaces ih =>
    rw [cons_append,trimRunes_space (all a (by simp))]
    exact ih fun b mem => all b (by simp [mem])
end

theorem trimOWS_split (text : Bytes) : ∃ left right, text = left ++ (trimOWS text ++ right) ∧
    (∀ c ∈ left, asciiSpace c = true) ∧ ∀ c ∈ right, asciiSpace c = true := by
  let inner := text.dropWhile isOWS
  refine ⟨text.takeWhile isOWS,inner.rtakeWhile (fun c => c == 32 || c == cr || c == 9),?_,?_,?_⟩
  · have right : inner.rdropWhile (fun c => c == 32 || c == cr || c == 9) ++
        inner.rtakeWhile (fun c => c == 32 || c == cr || c == 9) = inner := by
      rw [List.rdropWhile,List.rtakeWhile,← reverse_append,takeWhile_append_dropWhile,reverse_reverse]
    rw [trimOWS,trimRight,right,takeWhile_append_dropWhile]
  · intro c mem
    have ows := mem_takeWhile_imp mem
    simp only [isOWS,Bool.or_eq_true,beq_iff_eq] at ows
    rcases ows with rfl | rfl <;> rfl
  · intro c mem
    have space := mem_rtakeWhile_imp mem
    simp only [Bool.or_eq_true,beq_iff_eq] at space
    rcases space with (rfl | rfl) | rfl <;> rfl

theorem trimSpace_trimOWS (nonempty : trimOWS text ≠ [])
    (solid : ∀ c ∈ trimOWS text, SolidByte c) : trimSpace text = trimOWS text := by
  obtain ⟨left,right,eq,leading,trailing⟩ := trimOWS_split text
  generalize trimOWS text = core at *
  have leftTrimmed : trimSpaceLeft text = core ++ right := by
    obtain ⟨c,rest,rfl⟩ := exists_cons_of_ne_nil nonempty
    rw [eq,cons_append]
    exact trimRunes_spaces leading (solid_first (solid c (by simp))) _
  have reversed : (core ++ right).reverse = right.reverse ++ core.reverse := reverse_append
  obtain ⟨c,rest,last⟩ := exists_cons_of_ne_nil (reverse_ne_nil_iff.mpr nonempty)
  have mem : c ∈ core := by rw [← mem_reverse,last]; simp
  have trimmed : trimRunes asciiSpace (fun x y => space2 y x) (fun x y z => space3 z y x)
      (right.reverse ++ c :: rest) = c :: rest :=
    trimRunes_spaces (fun a inside => trailing a (mem_reverse.mp inside)) (solid_last (solid c mem)) rest
  rw [trimSpace,leftTrimmed,trimSpaceRight,reversed,last,trimmed,← last,reverse_reverse]

theorem hexDigit_solid (digit : hexDigit c = some d) : SolidByte c ∧ c ≠ 43 ∧ c ≠ 45 ∧ d < 16 := by
  have range : 48 ≤ c.toNat ∧ c.toNat ≤ 102 ∧ d < 16 := by
    unfold hexDigit at digit
    simp only [Bool.and_eq_true,decide_eq_true_eq,UInt8.le_iff_toNat_le,UInt8.reduceToNat] at digit
    split at digit
    · cases digit; lia
    split at digit
    · cases digit; lia
    split at digit
    · cases digit; lia
    · cases digit
  obtain ⟨low,high,small⟩ := range
  refine ⟨⟨show 32 < c.toNat by lia,show c.toNat < 128 by lia⟩,?_,?_,small⟩
  · rintro rfl; exact absurd low (by decide)
  · rintro rfl; exact absurd low (by decide)

-- Both parsers fold the digits; parseHex stops at the first value that does not
-- fit an int, so what it accepts is in range.
theorem parseHex_fold {b : Bytes} (small : k ≤ maxInt)
    (got : b.foldl (fun acc c => acc.bind fun n => (hexDigit c).bind fun d =>
      if (maxInt - d) / 16 < n then none else some (n*16 + d)) (some k) = some n) :
    b.foldl (fun acc c => acc.bind fun n => (hexDigit c).map (n*16 + ·)) (some k) = some n ∧ n ≤ maxInt ∧
      ∀ c ∈ b, ∃ d, hexDigit c = some d := by
  have stuck : ∀ rest : Bytes, rest.foldl (fun acc c => acc.bind fun n => (hexDigit c).bind fun d =>
      if (maxInt - d) / 16 < n then none else some (n*16 + d)) none = none := by
    intro rest
    induction rest with
    | nil => rfl
    | cons c rest ih => exact ih
  induction b generalizing k with
  | nil => cases got; exact ⟨rfl,small,by simp⟩
  | cons c b ih =>
    simp only [foldl_cons,bind_some] at got ⊢
    cases digit : hexDigit c with
    | none => rw [digit,bind_none,stuck] at got; cases got
    | some d =>
      rw [digit,bind_some] at got
      have below := (hexDigit_solid digit).2.2.2
      split at got
      · rw [stuck] at got; cases got
      have next : k*16 + d ≤ maxInt := by
        have bound : 16 ≤ maxInt := by decide
        lia
      obtain ⟨same,range,digits⟩ := ih next got
      exact ⟨same,range,forall_mem_cons.mpr ⟨⟨d,digit⟩,digits⟩⟩

theorem parseHex_parseInt {b : Bytes} (got : parseHex b = some n) : parseInt16 b = some (n : Int) ∧
    b ≠ [] ∧ ∀ c ∈ b, SolidByte c := by
  unfold parseHex at got
  split at got
  · cases got
  rename_i nonempty
  obtain ⟨same,range,digits⟩ := parseHex_fold (by decide : 0 ≤ maxInt) got
  refine ⟨?_,nonempty,fun c mem => (hexDigit_solid (digits c mem).choose_spec).1⟩
  obtain ⟨c,rest,rfl⟩ := exists_cons_of_ne_nil nonempty
  obtain ⟨d,digit⟩ := digits c (by simp)
  obtain ⟨-,plus,minus,-⟩ := hexDigit_solid digit
  have read : parseUint16 (c :: rest) = some n := by rw [parseUint16,if_neg (by simp)]; exact same
  simp [parseInt16,plus,minus,read,range]

theorem chunkSize_of_parseHex (got : parseHex (trimOWS (before line 59)) = some n) :
    RequestBodyStream.chunkSize line = some n := by
  obtain ⟨read,nonempty,solid⟩ := parseHex_parseInt got
  rw [RequestBodyStream.chunkSize,trimSpace_trimOWS nonempty solid,read]
  simp

-- The text after the colon of a trailer line that both decoders keep, and keep
-- as the same value.
def PlainText (text : Bytes) : Prop := trimSpace text = trimOWS text ∧ (trimOWS text).any controlByte = false

def PlainTrailer (line : Bytes) : Prop := ∀ colon, indexByte line 58 = some colon → PlainText (line.drop (colon+1))

-- A message both decoders can read: its lines are short and hold no bare LF, its
-- sizes are bare hexadecimal numbers, its trailers are plain.
structure Plain (max : Int) (m : ChunkedMessage) : Prop where
  limit : 0 ≤ max
  lines : ∀ line ∈ m.allLines, StreamLine line
  sizes : ∀ line ∈ m.sizeLines, (parseHex (trimOWS (before line 59))).isSome = true
  trailers : ∀ line ∈ m.trailers, PlainTrailer line

theorem trailerName_text (named : trailerName count line = some (name,text)) :
    ∃ colon, indexByte line 58 = some colon ∧ text = line.drop (colon+1) := by
  unfold trailerName at named
  split at named
  · cases named
  rename_i colon found
  simp only at named
  split at named
  · cases named
  split at named
  · cases named
  · cases named
    exact ⟨colon,found,rfl⟩

theorem trailer_plain (plain : PlainTrailer line) (count : Nat) :
    (RequestBodyStream.trailerField count line).toOption = Wire.trailerField count line := by
  unfold RequestBodyStream.trailerField Wire.trailerField
  cases named : trailerName count line with
  | none => rfl
  | some pair =>
    obtain ⟨name,text⟩ := pair
    obtain ⟨colon,found,rfl⟩ := trailerName_text named
    obtain ⟨same,clear⟩ := plain colon found
    simp [same,clear,Except.toOption]

theorem trailer_same (stream : (RequestBodyStream.trailerField count line).toOption = some header)
    (buffered : Wire.trailerField count line = some header) : PlainTrailer line := by
  unfold RequestBodyStream.trailerField at stream
  unfold Wire.trailerField at buffered
  cases named : trailerName count line with
  | none => rw [named] at buffered; cases buffered
  | some pair =>
    obtain ⟨name,text⟩ := pair
    obtain ⟨colon,found,rfl⟩ := trailerName_text named
    simp only [named,map_some,some.injEq] at buffered
    subst buffered
    simp only [named] at stream
    intro other again
    rw [found] at again; cases again
    split at stream
    · cases stream
    · rename_i clear
      simp only [Except.toOption,some.injEq,Header.mk.injEq,true_and] at stream
      exact ⟨stream,by rw [← stream]; simpa using clear⟩

def unbounded : Nat → Nat → Bool := fun _ _ => true

section
variable {max : Int}

theorem fields_plain (plain : ∀ line ∈ lines, PlainTrailer line) (seen : Nat) :
    (streamRules max).fields seen lines = (bufferedRules max unbounded).fields seen lines := by
  induction lines generalizing seen with
  | nil => rfl
  | cons line lines ih =>
    have same : (streamRules max).trailer seen line = (bufferedRules max unbounded).trailer seen line :=
      trailer_plain (plain line (by simp)) seen
    simp [Rules.fields,same,ih fun line mem => plain line (by simp [mem])]

theorem fields_same (stream : (streamRules max).fields seen lines = some headers)
    (buffered : (bufferedRules max unbounded).fields seen lines = some headers) :
    ∀ line ∈ lines, PlainTrailer line := by
  induction lines generalizing seen headers with
  | nil => simp
  | cons line lines ih =>
    obtain ⟨-,field,rest,first,tail,rfl⟩ := Rules.fields_cons stream
    obtain ⟨-,other,more,second,tail',eq⟩ := Rules.fields_cons buffered
    obtain ⟨rfl,rfl⟩ := eq
    exact forall_mem_cons.mpr ⟨trailer_same first second,ih tail tail'⟩

theorem chunks_stream (read : (bufferedRules max unbounded).chunks total pieces) :
    (streamRules max).chunks total pieces := by
  induction pieces generalizing total with
  | nil => trivial
  | cons piece pieces ih =>
    obtain ⟨sized,nonempty,admitted,rest⟩ := read
    refine ⟨chunkSize_of_parseHex sized,nonempty,?_,ih rest⟩
    simp only [bufferedRules,unbounded,Bool.and_true,Bool.or_eq_true,decide_eq_true_eq,length_eq_zero_iff,
      nonempty,false_or] at admitted
    simp only [streamRules,decide_eq_true_eq]
    lia

theorem chunks_buffered (read : (streamRules max).chunks total pieces)
    (sizes : ∀ piece ∈ pieces, (parseHex (trimOWS (before piece.1 59))).isSome = true) :
    (bufferedRules max unbounded).chunks total pieces := by
  induction pieces generalizing total with
  | nil => trivial
  | cons piece pieces ih =>
    obtain ⟨line,data⟩ := piece
    obtain ⟨sized,nonempty,admitted,rest⟩ := read
    obtain ⟨n,parsed⟩ := isSome_iff_exists.mp (sizes (line,data) (by simp))
    have same : some n = some data.length := (chunkSize_of_parseHex parsed).symm.trans sized
    cases same
    refine ⟨parsed,nonempty,?_,ih rest fun piece mem => sizes piece (by simp [mem])⟩
    simp only [streamRules,decide_eq_true_eq] at admitted
    simp only [bufferedRules,unbounded,Bool.and_true,Bool.or_eq_true,decide_eq_true_eq]
    lia

theorem chunks_total (read : (streamRules max).chunks total pieces)
    (start : (total : Int) ≤ max) : ((total + (pieces.flatMap Prod.snd).length : Nat) : Int) ≤ max := by
  induction pieces generalizing total with
  | nil => simpa using start
  | cons piece pieces ih =>
    obtain ⟨-,-,admitted,rest⟩ := read
    simp only [streamRules,decide_eq_true_eq] at admitted
    have later := ih rest (by push_cast; exact admitted)
    simp only [flatMap_cons,length_append]
    rw [← Nat.add_assoc]
    exact later

theorem Plain.reads (plain : Plain max m) :
    (bufferedRules max unbounded).Reads m headers ↔ (streamRules max).Reads m headers := by
  have fields : (streamRules max).fields 0 m.trailers = (bufferedRules max unbounded).fields 0 m.trailers :=
    fields_plain plain.trailers 0
  constructor
  · intro read
    have chunks := chunks_stream read.chunks
    have total := chunks_total chunks (by simpa using plain.limit)
    refine ⟨chunks,chunkSize_of_parseHex read.last,?_,by rw [fields]; exact read.fields⟩
    simpa [streamRules,body] using total
  · intro read
    have sizes : ∀ piece ∈ m.chunks, (parseHex (trimOWS (before piece.1 59))).isSome = true := fun piece mem =>
      plain.sizes piece.1 (by simp only [sizeLines,mem_append,List.mem_map]; exact .inl ⟨piece,mem,rfl⟩)
    obtain ⟨n,parsed⟩ := isSome_iff_exists.mp (plain.sizes m.last (by simp [sizeLines]))
    have same : some n = some 0 := (chunkSize_of_parseHex parsed).symm.trans read.last
    cases same
    exact ⟨chunks_buffered read.chunks sizes,parsed,by simp [bufferedRules],by rw [← fields]; exact read.fields⟩

theorem plain_of_both (buffered : (bufferedRules max unbounded).Reads m headers)
    (stream : (streamRules max).Reads m headers) (lines : ∀ line ∈ m.allLines, StreamLine line) : Plain max m where
  limit := by
    have room := stream.room
    simp only [streamRules,decide_eq_true_eq] at room
    lia
  lines := lines
  sizes line mem := by
    simp only [sizeLines,mem_append,List.mem_map,mem_singleton] at mem
    have each : ∀ {total pieces}, (bufferedRules max unbounded).chunks total pieces → ∀ piece ∈ pieces,
        (parseHex (trimOWS (before piece.1 59))).isSome = true := by
      intro total pieces
      induction pieces generalizing total with
      | nil => simp
      | cons piece pieces ih =>
        rintro ⟨sized,-,-,rest⟩ other inside
        rcases mem_cons.mp inside with rfl | later
        · exact isSome_iff_exists.mpr ⟨_,sized⟩
        · exact ih rest other later
    rcases mem with ⟨piece,inside,rfl⟩ | rfl
    · exact each buffered.chunks piece inside
    · exact isSome_iff_exists.mpr ⟨0,buffered.last⟩
  trailers := fields_same stream.fields buffered.fields
end

def crlfFree (line : Bytes) : Prop := index crlf line = none

theorem flatReader_line : flatReader.line w = .got (line,rest) ↔ w = line ++ crlf ++ rest ∧ crlfFree line := flatLine_got

theorem flatReader_data : flatReader.data n w = .got (data,rest) ↔ w = data ++ crlf ++ rest ∧ data.length = n :=
  streamData_got

theorem messageRead_flat : MessageRead flatReader w m rest ↔ w = m.render ++ rest ∧ ∀ line ∈ m.allLines, crlfFree line :=
  messageRead_render flatReader_line flatReader_data rfl

theorem streamLine_free (fits : StreamLine line) : crlfFree line := by
  cases found : index crlf line with
  | none => exact found
  | some i =>
    obtain ⟨text,tail,rfl,-⟩ := index_split found
    exact absurd (by simp [crlf]) fits.1

theorem messageRead_wire_flat (path : MessageRead wireReader s m after) :
    MessageRead flatReader s.bytes m after.bytes := by
  obtain ⟨later,path,rfl⟩ := MessageRead.follows (R := fun s w => w = Wire.bytes s) (G := fun _ => True)
    (fun start _ got => ⟨_,by subst start; exact flatReader_line.mpr (Wire.readLineLoop_sound (taken_got.mp got)),rfl⟩)
    (fun start got => ⟨_,by subst start; exact flatReader_data.mpr (Wire.readChunk_sound (taken_got.mp got)),rfl⟩)
    rfl path trivial (fun _ _ => trivial)
  exact path

structure Ahead (dry : Prop) (w : Bytes) (s : Wire) : Prop where
  bytes : s.bytes = w
  fits : w.length ≤ maxInt
  buffered : dry → s.conn.bytes = []

theorem Ahead.later (ahead : Ahead dry w s) (eq : w = data ++ crlf ++ rest) (left : after.bytes = rest)
    (less : after.conn.bytes.length ≤ s.conn.bytes.length) : Ahead dry rest after where
  bytes := left
  fits := by
    have fits := ahead.fits
    rw [eq] at fits
    simp only [length_append] at fits
    lia
  buffered empty := by
    rw [ahead.buffered empty] at less
    exact eq_nil_of_length_eq_zero (Nat.le_zero.mp less)

theorem wireReader_reaches (ahead : Ahead dry w s) (near : line.length < maxChunkLine ∨ dry)
    (got : flatReader.line w = .got (line,rest)) : ∃ after, wireReader.line s = .got (line,after) ∧ Ahead dry rest after := by
  obtain ⟨eq,free⟩ := flatReader_line.mp got
  obtain ⟨after,read,left,less⟩ := Wire.readLineLoop_complete (ahead.bytes.trans eq) free
    (near.imp_right ahead.buffered) (Nat.lt_succ_self _)
  exact ⟨after,taken_got.mpr read,ahead.later eq left less⟩

theorem wireReader_collects (ahead : Ahead dry w s) (got : flatReader.data n w = .got (data,rest)) :
    ∃ after, wireReader.data n s = .got (data,after) ∧ Ahead dry rest after := by
  obtain ⟨eq,rfl⟩ := flatReader_data.mp got
  have fits : data.length + 2 ≤ maxInt := by
    have whole := ahead.fits
    rw [eq] at whole
    simp only [length_append,crlf,length_cons,length_nil] at whole
    lia
  obtain ⟨after,read,left,less⟩ := Wire.readChunk_complete (ahead.bytes.trans eq) fits
  exact ⟨after,taken_got.mpr read,ahead.later eq left less⟩

theorem messageRead_flat_wire (path : MessageRead flatReader s.bytes m rest) (fits : s.bytes.length ≤ maxInt)
    (reachable : s.conn.bytes = [] ∨ ∀ line ∈ m.allLines, line.length < maxChunkLine) :
    ∃ after, MessageRead wireReader s m after ∧ after.bytes = rest := by
  have start : Ahead (s.conn.bytes = []) s.bytes s := ⟨rfl,fits,id⟩
  obtain ⟨after,path,ahead⟩ := MessageRead.follows (G := fun line => line.length < maxChunkLine ∨ s.conn.bytes = [])
    wireReader_reaches wireReader_collects start path (.inl (by decide))
    (fun line mem => reachable.symm.imp_left fun short => short line mem)
  exact ⟨after,path,ahead.bytes⟩

def bufferedOutcome (initial : Bytes) (conn : Conn) (max : Int) : Option (Bytes × List Header × Bytes) :=
  match readChunkedBody conn initial max with
  | .ok result => some (result.body,result.trailers,result.leftover ++ result.conn.bytes)
  | .error _ => none

def streamOutcome (initial : Bytes) (conn : Conn) (max : Int) (size : Nat → Nat) : Option (Bytes × List Header × Bytes) :=
  match (newRequestBodyStream conn initial 0 true max).readAll size ((initial ++ conn.bytes).length+1) with
  | some (body,error,after) => if error = .eof then some (body,after.trailers,after.bytes) else none
  | none => none

section
variable {initial : Bytes} {conn : Conn} {max : Int} {m : ChunkedMessage} {headers : List Header} {rest text : Bytes}

theorem bufferedOutcome_sound (got : bufferedOutcome initial conn max = some (text,headers,rest)) :
    ∃ m, initial ++ conn.bytes = m.render ++ rest ∧ (∀ line ∈ m.allLines, crlfFree line) ∧
      (bufferedRules max unbounded).Reads m headers ∧ m.body = text := by
  unfold bufferedOutcome at got
  split at got
  · rename_i result read
    cases got
    obtain ⟨m,path,reads,text⟩ := readChunkedBodyWithReserve_iff.mp read
    obtain ⟨eq,free⟩ := messageRead_flat.mp (messageRead_wire_flat path)
    exact ⟨m,eq,free,reads,text⟩
  · cases got

theorem bufferedOutcome_complete (eq : initial ++ conn.bytes = m.render ++ rest)
    (free : ∀ line ∈ m.allLines, crlfFree line) (reads : (bufferedRules max unbounded).Reads m headers)
    (fits : (initial ++ conn.bytes).length ≤ maxInt)
    (reachable : conn.bytes = [] ∨ ∀ line ∈ m.allLines, line.length < maxChunkLine) :
    bufferedOutcome initial conn max = some (m.body,headers,rest) := by
  obtain ⟨after,path,rfl⟩ := messageRead_flat_wire (s := ⟨initial,conn⟩) (messageRead_flat.mpr ⟨eq,free⟩) fits reachable
  have read : readChunkedBodyWithReserve conn initial max unbounded = .ok ⟨m.body,after.held,headers,after.conn⟩ :=
    readChunkedBodyWithReserve_iff.mpr ⟨m,path,reads,rfl⟩
  change (match readChunkedBodyWithReserve conn initial max unbounded with | .ok _ => _ | .error _ => _) = _
  rw [read]
  rfl

theorem streamOutcome_iff : streamOutcome initial conn max size = some (text,headers,rest) ↔
    (∃ m, initial ++ conn.bytes = m.render ++ rest ∧ (∀ line ∈ m.allLines, StreamLine line) ∧
      (streamRules max).Reads m headers ∧ m.body = text) ∨
    (conn.closing = .eof ∧ rest = [] ∧ ShortRead streamReader (streamRules max) 0 (initial ++ conn.bytes) text headers) := by
  have ended := RequestBodyStream.readAll_decodes size _
    (RequestBodyStream.newRequestBodyStream_ready conn initial 0 max) (Nat.lt_succ_self _)
  have decoded : (newRequestBodyStream conn initial 0 true max).pending =
      decode streamReader (streamRules max) ((initial ++ conn.bytes).length+1) 0 (initial ++ conn.bytes) := rfl
  rw [decoded] at ended
  rw [← stream_clean_iff,← stream_short_iff,streamOutcome]
  generalize decode streamReader (streamRules max) ((initial ++ conn.bytes).length+1) 0 (initial ++ conn.bytes) = result at ended
  change RequestBodyStream.BodyEnd _
    (RequestBodyStream.readAll size ((initial ++ conn.bytes).length+1) (newRequestBodyStream conn initial 0 true max)) _ at ended
  cases result with
  | clean body fields left =>
    obtain ⟨after,k,eq,-,-,rfl,rfl,-⟩ := ended
    rw [eq]
    simp
  | short body fields =>
    obtain ⟨after,eq,empty,rfl⟩ := ended
    have closing : BodyError.read conn.closing = .eof ↔ conn.closing = .eof := by simp [BodyError.eof]
    rw [eq]
    simp only [empty,newRequestBodyStream,closing,reduceCtorEq,false_or,Decoded.short.injEq]
    split
    · rename_i eof
      simp only [some.injEq,Prod.mk.injEq,eof,true_and,nil_eq]
      tauto
    · rename_i other
      simp [other]
  | bad =>
    obtain ⟨body,error,after,eq,other⟩ := ended
    rw [eq]
    simp [BodyError.eof,other]
end

def Agree (max : Int) (w : Bytes) : Prop := ∀ initial conn size, initial ++ conn.bytes = w → ∀ text headers rest,
  bufferedOutcome initial conn max = some (text,headers,rest) ↔ streamOutcome initial conn max size = some (text,headers,rest)

inductive ReadByOne (max : Int) (m : ChunkedMessage) : Prop where
  | buffered : (∀ line ∈ m.allLines, crlfFree line) → (bufferedRules max unbounded).Reads m headers → ReadByOne max m
  | stream : (∀ line ∈ m.allLines, StreamLine line) → (streamRules max).Reads m headers → ReadByOne max m

def PlainInput (max : Int) (w : Bytes) : Prop :=
  (∀ m rest, w = m.render ++ rest → ReadByOne max m → Plain max m) ∧
    ∀ text headers, ¬ ShortRead streamReader (streamRules max) 0 w text headers

section
variable {w : Bytes} {max : Int}

theorem agree_of_plain (fits : w.length ≤ maxInt) (plain : PlainInput max w) : Agree max w := by
  rintro initial conn size rfl text headers rest
  constructor
  · intro got
    obtain ⟨m,eq,free,reads,rfl⟩ := bufferedOutcome_sound got
    have both := plain.1 m rest eq (.buffered free reads)
    exact streamOutcome_iff.mpr (.inl ⟨m,eq,both.lines,both.reads.mp reads,rfl⟩)
  · intro got
    rcases streamOutcome_iff.mp got with ⟨m,eq,lines,reads,rfl⟩ | ⟨-,-,short⟩
    · have both := plain.1 m rest eq (.stream lines reads)
      exact bufferedOutcome_complete eq (fun line mem => streamLine_free (lines line mem)) (both.reads.mpr reads) fits
        (.inr fun line mem => (lines line mem).2)
    · exact absurd short (plain.2 text headers)

def handed (closing : ReadError) : Conn := ⟨[],closing,false⟩

theorem handed_bytes (w : Bytes) (closing : ReadError) : w ++ (handed closing).bytes = w := append_nil w

theorem compatible_sizes (first : (bufferedRules max unbounded).size line = some a)
    (second : (streamRules max).size line = some b) : a = b :=
  some.inj ((chunkSize_of_parseHex first).symm.trans second)

theorem same_message (eq : w = m.render ++ rest) (free : ∀ line ∈ m.allLines, crlfFree line)
    (reads : (bufferedRules max unbounded).Reads m headers) (eq' : w = n.render ++ left)
    (lines : ∀ line ∈ n.allLines, StreamLine line) (reads' : (streamRules max).Reads n fields) : m = n ∧ rest = left :=
  MessageRead.unique compatible_sizes (messageRead_flat.mpr ⟨eq,free⟩)
    (messageRead_flat.mpr ⟨eq',fun line mem => streamLine_free (lines line mem)⟩) reads reads'

-- At a peer that closes in the middle of the body the stream reports io.EOF. The
-- buffered decoder would have to accept the same bytes, whatever comes after
-- them; but when a timeout comes after them the stream does not report io.EOF.
theorem not_short_of_agree (fits : w.length ≤ maxInt) (agree : Agree max w) :
    ¬ ShortRead streamReader (streamRules max) 0 w text headers := by
  intro short
  have closed := (agree w (handed .eof) (fun _ => 0) (handed_bytes w _) text headers []).mpr
    (streamOutcome_iff.mpr (.inr ⟨rfl,rfl,by rwa [handed_bytes]⟩))
  obtain ⟨m,eq,free,reads,rfl⟩ := bufferedOutcome_sound closed
  rw [handed_bytes] at eq
  have late := bufferedOutcome_complete ((handed_bytes w .timeout).trans eq) free reads
    (by rwa [handed_bytes]) (.inl rfl)
  have again := (agree w (handed .timeout) (fun _ => 0) (handed_bytes w _) _ _ _).mp late
  rcases streamOutcome_iff.mp again with clean | ⟨eof,-⟩
  · rw [handed_bytes,← stream_clean_iff,stream_short_iff.mpr short] at clean
    cases clean
  · cases eof

theorem plain_of_agree (fits : w.length ≤ maxInt) (agree : Agree max w) : PlainInput max w := by
  have whole : ∀ {text headers rest}, bufferedOutcome w (handed .eof) max = some (text,headers,rest) ↔
      streamOutcome w (handed .eof) max (fun _ => 0) = some (text,headers,rest) :=
    fun {text headers rest} => agree w (handed .eof) (fun _ => 0) (handed_bytes w _) text headers rest
  refine ⟨fun m rest eq read => ?_,fun text headers => not_short_of_agree fits agree⟩
  have atHand : w ++ (handed .eof).bytes = m.render ++ rest := (handed_bytes w _).trans eq
  cases read with
  | buffered free reads =>
    have got := bufferedOutcome_complete atHand free reads (by rwa [handed_bytes]) (.inl rfl)
    rcases streamOutcome_iff.mp (whole.mp got) with ⟨n,eq',lines,reads',-⟩ | ⟨-,-,short⟩
    · rw [handed_bytes] at eq'
      obtain ⟨rfl,-⟩ := same_message eq free reads eq' lines reads'
      exact plain_of_both reads reads' lines
    · rw [handed_bytes] at short
      exact absurd short (not_short_of_agree fits agree)
  | stream lines reads =>
    have got := whole.mpr (streamOutcome_iff.mpr (.inl ⟨m,atHand,lines,reads,rfl⟩))
    obtain ⟨n,eq',free,reads',-⟩ := bufferedOutcome_sound got
    rw [handed_bytes] at eq'
    obtain ⟨rfl,-⟩ := same_message eq' free reads' eq lines reads
    exact plain_of_both reads' reads lines

-- The two chunked decoders agree on an input, however it is delivered, exactly
-- when every message one of them finds in it is plain and it is not cut short.
theorem chunked_decoders_agree_iff (w : Bytes) (max : Int) (fits : w.length ≤ maxInt) :
    Agree max w ↔ PlainInput max w :=
  ⟨plain_of_agree fits,agree_of_plain fits⟩
end

-- A sign in front of the chunk size: the stream takes it, the buffered decoder
-- does not.
def signedSize : Bytes := ascii "+5\r\nhello\r\n0\r\n\r\n"

theorem signed_size_not_plain : signedSize.length ≤ maxInt ∧ ¬ PlainInput 100 signedSize := by
  refine ⟨by decide,fun plain => ?_⟩
  have agree := (chunked_decoders_agree_iff signedSize 100 (by decide)).mpr plain
  have stream : streamOutcome signedSize (handed .eof) 100 (fun _ => 31) = some (ascii "hello",[],[]) := by decide
  have both := (agree signedSize (handed .eof) (fun _ => 31) (handed_bytes _ _) _ _ _).mpr stream
  cases both

theorem signed_size_disagrees : bufferedOutcome signedSize (handed .eof) 100 = none ∧
    streamOutcome signedSize (handed .eof) 100 (fun _ => 31) = some (ascii "hello",[],[]) := by
  decide
end FhServer

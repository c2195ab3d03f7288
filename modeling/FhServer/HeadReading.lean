import FhServer.RequestText
import FhServer.ConnectionLoop
import FhServer.StreamDecoding

namespace FhServer
open GoBytes RequestHead List

theorem parseRequestLine_ok (got : parseRequestLine buf limit = .ok (header,consumed)) :
    ∃ line, requestLine buf limit = .ok line ∧ parseLine line = .ok header ∧ consumed = line.length + 2 := by
  unfold parseRequestLine at got
  split at got
  · cases got
  rename_i line read
  cases parsed : parseLine line with
  | error error => rw [parsed] at got; cases got
  | ok start => rw [parsed] at got; cases got; exact ⟨line,read,parsed,rfl⟩

theorem parseRequestLine_append (got : parseRequestLine buf limit = .ok result) (more : Bytes) :
    parseRequestLine (buf ++ more) limit = .ok result := by
  obtain ⟨header,consumed⟩ := result
  obtain ⟨line,read,parsed,rfl⟩ := parseRequestLine_ok got
  obtain ⟨rest,rfl,free,fits⟩ := requestLine_iff.mp read
  have again : requestLine (line ++ crlf ++ rest ++ more) limit = .ok line :=
    requestLine_iff.mpr ⟨rest ++ more,by simp,free,fits⟩
  simp only [parseRequestLine,again,parsed]
  rfl

theorem parseHead_ok (got : parseHead cfg accumulated headEnd = .ok header) :
    ∃ start consumed, parseRequestLine accumulated cfg.maxRequestLineSize = .ok (start,consumed) ∧
      headEnd + 4 ≤ consumed + cfg.maxHeaderListSize := by
  unfold parseHead at got
  split at got
  · cases got
  rename_i start consumed read
  split at got
  · cases got
  · rename_i fits
    have positive := cfg.maxHeaderListSize_pos
    exact ⟨start,consumed,read,by lia⟩

theorem parseHead_append {head : Bytes} (long : 4 ≤ head.length)
    (got : parseHead cfg head (head.length - 4) = .ok header) (more : Bytes) :
    parseHead cfg (head ++ more) (head.length - 4) = .ok header := by
  obtain ⟨start,consumed,read,-⟩ := parseHead_ok got
  have again := parseRequestLine_append read more
  have whole : head.length - 4 + 4 = head.length := by lia
  have part : (head ++ more).take (head.length - 4 + 4) = head.take (head.length - 4 + 4) := by rw [whole,take_left,take_length]
  unfold parseHead at got ⊢
  rw [read] at got
  rw [again,part]
  exact got

theorem preface_refused {head : Bytes} (start : head <+: h2ClientPreface) (ends : findHeaderEnd head = some (head.length - 4)) :
    parseHead cfg head (head.length - 4) ≠ .ok header := by
  obtain ⟨rest,eq⟩ := start
  have same : findHeaderEnd h2ClientPreface = some (head.length - 4) := by rw [← eq]; exact index_append rest ends
  have size : head.length = 18 := by have := Option.some.inj same; lia
  have shape : head = ascii "PRI * HTTP/2.0" ++ crlf ++ crlf := by
    have part : (head ++ rest).take 18 = head := by rw [← size,take_left]
    rw [eq] at part
    rw [← part]
    decide
  intro parsed
  obtain ⟨begun,consumed,read,-⟩ := parseHead_ok parsed
  obtain ⟨line,first,version,-⟩ := parseRequestLine_ok read
  obtain ⟨tail,split,free,-⟩ := requestLine_iff.mp first
  have line_eq : line = ascii "PRI * HTTP/2.0" := by
    have one := takeWhile_line (line ++ [cr]) tail (by simpa [cr,lf] using free)
    have two := takeWhile_line (ascii "PRI * HTTP/2.0" ++ [cr]) crlf (by decide)
    have whole : line ++ [cr] ++ lf :: tail = ascii "PRI * HTTP/2.0" ++ [cr] ++ lf :: crlf := by
      rw [shape] at split
      simpa [crlf] using split.symm
    rw [whole,two] at one
    exact (append_cancel_right one).symm
  rw [line_eq] at version
  cases version

structure HeadText.Passes (cfg : ServerConfig) (t : HeadText) : Prop where
  line : t.GoodLine
  fields : ∀ f ∈ t.fields, f.Good
  consistent : Consistent cfg.equalFold t.start t.fieldList
  settled : Settled t.start t.fieldList
  supported : t.header.unsupportedTransferEncoding = false
  host : cfg.allowedHost t.header.host = true
  lineFits : t.line.length ≤ cfg.maxRequestLineSize
  listFits : (fieldsText t.fields).length + 2 ≤ cfg.maxHeaderListSize
  countFits : t.fields.length ≤ headerCount cfg.maxHeaderCount
  bodyFits : (t.header.contentLength : Int) ≤ cfg.maxRequestBodySize

theorem HeadText.GoodLine.plain {t : HeadText} (good : t.GoodLine) : ∀ c ∈ t.line, c ≠ cr ∧ c ≠ lf := by
  intro c mem
  rcases mem_append.mp mem with method | mem
  · have byte := tokenByte_plain _ (token_byte good.method c method)
    exact ⟨byte.2.1,byte.2.2.1⟩
  rcases mem_cons.mp mem with rfl | mem
  · decide
  rcases mem_append.mp mem with target | mem
  · exact (targetByte_plain c (all_eq_true.mp good.bytes c target)).2
  rcases mem_cons.mp mem with rfl | proto
  · decide
  have versions : ∀ c ∈ strHTTP11 ++ strHTTP10, c ≠ cr ∧ c ≠ lf := by decide +kernel
  apply versions
  rcases good.version with is | is
  · exact mem_append_left _ (is ▸ proto)
  · exact mem_append_right _ (is ▸ proto)

section
theorem index_blank (free : cr ∉ line) (rest : Bytes) : index strHeaderEnd (line ++ (crlf ++ (crlf ++ rest))) = some line.length := by
  induction line with
  | nil => rfl
  | cons c line ih =>
    have other : c ≠ cr := fun same => free (same ▸ mem_cons_self)
    have absent : strHeaderEnd.isPrefixOf (c :: (line ++ (crlf ++ (crlf ++ rest)))) = false := Bool.and_eq_false_iff.mpr (.inl (beq_eq_false_iff_ne.mpr other.symm))
    rw [cons_append,index,absent,if_neg Bool.false_ne_true,ih fun mem => free (mem_cons_of_mem c mem)]
    rfl

theorem index_passes {tail : Bytes} (free : cr ∉ line) (solid : tail.head? ≠ some cr) :
    index strHeaderEnd (line ++ (crlf ++ tail)) = (index strHeaderEnd tail).map (· + (line.length + 2)) := by
  induction line with
  | nil =>
    have first : strHeaderEnd.isPrefixOf (cr :: lf :: tail) = false := by
      cases tail with
      | nil => rfl
      | cons c tail =>
        have other : cr ≠ c := fun same => solid (same ▸ rfl)
        simp [strHeaderEnd,crlf,List.isPrefixOf,other]
    have second : strHeaderEnd.isPrefixOf (lf :: tail) = false := rfl
    rw [nil_append,show crlf ++ tail = cr :: lf :: tail from rfl,index,first,if_neg Bool.false_ne_true,index,second,
      if_neg Bool.false_ne_true,Option.map_map]
    rfl
  | cons c line ih =>
    have other : c ≠ cr := fun same => free (same ▸ mem_cons_self)
    have absent : strHeaderEnd.isPrefixOf (c :: (line ++ (crlf ++ tail))) = false := Bool.and_eq_false_iff.mpr (.inl (beq_eq_false_iff_ne.mpr other.symm))
    rw [cons_append,index,absent,if_neg Bool.false_ne_true,ih fun mem => free (mem_cons_of_mem c mem),Option.map_map]
    refine congrArg (fun f => Option.map f _) (funext fun n => ?_)
    simp only [Function.comp_apply,length_cons]
    lia

theorem index_lines (free : cr ∉ line) (good : ∀ f ∈ fields, f.Good) (rest : Bytes) :
    index strHeaderEnd (line ++ (crlf ++ (fieldsText fields ++ (crlf ++ rest)))) = some (line.length + (fieldsText fields).length) := by
  induction fields generalizing line with
  | nil => exact index_blank free rest
  | cons f fields ih =>
    have first := good f mem_cons_self
    have text : fieldsText (f :: fields) ++ (crlf ++ rest) = f.line ++ (crlf ++ (fieldsText fields ++ (crlf ++ rest))) := by simp [fieldsText]
    have solid : (f.line ++ (crlf ++ (fieldsText fields ++ (crlf ++ rest)))).head? ≠ some cr := by
      obtain ⟨c,more,begins,token⟩ := first.starts
      rw [begins]
      exact fun same => (tokenByte_plain c token).2.1 (Option.some.inj same)
    rw [text,index_passes free solid,ih (fun inside => (first.plain cr inside).1 rfl) fun g mem => good g (mem_cons_of_mem f mem)]
    simp [fieldsText,crlf]
    lia
end

theorem parseHead_checks : parseHead cfg buf headEnd = .ok h ↔
    ∃ start consumed n, parseRequestLine buf cfg.maxRequestLineSize = .ok (start,consumed) ∧ headEnd + 4 ≤ consumed + cfg.maxHeaderListSize ∧
      parseHeadersWithLimit cfg.equalFold ((buf.take (headEnd+4)).drop consumed) start cfg.maxHeaderCount = some (h,n) ∧
      h.unsupportedTransferEncoding = false ∧ ¬(h.chunked = true ∧ h.hasContentLength = true) ∧ cfg.allowedHost h.host = true ∧
      (h.contentLength : Int) ≤ cfg.maxRequestBodySize := by
  have positive := cfg.maxHeaderListSize_pos
  constructor
  · intro got
    unfold parseHead at got
    split at got
    · cases got
    rename_i start consumed read
    split at got
    · cases got
    split at got
    · cases got
    rename_i header n parsed
    split at got
    · cases got
    rename_i supported
    split at got
    · cases got
    rename_i one
    split at got
    · cases got
    rename_i allowed
    split at got
    · cases got
    cases got
    exact ⟨start,consumed,n,read,by lia,parsed,Bool.eq_false_iff.mpr supported,one,by simpa using allowed,by lia⟩
  · rintro ⟨start,consumed,n,read,fits,parsed,supported,one,allowed,body⟩
    unfold parseHead
    rw [read]
    simp only
    rw [if_neg (by lia),parsed]
    simp only
    rw [if_neg (by rw [supported]; exact Bool.false_ne_true),if_neg one,if_neg (by rw [allowed]; decide),if_neg (by lia)]

theorem parseHead_iff (found : findHeaderEnd buf = some headEnd) :
    parseHead cfg buf headEnd = .ok h ↔ ∃ t : HeadText, t.Passes cfg ∧ buf.take (headEnd+4) = t.render ∧ t.header = h := by
  obtain ⟨before,behind,split,size⟩ := index_split found
  have whole : buf.take (headEnd+4) = before ++ strHeaderEnd := by
    rw [split,← append_assoc,take_left' (by rw [length_append,size]; rfl)]
  have length : (buf.take (headEnd+4)).length = headEnd + 4 := by
    rw [whole,length_append,size]
    rfl
  rw [parseHead_checks]
  constructor
  · rintro ⟨start,consumed,n,read,fits,parsed,supported,one,allowed,body⟩
    obtain ⟨line,first,isLine,rfl⟩ := parseRequestLine_ok read
    obtain ⟨tail,text,free,short⟩ := requestLine_iff.mp first
    obtain ⟨t,-,good,rfl,rfl⟩ := parseLine_iff.mp isLine
    have within : t.line.length ≤ headEnd := by
      by_contra beyond
      have there : buf[headEnd]? = some cr := by
        rw [split,List.getElem?_append_right (by lia),size,Nat.sub_self]
        rfl
      rw [text,append_assoc,List.getElem?_append_left (by lia)] at there
      exact (good.plain cr (mem_of_getElem? there)).1 rfl
    have start : (buf.take (headEnd+4)).take (t.line.length+2) = t.line ++ crlf := by
      rw [take_take,min_eq_left (by lia),text,take_left' (by rw [length_append]; rfl)]
    have cut := take_append_drop (t.line.length+2) (buf.take (headEnd+4))
    obtain ⟨lines,rest,each,src,consistent,few,settled,rfl,-⟩ := (parseHeadersWithLimit_iff rfl).mp parsed
    rw [start,src] at cut
    have blank := index_lines (fun mem => (good.plain cr mem).1 rfl) each rest
    have here := index_reaches found (Nat.le_refl (headEnd + 4))
    rw [← cut,append_assoc,blank] at here
    have total := congrArg List.length cut
    simp only [length_append,crlf,length_cons,length_nil] at total
    have none : rest = [] := eq_nil_of_length_eq_zero (by have := Option.some.inj here; lia)
    subst none
    refine ⟨{t with fields:=lines},⟨⟨good.method,good.target,good.bytes,good.version,good.routes⟩,each,consistent,settled,supported,allowed,?_,?_,few,body⟩,?_,rfl⟩
    · have positive := cfg.maxRequestLineSize_pos
      show t.line.length ≤ cfg.maxRequestLineSize
      lia
    · show (fieldsText lines).length + 2 ≤ cfg.maxHeaderListSize
      lia
    · rw [← cut,append_nil]
      rfl
  · rintro ⟨t,passes,text,rfl⟩
    have total := congrArg List.length text
    rw [length,HeadText.render] at total
    simp only [length_append,crlf,length_cons,length_nil] at total
    have listed := passes.listFits
    have line : requestLine buf cfg.maxRequestLineSize = .ok t.line := by
      refine requestLine_iff.mpr ⟨fieldsText t.fields ++ crlf ++ buf.drop (headEnd+4),?_,fun mem => (passes.line.plain lf mem).2 rfl,fun _ => ?_⟩
      · rw [← append_assoc,← HeadText.render,← text,take_append_drop]
      · exact_mod_cast passes.lineFits
    have started : parseLine t.line = .ok t.start :=
      parseLine_iff.mpr ⟨{t with fields:=[]},rfl,⟨passes.line.method,passes.line.target,passes.line.bytes,passes.line.version,passes.line.routes⟩,rfl,rfl⟩
    have read : parseRequestLine buf cfg.maxRequestLineSize = .ok (t.start,t.line.length+2) := by
      rw [parseRequestLine,line]
      simp only [started]
      rfl
    have src : (buf.take (headEnd+4)).drop (t.line.length+2) = fieldsText t.fields ++ (crlf ++ []) := by
      rw [text,HeadText.render,drop_left' (by rw [length_append]; rfl),append_nil]
    have parsed := (parseHeadersWithLimit_iff rfl).mpr ⟨t.fields,[],passes.fields,src,passes.consistent,passes.countFits,passes.settled,rfl,rfl⟩
    exact ⟨t.start,_,_,read,by lia,parsed,passes.supported,passes.settled.one,passes.host,passes.bodyFits⟩

-- A head that ends where its first blank line ends and passes the head checks.
structure AcceptedHead (cfg : ServerConfig) (head : Bytes) (header : RequestHeader) : Prop where
  long : 4 ≤ head.length
  ends : findHeaderEnd head = some (head.length - 4)
  parsed : parseHead cfg head (head.length - 4) = .ok header

namespace AcceptedHead
variable {cfg : ServerConfig} {head : Bytes} {header : RequestHeader}
section
variable (q : AcceptedHead cfg head header)
include q

theorem head_fits : head.length ≤ cfg.maxHead := by
  obtain ⟨start,consumed,read,fits⟩ := parseHead_ok q.parsed
  obtain ⟨line,first,-,rfl⟩ := parseRequestLine_ok read
  obtain ⟨-,-,-,short⟩ := requestLine_iff.mp first
  have positive := cfg.maxRequestLineSize_pos
  simp only [ServerConfig.maxHead]
  lia

theorem head_end (rest : Bytes) : findHeaderEnd (head ++ rest) = some (head.length - 4) :=
  index_append rest q.ends

theorem not_preface : ¬ head <+: h2ClientPreface :=
  fun start => preface_refused start q.ends q.parsed

theorem not_after_preface (rest : Bytes) : ¬ h2ClientPreface <+: head ++ rest := by
  rintro ⟨more,eq⟩
  have found : findHeaderEnd (h2ClientPreface ++ more) = some 14 := index_append more (by decide)
  rw [eq,q.head_end] at found
  have size : head.length = 18 := by have := Option.some.inj found; lia
  exact q.not_preface (prefix_of_prefix_length_le (prefix_append head rest)
    ⟨more,eq⟩ (by rw [size]; decide))
end
end AcceptedHead

structure LoopState.Sound (s : LoopState) : Prop where
  fits : s.accumulated.length ≤ s.cap
  room : 0 < s.cap
  calm : s.conn.errorWithLast = false

section
variable {cfg : ServerConfig} {s : LoopState} {head rest : Bytes} {header : RequestHeader}

theorem findHeaderEnd_held (q : AcceptedHead cfg head header) (ahead : s.bytes = head ++ rest) :
    findHeaderEnd s.accumulated = if head.length ≤ s.accumulated.length then some (head.length - 4) else none := by
  have held : s.accumulated = (head ++ rest).take s.accumulated.length := by rw [← ahead,LoopState.bytes,take_left]
  have found := index_take (q.head_end rest) s.accumulated.length
  have size : head.length - 4 + strHeaderEnd.length = head.length := by
    have four : strHeaderEnd.length = 4 := rfl
    have long := q.long
    lia
  rw [← held,size] at found
  exact found

theorem growBuffer_spec (q : AcceptedHead cfg head header) (sound : s.Sound) (short : s.accumulated.length < head.length) :
    ∃ grown, growBuffer cfg s = some grown ∧ grown.accumulated = s.accumulated ∧ grown.conn = s.conn ∧
      grown.accumulated.length < grown.cap := by
  have fits := q.head_fits
  have room := sound.room
  have held := sound.fits
  unfold growBuffer
  by_cases full : s.accumulated.length = s.cap
  · have wide : 4 < cfg.maxHead := by
      have positive := cfg.maxRequestLineSize_pos
      simp only [ServerConfig.maxHead]
      lia
    rw [if_pos full,if_neg (by lia)]
    exact ⟨_,rfl,rfl,rfl,by simp only; lia⟩
  · rw [if_neg full]
    exact ⟨s,rfl,rfl,rfl,by lia⟩

-- The induction is on the rounds, each of which reads at least one byte. A
-- buffer that could still become the HTTP/2 preface does not hold the head yet.
theorem readHead_reads (q : AcceptedHead cfg head header) (rounds : Nat) (sound : s.Sound) (ahead : s.bytes = head ++ rest)
    (enough : s.conn.bytes.length < rounds) (short : s.accumulated.length < head.length) :
    ∃ after, readHead cfg rounds none s = .ok (head.length - 4,after) ∧ after.Sound ∧ after.bytes = s.bytes ∧
      head.length ≤ after.accumulated.length := by
  induction rounds generalizing s with
  | zero => lia
  | succ rounds ih =>
    obtain ⟨grown,grew,same,conn,room⟩ := growBuffer_spec q sound short
    have more : grown.conn.bytes ≠ [] := by
      intro empty
      have length := congrArg List.length ahead
      rw [conn] at empty
      simp only [LoopState.bytes,empty,append_nil,length_append] at length
      lia
    have calm : grown.conn.errorWithLast = false := by rw [conn]; exact sound.calm
    obtain ⟨k,positive,small,within,read⟩ := Conn.read_calm calm more
      (show 0 < grown.cap - grown.accumulated.length by lia)
    let next : LoopState := {grown with accumulated:=grown.accumulated ++ grown.conn.bytes.take k,conn:=grown.conn.drop k}
    have nextBytes : next.bytes = s.bytes := by
      simp only [next,LoopState.bytes,Conn.drop_bytes,append_assoc,take_append_drop]
      rw [same,conn]
    have nextAhead : next.bytes = head ++ rest := nextBytes.trans ahead
    have nextSound : next.Sound := by
      refine ⟨?_,by simp only [next]; lia,calm⟩
      simp only [next,length_append,length_take]
      lia
    have fewer : next.conn.bytes.length < rounds := by
      simp only [next,Conn.drop_bytes,length_drop]
      lia
    have start : next.accumulated <+: head ++ rest := by rw [← nextAhead]; exact prefix_append _ _
    have later : next.accumulated.length < head.length → ∃ after, readHead cfg rounds none next =
        .ok (head.length - 4,after) ∧ after.Sound ∧ after.bytes = s.bytes ∧ head.length ≤ after.accumulated.length :=
      fun incomplete => by
        obtain ⟨after,got,later,bytes,long⟩ := ih nextSound nextAhead fewer incomplete
        exact ⟨after,got,later,bytes.trans nextBytes,long⟩
    unfold readHead
    simp only [grew,read]
    by_cases maybe : (priorKnowledge cfg && next.accumulated.isPrefixOf h2ClientPreface) = true
    · have part : next.accumulated <+: h2ClientPreface :=
        isPrefixOf_iff_prefix.mp (Bool.and_eq_true_iff.mp maybe).2
      have incomplete : next.accumulated.length < head.length := by
        by_contra complete
        exact q.not_preface ((prefix_of_prefix_length_le (prefix_append head rest) start (by lia)).trans part)
      have unfinished : next.accumulated.length < h2ClientPreface.length := by
        by_contra whole
        exact q.not_after_preface rest (part.eq_of_length_le (by lia) ▸ start)
      rw [if_pos maybe,if_pos unfinished]
      exact later incomplete
    · have other : ¬ (priorKnowledge cfg && h2ClientPreface.isPrefixOf next.accumulated) = true := fun preface =>
        q.not_after_preface rest (( isPrefixOf_iff_prefix.mp (Bool.and_eq_true_iff.mp preface).2).trans start)
      rw [if_neg maybe,if_neg other,findHeaderEnd_held q nextAhead]
      by_cases complete : head.length ≤ next.accumulated.length
      · rw [if_pos complete]
        exact ⟨next,by cases rounds <;> rfl,nextSound,nextBytes,complete⟩
      · rw [if_neg complete]
        exact later (by lia)
end

structure Reply.Keeps (reply : Reply) : Prop where
  open_ : reply.forceClose = false
  http1 : reply.upgraded = false
  serving : reply.draining = false

theorem readRequestHead_reads {head : Bytes} (q : AcceptedHead cfg head header) (sound : s.Sound)
    (ahead : s.bytes = head ++ rest) : ∃ held, readRequestHead cfg s = .ok (head.length - 4,held) ∧ held.Sound ∧
      held.bytes = head ++ rest ∧ head.length ≤ held.accumulated.length := by
  unfold readRequestHead
  rw [findHeaderEnd_held q ahead]
  by_cases complete : head.length ≤ s.accumulated.length
  · rw [if_pos complete]
    exact ⟨s,rfl,sound,ahead,complete⟩
  · rw [if_neg complete]
    obtain ⟨held,read,later,bytes,long⟩ := readHead_reads q _ sound ahead (Nat.lt_succ_self _) (by lia)
    exact ⟨held,read,later,bytes.trans ahead,long⟩

theorem nextCap_pos (room : 0 < cap) (chunked : Bool) (left : Nat) : 0 < nextCap cfg chunked cap left := by
  have raw := cfg.rawCap_pos
  have kept : 0 < if cfg.rawCap < cap ∧ left ≤ cfg.rawCap then cfg.rawCap else cap := by split <;> lia
  cases chunked with
  | true => exact Nat.lt_of_lt_of_le kept (Nat.le_max_left _ _)
  | false => exact kept

def bufferedConfig : ServerConfig where
  rawCap := 512
  rawCap_pos := by decide
  maxRequestLineSize := 8192
  maxRequestLineSize_pos := by decide
  maxHeaderListSize := 65536
  maxHeaderListSize_pos := by decide
  maxHeaderCount := 64
  maxRequestBodySize := 1024
  streamRequestBody := false
  disableHTTP2 := false
  disableH2C := true
  disableKeepAlive := false
  equalFold := bytesEqualFold
  allowedHost _ := true
  requestHeadHandler _ := true
  reserveBufferedBody _ := true
  reserveChunk _ _ := true
end FhServer

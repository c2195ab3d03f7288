import FhServer.ResponseMessage
import FhServer.SlowWire

namespace FhServer
open GoBytes ChunkedMessage List DefaultCtx Numerals

inductive StreamError where
  | closedPipe
  | shortWrite
  | unexpectedEOF

-- A writer over an HTTP/1 connection that takes all bytes, without a transform. The head and the body are what was written.
structure StreamWriter where
  ctx : DefaultCtx
  chunked : Bool
  discard : Bool
  closed : Bool := false
  expected : Nat
  written : Nat := 0
  bounded : Bool
  head : Bytes
  body : Bytes := []

namespace DefaultCtx

def streamHead (cfg : ResponseConfig) (c : DefaultCtx) (chunked : Bool) (size : Option Nat) : Bytes :=
  appendStatusLine c.status ++ (dateLine cfg ++ (c.contentTypeLine ++ (fieldLines c.headers ++
    (c.cookies.flatMap (fun text => ascii "Set-Cookie: " ++ (text ++ crlf)) ++
      ((if chunked then ascii "Transfer-Encoding: chunked" ++ crlf
        else match size with
          | some n => if responseBodyAllowed c.status || c.flags.head then ascii "Content-Length: " ++ (appendInt n ++ crlf) else []
          | none => []) ++
        ((if c.hasTrailers then ascii "Trailer: " ++ ([44].intercalate (c.trailers.map Header.key) ++ crlf) else []) ++
          ((if c.forceClose then ascii "Connection: close" ++ crlf
            else if cfg.sendKeepAliveHeader then ascii "Connection: keep-alive" ++ crlf else []) ++ crlf)))))))

def beginStream (cfg : ResponseConfig) (disableKeepAlive http11 : Bool) (c : DefaultCtx) (size : Option Nat) : StreamWriter :=
  let bodyAllowed := responseBodyAllowed c.status && !c.flags.head
  let chunked := http11 && bodyAllowed && (size.isNone || c.hasTrailers)
  let c := if bodyAllowed && !chunked && (size.isNone || !http11) then {c with forceClose := true} else c
  let c := if !c.keepAlive || disableKeepAlive then {c with forceClose := true} else c
  {ctx := c, chunked := chunked, discard := !bodyAllowed, expected := size.getD 0, bounded := size.isSome, head := streamHead cfg c chunked size}
end DefaultCtx
namespace StreamWriter
variable (w : StreamWriter)

def forceClose : StreamWriter := {w with ctx := {w.ctx with forceClose := true}}

def put (p : Bytes) : StreamWriter :=
  {w with written := w.written+p.length,
          body := w.body ++ if w.chunked then appendHex p.length ++ (crlf ++ (p ++ crlf)) else p}

def write (p : Bytes) : StreamWriter × Nat × Option StreamError :=
  if w.closed then (w,0,some .closedPipe)
  else if p = [] then (w,0,none)
  else if w.discard then (w,p.length,none)
  else if w.bounded && decide (w.expected-w.written < p.length) then
    let p := p.take (w.expected-w.written)
    if p = [] then (w.forceClose,0,some .shortWrite) else ((w.put p).forceClose,p.length,none)
  else (w.put p,p.length,none)

def flush : StreamWriter := w

def close : StreamWriter × Option StreamError :=
  if w.closed then (w,none)
  else
    let w := {w with closed := true}
    if w.discard then (w,none)
    else if w.bounded && decide (w.written ≠ w.expected) then (w.forceClose,some .unexpectedEOF)
    else if w.chunked then ({w with body := w.body ++ (ascii "0" ++ (crlf ++ (fieldLines w.ctx.trailers ++ crlf)))},none)
    else (w,none)

def setTrailer (key value : Bytes) : StreamWriter := {w with ctx := w.ctx.setTrailer key value}
end StreamWriter

inductive StreamCall where
  | write (p : Bytes)
  | flush
  | setTrailer (key value : Bytes)

namespace StreamCall

def run (w : StreamWriter) : StreamCall → StreamWriter
  | .write p => (w.write p).1
  | .flush => w.flush
  | .setTrailer key value => w.setTrailer key value

def payload : StreamCall → Bytes
  | .write p => p
  | .flush | .setTrailer _ _ => []
end StreamCall

-- However the bytes are cut, and whatever follows them, the decoder finds the payload and the trailers and leaves the rest.
def ReadsBack (out payload : Bytes) (trailers : List Header) : Prop :=
  ∀ (rest : Bytes) (max : Int) (initial : Bytes) (conn : Conn), payload.length ≤ max → initial ++ conn.bytes = out ++ rest →
    (initial ++ conn.bytes).length ≤ maxInt → bufferedOutcome initial conn max = some (payload,trailers,rest)

def TrailerName (key : Bytes) : Prop := ∀ name ∈ ["Content-Length","Transfer-Encoding","Host"], bytesEqualFold key (ascii name) = false

instance (key : Bytes) : Decidable (TrailerName key) := by
  unfold TrailerName
  infer_instance

-- What the decoder needs of a stream: all of a declared length, and trailers that it neither refuses nor trims.
structure StreamWriter.Decodable (w : StreamWriter) (payload : Bytes) : Prop where
  length : w.bounded = true → payload.length = w.expected
  few : w.ctx.trailers.length ≤ maxHeaders
  names : ∀ t ∈ w.ctx.trailers, TrailerName t.key
  values : ∀ t ∈ w.ctx.trailers, trimOWS t.value = t.value
  lines : ∀ t ∈ w.ctx.trailers, t.key.length+2+t.value.length < maxChunkLine

section
variable {n : Nat}

theorem places_le (places : List Nat) (start : Nat) : start ≤ places.foldl (fun n d => n*16+d) start := by
  induction places generalizing start with
  | nil => exact Nat.le_refl _
  | cons d places ih =>
    have rest := ih (start*16+d)
    rw [foldl_cons]
    lia

theorem parseHex_places {places : List Nat} {start : Nat} (small : ∀ d ∈ places, d < 16)
    (fits : places.foldl (fun n d => n*16+d) start ≤ maxInt) :
    (places.map digitByte).foldl (fun acc c => acc.bind fun n => (hexDigit c).bind fun d =>
      if (maxInt - d) / 16 < n then none else some (n*16 + d)) (some start) = some (places.foldl (fun n d => n*16+d) start) := by
  induction places generalizing start with
  | nil => rfl
  | cons d places ih =>
    have more := places_le places (start*16+d)
    rw [foldl_cons] at fits
    rw [map_cons,foldl_cons,Option.bind_some,(digitByte_hex d (small d mem_cons_self)).1,Option.bind_some,if_neg (by lia)]
    exact ih (fun d mem => small d (mem_cons_of_mem _ mem)) fits

theorem parseHex_appendHex (fits : n ≤ maxInt) : parseHex (appendHex n) = some n := by
  rw [parseHex,appendHex]
  split
  · rename_i zero
    rw [zero]
    rfl
  · rename_i more
    have value : (digits 16 n).foldl (fun n d => n*16+d) 0 = n := value_digits (by decide)
    rw [if_neg fun none => digits_ne_nil (by decide) more (map_eq_nil_iff.mp none),
      parseHex_places (digits_lt (by decide)) (by rw [value]; exact fits),value]

theorem appendHex_short (fits : n ≤ maxInt) : (appendHex n).length < maxChunkLine := by
  rw [appendHex]
  split
  · decide
  · rw [length_map]
    have few : (digits 16 n).length ≤ 16 := (digits_length (by decide) 16).mpr (fits.trans_lt (by decide))
    exact few.trans_lt (by decide)

theorem appendHex_cr : cr ∉ appendHex n := by
  have solid : ∀ d < 16, digitByte d ≠ cr := by decide
  rw [appendHex]
  split
  · decide
  · intro mem
    obtain ⟨d,digit,is⟩ := mem_map.mp mem
    exact solid d (digits_lt (by decide) d digit) is

theorem appendHex_reads (max : Int) (fits : n ≤ maxInt) : (bufferedRules max unbounded).size (appendHex n) = some n := by
  have whole : before (appendHex n) 59 = appendHex n := by rw [before,indexByte_none.mpr fun mem => (appendHex_plain 59 mem).2.1 rfl]
  have solid : trimOWS (appendHex n) = appendHex n :=
    trimOWS_solid fun c mem => ⟨(appendHex_plain c mem).2.2,fun is => appendHex_cr (is ▸ mem)⟩
  show parseHex (trimOWS (before (appendHex n) 59)) = some n
  rw [whole,solid,parseHex_appendHex fits]
end
section
variable {t : Header} {count : Nat}

theorem trimOWS_space (value : Bytes) : trimOWS (32 :: value) = trimOWS value := by
  rw [trimOWS,trimOWS,dropWhile_cons_of_pos (by decide)]

theorem trailerField_text (token : validToken t.key = true) : Wire.trailerField count (fieldText t) =
    if count < maxHeaders ∧ TrailerName t.key then some ⟨t.key,trimOWS t.value⟩ else none := by
  have noColon : (58 : UInt8) ∉ t.key := fun mem => by
    have := (token_name 58 (token_byte token 58 mem)).2.1
    cases this
  have colon : indexByte (fieldText t) 58 = some t.key.length := indexByte_first noColon (32 :: t.value)
  have name : (fieldText t).take t.key.length = t.key := take_left
  have text : (fieldText t).drop (t.key.length+1) = 32 :: t.value := drop_past t.key (32 :: t.value) 58
  have some : t.key.length ≠ 0 := fun none => token_ne token (eq_nil_of_length_eq_zero none)
  rw [Wire.trailerField,trailerName,colon]
  simp only [name,text,token,some,decide_false,Bool.not_true,Bool.false_or,decide_eq_true_eq,TrailerName,forall_mem_cons,not_mem_nil,
    false_implies,implies_true,and_true]
  by_cases room : count < maxHeaders
  · rw [if_neg (Nat.not_le.mpr room)]
    cases bytesEqualFold t.key (ascii "Content-Length") <;> cases bytesEqualFold t.key (ascii "Transfer-Encoding") <;>
      cases bytesEqualFold t.key (ascii "Host") <;> simp [room,trimOWS_space]
  · rw [if_pos (Nat.not_lt.mp room),if_neg fun both => room both.1]
    rfl

theorem fields_text_iff (max : Int) {trailers : List Header} (tokens : ∀ t ∈ trailers, validToken t.key = true) (seen : Nat) :
    (bufferedRules max unbounded).fields seen (trailers.map fieldText) = some trailers ↔
      (trailers ≠ [] → seen+trailers.length ≤ maxHeaders) ∧
      (∀ t ∈ trailers, TrailerName t.key) ∧ ∀ t ∈ trailers, trimOWS t.value = t.value := by
  induction trailers generalizing seen with
  | nil => simp [Rules.fields]
  | cons t trailers ih =>
    have rest := ih (fun t mem => tokens t (mem_cons_of_mem _ mem)) (seen+1)
    rw [map_cons,Rules.fields,if_neg fieldText_ne]
    show (Wire.trailerField seen (fieldText t)).bind _ = _ ↔ _
    rw [trailerField_text (tokens t mem_cons_self),forall_mem_cons,forall_mem_cons]
    have room : (t :: trailers ≠ [] → seen+(t :: trailers).length ≤ maxHeaders) ↔ seen < maxHeaders ∧ (trailers ≠ [] → seen+1+trailers.length ≤ maxHeaders) := by
      rw [length_cons]
      refine ⟨fun room => ?_,fun room _ => ?_⟩
      · have := room (cons_ne_nil _ _)
        exact ⟨by lia,fun _ => by lia⟩
      by_cases none : trailers = []
      · rw [none,length_nil]
        lia
      · have := room.2 none
        lia
    by_cases admitted : seen < maxHeaders ∧ TrailerName t.key
    · rw [if_pos admitted,Option.bind_some,room]
      refine ⟨?_,?_⟩
      · intro read
        obtain ⟨fields,tail,same⟩ := Option.map_eq_some_iff.mp read
        obtain ⟨first,rfl⟩ := cons_eq_cons.mp same
        obtain ⟨few,names,values⟩ := rest.mp tail
        exact ⟨⟨admitted.1,few⟩,⟨admitted.2,names⟩,congrArg Header.value first,values⟩
      · rintro ⟨⟨-,few⟩,⟨-,names⟩,value,values⟩
        rw [rest.mpr ⟨few,names,values⟩,value]
        rfl
    · rw [if_neg admitted,room]
      refine ⟨by rintro ⟨⟩,?_⟩
      rintro ⟨⟨within,-⟩,⟨names,-⟩,-⟩
      exact absurd ⟨within,names⟩ admitted
end

def streamMessage (chunks : List Bytes) (trailers : List Header) : ChunkedMessage where
  chunks := chunks.map fun p => (appendHex p.length,p)
  last := ascii "0"
  trailers := trailers.map fieldText

def sizeRules : Rules := ⟨(bufferedRules 0 unbounded).size,fun _ line => some ⟨line,[]⟩,fun _ _ => true⟩

section
variable {chunks : List Bytes} {trailers : List Header}

theorem streamMessage_body : (streamMessage chunks trailers).body = chunks.flatten := by
  rw [ChunkedMessage.body,streamMessage,flatMap_map]
  exact flatMap_id'

theorem streamMessage_free (fielded : ∀ t ∈ trailers, Fielded t) : ∀ line ∈ (streamMessage chunks trailers).allLines, crlfFree line := by
  intro line mem
  rcases mem_append.mp mem with sizes | trailing
  · rcases mem_append.mp sizes with chunk | last
    · obtain ⟨piece,inside,rfl⟩ := mem_map.mp chunk
      obtain ⟨p,-,rfl⟩ := mem_map.mp inside
      exact crlfFree_plain fun feed => (appendHex_plain lf feed).1 rfl
    · cases mem_singleton.mp last
      exact crlfFree_plain (by show lf ∉ ascii "0"; decide)
  · obtain ⟨t,inside,rfl⟩ := mem_map.mp trailing
    exact fieldText_free (fielded t inside)

theorem fieldText_length (t : Header) : (fieldText t).length = t.key.length+2+t.value.length := by
  rw [fieldText,length_append,length_cons,length_cons]
  lia

theorem streamMessage_short (full : ∀ p ∈ chunks, p ≠ [] ∧ p.length ≤ maxInt) (short : ∀ t ∈ trailers, (fieldText t).length < maxChunkLine) :
    ∀ line ∈ (streamMessage chunks trailers).allLines, line.length < maxChunkLine := by
  intro line mem
  rcases mem_append.mp mem with sizes | trailing
  · rcases mem_append.mp sizes with chunk | last
    · obtain ⟨piece,inside,rfl⟩ := mem_map.mp chunk
      obtain ⟨p,written,rfl⟩ := mem_map.mp inside
      exact appendHex_short (full p written).2
    · cases mem_singleton.mp last
      show (ascii "0").length < maxChunkLine
      decide
  · obtain ⟨t,inside,rfl⟩ := mem_map.mp trailing
    exact short t inside

theorem chunks_read {rules : Rules} (sizes : ∀ n ≤ maxInt, rules.size (appendHex n) = some n)
    (admits : ∀ before p after, chunks = before ++ p :: after → rules.admits (total+before.flatten.length) p.length = true)
    (full : ∀ p ∈ chunks, p ≠ [] ∧ p.length ≤ maxInt) : rules.chunks total (chunks.map fun p => (appendHex p.length,p)) := by
  induction chunks generalizing total with
  | nil => trivial
  | cons p chunks ih =>
    have first := full p mem_cons_self
    refine ⟨sizes _ first.2,first.1,admits [] p chunks rfl,?_⟩
    refine ih ?_ fun p mem => full p (mem_cons_of_mem _ mem)
    intro before q after split
    have more := admits (p :: before) q after (by rw [split]; rfl)
    rwa [flatten_cons,length_append,← Nat.add_assoc] at more

theorem sizeRules_reads (full : ∀ p ∈ chunks, p ≠ [] ∧ p.length ≤ maxInt) :
    sizeRules.Reads (streamMessage chunks trailers) (trailers.map fun t => ⟨fieldText t,[]⟩) where
  chunks := chunks_read (fun _ fits => appendHex_reads 0 fits) (fun _ _ _ _ => rfl) full
  last := rfl
  room := rfl
  fields := by
    have each : ∀ seen, sizeRules.fields seen (trailers.map fieldText) = some (trailers.map fun t => ⟨fieldText t,[]⟩) := by
      induction trailers with
      | nil => exact fun _ => rfl
      | cons t trailers ih =>
        intro seen
        rw [map_cons,Rules.fields,if_neg fieldText_ne,ih]
        rfl
    exact each 0

variable {initial text rest after : Bytes} {conn : Conn} {max : Int} {headers : List Header}

theorem sizes_compatible (one : (bufferedRules max unbounded).size line = some a) (two : sizeRules.size line = some b) :
    a = b := Option.some.inj (one.symm.trans two)

theorem stream_unique {m : ChunkedMessage} {w : Bytes} (full : ∀ p ∈ chunks, p ≠ [] ∧ p.length ≤ maxInt) (fielded : ∀ t ∈ trailers, Fielded t)
    (path : MessageRead flatReader w m rest) (reads : (bufferedRules max unbounded).Reads m headers)
    (eq : w = (streamMessage chunks trailers).render ++ after) : m = streamMessage chunks trailers ∧ rest = after :=
  MessageRead.unique sizes_compatible path (messageRead_flat.mpr ⟨eq,streamMessage_free fielded⟩) reads (sizeRules_reads full)

section
variable (full : ∀ p ∈ chunks, p ≠ [] ∧ p.length ≤ maxInt)
include full

theorem stream_decoded (fielded : ∀ t ∈ trailers, Fielded t)
    (eq : initial ++ conn.bytes = (streamMessage chunks trailers).render ++ after) (got : bufferedOutcome initial conn max = some (text,headers,rest)) :
    text = chunks.flatten ∧ (bufferedRules max unbounded).fields 0 (trailers.map fieldText) = some headers := by
  obtain ⟨m,split,free,reads,body⟩ := bufferedOutcome_sound got
  obtain ⟨rfl,-⟩ := stream_unique full fielded (messageRead_flat.mpr ⟨split,free⟩) reads eq
  exact ⟨body.symm.trans streamMessage_body,reads.fields⟩

theorem stream_unfinished (eq : initial ++ conn.bytes = renderChunks (chunks.map fun p => (appendHex p.length,p))) : bufferedOutcome initial conn max ≠ some (text,headers,rest) := by
  intro got
  obtain ⟨m,split,free,reads,-⟩ := bufferedOutcome_sound got
  let ending : Bytes := ascii "0" ++ crlf ++ ([] ++ crlf)
  have whole : initial ++ conn.bytes ++ ending = (streamMessage chunks []).render ++ [] := by
    rw [eq,append_nil]
    rfl
  have longer : initial ++ conn.bytes ++ ending = m.render ++ (rest ++ ending) := by rw [split,append_assoc]
  have noTrailers : ∀ t ∈ ([] : List Header), Fielded t := nofun
  obtain ⟨-,none⟩ := stream_unique full noTrailers (messageRead_flat.mpr ⟨longer,free⟩) reads whole
  have some : ending ≠ [] := by decide
  exact some (append_eq_nil_iff.mp none).2

theorem stream_lines (fielded : ∀ t ∈ trailers, Fielded t)
    (got : bufferedOutcome [] (.slow (streamMessage chunks trailers).render) max = some (text,headers,rest)) :
    ∀ t ∈ trailers, (fieldText t).length < maxChunkLine := by
  rw [bufferedOutcome] at got
  split at got
  · rename_i result read
    obtain ⟨m,path,reads,-⟩ := readChunkedBodyWithReserve_iff.mp read
    have flat := messageRead_wire_flat path
    have eq : (Wire.mk [] (.slow (streamMessage chunks trailers).render)).bytes = (streamMessage chunks trailers).render ++ [] := by
      rw [Wire.bytes,Conn.slow_bytes,nil_append,append_nil]
    obtain ⟨rfl,-⟩ := stream_unique full fielded flat reads eq
    intro t mem
    exact messageRead_slow path _ (mem_append_right _ (mem_map_of_mem mem))
  · cases got

theorem stream_reads (fits : chunks.flatten.length ≤ max)
    (fields : (bufferedRules max unbounded).fields 0 (trailers.map fieldText) = some trailers) :
    (bufferedRules max unbounded).Reads (streamMessage chunks trailers) trailers where
  chunks := by
    refine chunks_read (fun _ fits => appendHex_reads max fits) ?_ full
    intro before p later split
    rw [split,flatten_append,flatten_cons,length_append,length_append] at fits
    have within : (p.length : Int) ≤ max - ((0+before.flatten.length : Nat) : Int) := by lia
    show (decide (p.length = 0) || (decide ((p.length : Int) ≤ max - ((0+before.flatten.length : Nat) : Int)) && true)) = true
    rw [decide_eq_true within,Bool.and_true,Bool.or_true]
  last := rfl
  room := rfl
  fields := fields
end
end

structure StreamWriter.Wrote (w : StreamWriter) (chunks : List Bytes) (payload : Bytes) : Prop where
  ready : w.closed = false ∧ w.discard = false ∧ w.chunked = true
  body : w.body = renderChunks (chunks.map fun p => (appendHex p.length,p))
  written : w.written = chunks.flatten.length
  full : ∀ p ∈ chunks, p ≠ []
  text : chunks.flatten = if w.bounded then payload.take w.expected else payload
  clean : w.ctx.Clean

section
variable {w : StreamWriter} {chunks : List Bytes} {payload : Bytes}

theorem beginStream_wrote {c : DefaultCtx} (clean : c.Clean)
    (chunked : (c.beginStream cfg disableKeepAlive http11 size).chunked = true) : (c.beginStream cfg disableKeepAlive http11 size).Wrote [] [] where
  ready := by
    have allowed := chunked
    simp only [beginStream,Bool.and_eq_true] at allowed
    refine ⟨rfl,?_,chunked⟩
    simp only [beginStream,allowed.1.2]
    rfl
  body := rfl
  written := rfl
  full := nofun
  text := by
    rw [take_nil]
    split
    · rfl
    · rfl
  clean := by
    simp only [beginStream]
    split
    · split
      · exact {clean with}
      · exact {clean with}
    · split
      · exact {clean with}
      · exact clean

theorem renderChunks_length (chunks : List Bytes) : chunks.flatten.length ≤ (renderChunks (chunks.map fun p => (appendHex p.length,p))).length := by
  induction chunks with
  | nil => exact Nat.le_refl _
  | cons p chunks ih =>
    rw [renderChunks,map_cons,flatMap_cons,flatten_cons,length_append,length_append]
    simp only [length_append]
    rw [renderChunks] at ih
    lia

section
variable (wrote : w.Wrote chunks payload)
include wrote

theorem StreamWriter.Wrote.put (some : p ≠ [])
    (text : (chunks ++ [p]).flatten = if w.bounded then (payload ++ q).take w.expected else payload ++ q) : (w.put p).Wrote (chunks ++ [p]) (payload ++ q) where
  ready := wrote.ready
  body := by
    rw [StreamWriter.put,wrote.body,wrote.ready.2.2,if_pos rfl,map_append,renderChunks,renderChunks,flatMap_append]
    simp
  written := by
    rw [flatten_append,length_append,← wrote.written]
    simp [StreamWriter.put]
  full := forall_mem_append.mpr ⟨wrote.full,fun p mem => mem_singleton.mp mem ▸ some⟩
  text := text
  clean := wrote.clean

theorem StreamWriter.Wrote.forceClose : w.forceClose.Wrote chunks payload :=
  ⟨wrote.ready,wrote.body,wrote.written,wrote.full,wrote.text,{wrote.clean with}⟩

theorem StreamWriter.Wrote.take (bounded : w.bounded = true) (p : Bytes) :
    (payload ++ p).take w.expected = chunks.flatten ++ p.take (w.expected-w.written) := by
  have text := wrote.text
  rw [if_pos bounded] at text
  have left : w.expected-w.written = w.expected-payload.length := by
    rw [wrote.written,text,length_take]
    lia
  rw [take_append,text,left]

theorem StreamWriter.Wrote.write (p : Bytes) : ∃ more, (w.write p).1.Wrote (chunks ++ more) (payload ++ p) := by
  rw [StreamWriter.write,wrote.ready.1,wrote.ready.2.1,if_neg Bool.false_ne_true]
  by_cases none : p = []
  · rw [if_pos none,none,append_nil]
    exact ⟨[],by rwa [append_nil]⟩
  rw [if_neg none,if_neg Bool.false_ne_true]
  by_cases bounded : w.bounded = true
  · have text := wrote.take bounded p
    by_cases beyond : w.expected-w.written < p.length
    · rw [if_pos (by rw [bounded,decide_eq_true beyond]; rfl)]
      by_cases nothing : p.take (w.expected-w.written) = []
      · rw [nothing,append_nil] at text
        simp only [nothing]
        refine ⟨[],?_⟩
        rw [append_nil]
        refine StreamWriter.Wrote.forceClose ⟨wrote.ready,wrote.body,wrote.written,wrote.full,?_,wrote.clean⟩
        rw [if_pos bounded,text]
      · simp only [if_neg nothing]
        refine ⟨[_],(wrote.put nothing ?_).forceClose⟩
        rw [if_pos bounded,text,flatten_append,flatten_singleton]
    · rw [if_neg (by rw [decide_eq_false beyond,Bool.and_false]; exact Bool.false_ne_true)]
      refine ⟨[p],wrote.put none ?_⟩
      rw [if_pos bounded,text,flatten_append,flatten_singleton,take_of_length_le (Nat.not_lt.mp beyond)]
  · rw [if_neg fun both => bounded (Bool.and_eq_true_iff.mp both).1]
    have text := wrote.text
    rw [if_neg bounded] at text
    refine ⟨[p],wrote.put none ?_⟩
    rw [if_neg bounded,flatten_append,flatten_singleton,text]

theorem StreamWriter.Wrote.call (call : StreamCall) : ∃ more, (call.run w).Wrote (chunks ++ more) (payload ++ call.payload) := by
  cases call with
  | write p => exact wrote.write p
  | flush => exact ⟨[],by simpa [StreamCall.run,StreamWriter.flush,StreamCall.payload] using wrote⟩
  | setTrailer key value =>
    refine ⟨[],?_⟩
    rw [StreamCall.payload,append_nil,append_nil]
    exact ⟨wrote.ready,wrote.body,wrote.written,wrote.full,wrote.text,wrote.clean.setTrailer⟩

theorem StreamWriter.Wrote.calls (calls : List StreamCall) :
    ∃ all, (calls.foldl StreamCall.run w).Wrote all (payload ++ calls.flatMap StreamCall.payload) := by
  induction calls generalizing w chunks payload with
  | nil => exact ⟨chunks,by rwa [flatMap_nil,append_nil]⟩
  | cons call calls ih =>
    obtain ⟨more,wrote⟩ := wrote.call call
    rw [flatMap_cons,← append_assoc]
    exact ih wrote

theorem StreamWriter.Wrote.close_whole (whole : w.bounded = true → w.written = w.expected) :
    w.close.1.body = (streamMessage chunks w.ctx.trailers).render := by
  have go : ¬ (w.bounded && decide (w.written ≠ w.expected)) = true := by
    intro both
    obtain ⟨bounded,short⟩ := Bool.and_eq_true_iff.mp both
    exact of_decide_eq_true short (whole bounded)
  rw [StreamWriter.close,wrote.ready.1,if_neg Bool.false_ne_true]
  simp only [wrote.ready.2.1,wrote.ready.2.2]
  rw [if_neg Bool.false_ne_true,if_neg go,if_pos trivial,wrote.body,streamMessage,ChunkedMessage.render,fieldLines_eq]
  simp

theorem StreamWriter.Wrote.close_short (bounded : w.bounded = true) (short : w.written ≠ w.expected) :
    w.close.1.body = renderChunks (chunks.map fun p => (appendHex p.length,p)) := by
  rw [StreamWriter.close,wrote.ready.1,if_neg Bool.false_ne_true]
  simp only [wrote.ready.2.1]
  rw [if_neg Bool.false_ne_true,if_pos (by rw [bounded,decide_eq_true short]; rfl)]
  exact wrote.body

theorem StreamWriter.Wrote.fits (fits : w.close.1.body.length ≤ maxInt) : ∀ p ∈ chunks, p ≠ [] ∧ p.length ≤ maxInt := by
  have within : chunks.flatten.length ≤ maxInt := by
    refine (renderChunks_length chunks).trans (le_trans ?_ fits)
    by_cases short : w.bounded = true ∧ w.written ≠ w.expected
    · rw [wrote.close_short short.1 short.2]
    · rw [wrote.close_whole fun bounded => not_not.mp fun other => short ⟨bounded,other⟩,ChunkedMessage.render,length_append]
      exact Nat.le_add_right _ _
  intro p mem
  exact ⟨wrote.full p mem,(sublist_flatten_of_mem mem).length_le.trans within⟩

theorem StreamWriter.Wrote.readsBack_iff (fits : w.close.1.body.length ≤ maxInt) :
    ReadsBack w.close.1.body payload w.ctx.trailers ↔ w.Decodable payload := by
  have full := wrote.fits fits
  have fielded := trailers_fielded wrote.clean
  have tokens : ∀ t ∈ w.ctx.trailers, validToken t.key = true := fun t mem => (fielded t mem).1
  have flat : w.close.1.body ++ (Conn.mk [] .eof false).bytes = w.close.1.body := append_nil _
  refine ⟨?_,?_⟩
  · intro back
    have got := back [] payload.length w.close.1.body ⟨[],.eof,false⟩ (Int.le_refl _) rfl (by rw [flat]; exact fits)
    have whole : w.bounded = true → w.written = w.expected := by
      intro bounded
      by_contra short
      exact stream_unfinished full (flat.trans (wrote.close_short bounded short)) got
    have body := wrote.close_whole whole
    obtain ⟨text,fields⟩ := stream_decoded full fielded (flat.trans (body.trans (append_nil _).symm)) got
    obtain ⟨few,names,values⟩ := (fields_text_iff _ tokens 0).mp fields
    have slow := back [] payload.length [] (.slow w.close.1.body) (Int.le_refl _) (by rw [Conn.slow_bytes,append_nil,nil_append])
      (by rw [Conn.slow_bytes,nil_append]; exact fits)
    rw [body] at slow
    refine ⟨fun bounded => ?_,?_,names,values,fun t mem => ?_⟩
    · rw [text,← wrote.written,whole bounded]
    · by_cases none : w.ctx.trailers = []
      · rw [none]
        exact Nat.zero_le _
      · exact (Nat.zero_add _).symm.le.trans (few none)
    · have short := stream_lines full fielded slow t mem
      rwa [fieldText_length] at short
  · intro good rest max initial conn limit eq within
    have text : chunks.flatten = payload := by
      rw [wrote.text]
      split
      · rename_i bounded
        exact take_of_length_le (good.length bounded).le
      · rfl
    have whole : w.bounded = true → w.written = w.expected := by
      intro bounded
      rw [wrote.written,text,good.length bounded]
    have fields := (fields_text_iff max tokens 0).mpr ⟨fun _ => by rw [Nat.zero_add]; exact good.few,good.names,good.values⟩
    have reads := stream_reads full (by rwa [text]) fields
    rw [wrote.close_whole whole] at eq
    have outcome := bufferedOutcome_complete eq (streamMessage_free fielded) reads within (.inr (streamMessage_short full fun t mem => ?_))
    · rwa [streamMessage_body,text] at outcome
    · rw [fieldText_length]
      exact good.lines t mem
end
end

-- A stream of a chunked response reads back exactly when the decoder neither refuses nor changes what it carries.
theorem stream_reads_back_iff {cfg : ResponseConfig} {disableKeepAlive http11 : Bool} {c : DefaultCtx} {size : Option Nat} (clean : c.Clean)
    (chunked : (c.beginStream cfg disableKeepAlive http11 size).chunked = true) (calls : List StreamCall)
    (fits : (calls.foldl StreamCall.run (c.beginStream cfg disableKeepAlive http11 size)).close.1.body.length ≤ maxInt) :
    let w := calls.foldl StreamCall.run (c.beginStream cfg disableKeepAlive http11 size)
    ReadsBack w.close.1.body (calls.flatMap StreamCall.payload) w.ctx.trailers ↔ w.Decodable (calls.flatMap StreamCall.payload) := by
  intro w
  obtain ⟨chunks,wrote⟩ := (beginStream_wrote clean chunked).calls calls
  exact wrote.readsBack_iff fits

def hostTrailer : StreamWriter := ([.setTrailer (ascii "Host") (ascii "x")] : List StreamCall).foldl StreamCall.run (beginStream {} false true {} none)

theorem host_trailer_refused : hostTrailer.chunked = true ∧ hostTrailer.ctx.trailers = [⟨ascii "Host",ascii "x"⟩] ∧
    ¬ ReadsBack hostTrailer.close.1.body [] hostTrailer.ctx.trailers := by
  refine ⟨by decide,by decide,fun back => ?_⟩
  have got := back [] 0 hostTrailer.close.1.body ⟨[],.eof,false⟩ (by decide) rfl (by decide)
  cases got

theorem greeting_reads_back :
    let calls : List StreamCall := [.write (ascii "hello"),.flush,.setTrailer (ascii "Digest") (ascii "x"),.write (ascii " you")]
    let w := calls.foldl StreamCall.run (beginStream {} false true {} none)
    ReadsBack w.close.1.body (calls.flatMap StreamCall.payload) w.ctx.trailers := by
  intro calls w
  refine (stream_reads_back_iff (clean_fresh true false {}) (by decide) calls (by decide)).mpr ?_
  have each : ∀ t ∈ w.ctx.trailers, t = ⟨ascii "Digest",ascii "x"⟩ := by
    exact fun t mem => mem_singleton.mp mem
  refine ⟨nofun,?_,fun t mem => ?_,fun t mem => ?_,fun t mem => ?_⟩
  · show w.ctx.trailers.length ≤ _
    decide
  · rw [each t mem]
    decide
  · rw [each t mem]
    decide
  · rw [each t mem]
    decide
end FhServer

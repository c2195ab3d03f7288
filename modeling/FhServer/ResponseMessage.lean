import FhServer.DecoderAgreement
import FhServer.MessageFraming
import FhServer.ResponseWriter

namespace FhServer
open GoBytes ChunkedMessage RequestHead List

-- A recipient of RFC 9112. In a value it may keep other control characters than NUL, CR and LF.
structure Recipient where
  keeps : UInt8 → Bool := fun _ => false

structure ResponseMessage where
  status : Nat
  fields : List Header
  body : Bytes := []
  trailers : List Header := []

inductive ResponseFraming where
  | nothing
  | fixed (length : Nat)
  | chunked
  | untilClose
  | invalid

def hexNumber (text : Bytes) : Option Nat :=
  if text = [] then none else text.foldl (fun acc c => acc.bind fun n => (hexDigit c).map (n*16 + ·)) (some 0)

namespace Recipient

def nameByte (c : UInt8) : Bool := decimalByte c || (65 ≤ c && c ≤ 90) || (97 ≤ c && c ≤ 122) || (ascii "!#$%&'*+-.^_`|~").contains c

def textByte (c : UInt8) : Bool := c == 9 || (32 ≤ c && c != 127)

variable (r : Recipient)

def valueByte (c : UInt8) : Bool := textByte c || (r.keeps c && c != 0 && c != cr && c != lf)

def fieldLine (line : Bytes) : Option Header :=
  let name := line.takeWhile (· != 58)
  let rest := line.drop (name.length+1)
  if name ≠ [] ∧ name.all nameByte ∧ name.length < line.length ∧ rest.all r.valueByte then some ⟨name,trimOWSRight (rest.dropWhile isOWS)⟩
  else none

def statusLine : Bytes → Option Nat
  | 72 :: 84 :: 84 :: 80 :: 47 :: major :: 46 :: minor :: 32 :: a :: b :: c :: 32 :: reason =>
    if [major,minor,a,b,c].all decimalByte && reason.all textByte then decimal [a,b,c] else none
  | _ => none

def rules : Rules where
  size line := hexNumber (trimOWSRight (before line 59))
  trailer _ line := r.fieldLine line
  admits _ _ := true

def framing (method : Bytes) (status : Nat) (fields : List Header) : ResponseFraming :=
  if method = ascii "HEAD" ∨ status/100 = 1 ∨ status = 204 ∨ status = 304 then .nothing
  else if method = ascii "CONNECT" ∧ status/100 = 2 then .nothing
  else
    match ((named "transfer-encoding" fields).flatMap members).getLast? with
    | some coding => if strEqFold coding "chunked" then .chunked else .untilClose
    | none =>
      match (named "content-length" fields).flatMap members with
      | [] => .untilClose
      | first :: others => if others.all (· == first) then ((decimal first).map .fixed).getD .invalid else .invalid

def receiveBody (method : Bytes) (status : Nat) (fields : List Header) (after : Bytes) : Option (ResponseMessage × Bytes) :=
  match framing method status fields with
  | .nothing => some ({status := status, fields := fields},after)
  | .fixed n => if n ≤ after.length then some ({status := status, fields := fields, body := after.take n},after.drop n) else none
  | .chunked =>
    match decode flatReader r.rules (after.length+1) 0 after with
    | .clean body trailers rest => some (⟨status,fields,body,trailers⟩,rest)
    | _ => none
  | .untilClose | .invalid => none

def receive (method w : Bytes) : Option (ResponseMessage × Bytes) :=
  match flatReader.line w with
  | .got (line,rest) =>
    match statusLine line,decodeFields flatReader r.rules (rest.length+1) 0 rest with
    | some status,.clean _ fields after => r.receiveBody method status fields after
    | _,_ => none
  | _ => none
end Recipient

def trimmed (h : Header) : Header := ⟨h.key,trimOWSRight (h.value.dropWhile isOWS)⟩

namespace DefaultCtx

def accepted (c : DefaultCtx) : List Header := (c.contentType.map fun t => (⟨ascii "Content-Type",t.text⟩ : Header)).toList ++ c.headers

def start (method : Bytes) (captureBody : Bool) : DefaultCtx := {flags := {head := decide (method = ascii "HEAD"), captureBody := captureBody}}
end DefaultCtx

-- The bytes are one response to the end: besides the fields of the server itself it has the accepted ones, in their order,
-- and the body and the trailers if the answer carries a body.
structure Recipient.Reads (r : Recipient) (method : Bytes) (c : DefaultCtx) (body bytes : Bytes) : Prop where
  one : ∃ m, r.receive method bytes = some (m,[]) ∧ (m.status : Int) = c.status ∧
    (∃ first last, m.fields = first ++ (c.accepted.map trimmed ++ last) ∧ (∀ f ∈ first, f.key = ascii "Date") ∧
      ∀ f ∈ last, f.key ∈ ["Server","Content-Length","Transfer-Encoding","Trailer","Connection"].map ascii) ∧
    (m.body,m.trailers) = if responseBodyAllowed c.status && !c.flags.head then (body,c.trailers.map trimmed) else ([],[])

-- The status has three digits and, besides 1xx, 204 and 304, a length; a tunnel starts with nothing; and the recipient takes
-- the values.
structure Recipient.Delimits (r : Recipient) (method : Bytes) (c : DefaultCtx) (body : Bytes) : Prop where
  code : 100 ≤ c.status ∧ c.status ≤ 999
  reset : c.status = 205 → method = ascii "HEAD" ∨ method = ascii "CONNECT"
  tunnel : method = ascii "CONNECT" → c.status < 300 → responseBodyAllowed c.status = true → body = [] ∧ c.trailers = []
  values : ∀ f ∈ c.accepted, f.value.all r.valueByte = true
  trailers : responseBodyAllowed c.status = true → method ≠ ascii "HEAD" → ∀ f ∈ c.trailers, f.value.all r.valueByte = true

section
variable {r : Recipient} {h : Header} {hs : List Header}

def fieldText (h : Header) : Bytes := h.key ++ (58 :: 32 :: h.value)

theorem fieldLines_eq : DefaultCtx.fieldLines hs = renderLines (hs.map fieldText) := by
  rw [DefaultCtx.fieldLines,renderLines,flatMap_map]
  refine congrArg (fun f => hs.flatMap f) (funext fun h => ?_)
  simp [fieldText]

theorem crlfFree_plain (free : lf ∉ line) : crlfFree line := by
  cases found : index crlf line with
  | none => exact found
  | some i =>
    obtain ⟨text,tail,rfl,-⟩ := index_split found
    exact absurd (by simp [crlf]) free

theorem breaksLine_plain (plain : breaksLine value = false) : lf ∉ value := by
  intro mem
  have := any_eq_false.mp plain lf mem
  simp at this

theorem token_name : ∀ c, tokenByte c = true → Recipient.nameByte c = true ∧ (c != 58) = true ∧ c ≠ lf := eachByte (by decide +kernel)

def Fielded (h : Header) : Prop := validToken h.key = true ∧ lf ∉ h.value

theorem fieldText_free (fielded : Fielded h) : crlfFree (fieldText h) := by
  refine crlfFree_plain fun mem => ?_
  rcases mem_append.mp mem with name | rest
  · exact (token_name lf (token_byte fielded.1 lf name)).2.2 rfl
  rcases mem_cons.mp rest with is | rest
  · cases is
  · rcases mem_cons.mp rest with is | value
    · cases is
    · exact fielded.2 value

theorem fieldText_ne : fieldText h ≠ [] := by
  intro none
  have := (append_eq_nil_iff.mp none).2
  cases this

theorem fieldLine_text (token : validToken h.key = true) :
    r.fieldLine (fieldText h) = if h.value.all r.valueByte = true then some (trimmed h) else none := by
  have solid : ∀ c ∈ h.key, (c != 58) = true := fun c mem => (token_name c (token_byte token c mem)).2.1
  have name : (fieldText h).takeWhile (· != 58) = h.key := by
    rw [fieldText,takeWhile_append_of_pos solid]
    simp
  have rest : (fieldText h).drop (h.key.length+1) = 32 :: h.value := drop_past h.key (32 :: h.value) 58
  have bytes : h.key.all Recipient.nameByte = true := all_eq_true.mpr fun c mem => (token_name c (token_byte token c mem)).1
  have longer : h.key.length < (fieldText h).length := by simp [fieldText]
  have space : (32 :: h.value).all r.valueByte = h.value.all r.valueByte := rfl
  simp only [Recipient.fieldLine,name,rest,bytes,longer,space,token_ne token,ne_eq,not_false_iff,true_and]
  rfl

theorem fields_text (fielded : ∀ h ∈ hs, Fielded h) (seen : Nat) : r.rules.fields seen (hs.map fieldText) =
    if hs.all (fun h => h.value.all r.valueByte) = true then some (hs.map trimmed) else none := by
  induction hs generalizing seen with
  | nil => rfl
  | cons h hs ih =>
    rw [map_cons,Rules.fields,if_neg fieldText_ne]
    show (r.fieldLine (fieldText h)).bind _ = _
    rw [fieldLine_text (fielded h mem_cons_self).1,ih fun h mem => fielded h (mem_cons_of_mem _ mem),all_cons]
    cases h.value.all r.valueByte with
    | false => rfl
    | true => cases hs.all (fun h => h.value.all r.valueByte) <;> rfl

theorem decodeFields_text (fielded : ∀ h ∈ hs, Fielded h) (after : Bytes) :
    let w := DefaultCtx.fieldLines hs ++ (crlf ++ after)
    decodeFields flatReader r.rules (w.length+1) 0 w =
      if hs.all (fun h => h.value.all r.valueByte) = true then .clean [] (hs.map trimmed) after else .bad := by
  intro w
  have path : LinesRead flatReader w (hs.map fieldText ++ [[]]) after := by
    refine (linesRead_render flatReader_line).mpr ⟨?_,?_⟩
    · simp [w,fieldLines_eq,renderLines]
    intro text inside
    rcases mem_append.mp inside with inside | blank
    · obtain ⟨h,mem,rfl⟩ := mem_map.mp inside
      exact fieldText_free (fielded h mem)
    · cases mem_singleton.mp blank
      rfl
  have read := fields_text fielded (r := r) 0
  split
  · rename_i good
    rw [if_pos good] at read
    exact decodeFields_complete flatReader_lawful _ path read (Nat.lt_succ_self w.length)
  · rename_i bad
    rw [if_neg bad] at read
    refine decodeFields_refused _ path (fun line inside => ?_) read
    obtain ⟨h,-,rfl⟩ := mem_map.mp inside
    exact fieldText_ne
end
section
variable {d n : Nat}

theorem digitByte_hex : ∀ d < 16, hexDigit (digitByte d) = some d ∧ digitByte d ≠ lf ∧ digitByte d ≠ 59 ∧ isOWS (digitByte d) = false := by decide

theorem appendInt_decimal : ∀ c ∈ appendInt n, decimalByte c = true := by
  rw [appendInt_nat]
  exact itoa_decimal

theorem decimal_appendInt : decimal (appendInt n) = some n := by
  have bytes : (itoa n).all (fun c => 48 ≤ c && c ≤ 57) = true := all_eq_true.mpr itoa_decimal
  rw [appendInt_nat,decimal,if_pos ⟨itoa_ne_nil,bytes⟩,itoa_value]

theorem hexNumber_appendHex : hexNumber (appendHex n) = some n := by
  rw [hexNumber,appendHex]
  split
  · rename_i zero
    rw [zero]
    rfl
  · rename_i more
    rw [if_neg fun none => Numerals.digits_ne_nil (by decide) more (map_eq_nil_iff.mp none)]
    have value : ∀ (places : List Nat) (start : Nat), (∀ d ∈ places, d < 16) →
        (places.map digitByte).foldl (fun acc c => acc.bind fun n => (hexDigit c).map (n*16 + ·)) (some start) =
          some (places.foldl (fun n d => n*16 + d) start) := by
      intro places
      induction places with
      | nil => exact fun start _ => rfl
      | cons d places ih =>
        intro start small
        rw [map_cons,foldl_cons,Option.bind_some,(digitByte_hex d (small d mem_cons_self)).1,Option.map_some]
        exact ih _ fun d mem => small d (mem_cons_of_mem _ mem)
    rw [value _ 0 (Numerals.digits_lt (by decide))]
    exact congrArg some (Numerals.value_digits (by decide))

theorem appendHex_plain : ∀ c ∈ appendHex n, c ≠ lf ∧ c ≠ 59 ∧ isOWS c = false := by
  rw [appendHex]
  split
  · intro c mem
    cases mem_singleton.mp mem
    decide
  · intro c mem
    obtain ⟨d,digit,rfl⟩ := mem_map.mp mem
    exact (digitByte_hex d (Numerals.digits_lt (by decide) d digit)).2
end
section
open Recipient

def statusText (code : Int) : Bytes := ascii "HTTP/1.1 " ++ (appendInt code ++ (32 :: ascii (statusReason code)))

theorem appendStatusLine_eq (code : Int) : appendStatusLine code = statusText code ++ crlf := by
  rw [appendStatusLine]
  split_ifs with is is is is
  · rw [is]; decide
  · rw [is]; decide
  · rw [is]; decide
  · rw [is]; decide
  · simp [statusText]

theorem statusReason_cases (code : Int) :
    statusReason code = "" ∨ (100 ≤ code ∧ code ≤ 999) ∧ ∃ entry ∈ statusReasons, statusReason code = entry.2 := by
  rw [statusReason]
  cases found : statusReasons.find? fun entry => entry.1 = code with
  | none => exact .inl rfl
  | some entry =>
    have mem := mem_of_find?_eq_some found
    have is := List.find?_some found
    rw [decide_eq_true_eq] at is
    have range : ∀ entry ∈ statusReasons, 100 ≤ entry.1 ∧ entry.1 ≤ 999 := by decide
    exact .inr ⟨is ▸ range entry mem,entry,mem,rfl⟩

theorem statusReason_text (code : Int) : (ascii (statusReason code)).all textByte = true := by
  rcases statusReason_cases code with empty | ⟨-,entry,mem,is⟩
  · rw [empty]
    rfl
  have texts : ∀ entry ∈ statusReasons, (ascii entry.2).all textByte = true := by
    decide
  rw [is]
  exact texts entry mem

theorem appendInt_plain (code : Int) : lf ∉ appendInt code := by
  intro mem
  have digits : ∀ n : Nat, lf ∉ (Numerals.digits 10 n).map digitByte := by
    intro n mem
    obtain ⟨d,digit,is⟩ := mem_map.mp mem
    have := (digitByte_decimal d (Numerals.digits_lt (by decide) d digit)).1
    rw [is] at this
    cases this
  rw [appendInt] at mem
  split at mem
  · cases mem_singleton.mp mem
  split at mem
  · cases mem_singleton.mp mem
  split at mem
  · rcases mem_cons.mp mem with is | mem
    · cases is
    · exact digits _ mem
  · exact digits _ mem

theorem statusText_free (code : Int) : crlfFree (statusText code) := by
  refine crlfFree_plain fun mem => ?_
  rcases mem_append.mp mem with front | mem
  · exact absurd front (by decide)
  rcases mem_append.mp mem with number | mem
  · exact appendInt_plain code number
  rcases mem_cons.mp mem with is | reason
  · cases is
  · have text := all_eq_true.mp (statusReason_text code) lf reason
    cases text

theorem version_text : ascii "HTTP/1.1 " = [72,84,84,80,47,49,46,49,32] := by decide

theorem statusLine_short (short : rest.length ≤ 3) : statusLine (ascii "HTTP/1.1 " ++ rest) = none := by
  rw [version_text,statusLine.eq_def]
  split
  · rename_i text
    have lengths := congrArg List.length text
    simp only [length_append,length_cons,length_nil] at lengths
    lia
  · rfl

theorem statusLine_rest (a b c d : UInt8) (reason : Bytes) : statusLine (ascii "HTTP/1.1 " ++ a :: b :: c :: d :: reason) =
    if d = 32 ∧ [a,b,c].all decimalByte = true ∧ reason.all textByte = true then decimal [a,b,c] else none := by
  rw [version_text,statusLine.eq_def]
  split
  · rename_i text
    obtain ⟨-,-,-,-,-,rfl,-,rfl,-,rfl,rfl,rfl,rfl,rfl⟩ := text
    simp [decimalByte]
  · rename_i other
    rw [if_neg]
    rintro ⟨rfl,-⟩
    exact other _ _ _ _ _ _ rfl

theorem appendInt_negative (negative : code < 0) : ∃ digits, appendInt code = 45 :: digits := by
  rw [appendInt,if_neg (by lia)]
  split
  · exact ⟨[],rfl⟩
  · exact ⟨_,rfl⟩

theorem statusLine_other (other : decimalByte a = false) : statusLine (ascii "HTTP/1.1 " ++ a :: rest) = none := by
  match rest with
  | b :: c :: d :: reason =>
    rw [statusLine_rest,if_neg]
    rintro ⟨-,digits,-⟩
    rw [all_cons,other] at digits
    cases digits
  | [] | [_] | [_,_] => exact statusLine_short (by simp)

theorem statusReason_none (out : ¬(100 ≤ code ∧ code ≤ 999)) : ascii (statusReason code) = [] := by
  rw [(statusReason_cases code).resolve_right fun range => out range.1]
  rfl

theorem statusLine_text (code : Int) : statusLine (statusText code) = if 100 ≤ code ∧ code ≤ 999 then some code.toNat else none := by
  by_cases negative : code < 0
  · obtain ⟨digits,text⟩ := appendInt_negative negative
    rw [if_neg (by lia),statusText,text]
    exact statusLine_other rfl
  obtain ⟨n,rfl⟩ := Int.eq_ofNat_of_zero_le (Int.not_lt.mp negative)
  have digits := appendInt_decimal (n := n)
  have two := itoa_length (n := n) 2 (by decide)
  have three := itoa_length (n := n) 3 (by decide)
  rw [← appendInt_nat] at two three
  have value := decimal_appendInt (n := n)
  have reason := statusReason_text n
  rw [statusText]
  by_cases range : 100 ≤ (n : Int) ∧ (n : Int) ≤ 999
  · have length : (appendInt n).length = 3 := by lia
    obtain ⟨a,b,c,text⟩ := length_eq_three.mp length
    rw [text] at digits value ⊢
    rw [if_pos range]
    show statusLine (ascii "HTTP/1.1 " ++ a :: b :: c :: 32 :: _) = _
    rw [statusLine_rest,if_pos ⟨rfl,all_eq_true.mpr digits,reason⟩,value]
    rfl
  · rw [if_neg range]
    by_cases short : (appendInt n).length ≤ 2
    · refine statusLine_short ?_
      rw [statusReason_none range,length_append]
      exact Nat.succ_le_succ short
    · match text : appendInt n with
      | a :: b :: c :: d :: more =>
        show statusLine (ascii "HTTP/1.1 " ++ a :: b :: c :: d :: _) = _
        rw [statusLine_rest,if_neg]
        rintro ⟨rfl,-⟩
        have digit := digits 32 (by rw [text]; simp)
        cases digit
      | [] | [_] | [_,_] | [_,_,_] =>
        rw [text] at short two three
        simp only [length_cons,length_nil] at short two three
        lia
end
namespace DefaultCtx
section
variable (cfg : ResponseConfig) (c : DefaultCtx)

def dateFields : List Header := if cfg.sendDateHeader then [⟨ascii "Date",cfg.date⟩] else []

def serverFields : List Header := if cfg.serverHeader ≠ [] then [⟨ascii "Server",cfg.serverHeader⟩] else []

def framingFields (length : Nat) : List Header :=
  if responseBodyAllowed c.status && c.hasTrailers then
    [⟨ascii "Transfer-Encoding",ascii "chunked"⟩,⟨ascii "Trailer",[44].intercalate (c.trailers.map Header.key)⟩]
  else if responseBodyAllowed c.status then [⟨ascii "Content-Length",appendInt length⟩]
  else []

def connectionFields : List Header :=
  if c.keepAlive && !c.forceClose then (if cfg.sendKeepAliveHeader then [⟨ascii "Connection",ascii "keep-alive"⟩] else [])
  else [⟨ascii "Connection",ascii "close"⟩]

def answerFields (length : Nat) : List Header := dateFields cfg ++ (c.accepted ++ (serverFields cfg ++ (c.framingFields length ++ c.connectionFields cfg)))

variable {cfg c}

theorem fieldLines_append (one two : List Header) : fieldLines (one ++ two) = fieldLines one ++ fieldLines two := flatMap_append

theorem fieldLines_one (key value : Bytes) : fieldLines [⟨key,value⟩] = key ++ (58 :: 32 :: (value ++ crlf)) := flatMap_singleton ..

theorem dateLine_eq : dateLine cfg = fieldLines (dateFields cfg) := by
  rw [dateLine,dateFields]
  split
  · rw [fieldLines_one]
    rfl
  · rfl

theorem server_eq : appendSecurityHeaders cfg = fieldLines (serverFields cfg) := by
  rw [appendSecurityHeaders,serverFields]
  split
  · rw [fieldLines_one]
    rfl
  · rfl

theorem contentLength_eq (length : Nat) : appendContentLengthLine length = fieldLines [⟨ascii "Content-Length",appendInt length⟩] := by
  rw [appendContentLengthLine,contentLengthSmall,append_assoc,ite_self,fieldLines_one]
  rfl

theorem framingLines_eq (length : Nat) : c.framingLines length = fieldLines (c.framingFields length) := by
  rw [framingLines,framingFields]
  split
  · show _ = fieldLines ([_] ++ [_])
    rw [fieldLines_append,fieldLines_one,fieldLines_one]
    rfl
  split
  · exact contentLength_eq length
  · rfl

theorem connectionLine_eq : c.connectionLine cfg = fieldLines (c.connectionFields cfg) := by
  rw [connectionLine,connectionFields]
  split
  · split
    · rw [fieldLines_one]
      rfl
    · rfl
  · rw [fieldLines_one]
    rfl

theorem contentTypeLine_eq : c.contentTypeLine ++ fieldLines c.headers = fieldLines c.accepted := by
  rw [contentTypeLine,accepted,fieldLines_append]
  cases c.contentType with
  | none => rfl
  | some t =>
    show _ = fieldLines [_] ++ _
    rw [fieldLines_one]
    rfl

theorem assemble_eq (none : c.cookies = []) (body : Bytes) :
    c.assemble cfg body = statusText c.status ++ crlf ++ (fieldLines (c.answerFields cfg body.length) ++ (crlf ++ c.payload body)) := by
  rw [assemble,answerFields,appendStatusLine_eq,none,flatMap_nil,nil_append,fieldLines_append,fieldLines_append,fieldLines_append,fieldLines_append,
    ← dateLine_eq,← contentTypeLine_eq,← server_eq,← framingLines_eq,← connectionLine_eq]
  simp
end
end DefaultCtx
section
variable {r : Recipient} {method : Bytes} {c : DefaultCtx} {body : Bytes}

theorem receive_head (fielded : ∀ h ∈ hs, Fielded h) (after : Bytes) :
    r.receive method (statusText code ++ crlf ++ (DefaultCtx.fieldLines hs ++ (crlf ++ after))) =
      if (100 ≤ code ∧ code ≤ 999) ∧ hs.all (fun h => h.value.all r.valueByte) = true
        then r.receiveBody method code.toNat (hs.map trimmed) after else none := by
  have line : flatReader.line (statusText code ++ crlf ++ (DefaultCtx.fieldLines hs ++ (crlf ++ after))) =
      .got (statusText code,DefaultCtx.fieldLines hs ++ (crlf ++ after)) := flatReader_line.mpr ⟨rfl,statusText_free code⟩
  simp only [Recipient.receive,line,statusLine_text,decodeFields_text fielded]
  by_cases range : 100 ≤ code ∧ code ≤ 999
  · by_cases good : hs.all (fun h => h.value.all r.valueByte) = true
    · rw [if_pos range,if_pos good,if_pos ⟨range,good⟩]
    · rw [if_pos range,if_neg good,if_neg fun both => good both.2]
  · rw [if_neg range,if_neg (c := (100 ≤ code ∧ code ≤ 999) ∧ _) fun both => range both.1]

def chunkedAnswer (body : Bytes) (trailers : List Header) : ChunkedMessage where
  chunks := if body = [] then [] else [(appendHex body.length,body)]
  last := ascii "0"
  trailers := trailers.map fieldText

theorem chunkedAnswer_body (trailers : List Header) : (chunkedAnswer body trailers).body = body := by
  rw [ChunkedMessage.body,chunkedAnswer]
  split
  · rename_i none
    rw [none]
    rfl
  · exact flatMap_singleton ..

theorem payload_chunked (allowed : responseBodyAllowed c.status = true) (get : c.flags.head = false) (some : c.hasTrailers = true) :
    c.payload body = (chunkedAnswer body c.trailers).render := by
  rw [DefaultCtx.payload,allowed,get,some,if_pos (by rfl),if_pos rfl,chunkedAnswer,ChunkedMessage.render,fieldLines_eq]
  by_cases none : body = []
  · rw [if_pos none,if_neg (not_not_intro none)]
    rfl
  · rw [if_neg none,if_pos none]
    simp [renderChunks]

theorem appendHex_size (n : Nat) : r.rules.size (appendHex n) = some n := by
  have whole : before (appendHex n) 59 = appendHex n := by rw [before,indexByte_none.mpr fun mem => (appendHex_plain 59 mem).2.1 rfl]
  have solid : trimOWSRight (appendHex n) = appendHex n := by
    refine rdropWhile_eq_self_iff.mpr fun full => ?_
    rw [(appendHex_plain _ (getLast_mem full)).2.2]
    exact Bool.false_ne_true
  show hexNumber (trimOWSRight (before (appendHex n) 59)) = some n
  rw [whole,solid,hexNumber_appendHex]

theorem decode_answer {trailers : List Header} (fielded : ∀ h ∈ trailers, Fielded h) :
    let w := (chunkedAnswer body trailers).render
    decode flatReader r.rules (w.length+1) 0 w =
      if trailers.all (fun h => h.value.all r.valueByte) = true then .clean body (trailers.map trimmed) [] else .bad := by
  intro w
  have path : MessageRead flatReader w (chunkedAnswer body trailers) [] := by
    refine messageRead_flat.mpr ⟨(append_nil _).symm,fun line inside => ?_⟩
    rcases mem_append.mp inside with sizes | trailing
    · rcases mem_append.mp sizes with chunk | last
      · obtain ⟨piece,mem,rfl⟩ := mem_map.mp chunk
        rw [chunkedAnswer] at mem
        split at mem
        · cases mem
        · cases mem_singleton.mp mem
          exact crlfFree_plain fun feed => (appendHex_plain lf feed).1 rfl
      · cases mem_singleton.mp last
        exact crlfFree_plain (by show lf ∉ ascii "0"; decide)
    · obtain ⟨h,mem,rfl⟩ := mem_map.mp trailing
      exact fieldText_free (fielded h mem)
  have chunks : r.rules.chunks 0 (chunkedAnswer body trailers).chunks := by
    rw [chunkedAnswer]
    split
    · trivial
    · rename_i full
      exact ⟨appendHex_size _,full,rfl,trivial⟩
  have last : r.rules.size (chunkedAnswer body trailers).last = some 0 := appendHex_size 0
  have read := fields_text fielded (r := r) 0
  split
  · rename_i good
    rw [if_pos good] at read
    have clean := decode_complete flatReader_lawful _ path chunks last rfl read (Nat.lt_succ_self w.length)
    rwa [chunkedAnswer_body] at clean
  · rename_i bad
    rw [if_neg bad] at read
    refine decode_refused flatReader_lawful _ path chunks last (fun line inside => ?_) read (Nat.lt_succ_self w.length)
    obtain ⟨h,-,rfl⟩ := mem_map.mp inside
    exact fieldText_ne
end
section
open DefaultCtx
variable {cfg : ResponseConfig} {c : DefaultCtx} {name : String}

theorem named_append (one two : List Header) : named name (one ++ two) = named name one ++ named name two := by
  rw [named,filter_append,map_append]
  rfl

theorem named_none (other : ∀ h ∈ hs, strEqFold h.key name = false) : named name hs = [] := by
  rw [named,filter_eq_nil_iff.mpr fun h mem => Bool.eq_false_iff.mp (other h mem)]
  rfl

theorem named_trimmed (name : String) {hs : List Header} (other : ∀ h ∈ hs, strEqFold h.key name = false) : named name (hs.map trimmed) = [] := by
  refine named_none fun h inside => ?_
  obtain ⟨old,mem,rfl⟩ := mem_map.mp inside
  exact other old mem

theorem bytesEqualFold_like (one two : Bytes) (like : one.map foldByte = two.map foldByte) (key : Bytes) :
    bytesEqualFold key one = bytesEqualFold key two := by
  have length := congrArg List.length like
  rw [length_map,length_map] at length
  rw [bytesEqualFold,bytesEqualFold,like,length]

theorem free_framing (free : FreeName key) : strEqFold key "transfer-encoding" = false ∧ strEqFold key "content-length" = false := by
  have unlike := any_eq_false.mp free.2
  have transfer := unlike "Transfer-Encoding" (by decide)
  have length := unlike "Content-Length" (by decide)
  rw [Bool.not_eq_true] at transfer length
  rw [bytesEqualFold_like _ (ascii "transfer-encoding") (by decide)] at transfer
  rw [bytesEqualFold_like _ (ascii "content-length") (by decide)] at length
  exact ⟨transfer,length⟩

theorem accepted_framing (clean : c.Clean) : ∀ h ∈ c.accepted, strEqFold h.key "transfer-encoding" = false ∧ strEqFold h.key "content-length" = false := by
  intro h mem
  rcases mem_append.mp mem with type | header
  · rw [Option.mem_toList,Option.map_eq_some_iff] at type
    obtain ⟨t,-,rfl⟩ := type
    show strEqFold (ascii "Content-Type") "transfer-encoding" = false ∧ strEqFold (ascii "Content-Type") "content-length" = false
    decide
  · exact free_framing (clean.headers h header).1

theorem date_field (mem : h ∈ dateFields cfg) : h = ⟨ascii "Date",cfg.date⟩ :=
  mem_singleton.mp (mem_ite_nil_right.mp mem).2

theorem server_field (mem : h ∈ serverFields cfg) : h = ⟨ascii "Server",cfg.serverHeader⟩ :=
  mem_singleton.mp (mem_ite_nil_right.mp mem).2

theorem framing_field {length : Nat} (mem : h ∈ c.framingFields length) : h = ⟨ascii "Transfer-Encoding",ascii "chunked"⟩ ∨
    h = ⟨ascii "Trailer",[44].intercalate (c.trailers.map Header.key)⟩ ∨ h = ⟨ascii "Content-Length",appendInt length⟩ := by
  rw [framingFields] at mem
  split at mem
  · exact (mem_cons.mp mem).imp_right fun last => .inl (mem_singleton.mp last)
  · exact .inr (.inr (mem_singleton.mp (mem_ite_nil_right.mp mem).2))

theorem connection_field (mem : h ∈ c.connectionFields cfg) :
    h = ⟨ascii "Connection",ascii "keep-alive"⟩ ∨ h = ⟨ascii "Connection",ascii "close"⟩ := by
  rw [connectionFields] at mem
  split at mem
  · exact .inl (mem_singleton.mp (mem_ite_nil_right.mp mem).2)
  · exact .inr (mem_singleton.mp mem)

theorem named_head (clean : c.Clean) (length : Nat) (frames : name = "transfer-encoding" ∨ name = "content-length") :
    named name ((c.answerFields cfg length).map trimmed) = named name ((c.framingFields length).map trimmed) := by
  have own : strEqFold (ascii "Date") name = false ∧ strEqFold (ascii "Server") name = false ∧ strEqFold (ascii "Connection") name = false := by
    rcases frames with rfl | rfl
    · decide
    · decide
  have accepted : ∀ h ∈ c.accepted, strEqFold h.key name = false := by
    intro h mem
    rcases frames with rfl | rfl
    · exact (accepted_framing clean h mem).1
    · exact (accepted_framing clean h mem).2
  have date := named_trimmed name fun h (mem : h ∈ dateFields cfg) => date_field mem ▸ own.1
  have server := named_trimmed name fun h (mem : h ∈ serverFields cfg) => server_field mem ▸ own.2.1
  have connection := named_trimmed name fun h (mem : h ∈ c.connectionFields cfg) => by
    rcases connection_field mem with rfl | rfl <;> exact own.2.2
  simp [answerFields,named_append,date,server,connection,named_trimmed name accepted]

theorem decimal_solid : ∀ c, decimalByte c = true → isOWS c = false ∧ c ≠ cr ∧ c ≠ 44 ∧ Recipient.textByte c = true := eachByte (by decide +kernel)

theorem trimmed_number (n : Nat) (key : Bytes) : trimmed ⟨key,appendInt n⟩ = ⟨key,appendInt n⟩ := by
  have solid : ∀ c ∈ appendInt n, isOWS c = false := fun c mem => (decimal_solid c (appendInt_decimal c mem)).1
  have value : trimOWSRight (([] ++ (appendInt n ++ [])).dropWhile isOWS) = appendInt n := padded_value nofun
    nofun (fun c is => solid c (mem_of_head? is)) fun c is => solid c (mem_of_getLast? is)
  rw [nil_append,append_nil] at value
  rw [trimmed,value]

theorem members_number (n : Nat) : members (appendInt n) = [appendInt n] := by
  have single : (44 : UInt8) ∉ appendInt n := fun mem => (decimal_solid 44 (appendInt_decimal 44 mem)).2.2.1 rfl
  have solid : ∀ c ∈ appendInt n, isOWS c = false ∧ c ≠ cr := fun c mem =>
    ⟨(decimal_solid c (appendInt_decimal c mem)).1,(decimal_solid c (appendInt_decimal c mem)).2.1⟩
  rw [members,splitOn_eq_singleton single,map_singleton,trimOWS_solid solid]

theorem framing_answer (clean : c.Clean) (method : Bytes) (n length : Nat) : Recipient.framing method n ((c.answerFields cfg length).map trimmed) =
    if method = ascii "HEAD" ∨ n/100 = 1 ∨ n = 204 ∨ n = 304 then .nothing
    else if method = ascii "CONNECT" ∧ n/100 = 2 then .nothing
    else if responseBodyAllowed c.status && c.hasTrailers then .chunked
    else if responseBodyAllowed c.status then .fixed length else .untilClose := by
  rw [Recipient.framing,named_head clean length (.inl rfl),named_head clean length (.inr rfl),framingFields]
  split
  · rfl
  split
  · rfl
  by_cases chunked : (responseBodyAllowed c.status && c.hasTrailers) = true
  · have coding : ∀ value, ((named "transfer-encoding" ([⟨ascii "Transfer-Encoding",ascii "chunked"⟩,⟨ascii "Trailer",value⟩].map trimmed)).flatMap members).getLast? =
        some (ascii "chunked") := fun _ => rfl
    rw [if_pos chunked,if_pos chunked,coding]
    rfl
  rw [if_neg chunked,if_neg chunked]
  by_cases allowed : responseBodyAllowed c.status = true
  · have value : named "content-length" ([⟨ascii "Content-Length",appendInt length⟩].map trimmed) = [appendInt length] := by
      rw [map_singleton,trimmed_number]
      rfl
    have coding : named "transfer-encoding" ([⟨ascii "Content-Length",appendInt length⟩].map trimmed) = [] := rfl
    rw [if_pos allowed,if_pos allowed,value,coding,flatMap_singleton,members_number]
    show ((decimal (appendInt length)).map ResponseFraming.fixed).getD .invalid = _
    rw [decimal_appendInt]
    rfl
  · rw [if_neg allowed,if_neg allowed]
    rfl
end

structure ResponseConfig.Plain (cfg : ResponseConfig) : Prop where
  server : cfg.serverHeader.all Recipient.textByte = true
  date : cfg.date.all Recipient.textByte = true

section
open DefaultCtx Recipient
variable {r : Recipient} {cfg : ResponseConfig} {c : DefaultCtx} {method body : Bytes}

theorem intersperse_all {P : Bytes → Prop} (between : P sep) : ∀ {texts : List Bytes}, (∀ text ∈ texts, P text) →
    ∀ text ∈ texts.intersperse sep, P text
  | [],_,_,mem => nomatch mem
  | [_],all,text,mem => all text mem
  | first :: second :: texts,all,text,mem => by
    rw [intersperse_cons_cons] at mem
    rcases mem_cons.mp mem with rfl | mem
    · exact all text mem_cons_self
    rcases mem_cons.mp mem with rfl | mem
    · exact between
    · exact intersperse_all between (fun text later => all text (mem_cons_of_mem _ later)) text mem

theorem trailer_text (clean : c.Clean) : ([44].intercalate (c.trailers.map Header.key)).all textByte = true := by
  have name : ∀ c, tokenByte c = true → textByte c = true := eachByte (by decide +kernel)
  have keys : ∀ key ∈ c.trailers.map Header.key, key.all textByte = true := by
    intro key inside
    obtain ⟨h,mem,rfl⟩ := mem_map.mp inside
    exact all_eq_true.mpr fun c inside => name c (token_byte (clean.trailers h mem).1 c inside)
  rw [all_eq_true]
  intro c inside
  obtain ⟨text,mem,inside⟩ := mem_flatten.mp inside
  exact all_eq_true.mp (intersperse_all (P := fun text => text.all textByte = true) (by decide) keys text mem) c inside

theorem textByte_value {c : UInt8} (text : textByte c = true) : r.valueByte c = true := by
  rw [valueByte,text]
  rfl

theorem text_plain {value : Bytes} (text : value.all textByte = true) : lf ∉ value := by
  intro mem
  cases all_eq_true.mp text lf mem

theorem accepted_fielded (clean : c.Clean) : ∀ h ∈ c.accepted, Fielded h := by
  intro h mem
  rcases mem_append.mp mem with type | header
  · rw [Option.mem_toList,Option.map_eq_some_iff] at type
    obtain ⟨t,there,rfl⟩ := type
    exact ⟨rfl,breaksLine_plain (clean.contentType t there)⟩
  · exact ⟨(clean.headers h header).1.1,breaksLine_plain (clean.headers h header).2⟩

theorem answer_field {length : Nat} (mem : h ∈ c.answerFields cfg length) : h ∈ c.accepted ∨
    h ∈ dateFields cfg ++ (serverFields cfg ++ (c.framingFields length ++ c.connectionFields cfg)) := by
  simp only [answerFields,mem_append] at mem ⊢
  tauto

theorem answer_shape (cfg : ResponseConfig) (c : DefaultCtx) (length : Nat) :
    ∃ first last, (c.answerFields cfg length).map trimmed = first ++ (c.accepted.map trimmed ++ last) ∧ (∀ f ∈ first, f.key = ascii "Date") ∧
      ∀ f ∈ last, f.key ∈ ["Server","Content-Length","Transfer-Encoding","Trailer","Connection"].map ascii := by
  refine ⟨(dateFields cfg).map trimmed,(serverFields cfg ++ (c.framingFields length ++ c.connectionFields cfg)).map trimmed,?_,?_,?_⟩
  · simp [answerFields]
  · intro f inside
    obtain ⟨h,mem,rfl⟩ := mem_map.mp inside
    rw [date_field mem]
    rfl
  · intro f inside
    obtain ⟨h,mem,rfl⟩ := mem_map.mp inside
    show h.key ∈ _
    rcases mem_append.mp mem with server | mem
    · simp [server_field server]
    rcases mem_append.mp mem with framing | connection
    · rcases framing_field framing with rfl | rfl | rfl <;> simp
    · rcases connection_field connection with rfl | rfl <;> simp

theorem payload_none (without : (responseBodyAllowed c.status && !c.flags.head) = false) : c.payload body = [] := by
  rw [payload,without]
  rfl

theorem payload_plain (allowed : responseBodyAllowed c.status = true) (get : c.flags.head = false) (none : c.trailers = []) : c.payload body = body := by
  rw [payload,hasTrailers,allowed,get,none]
  rfl

theorem trailers_fielded (clean : c.Clean) : ∀ h ∈ c.trailers, Fielded h :=
  fun h mem => ⟨(clean.trailers h mem).1,breaksLine_plain (clean.trailers h mem).2⟩

theorem allowed_iff {status : Int} : responseBodyAllowed status = true ↔ 200 ≤ status ∧ status ≠ 204 ∧ status ≠ 205 ∧ status ≠ 304 := by
  simp [responseBodyAllowed,and_assoc]

theorem loud_of {status : Int} (other : method ≠ ascii "HEAD") (full : 200 ≤ status ∧ status ≠ 204 ∧ status ≠ 304) :
    ¬(method = ascii "HEAD" ∨ status.toNat/100 = 1 ∨ status.toNat = 204 ∨ status.toNat = 304) := by
  rintro (is | is | is | is) <;> [exact other is; lia; lia; lia]

theorem chunkedAnswer_full {trailers : List Header} : (chunkedAnswer body trailers).render ≠ [] := by
  intro none
  have tail := (append_eq_nil_iff.mp none).2
  have last := (append_eq_nil_iff.mp (append_eq_nil_iff.mp tail).1).1
  exact absurd last (by show ascii "0" ≠ []; decide)

section
variable (clean : c.Clean) (allowed : responseBodyAllowed c.status = true) (get : c.flags.head = false) (loud : ¬(method = ascii "HEAD" ∨ n/100 = 1 ∨ n = 204 ∨ n = 304))
include clean allowed get loud

theorem receiveBody_carried (server : ¬(method = ascii "CONNECT" ∧ n/100 = 2)) :
    let fields := (c.answerFields cfg body.length).map trimmed
    r.receiveBody method n fields (c.payload body) =
      if c.trailers.all (fun h => h.value.all r.valueByte) = true then some (⟨n,fields,body,c.trailers.map trimmed⟩,[]) else none := by
  intro fields
  rw [receiveBody,framing_answer clean,if_neg loud,if_neg server,allowed,Bool.true_and,if_pos rfl]
  cases some : c.hasTrailers with
  | false =>
    have none : c.trailers = [] := by simpa [hasTrailers] using some
    simp only [Bool.false_eq_true,if_false]
    rw [payload_plain allowed get none,none,if_pos (Nat.le_refl _),take_length,drop_length]
    rfl
  | true =>
    rw [payload_chunked allowed get some,decode_answer (trailers_fielded clean)]
    cases c.trailers.all fun h => h.value.all r.valueByte <;> rfl

theorem tunnel_empty (server : method = ascii "CONNECT" ∧ n/100 = 2)
    (got : r.receiveBody method n ((c.answerFields cfg body.length).map trimmed) (c.payload body) = some (m,[])) : body = [] ∧ c.trailers = [] := by
  rw [receiveBody,framing_answer clean,if_neg loud,if_pos server] at got
  have empty : c.payload body = [] := (Prod.mk.inj (Option.some.inj got)).2
  cases some : c.hasTrailers with
  | false =>
    have none : c.trailers = [] := by simpa [hasTrailers] using some
    rw [payload_plain allowed get none] at empty
    exact ⟨empty,none⟩
  | true =>
    rw [payload_chunked allowed get some] at empty
    exact absurd empty chunkedAnswer_full
end
section
variable (plain : cfg.Plain) (clean : c.Clean)
include plain clean

theorem own_plain (length : Nat) :
    ∀ h ∈ dateFields cfg ++ (serverFields cfg ++ (c.framingFields length ++ c.connectionFields cfg)),
      validToken h.key = true ∧ h.value.all textByte = true := by
  intro h mem
  rcases mem_append.mp mem with date | mem
  · rw [date_field date]
    exact ⟨rfl,plain.date⟩
  rcases mem_append.mp mem with server | mem
  · rw [server_field server]
    exact ⟨rfl,plain.server⟩
  rcases mem_append.mp mem with framing | connection
  · rcases framing_field framing with rfl | rfl | rfl
    · exact ⟨rfl,by decide⟩
    · exact ⟨rfl,trailer_text clean⟩
    · exact ⟨rfl,all_eq_true.mpr fun c mem => (decimal_solid c (appendInt_decimal c mem)).2.2.2⟩
  · rcases connection_field connection with rfl | rfl
    · exact ⟨rfl,by decide⟩
    · exact ⟨rfl,by decide⟩

theorem answer_fielded (length : Nat) : ∀ h ∈ c.answerFields cfg length, Fielded h := by
  intro h mem
  rcases answer_field mem with accepted | own
  · exact accepted_fielded clean h accepted
  · obtain ⟨token,text⟩ := own_plain plain clean length h own
    exact ⟨token,text_plain text⟩

theorem answer_values (length : Nat) :
    (c.answerFields cfg length).all (fun h => h.value.all r.valueByte) = true ↔ ∀ h ∈ c.accepted, h.value.all r.valueByte = true := by
  rw [all_eq_true]
  constructor
  · intro all h mem
    refine all h ?_
    simp only [answerFields,mem_append]
    exact .inr (.inl mem)
  · intro accepted h mem
    rcases answer_field mem with mem | own
    · exact accepted h mem
    · have text := all_eq_true.mp (own_plain plain clean length h own).2
      exact all_eq_true.mpr fun c mem => textByte_value (text c mem)

theorem receive_answer (none : c.cookies = []) : r.receive method (c.assemble cfg body) =
    if (100 ≤ c.status ∧ c.status ≤ 999) ∧ ∀ h ∈ c.accepted, h.value.all r.valueByte = true
      then r.receiveBody method c.status.toNat ((c.answerFields cfg body.length).map trimmed) (c.payload body) else .none := by
  rw [assemble_eq none,receive_head (answer_fielded plain clean body.length)]
  simp [answer_values plain clean]

theorem reads_assemble (none : c.cookies = []) (head : c.flags.head = decide (method = ascii "HEAD")) :
    r.Reads method c body (c.assemble cfg body) ↔ r.Delimits method c body := by
  have get : method ≠ ascii "HEAD" → c.flags.head = false := fun other => head.trans (decide_eq_false other)
  have apart : ascii "CONNECT" ≠ ascii "HEAD" := by decide
  constructor
  · rintro ⟨m,got,-,-,-⟩
    rw [receive_answer plain clean none] at got
    split at got
    · rename_i good
      obtain ⟨range,values⟩ := good
      have tunnel : method = ascii "CONNECT" → c.status < 300 → responseBodyAllowed c.status = true → body = [] ∧ c.trailers = [] := by
        intro connect low allowed
        have other : method ≠ ascii "HEAD" := connect ▸ apart
        have full := allowed_iff.mp allowed
        exact tunnel_empty clean allowed (get other) (loud_of other (by lia)) ⟨connect,by lia⟩ got
      refine ⟨range,fun is => ?_,tunnel,values,fun allowed other f mem => ?_⟩
      · by_contra neither
        rw [not_or] at neither
        have closed : responseBodyAllowed c.status = false := Bool.eq_false_iff.mpr fun allowed => (allowed_iff.mp allowed).2.2.1 is
        rw [receiveBody,framing_answer clean,if_neg (loud_of neither.1 (by lia)),if_neg fun both => neither.2 both.1,closed] at got
        cases got
      · have full := allowed_iff.mp allowed
        by_cases server : method = ascii "CONNECT" ∧ c.status.toNat/100 = 2
        · rw [(tunnel server.1 (by lia) allowed).2] at mem
          cases mem
        rw [receiveBody_carried clean allowed (get other) (loud_of other (by lia)) server] at got
        split at got
        · rename_i all
          exact all_eq_true.mp all f mem
        · cases got
    · cases got
  · intro ok
    have range := ok.code
    have status : ((c.status.toNat : Nat) : Int) = c.status := Int.toNat_of_nonneg (by lia)
    obtain ⟨first,last,shape,own⟩ := answer_shape cfg c body.length
    have whole : r.receive method (c.assemble cfg body) =
        r.receiveBody method c.status.toNat ((c.answerFields cfg body.length).map trimmed) (c.payload body) :=
      (receive_answer plain clean none).trans (if_pos ⟨range,ok.values⟩)
    by_cases loud : method = ascii "HEAD" ∨ c.status.toNat/100 = 1 ∨ c.status.toNat = 204 ∨ c.status.toNat = 304
    · have without : (responseBodyAllowed c.status && !c.flags.head) = false := by
        rcases loud with is | low
        · rw [head,decide_eq_true is]
          exact Bool.and_false _
        have closed : responseBodyAllowed c.status = false := Bool.eq_false_iff.mpr fun allowed => by
          have full := allowed_iff.mp allowed
          lia
        rw [closed]
        rfl
      rw [receiveBody,framing_answer clean,if_pos loud,payload_none without] at whole
      refine ⟨_,whole,status,⟨first,last,shape,own⟩,?_⟩
      rw [without]
      rfl
    · have other : method ≠ ascii "HEAD" := fun is => loud (.inl is)
      by_cases server : method = ascii "CONNECT" ∧ c.status.toNat/100 = 2
      · have empty : c.payload body = [] ∧ (if responseBodyAllowed c.status && !c.flags.head then (body,c.trailers.map trimmed) else ([],[])) = ([],[]) := by
          cases allowed : responseBodyAllowed c.status with
          | false =>
            refine ⟨payload_none ?_,rfl⟩
            rw [allowed]
            rfl
          | true =>
            obtain ⟨empty,none⟩ := ok.tunnel server.1 (by lia) allowed
            rw [payload_plain allowed (get other) none,empty,none]
            exact ⟨rfl,ite_self _⟩
        rw [receiveBody,framing_answer clean,if_neg loud,if_pos server,empty.1] at whole
        exact ⟨_,whole,status,⟨first,last,shape,own⟩,empty.2.symm⟩
      · have allowed : responseBodyAllowed c.status = true := by
          have reset := ok.reset
          refine allowed_iff.mpr ⟨by lia,by lia,fun is => ?_,by lia⟩
          rcases reset is with head | connect
          · exact other head
          · exact server ⟨connect,by lia⟩
        have trailers := all_eq_true.mpr (ok.trailers allowed other)
        rw [receiveBody_carried clean allowed (get other) loud server,if_pos trailers] at whole
        refine ⟨_,whole,status,⟨first,last,shape,own⟩,?_⟩
        rw [allowed,get other]
        rfl
end
end
section
open DefaultCtx
variable {cfg : ResponseConfig} {c d : DefaultCtx}

def SameRequest (c d : DefaultCtx) : Prop := d.flags.head = c.flags.head ∧ d.cookies = c.cookies

theorem set_same (key value : Bytes) : SameRequest c (c.set key value) := by
  rw [DefaultCtx.set]
  split_ifs
  case neg => split <;> exact ⟨rfl,rfl⟩
  all_goals exact ⟨rfl,rfl⟩

theorem putStatus_same (code : Int) : SameRequest c (c.putStatus code) := by
  rw [putStatus]
  split <;> exact ⟨rfl,rfl⟩

theorem run_same (cfg : ResponseConfig) (call : ResponseCall) : SameRequest c (call.run cfg c) := by
  cases call with
  | set key value => exact set_same key value
  | append key value =>
    rw [ResponseCall.run,append]
    split
    · exact ⟨rfl,rfl⟩
    split
    · exact ⟨rfl,rfl⟩
    · exact set_same key value
  | type mime =>
    rw [ResponseCall.run,type]
    split_ifs <;> exact ⟨rfl,rfl⟩
  | setTrailer key value =>
    rw [ResponseCall.run,setTrailer]
    split
    · exact ⟨rfl,rfl⟩
    · split <;> exact ⟨rfl,rfl⟩
  | status code => exact putStatus_same _

theorem runs_same (cfg : ResponseConfig) (c : DefaultCtx) (calls : List ResponseCall) : SameRequest c (calls.foldl (ResponseCall.run cfg) c) := by
  induction calls generalizing c with
  | nil => exact ⟨rfl,rfl⟩
  | cons call calls ih =>
    have first : SameRequest c (call.run cfg c) := run_same cfg call
    have rest := ih (call.run cfg c)
    exact ⟨rest.1.trans first.1,rest.2.trans first.2⟩

theorem prepared_same {send : ResponseSend} (ready : send.prepared c = some d) : SameRequest c d := by
  cases send with
  | sendString s | sendBytes b => cases ready; exact ⟨rfl,rfl⟩
  | sendStatus code => cases ready; exact putStatus_same code
  | redirect location code =>
    rw [ResponseSend.prepared] at ready
    split at ready
    · cases ready
    · cases ready
      exact set_same (c := {c with status := code.getD 302, flags := {c.flags with non200 := true}}) (ascii "Location") location

theorem prepared_clean {send : ResponseSend} (clean : c.Clean) (ready : send.prepared c = some d) : d.Clean := by
  cases send with
  | sendString s =>
    cases ready
    refine {clean with contentType := ?_}
    rintro t ⟨⟩
    cases there : c.contentType with
    | none => decide
    | some t => exact clean.contentType t there
  | sendBytes b => cases ready; exact clean
  | sendStatus code => cases ready; exact clean.putStatus
  | redirect location code =>
    rw [ResponseSend.prepared] at ready
    split at ready
    · cases ready
    · cases ready
      exact DefaultCtx.Clean.set {clean with}

theorem writes_assemble (cfg : ResponseConfig) (send : ResponseSend) (clean : c.Clean) : send.writes cfg c = c.assemble cfg send.body ∨
    send.writes cfg c = c.assemble {cfg with serverHeader := []} send.body := by
  have bytes : ∀ body, c.writeResponse cfg body = c.assemble cfg body := by
    intro body
    rw [writeResponse]
    split
    · rename_i can
      exact directHeader_assemble clean can body
    · rfl
  cases send with
  | sendString s =>
    show c.writeResponseString cfg s = c.assemble cfg s ∨ c.writeResponseString cfg s = _
    rw [writeResponseString]
    split
    · rename_i can
      rw [writeDirect200String]
      split
      · rename_i cached
        simp only [Bool.and_eq_true,decide_eq_true_eq] at cached
        exact .inr (directPlain_assemble clean can cached.1.2 cached.2 cached.1.1)
      · exact .inl (directHeader_assemble clean can s)
    · exact .inl rfl
  | sendBytes b => exact .inl (bytes b)
  | sendStatus code | redirect location code => exact .inl (bytes [])
end

-- A handler's answer is one message to the end exactly when it can be delimited.
theorem answer_delimited_iff (r : Recipient) {cfg : ResponseConfig} (plain : cfg.Plain) (method : Bytes) (captureBody : Bool) (calls : List ResponseCall)
    (send : ResponseSend) {c : DefaultCtx} (ready : send.prepared (calls.foldl (ResponseCall.run cfg) (.start method captureBody)) = some c) :
    r.Reads method c send.body (send.writes cfg c) ↔ r.Delimits method c send.body := by
  have first : (DefaultCtx.start method captureBody).Clean := DefaultCtx.clean_fresh ..
  have clean := prepared_clean first.runs ready
  have before := runs_same cfg (.start method captureBody) calls
  have last := prepared_same ready
  have none : c.cookies = [] := last.2.trans before.2
  have head : c.flags.head = decide (method = ascii "HEAD") := last.1.trans before.1
  rcases writes_assemble cfg send clean with written | written
  · rw [written]
    exact reads_assemble plain clean none head
  · rw [written]
    exact reads_assemble ⟨rfl,plain.date⟩ clean none head

theorem page_delimited : ∃ c, (ResponseSend.sendString (ascii "hello")).prepared ([ResponseCall.set (ascii "Vary") (ascii "Accept"),
      .setTrailer (ascii "Digest") (ascii "x")].foldl (ResponseCall.run {}) (.start (ascii "GET") false)) = some c ∧
    Recipient.Reads {} (ascii "GET") c (ascii "hello") ((ResponseSend.sendString (ascii "hello")).writes {} c) := by
  refine ⟨_,rfl,(answer_delimited_iff {} ⟨rfl,rfl⟩ (ascii "GET") false _ (.sendString (ascii "hello")) rfl).mpr ⟨?_,?_,?_,?_,?_⟩⟩
  all_goals decide

-- SendStatus(205) on a kept connection writes no length at all.
theorem reset_content_undelimited : ∃ c, (ResponseSend.sendStatus 205).prepared (.start (ascii "GET") false) = some c ∧
    (ResponseSend.sendStatus 205).writes {} c = ascii "HTTP/1.1 205 Reset Content\r\n\r\n" ∧
    Recipient.receive {} (ascii "GET") (ascii "HTTP/1.1 205 Reset Content\r\n\r\n") = none ∧
    ¬ Recipient.Reads {} (ascii "GET") c [] ((ResponseSend.sendStatus 205).writes {} c) := by
  have text : (ResponseSend.sendStatus 205).writes {} ((DefaultCtx.start (ascii "GET") false).putStatus 205) = ascii "HTTP/1.1 205 Reset Content\r\n\r\n" := by
    repeat rw [ascii_ofList]
    decide
  have unread : Recipient.receive {} (ascii "GET") (ascii "HTTP/1.1 205 Reset Content\r\n\r\n") = none := by
    repeat rw [ascii_ofList]
    decide
  refine ⟨_,rfl,text,unread,fun reads => ?_⟩
  obtain ⟨m,got,-⟩ := reads.one
  cases got
end FhServer

import FhServer.HeadReading

namespace FhServer
open GoBytes RequestHead List FieldText

-- A head as its bytes have it, without the parser: its lines, the version that ends the first and the fields of those up to
-- the blank one.
def headLines (head : Bytes) : List Bytes := (head.splitOn lf).map List.dropLast

def requestVersion (head : Bytes) : Bytes := (((headLines head).headD []).splitOn 32).getLastD []

def lineField (line : Bytes) : Header :=
  ⟨line.takeWhile (· != 58),trimOWSRight (((line.dropWhile (· != 58)).drop 1).dropWhile isOWS)⟩

def headFields (head : Bytes) : List Header := (((headLines head).drop 1).takeWhile (· ≠ [])).map lineField

def named (name : String) (fields : List Header) : List Bytes := (fields.filter fun f => strEqFold f.key name).map Header.value

def members (value : Bytes) : List Bytes := (value.splitOn 44).map trimOWS

def decimal (text : Bytes) : Option Nat :=
  if text ≠ [] ∧ text.all (fun c => 48 ≤ c && c ≤ 57) then some (text.foldl (fun n c => n*10 + (c.toNat - 48)) 0) else none

section
theorem splitOn_first (free : c ∉ text) (rest : Bytes) : (text ++ c :: rest).splitOn c = text :: rest.splitOn c := by
  rw [splitOn_append_cons_self,splitOn_eq_singleton free,singleton_append]

theorem headLines_cons {line : Bytes} (free : lf ∉ line) (rest : Bytes) : headLines (line ++ (crlf ++ rest)) = line :: headLines rest := by
  have ended : lf ∉ line ++ [cr] := by
    intro mem
    rcases mem_append.mp mem with mem | mem
    · exact free mem
    · cases mem_singleton.mp mem
  have text : line ++ (crlf ++ rest) = line ++ [cr] ++ lf :: rest := by simp [crlf]
  rw [text,headLines,splitOn_first ended,map_cons,dropLast_concat]
  rfl

theorem headLines_fields (good : ∀ f ∈ fields, f.Good) (rest : Bytes) :
    headLines (fieldsText fields ++ rest) = fields.map line ++ headLines rest := by
  induction fields with
  | nil => rfl
  | cons f fields ih =>
    have free : lf ∉ f.line := fun inside => ((good f mem_cons_self).plain lf inside).2 rfl
    have text : fieldsText (f :: fields) ++ rest = f.line ++ (crlf ++ (fieldsText fields ++ rest)) := by simp [fieldsText]
    rw [text,headLines_cons free,ih fun g mem => good g (mem_cons_of_mem f mem)]
    rfl

theorem lineField_line {f : FieldText} (good : f.Good) : lineField f.line = f.field := by
  have solid : ∀ c ∈ f.name, (c != 58) = true := fun c mem => bne_iff_ne.mpr (tokenByte_plain c (token_byte good.token c mem)).2.2.2
  rw [lineField,line,takeWhile_append_of_pos solid,dropWhile_append_of_pos solid]
  have value := padded_value good.left good.right good.first good.last
  rw [field]
  simp [value]

section
variable {t : HeadText} (line : t.GoodLine) (good : ∀ f ∈ t.fields, f.Good)
include line good

theorem headLines_render :
    headLines t.render = t.line :: (t.fields.map FieldText.line ++ [[],[]]) := by
  have free : lf ∉ t.line := fun mem => (line.plain lf mem).2 rfl
  rw [HeadText.render,append_assoc,headLines_cons free,headLines_fields good]
  rfl

theorem headFields_render : headFields t.render = t.fieldList := by
  have full : ∀ text ∈ t.fields.map FieldText.line, decide (text ≠ []) = true := by
    intro text inside
    obtain ⟨f,mem,rfl⟩ := mem_map.mp inside
    obtain ⟨c,more,begins,-⟩ := (good f mem).starts
    rw [begins]
    rfl
  rw [headFields,headLines_render line good,drop_one,tail_cons,takeWhile_append_of_pos full]
  have blank : ([[],[]] : List Bytes).takeWhile (fun text => decide (text ≠ [])) = [] := rfl
  rw [blank,append_nil,map_map,HeadText.fieldList]
  exact map_congr_left fun f mem => lineField_line (good f mem)

theorem requestVersion_render : requestVersion t.render = t.proto := by
  have free : (32 : UInt8) ∉ t.method := fun mem => tokenByte_solid _ (token_byte line.method _ mem) rfl
  have solid : (32 : UInt8) ∉ t.target := fun mem => (targetByte_plain _ (all_eq_true.mp line.bytes _ mem)).1 rfl
  have last : (32 : UInt8) ∉ t.proto := by
    rcases line.version with is | is
    · rw [is]
      decide
    · rw [is]
      decide
  rw [requestVersion,headLines_render line good,headD_cons,HeadText.line,splitOn_first free,splitOn_first solid,splitOn_eq_singleton last]
  rfl
end
end
section
def letterByte (c : UInt8) : Bool := (97 ≤ c && c ≤ 122) || c == 45 || c == 50

theorem lowerByte_letter : ∀ c, controlByte c = false → (letterByte (c ||| 0x20) || letterByte (foldByte c)) = true → c ||| 0x20 = foldByte c :=
  eachByte (by decide +kernel)

theorem lowerByte_visible (visible : controlByte c = false) (letter : letterByte d = true) : c ||| 0x20 = d ↔ foldByte c = d := by
  constructor
  · rintro rfl
    exact (lowerByte_letter c visible (Bool.or_eq_true_iff.mpr (.inl letter))).symm
  · rintro rfl
    exact lowerByte_letter c visible (Bool.or_eq_true_iff.mpr (.inr letter))

theorem tokenByte_visible : ∀ c, tokenByte c = true → controlByte c = false := eachByte (by decide +kernel)

theorem lower_visible {key : Bytes} (visible : ∀ c ∈ key, controlByte c = false) (plain : ∀ d ∈ text, letterByte d = true) :
    key.map (· ||| 0x20) = text ↔ key.map foldByte = text := by
  induction key generalizing text with
  | nil => exact Iff.rfl
  | cons c key ih =>
    cases text with
    | nil => exact ⟨nofun,nofun⟩
    | cons d text =>
      have here := lowerByte_visible (visible c mem_cons_self) (plain d mem_cons_self)
      have there := ih (fun b mem => visible b (mem_cons_of_mem c mem)) (fun b mem => plain b (mem_cons_of_mem d mem))
      rw [map_cons,map_cons,List.cons.injEq,List.cons.injEq,here,there]

theorem lowerN_visible {name : String} (visible : ∀ c ∈ key, controlByte c = false) (plain : ∀ d ∈ ascii name, letterByte d = true)
    (folded : (ascii name).map foldByte = ascii name) : lowerN key name = strEqFold key name := by
  have same := lower_visible visible plain
  have length : (ascii name).length = name.length := by rw [ascii,length_map,String.length_toList]
  rw [lowerN,strEqFold,bytesEqualFold,folded,length]
  congr 1
  rw [Bool.eq_iff_iff,beq_iff_eq,beq_iff_eq]
  exact same

theorem lowerN_differ (is : lowerN key one = true) (differ : ascii one ≠ ascii other) : lowerN key other = false := by
  by_contra both
  have text := beq_iff_eq.mp (Bool.and_eq_true_iff.mp is).2
  have again := beq_iff_eq.mp (Bool.and_eq_true_iff.mp (Bool.not_eq_false _ ▸ both)).2
  exact differ (text.symm.trans again)

def knownNames : List (String × KnownHeader) :=
  [("host",.host),("connection",.connection),("content-type",.contentType),("expect",.expect),("upgrade",.upgrade),
    ("content-length",.contentLength),("http2-settings",.http2Settings),("transfer-encoding",.transferEncoding)]

theorem knownHeader_find (key : Bytes) : knownHeader key = ((knownNames.find? fun entry => lowerN key entry.1).map Prod.snd).getD .none := by
  rw [knownHeader,knownNames]
  split_ifs <;> simp [*]

theorem knownHeader_iff {name : String} (entry : (name,kind) ∈ knownNames) (token : validToken key = true) :
    knownHeader key = kind ↔ strEqFold key name = true := by
  have plain : ∀ entry ∈ knownNames, (ascii entry.1).all letterByte = true ∧ (ascii entry.1).map foldByte = ascii entry.1 ∧ entry.2 ≠ .none := by
    decide
  have apart : ∀ one ∈ knownNames, ∀ other ∈ knownNames, one.2 = other.2 ∨ ascii one.1 = ascii other.1 → one = other := by decide
  obtain ⟨letters,folded,known⟩ := plain _ entry
  rw [← lowerN_visible (fun c mem => tokenByte_visible c (token_byte token c mem)) (all_eq_true.mp letters) folded,knownHeader_find]
  constructor
  · intro is
    cases found : knownNames.find? fun entry => lowerN key entry.1 with
    | none =>
      rw [found] at is
      exact absurd is.symm known
    | some other =>
      rw [found] at is
      have same := apart other (mem_of_find?_eq_some found) (name,kind) entry (.inl is)
      have text := List.find?_some found
      rw [same] at text
      exact text
  · intro is
    cases found : knownNames.find? fun entry => lowerN key entry.1 with
    | none => exact absurd is (List.find?_eq_none.mp found _ entry)
    | some other =>
      have text := List.find?_some found
      have same := apart other (mem_of_find?_eq_some found) (name,kind) entry (.inr (by
        by_contra differ
        exact absurd is (by rw [lowerN_differ text differ]; exact Bool.false_ne_true)))
      rw [same]
      rfl

theorem named_values {name : String} {fields : List FieldText} (entry : (name,kind) ∈ knownNames) (good : ∀ f ∈ fields, f.Good) :
    named name (fields.map field) = fieldValues kind (fields.map field) := by
  rw [named,fieldValues]
  congr 1
  apply filter_congr
  intro f mem
  obtain ⟨text,inside,rfl⟩ := mem_map.mp mem
  rw [Bool.eq_iff_iff,decide_eq_true_iff]
  exact (knownHeader_iff entry (good text inside).token).symm
end
section
theorem lengthFold_none (b : Bytes) : b.foldl (fun acc c => acc.bind fun n =>
    if c < 48 || 57 < c then none
    else if (maxInt - (c.toNat - 48)) / 10 < n then none else some (n*10 + (c.toNat - 48))) none = none := by
  induction b with
  | nil => rfl
  | cons c b ih => exact ih

theorem lengthFold {b : Bytes} (got : b.foldl (fun acc c => acc.bind fun n =>
    if c < 48 || 57 < c then none
    else if (maxInt - (c.toNat - 48)) / 10 < n then none else some (n*10 + (c.toNat - 48))) (some k) = some n) :
    b.all (fun c => 48 ≤ c && c ≤ 57) = true ∧ b.foldl (fun n c => n*10 + (c.toNat - 48)) k = n := by
  induction b generalizing k with
  | nil => exact ⟨rfl,Option.some.inj got⟩
  | cons c b ih =>
    rw [foldl_cons,Option.bind_some] at got
    split at got
    · rw [lengthFold_none] at got
      cases got
    rename_i digit
    split at got
    · rw [lengthFold_none] at got
      cases got
    obtain ⟨all,value⟩ := ih got
    simp only [Bool.or_eq_true,decide_eq_true_eq,not_or,UInt8.not_lt] at digit
    rw [all_cons,foldl_cons,all,decide_eq_true digit.1,decide_eq_true digit.2]
    exact ⟨rfl,value⟩

theorem trimOWS_solid (solid : ∀ c ∈ text, isOWS c = false ∧ c ≠ cr) : trimOWS text = text := by
  have trimmed : trimOWS ([] ++ (text ++ [])) = text := padded_trimOWS nofun nofun
    (fun c is => (solid c (mem_of_head? is)).1) fun c is => solid c (mem_of_getLast? is)
  rwa [nil_append,append_nil] at trimmed

theorem parseContentLength_decimal {text : Bytes} (got : parseContentLength text = some n) : members text = [text] ∧ decimal text = some n := by
  rw [parseContentLength] at got
  split at got
  · cases got
  rename_i full
  obtain ⟨all,value⟩ := lengthFold got
  have digits := all_eq_true.mp all
  have single : (44 : UInt8) ∉ text := fun mem => by
    have digit := digits 44 mem
    cases digit
  have digitByte : ∀ c : UInt8, (48 ≤ c && c ≤ 57) = true → isOWS c = false ∧ c ≠ cr := eachByte (by decide +kernel)
  rw [members,splitOn_eq_singleton single,map_singleton,trimOWS_solid fun c mem => digitByte c (digits c mem),decimal,if_pos ⟨full,all⟩,value]
  exact ⟨rfl,rfl⟩
end

-- What a head has to make of its framing fields. One framing is in force; all lengths are the one in use; the coding is
-- honoured when it is chunked alone in a request of version 1.1; and a head with any other codings is the last.
structure Unambiguous (head : Bytes) (h : RequestHeader) : Prop where
  one : h.chunked = true → named "content-length" (headFields head) = [] ∧ h.contentLength = 0
  lengths : ∀ val ∈ named "content-length" (headFields head), ∀ mem ∈ members val, decimal mem = some h.contentLength
  unframed : named "content-length" (headFields head) = [] → h.contentLength = 0
  coding : h.chunked = true →
    (∃ part, (named "transfer-encoding" (headFields head)).flatMap members = [part] ∧ strEqFold part "chunked" = true) ∧ requestVersion head = strHTTP11
  others : named "transfer-encoding" (headFields head) ≠ [] →
    (∃ part, (named "transfer-encoding" (headFields head)).flatMap members = [part] ∧ strEqFold part "chunked" = true) ∧
      requestVersion head = strHTTP11 ∧ named "content-length" (headFields head) = [] ∨ h.keepAlive = false

section
variable {cfg : ServerConfig} {t : HeadText}

theorem parseTransferCoding_chunked (got : parseTransferCoding val = some true) : ∃ part, members val = [part] ∧ strEqFold part "chunked" = true := by
  unfold parseTransferCoding at got
  simp only at got
  split at got
  · rw [← members] at got
    cases parts : members val with
    | nil =>
      rw [parts] at got
      cases got
    | cons part more =>
      cases more with
      | nil =>
        rw [parts] at got
        exact ⟨part,rfl,Option.some.inj got⟩
      | cons other rest =>
        rw [parts] at got
        cases got
  · cases got

theorem HeadText.Passes.lengths (passes : t.Passes cfg) : ∀ val ∈ fieldValues .contentLength t.fieldList, parseContentLength val = some t.header.contentLength := by
  intro val mem
  obtain ⟨n,lengths⟩ := passes.consistent.length
  have some := ne_nil_of_mem mem
  have stands : t.header.contentLength = n := by
    show ((fieldValues .contentLength t.fieldList).getLast?.bind parseContentLength).getD 0 = n
    rw [List.getLast?_eq_some_getLast some,Option.bind_some,lengths _ (getLast_mem some)]
    rfl
  rw [stands,lengths val mem]

theorem HeadText.Passes.codings (passes : t.Passes cfg) : fieldValues .transferEncoding t.fieldList = [] ∧ t.header.chunked = false ∨
    t.header.chunked = true ∧ fieldValues .contentLength t.fieldList = [] ∧
      ∃ val, fieldValues .transferEncoding t.fieldList = [val] ∧ parseTransferCoding val = some true := by
  have few := passes.consistent.oneCoding
  have supported := passes.supported
  have isChunked : t.header.chunked = ((fieldValues .transferEncoding t.fieldList).getLast?.bind parseTransferCoding).getD false := rfl
  have isUnsupported : t.header.unsupportedTransferEncoding =
      (((fieldValues .transferEncoding t.fieldList).getLast?.bind parseTransferCoding).map (!·)).getD false := rfl
  cases values : fieldValues .transferEncoding t.fieldList with
  | nil =>
    rw [values] at isChunked
    exact .inl ⟨rfl,isChunked⟩
  | cons val more =>
    rw [values] at few isChunked isUnsupported
    obtain rfl : more = [] := eq_nil_of_length_eq_zero (Nat.le_zero.mp (Nat.le_of_succ_le_succ few))
    obtain ⟨chunked,parsed⟩ := Option.isSome_iff_exists.mp (passes.consistent.coding val (by rw [values]; exact mem_singleton_self val))
    rw [List.getLast?_singleton,Option.bind_some,parsed] at isChunked isUnsupported
    rw [isUnsupported] at supported
    obtain rfl : chunked = true := by simpa using supported
    have alone : fieldValues .contentLength t.fieldList = [] := by
      by_contra both
      exact passes.settled.one ⟨isChunked,by simpa [headerOf] using both⟩
    exact .inr ⟨isChunked,alone,val,rfl,parsed⟩

theorem HeadText.Passes.unframed (none : fieldValues .contentLength t.fieldList = []) : t.header.contentLength = 0 := by
  show ((fieldValues .contentLength t.fieldList).getLast?.bind parseContentLength).getD 0 = 0
  rw [none]
  rfl

-- Every head that is accepted says where its message ends in one way, unless it is of version 1.0 and names a coding: such a
-- request is read as chunked, and kept alive when it asks for that.
theorem framing_unambiguous_iff {buf : Bytes} {headEnd : Nat} {h : RequestHeader} (found : findHeaderEnd buf = some headEnd)
    (accepted : parseHead cfg buf headEnd = .ok h) : Unambiguous (buf.take (headEnd+4)) h ↔
      ¬(requestVersion (buf.take (headEnd+4)) = strHTTP10 ∧ named "transfer-encoding" (headFields (buf.take (headEnd+4))) ≠ []) := by
  obtain ⟨t,passes,text,rfl⟩ := (parseHead_iff found).mp accepted
  have version := requestVersion_render passes.line passes.fields
  have fields := headFields_render passes.line passes.fields
  have isLength : named "content-length" t.fieldList = fieldValues .contentLength t.fieldList := named_values (by decide) passes.fields
  have isCoding : named "transfer-encoding" t.fieldList = fieldValues .transferEncoding t.fieldList := named_values (by decide) passes.fields
  have lengths : ∀ val ∈ fieldValues .contentLength t.fieldList, ∀ mem ∈ members val, decimal mem = some t.header.contentLength := by
    intro val inside mem listed
    obtain ⟨single,number⟩ := parseContentLength_decimal (passes.lengths val inside)
    rw [single,mem_singleton] at listed
    rw [listed,number]
  rw [text,version,fields,isCoding]
  rcases passes.codings with ⟨none,plain⟩ | ⟨chunked,alone,val,only,parsed⟩
  · refine ⟨fun _ both => both.2 none,fun _ => ⟨fun is => ?_,?_,?_,fun is => ?_,?_⟩⟩
    · rw [plain] at is
      cases is
    · rw [fields,isLength]
      exact lengths
    · rw [fields,isLength]
      exact HeadText.Passes.unframed
    · rw [plain] at is
      cases is
    · rw [fields,isCoding]
      exact fun some => absurd none some
  · have part : ∃ part, (named "transfer-encoding" (headFields t.render)).flatMap members = [part] ∧ strEqFold part "chunked" = true := by
      obtain ⟨part,single,is⟩ := parseTransferCoding_chunked parsed
      refine ⟨part,?_,is⟩
      rw [fields,isCoding,only,flatMap_singleton,single]
    constructor
    · rintro unambiguous ⟨old,-⟩
      have new := (unambiguous.coding chunked).2
      rw [version,old] at new
      exact absurd new (by decide)
    · intro good
      have new : t.proto = strHTTP11 := passes.line.version.resolve_right fun old => good ⟨old,by rw [only]; exact cons_ne_nil _ _⟩
      refine ⟨fun _ => ?_,?_,?_,fun _ => ⟨part,version.trans new⟩,fun _ => .inl ⟨part,version.trans new,?_⟩⟩
      · rw [fields,isLength]
        exact ⟨alone,HeadText.Passes.unframed alone⟩
      · rw [fields,isLength]
        exact lengths
      · rw [fields,isLength]
        exact HeadText.Passes.unframed
      · rw [fields,isLength]
        exact alone
end

def chunkedHead : Bytes := ascii "POST / HTTP/1.1\r\nHost: a\r\nTransfer-Encoding: chunked\r\n\r\n"

def oldChunkedHead : Bytes := ascii "POST / HTTP/1.0\r\nConnection: keep-alive\r\nTransfer-Encoding: chunked\r\n\r\n"

def acceptedAs (head : Bytes) : RequestHeader := ((parseHead bufferedConfig head (head.length - 4)).toOption).getD default

theorem chunked_head_unambiguous : Unambiguous (chunkedHead.take (chunkedHead.length - 4 + 4)) (acceptedAs chunkedHead) := by
  have found : findHeaderEnd chunkedHead = some (chunkedHead.length - 4) ∧
      parseHead bufferedConfig chunkedHead (chunkedHead.length - 4) = .ok (acceptedAs chunkedHead) := by
    decide
  exact (framing_unambiguous_iff found.1 found.2).mpr (by decide)

theorem old_version_chunked : findHeaderEnd oldChunkedHead = some (oldChunkedHead.length - 4) ∧
    parseHead bufferedConfig oldChunkedHead (oldChunkedHead.length - 4) = .ok (acceptedAs oldChunkedHead) ∧
    requestVersion oldChunkedHead = strHTTP10 ∧ (acceptedAs oldChunkedHead).chunked = true ∧ (acceptedAs oldChunkedHead).keepAlive = true := by
  decide
end FhServer

import FhServer.RequestHead

namespace FhServer
open GoBytes RequestHead List Option

structure FieldText where
  name : Bytes
  left : Bytes
  value : Bytes
  right : Bytes

namespace FieldText

def line (f : FieldText) : Bytes := f.name ++ 58 :: (f.left ++ (f.value ++ f.right))

def field (f : FieldText) : Header := ⟨f.name,f.value⟩

structure Good (f : FieldText) : Prop where
  token : validToken f.name = true
  left : ∀ c ∈ f.left, isOWS c = true
  right : ∀ c ∈ f.right, isOWS c = true
  visible : f.value.any controlByte = false
  first : ∀ c ∈ f.value.head?, isOWS c = false
  last : ∀ c ∈ f.value.getLast?, isOWS c = false
end FieldText
section
open List

theorem token_byte (token : validToken name = true) : ∀ c ∈ name, tokenByte c = true :=
  all_eq_true.mp (Bool.and_eq_true_iff.mp token).1

theorem token_ne (token : validToken name = true) : name ≠ [] := by
  intro empty
  rw [empty] at token
  cases token

theorem tokenByte_plain : ∀ c, tokenByte c = true → isOWS c = false ∧ c ≠ cr ∧ c ≠ lf ∧ c ≠ 58 := eachByte (by decide +kernel)

theorem ows_plain (ows : isOWS c = true) : c ≠ cr ∧ c ≠ lf := by
  constructor
  · rintro rfl
    cases ows
  · rintro rfl
    cases ows

theorem visible_plain (visible : controlByte c = false) : c ≠ cr ∧ c ≠ lf := by
  constructor
  · rintro rfl
    cases visible
  · rintro rfl
    cases visible

theorem drop_past (text tail : Bytes) (c : UInt8) : (text ++ c :: tail).drop (text.length+1) = tail := by
  rw [append_cons,drop_left' (by rw [length_append]; rfl)]

theorem padded_trim {right : Bytes} (before : ∀ c ∈ left, isOWS c = true)
    (after : ∀ c ∈ right, isOWS c = true ∧ p c = true) (first : ∀ c ∈ value.head?, isOWS c = false) (last : ∀ c ∈ value.getLast?, p c = false) :
    ((left ++ (value ++ right)).dropWhile isOWS).rdropWhile p = value := by
  rw [dropWhile_append_of_pos before]
  cases value with
  | nil =>
    rw [nil_append,dropWhile_eq_nil_iff.mpr fun c mem => (after c mem).1]
    rfl
  | cons c rest =>
    rw [cons_append,dropWhile_cons_of_neg (by rw [first c rfl]; exact Bool.false_ne_true),← cons_append,
      rdropWhile,reverse_append,dropWhile_append_of_pos fun a mem => (after a (mem_reverse.mp mem)).2]
    rw [getLast?_eq_head?_reverse] at last
    have solid : (c :: rest).reverse.dropWhile p = (c :: rest).reverse := by
      cases back : (c :: rest).reverse with
      | nil => rfl
      | cons d more =>
        rw [back] at last
        exact dropWhile_cons_of_neg (by rw [last d rfl]; exact Bool.false_ne_true)
    rw [solid,reverse_reverse]

theorem space_byte : ∀ c, isOWS c = true → (c == 32 || c == cr || c == 9) = true := eachByte (by decide +kernel)

theorem solid_byte : ∀ c, isOWS c = false → c ≠ cr → (c == 32 || c == cr || c == 9) = false := eachByte (by decide +kernel)

section
variable {left value right : Bytes} (before : ∀ c ∈ left, isOWS c = true) (after : ∀ c ∈ right, isOWS c = true) (first : ∀ c ∈ value.head?, isOWS c = false)
include before after first

theorem padded_value (last : ∀ c ∈ value.getLast?, isOWS c = false) :
    trimOWSRight ((left ++ (value ++ right)).dropWhile isOWS) = value :=
  padded_trim before (fun c mem => ⟨after c mem,after c mem⟩) first last

theorem padded_trimOWS (last : ∀ c ∈ value.getLast?, isOWS c = false ∧ c ≠ cr) :
    trimOWS (left ++ (value ++ right)) = value :=
  padded_trim before (fun c mem => ⟨after c mem,space_byte c (after c mem)⟩) first fun c is => solid_byte c (last c is).1 (last c is).2
end

theorem value_padded (text : Bytes) : ∃ left value right, text = left ++ (value ++ right) ∧ trimOWSRight (text.dropWhile isOWS) = value ∧
    (∀ c ∈ left, isOWS c = true) ∧ (∀ c ∈ right, isOWS c = true) ∧ (∀ c ∈ value.head?, isOWS c = false) ∧
    ∀ c ∈ value.getLast?, isOWS c = false := by
  let inner := text.dropWhile isOWS
  have split : inner.rdropWhile isOWS ++ inner.rtakeWhile isOWS = inner := by
    rw [rdropWhile,rtakeWhile,← reverse_append,takeWhile_append_dropWhile,reverse_reverse]
  have last : ∀ c ∈ (inner.rdropWhile isOWS).getLast?, isOWS c = false := by
    intro c is
    rw [rdropWhile,getLast?_eq_head?_reverse,reverse_reverse] at is
    have := head?_dropWhile_not isOWS inner.reverse
    rw [is] at this
    simpa using this
  refine ⟨text.takeWhile isOWS,inner.rdropWhile isOWS,inner.rtakeWhile isOWS,?_,rfl,?_,?_,?_,last⟩
  · rw [split,takeWhile_append_dropWhile]
  · intro c mem
    exact mem_takeWhile_imp mem
  · intro c mem
    exact mem_rtakeWhile_imp mem
  intro c is
  cases shape : inner.rdropWhile isOWS with
  | nil =>
    rw [shape] at is
    cases is
  | cons d more =>
    rw [shape] at is split
    have start : inner.head? = some c := by
      rw [← split]
      exact is
    have := head?_dropWhile_not isOWS text
    rw [show text.dropWhile isOWS = inner from rfl,start] at this
    simpa using this

def takeField (equalFold : Bytes → Bytes → Bool) (max : Nat) (st : HeaderState) (f : Header) : Option HeaderState :=
  (applyHeader equalFold st f.key f.value).bind fun st =>
    if max ≤ st.header.headers.length then none
    else some {st with header:={st.header with headers:=st.header.headers ++ [f]}}

variable {equalFold : Bytes → Bytes → Bool} {max : Nat} {st after : HeaderState}

theorem headerLine_iff : headerLine equalFold max st line = some after ↔
    ∃ f : FieldText, f.Good ∧ line = f.line ∧ takeField equalFold max st f.field = some after := by
  constructor
  · intro got
    rw [headerLine] at got
    cases found : indexByte line 58 with
    | none =>
      rw [found] at got
      cases got
    | some colon =>
      rw [found] at got
      obtain ⟨name,text,rfl,free,rfl⟩ := indexByte_split found
      have key : (name ++ 58 :: text).take name.length = name := take_left
      have tail : (name ++ 58 :: text).drop (name.length+1) = text := drop_past ..
      simp only [key,tail] at got
      split at got
      · cases got
      rename_i accepted
      obtain ⟨left,value,right,rfl,is,before,after,first,last⟩ := value_padded text
      simp only [Bool.or_eq_true,not_or,Bool.not_eq_true,Bool.not_eq_false'] at accepted
      rw [is] at got accepted
      exact ⟨⟨name,left,value,right⟩,⟨accepted.1.2,before,after,accepted.2,first,last⟩,rfl,got⟩
  · rintro ⟨f,good,rfl,taken⟩
    have free : (58 : UInt8) ∉ f.name := fun mem => (tokenByte_plain _ (token_byte good.token _ mem)).2.2.2 rfl
    have key : f.line.take f.name.length = f.name := take_left
    have tail : f.line.drop (f.name.length+1) = f.left ++ (f.value ++ f.right) := drop_past ..
    have value := padded_value good.left good.right good.first good.last
    have some : (f.name.length = 0) = False := by
      rw [eq_iff_iff,iff_false,length_eq_zero_iff]
      exact token_ne good.token
    rw [headerLine,FieldText.line,indexByte_first free,← FieldText.line]
    simp only [key,tail,value]
    rw [if_neg (by simp [some,good.token,good.visible])]
    exact taken

theorem FieldText.Good.plain {f : FieldText} (good : f.Good) : ∀ c ∈ f.line, c ≠ cr ∧ c ≠ lf := by
  intro c mem
  rcases mem_append.mp mem with name | mem
  · have byte := tokenByte_plain _ (token_byte good.token c name)
    exact ⟨byte.2.1,byte.2.2.1⟩
  rcases mem_cons.mp mem with rfl | mem
  · decide
  rcases mem_append.mp mem with left | mem
  · exact ows_plain (good.left c left)
  rcases mem_append.mp mem with value | right
  · exact visible_plain (Bool.eq_false_iff.mpr (any_eq_false.mp good.visible c value))
  · exact ows_plain (good.right c right)

theorem FieldText.Good.starts {f : FieldText} (good : f.Good) : ∃ c rest, f.line = c :: rest ∧ tokenByte c = true := by
  obtain ⟨c,rest,name⟩ := exists_cons_of_ne_nil (token_ne good.token)
  refine ⟨c,rest ++ 58 :: (f.left ++ (f.value ++ f.right)),?_,token_byte good.token c (by rw [name]; exact mem_cons_self)⟩
  rw [FieldText.line,name,cons_append]

def fieldsText (fields : List FieldText) : Bytes := fields.flatMap (·.line ++ crlf)

theorem headerLines_iff (enough : src.length < rounds) :
    headerLines equalFold max rounds st src = some (after,rest) ↔
      ∃ fields : List FieldText, (∀ f ∈ fields, f.Good) ∧ src = fieldsText fields ++ (crlf ++ rest) ∧
        (fields.map FieldText.field).foldlM (takeField equalFold max) st = some after := by
  induction rounds generalizing st src with
  | zero => exact absurd enough (Nat.not_lt_zero _)
  | succ rounds ih =>
    constructor
    · intro got
      rw [headerLines] at got
      split at got
      · cases got
      split at got
      · rename_i blank
        obtain ⟨text,eq⟩ := isPrefixOf_iff_prefix.mp blank
        cases got
        refine ⟨[],by simp,?_,rfl⟩
        rw [← eq]
        rfl
      split at got
      · cases got
      cases found : indexByte src lf with
      | none =>
        rw [found] at got
        cases got
      | some nl =>
        rw [found] at got
        obtain ⟨text,tail,rfl,free,rfl⟩ := indexByte_split found
        simp only at got
        split at got
        · cases got
        rename_i ended
        simp only [not_or,not_not] at ended
        have lastByte : text.getLast? = some cr := by rw [getLast?_eq_getElem?,← ended.2,getElem?_append_left (by lia)]
        obtain ⟨line,rfl⟩ := getLast?_eq_some_iff.mp lastByte
        have start : (line ++ [cr] ++ lf :: tail).take ((line ++ [cr]).length - 1) = line := by simp
        rw [start,drop_past] at got
        obtain ⟨mid,taken,later⟩ := bind_eq_some_iff.mp got
        obtain ⟨f,good,rfl,adds⟩ := headerLine_iff.mp taken
        have shorter : tail.length < rounds := by
          simp only [length_append,length_cons] at enough
          lia
        obtain ⟨fields,each,rfl,folded⟩ := (ih shorter).mp later
        refine ⟨f :: fields,forall_mem_cons.mpr ⟨good,each⟩,?_,?_⟩
        · simp [fieldsText,crlf]
        · rw [map_cons,foldlM_cons,adds]
          exact folded
    · rintro ⟨fields,each,rfl,folded⟩
      cases fields with
      | nil =>
        cases folded
        rfl
      | cons f fields =>
        have good := each f mem_cons_self
        obtain ⟨mid,adds,folded⟩ := bind_eq_some_iff.mp folded
        have shape : fieldsText (f :: fields) ++ (crlf ++ rest) = (f.line ++ [cr]) ++ lf :: (fieldsText fields ++ (crlf ++ rest)) := by
          simp [fieldsText,crlf]
        have free : lf ∉ f.line ++ [cr] := by
          intro inside
          rcases mem_append.mp inside with inside | inside
          · exact (good.plain lf inside).2 rfl
          · cases mem_singleton.mp inside
        have shorter : (fieldsText fields ++ (crlf ++ rest)).length < rounds := by
          rw [shape] at enough
          simp only [length_append,length_cons] at enough ⊢
          lia
        have later := (ih shorter).mpr ⟨fields,fun g mem => each g (mem_cons_of_mem f mem),rfl,folded⟩
        generalize fieldsText fields ++ (crlf ++ rest) = tail at shape later
        have line : headerLine equalFold max st f.line = some mid := headerLine_iff.mpr ⟨f,good,rfl,adds⟩
        obtain ⟨c,more,begins,token⟩ := good.starts
        have plain := tokenByte_plain c token
        have notBlank : crlf.isPrefixOf (f.line ++ [cr] ++ lf :: tail) = false := by
          rw [begins]
          exact Bool.and_eq_false_iff.mpr (.inl (beq_eq_false_iff_ne.mpr plain.2.1.symm))
        have notFolded : ¬((f.line ++ [cr] ++ lf :: tail).head? = some 32 ∨ (f.line ++ [cr] ++ lf :: tail).head? = some 9) := by
          rw [begins]
          rintro (space | tab)
          · rw [some.inj space] at plain
            cases plain.1
          · rw [some.inj tab] at plain
            cases plain.1
        have start : (f.line ++ [cr] ++ lf :: tail).take ((f.line ++ [cr]).length - 1) = f.line := by simp
        have ended : (f.line ++ [cr] ++ lf :: tail)[(f.line ++ [cr]).length - 1]? = some cr := by simp
        rw [shape,headerLines,if_neg (by simp),if_neg (by rw [notBlank]; exact Bool.false_ne_true),if_neg notFolded,indexByte_first free]
        simp only
        rw [if_neg (by rw [ended]; simp),start,drop_past,line]
        exact later
end
section
def fieldValues (kind : KnownHeader) (fields : List Header) : List Bytes :=
  (fields.filter fun f => knownHeader f.key = kind).map Header.value

theorem fieldValues_same (same : knownHeader f.key = kind) (fields : List Header) :
    fieldValues kind (fields ++ [f]) = fieldValues kind fields ++ [f.value] := by
  rw [fieldValues,filter_append,filter_singleton,decide_eq_true same,map_append]
  rfl

theorem fieldValues_other (other : knownHeader f.key ≠ kind) (fields : List Header) :
    fieldValues kind (fields ++ [f]) = fieldValues kind fields := by
  rw [fieldValues,filter_append,filter_singleton,decide_eq_false other]
  exact congrArg _ (append_nil _)

def keptAlive (proto : Bytes) (alive : Bool) (val : Bytes) : Bool :=
  if val.length = 5 then (if lowerN val "close" then false else alive)
  else if lowerN val "keep-alive" then (if proto = strHTTP10 then true else alive)
  else if hasHeaderToken val "close" then false
  else if proto = strHTTP10 ∧ hasHeaderToken val "keep-alive" then true
  else alive

theorem applyConnectionHeader_eq (h : RequestHeader) (val : Bytes) :
    applyConnectionHeader h val = {h with keepAlive:=keptAlive h.proto h.keepAlive val} := by
  unfold applyConnectionHeader keptAlive
  split_ifs <;> rfl

def headerOf (start : RequestHeader) (fields : List Header) : RequestHeader :=
  {start with
    host:=((fieldValues .host fields).getLast?.map fun val => if start.targetAuthority ≠ [] then start.targetAuthority else val).getD start.host,
    contentType:=(fieldValues .contentType fields).getLast?.getD start.contentType,
    expect:=(fieldValues .expect fields).getLast?.getD start.expect,
    upgrade:=(fieldValues .upgrade fields).getLast?.getD start.upgrade,
    http2Settings:=(fieldValues .http2Settings fields).getLast?.getD start.http2Settings,
    contentLength:=((fieldValues .contentLength fields).getLast?.bind parseContentLength).getD start.contentLength,
    hasContentLength:=!(fieldValues .contentLength fields).isEmpty,
    keepAlive:=(fieldValues .connection fields).foldl (keptAlive start.proto) start.keepAlive,
    chunked:=((fieldValues .transferEncoding fields).getLast?.bind parseTransferCoding).getD start.chunked,
    unsupportedTransferEncoding:=
      (((fieldValues .transferEncoding fields).getLast?.bind parseTransferCoding).map (!·)).getD start.unsupportedTransferEncoding,
    headers:=fields}

def stateOf (start : RequestHeader) (fields : List Header) : HeaderState :=
  ⟨headerOf start fields,!(fieldValues .host fields).isEmpty,!(fieldValues .transferEncoding fields).isEmpty⟩

variable {equalFold : Bytes → Bytes → Bool} {max : Nat} {start : RequestHeader} {fields : List Header} {f : Header} {after : HeaderState}

-- The fields that no line refuses: one valid Host field that fits the target, equal lengths and one list of codings.
structure Consistent (equalFold : Bytes → Bytes → Bool) (start : RequestHeader) (fields : List Header) : Prop where
  oneHost : (fieldValues .host fields).length ≤ 1
  host : ∀ val ∈ fieldValues .host fields, validHostField val = true ∧ (start.targetAuthority ≠ [] → equalFold start.targetAuthority val = true)
  length : ∃ n, ∀ val ∈ fieldValues .contentLength fields, parseContentLength val = some n
  oneCoding : (fieldValues .transferEncoding fields).length ≤ 1
  coding : ∀ val ∈ fieldValues .transferEncoding fields, (parseTransferCoding val).isSome = true

def Accepts (equalFold : Bytes → Bytes → Bool) (start : RequestHeader) (fields : List Header) (f : Header) : Prop :=
  match knownHeader f.key with
  | .host => fieldValues .host fields = [] ∧ validHostField f.value = true ∧ (start.targetAuthority ≠ [] → equalFold start.targetAuthority f.value = true)
  | .contentLength => ∃ n, parseContentLength f.value = some n ∧ ∀ val ∈ fieldValues .contentLength fields, parseContentLength val = some n
  | .transferEncoding => fieldValues .transferEncoding fields = [] ∧ (parseTransferCoding f.value).isSome = true
  | _ => True

theorem fieldValues_mem : val ∈ fieldValues kind (fields ++ [f]) ↔
    val ∈ fieldValues kind fields ∨ knownHeader f.key = kind ∧ val = f.value := by
  by_cases same : knownHeader f.key = kind
  · rw [fieldValues_same same,mem_append,mem_singleton]
    exact or_congr_right ⟨fun is => ⟨same,is⟩,fun is => is.2⟩
  · rw [fieldValues_other same]
    exact ⟨.inl,fun mem => mem.resolve_right fun is => same is.1⟩

theorem fieldValues_one : (fieldValues kind (fields ++ [f])).length ≤ 1 ↔
    (fieldValues kind fields).length ≤ 1 ∧ (knownHeader f.key = kind → fieldValues kind fields = []) := by
  by_cases same : knownHeader f.key = kind
  · rw [fieldValues_same same,length_append,← length_eq_zero_iff,length_singleton]
    exact ⟨fun one => ⟨by lia,fun _ => by lia⟩,fun one => by have none := one.2 same; lia⟩
  · rw [fieldValues_other same]
    exact ⟨fun one => ⟨one,fun is => absurd is same⟩,fun one => one.1⟩

theorem Consistent.snoc : Consistent equalFold start (fields ++ [f]) ↔ Consistent equalFold start fields ∧ Accepts equalFold start fields f := by
  constructor
  · intro all
    obtain ⟨n,lengths⟩ := all.length
    have before : Consistent equalFold start fields :=
      ⟨(fieldValues_one.mp all.oneHost).1,fun val mem => all.host val (fieldValues_mem.mpr (.inl mem)),
        ⟨n,fun val mem => lengths val (fieldValues_mem.mpr (.inl mem))⟩,(fieldValues_one.mp all.oneCoding).1,
        fun val mem => all.coding val (fieldValues_mem.mpr (.inl mem))⟩
    refine ⟨before,?_⟩
    unfold Accepts
    split
    · rename_i kind
      exact ⟨(fieldValues_one.mp all.oneHost).2 kind,all.host f.value (fieldValues_mem.mpr (.inr ⟨kind,rfl⟩))⟩
    · rename_i kind
      exact ⟨n,lengths f.value (fieldValues_mem.mpr (.inr ⟨kind,rfl⟩)),fun val mem => lengths val (fieldValues_mem.mpr (.inl mem))⟩
    · rename_i kind
      exact ⟨(fieldValues_one.mp all.oneCoding).2 kind,all.coding f.value (fieldValues_mem.mpr (.inr ⟨kind,rfl⟩))⟩
    · trivial
  · rintro ⟨before,accepts⟩
    unfold Accepts at accepts
    refine ⟨fieldValues_one.mpr ⟨before.oneHost,fun kind => ?_⟩,fun val mem => ?_,?_,fieldValues_one.mpr ⟨before.oneCoding,fun kind => ?_⟩,
      fun val mem => ?_⟩
    · rw [kind] at accepts
      exact accepts.1
    · rcases fieldValues_mem.mp mem with mem | ⟨kind,rfl⟩
      · exact before.host val mem
      · rw [kind] at accepts
        exact accepts.2
    · by_cases kind : knownHeader f.key = .contentLength
      · rw [kind] at accepts
        obtain ⟨n,parsed,others⟩ := accepts
        refine ⟨n,fun val mem => ?_⟩
        rcases fieldValues_mem.mp mem with mem | ⟨-,rfl⟩
        · exact others val mem
        · exact parsed
      · rw [fieldValues_other kind]
        exact before.length
    · rw [kind] at accepts
      exact accepts.1
    · rcases fieldValues_mem.mp mem with mem | ⟨kind,rfl⟩
      · exact before.coding val mem
      · rw [kind] at accepts
        exact accepts.2

theorem fieldValues_snoc (kind : KnownHeader) (fields : List Header) (f : Header) :
    fieldValues kind (fields ++ [f]) = if knownHeader f.key = kind then fieldValues kind fields ++ [f.value] else fieldValues kind fields := by
  by_cases same : knownHeader f.key = kind
  · rw [if_pos same,fieldValues_same same]
  · rw [if_neg same,fieldValues_other same]

-- One case for each known name: the field it sets is the one that the new last value changes.
theorem applyHeader_iff (consistent : Consistent equalFold start fields) : applyHeader equalFold (stateOf start fields) f.key f.value = some after ↔
    Accepts equalFold start fields f ∧
      ({stateOf start (fields ++ [f]) with header:={headerOf start (fields ++ [f]) with headers:=fields}} : HeaderState) = after := by
  have snoc := fun kind => fieldValues_snoc kind fields f
  unfold applyHeader Accepts
  cases kind : knownHeader f.key with
  | host =>
    simp only [stateOf,headerOf,snoc,kind,reduceCtorEq,if_true,if_false]
    by_cases first : fieldValues .host fields = []
    · by_cases valid : validHostField f.value = true
      · by_cases named : start.targetAuthority = []
        · simp [first,named]
        · by_cases fits : equalFold start.targetAuthority f.value = true
          · simp [first,named,fits]
          · simp [named,fits]
      · simp [valid]
    · simp [first]
  | contentLength =>
    simp only [stateOf,headerOf,snoc,kind,reduceCtorEq,if_true,if_false]
    cases parsed : parseContentLength f.value with
    | none => simp
    | some n =>
      by_cases first : fieldValues .contentLength fields = []
      · simp [first,parsed]
      -- the length that stands is the one all of them have
      obtain ⟨m,lengths⟩ := consistent.length
      have stands : (fieldValues .contentLength fields).getLast?.bind parseContentLength = some m := by
        rw [List.getLast?_eq_some_getLast first,bind_some]
        exact lengths _ (getLast_mem first)
      by_cases same : n = m
      · subst same
        have accepts : ∃ m, some n = some m ∧ ∀ val ∈ fieldValues .contentLength fields, parseContentLength val = some m := ⟨n,rfl,lengths⟩
        have given : (fieldValues .contentLength fields ++ [f.value]).isEmpty = false := isEmpty_eq_false_iff.mpr (append_ne_nil_of_right_ne_nil _ (cons_ne_nil _ _))
        rw [and_iff_right accepts]
        simp [parsed,stands,given]
      · have differ : ¬∀ val ∈ fieldValues .contentLength fields, parseContentLength val = some n := by
          intro all
          obtain ⟨val,mem⟩ := exists_mem_of_ne_nil _ first
          exact same (some.inj ((all val mem).symm.trans (lengths val mem)))
        simp [first,stands,same,differ]
  | transferEncoding =>
    simp only [stateOf,headerOf,snoc,kind,reduceCtorEq,if_true,if_false]
    by_cases first : fieldValues .transferEncoding fields = []
    · cases parsed : parseTransferCoding f.value with
      | none => simp
      | some chunked => simp [first,parsed]
    · simp [first]
  | connection => simp [stateOf,headerOf,snoc,kind,applyConnectionHeader_eq]
  | contentType | expect | upgrade | http2Settings | none => simp [stateOf,headerOf,snoc,kind]

theorem takeField_iff (consistent : Consistent equalFold start fields) : takeField equalFold max (stateOf start fields) f = some after ↔
    Accepts equalFold start fields f ∧ fields.length < max ∧ stateOf start (fields ++ [f]) = after := by
  constructor
  · intro got
    obtain ⟨mid,applied,added⟩ := bind_eq_some_iff.mp got
    obtain ⟨accepts,rfl⟩ := (applyHeader_iff consistent).mp applied
    split at added
    · cases added
    · rename_i room
      exact ⟨accepts,Nat.lt_of_not_le room,some.inj added⟩
  · rintro ⟨accepts,room,rfl⟩
    rw [takeField,(applyHeader_iff consistent).mpr ⟨accepts,rfl⟩,bind_some,if_neg (Nat.not_le_of_lt room)]
    rfl

theorem takeFields_iff : fields.foldlM (takeField equalFold max) (stateOf start []) = some after ↔
    Consistent equalFold start fields ∧ fields.length ≤ max ∧ stateOf start fields = after := by
  induction fields using List.reverseRecOn generalizing after with
  | nil =>
    have none : Consistent equalFold start [] := ⟨Nat.zero_le 1,nofun,⟨0,nofun⟩,
      Nat.zero_le 1,nofun⟩
    exact ⟨fun got => ⟨none,Nat.zero_le max,some.inj got⟩,fun got => congrArg some got.2.2⟩
  | append_singleton fields f ih =>
    have single : [f].foldlM (takeField equalFold max) (stateOf start fields) = takeField equalFold max (stateOf start fields) f := by
      exact bind_pure _
    rw [foldlM_append,length_append,length_singleton,Consistent.snoc]
    constructor
    · intro got
      obtain ⟨mid,folded,last⟩ := bind_eq_some_iff.mp got
      obtain ⟨consistent,-,rfl⟩ := ih.mp folded
      rw [single] at last
      obtain ⟨accepts,room,same⟩ := (takeField_iff consistent).mp last
      exact ⟨⟨consistent,accepts⟩,room,same⟩
    · rintro ⟨⟨consistent,accepts⟩,fits,same⟩
      rw [ih.mpr ⟨consistent,by lia,rfl⟩,bind_eq_bind,bind_some,single]
      exact (takeField_iff consistent).mpr ⟨accepts,fits,same⟩

def headerCount (maxCount : Int) : Nat := if maxCount ≤ 0 then maxHeaders else maxCount.toNat

structure Settled (start : RequestHeader) (fields : List Header) : Prop where
  one : ¬((headerOf start fields).chunked = true ∧ (headerOf start fields).hasContentLength = true)
  host : start.proto = strHTTP11 → fieldValues .host fields ≠ []

theorem parseHeadersWithLimit_eq (src : Bytes) (maxCount : Int) : parseHeadersWithLimit equalFold src start maxCount =
    (headerLines equalFold (headerCount maxCount) (src.length+1) ⟨{start with headers:=[]},false,false⟩ src).bind fun result =>
      if result.1.header.chunked = true ∧ result.1.header.hasContentLength = true then none
      else if result.1.header.proto = strHTTP11 ∧ (!result.1.seenHost) = true then none
      else some (result.1.header,src.length - result.2.length) := rfl

theorem parseHeadersWithLimit_iff (fresh : start.hasContentLength = false) :
    parseHeadersWithLimit equalFold src start maxCount = some (h,n) ↔
      ∃ (lines : List FieldText) (rest : Bytes), (∀ f ∈ lines, f.Good) ∧ src = fieldsText lines ++ (crlf ++ rest) ∧
        Consistent equalFold start (lines.map FieldText.field) ∧ lines.length ≤ headerCount maxCount ∧
        Settled start (lines.map FieldText.field) ∧ headerOf start (lines.map FieldText.field) = h ∧ src.length - rest.length = n := by
  have first : (⟨{start with headers:=[]},false,false⟩ : HeaderState) = stateOf start [] := by
    rw [stateOf,headerOf]
    simp [fieldValues,fresh]
  have unseen : ∀ fields : List Header, (start.proto = strHTTP11 ∧ (!(stateOf start fields).seenHost) = true) ↔
      ¬(start.proto = strHTTP11 → fieldValues .host fields ≠ []) := by
    intro fields
    simp [stateOf]
  rw [parseHeadersWithLimit_eq]
  constructor
  · intro got
    obtain ⟨⟨st,rest⟩,read,last⟩ := bind_eq_some_iff.mp got
    obtain ⟨lines,good,text,folded⟩ := (headerLines_iff (Nat.lt_add_one _)).mp read
    rw [first] at folded
    obtain ⟨consistent,fits,rfl⟩ := takeFields_iff.mp folded
    rw [length_map] at fits
    split at last
    · cases last
    rename_i one
    split at last
    · cases last
    · rename_i seen
      cases last
      exact ⟨lines,rest,good,text,consistent,fits,⟨one,not_not.mp fun missing => seen ((unseen _).mpr missing)⟩,rfl,rfl⟩
  · rintro ⟨lines,rest,good,text,consistent,fits,settled,rfl,rfl⟩
    have few : (lines.map FieldText.field).length ≤ headerCount maxCount := by
      rw [length_map]
      exact fits
    have folded := takeFields_iff.mpr ⟨consistent,few,rfl⟩
    rw [← first] at folded
    have read := (headerLines_iff (Nat.lt_add_one _)).mpr ⟨lines,good,text,folded⟩
    rw [read,bind_some]
    exact (if_neg settled.one).trans (if_neg fun missing => (unseen _).mp missing settled.host)
end
section
def startHeader (method target proto : Bytes) (found : RouteTarget) : RequestHeader where
  method := method
  uri := found.route
  requestTarget := target
  path := (splitQuery target found).1
  queryString := (splitQuery target found).2
  proto := proto
  host := found.authority
  targetAuthority := found.authority
  contentType := []
  expect := []
  upgrade := []
  http2Settings := []
  contentLength := 0
  hasContentLength := false
  keepAlive := proto = strHTTP11
  chunked := false
  unsupportedTransferEncoding := false
  headers := []

-- The head of a request as a sender lays it out, with the route that its target is read as.
structure HeadText where
  method : Bytes
  target : Bytes
  proto : Bytes
  found : RouteTarget
  fields : List FieldText

namespace HeadText

def line (t : HeadText) : Bytes := t.method ++ 32 :: (t.target ++ 32 :: t.proto)

def render (t : HeadText) : Bytes := t.line ++ crlf ++ (fieldsText t.fields ++ crlf)

def start (t : HeadText) : RequestHeader := startHeader t.method t.target t.proto t.found

def fieldList (t : HeadText) : List Header := t.fields.map FieldText.field

def header (t : HeadText) : RequestHeader := headerOf t.start t.fieldList

structure GoodLine (t : HeadText) : Prop where
  method : validToken t.method = true
  target : t.target ≠ []
  bytes : t.target.all targetByte = true
  version : t.proto = strHTTP11 ∨ t.proto = strHTTP10
  routes : routeTarget t.method t.target = some t.found
end HeadText

theorem targetByte_plain : ∀ c, targetByte c = true → c ≠ 32 ∧ c ≠ cr ∧ c ≠ lf := eachByte (by decide +kernel)

theorem tokenByte_solid : ∀ c, tokenByte c = true → c ≠ 32 := eachByte (by decide +kernel)

theorem drop_two (one two tail : Bytes) (a b : UInt8) : (one ++ a :: (two ++ b :: tail)).drop (one.length+1+two.length+1) = tail := by
  rw [Nat.add_assoc (one.length+1),← drop_drop,drop_past,drop_past]

theorem parseLine_iff : parseLine line = .ok h ↔
    ∃ t : HeadText, t.fields = [] ∧ t.GoodLine ∧ line = t.line ∧ t.start = h := by
  constructor
  · intro got
    unfold parseLine at got
    cases one : indexByte line 32 with
    | none =>
      rw [one] at got
      cases got
    | some sp1 =>
      rw [one] at got
      obtain ⟨method,rest,rfl,-,rfl⟩ := indexByte_split one
      simp only [take_left,drop_past] at got
      split at got
      · cases got
      rename_i token
      cases two : indexByte rest 32 with
      | none =>
        rw [two] at got
        cases got
      | some rel =>
        rw [two] at got
        obtain ⟨target,proto,rfl,-,rfl⟩ := indexByte_split two
        simp only [take_left,drop_two] at got
        split at got
        · cases got
        rename_i given
        split at got
        · cases got
        rename_i version
        cases routes : routeTarget method target with
        | none =>
          rw [routes] at got
          cases got
        | some found =>
          rw [routes] at got
          simp only at got
          split at got
          · cases got
          rename_i bytes
          cases got
          simp only [not_or,length_eq_zero_iff,Bool.not_eq_true,Bool.not_eq_false'] at token given
          refine ⟨⟨method,target,proto,found,[]⟩,rfl,⟨token.2,given.1,?_,?_,routes⟩,rfl,rfl⟩
          · simpa using bytes
          · by_contra other
            exact version (not_or.mp other)
  · rintro ⟨t,-,good,rfl,rfl⟩
    have free : (32 : UInt8) ∉ t.method := fun mem => tokenByte_solid _ (token_byte good.method _ mem) rfl
    have solid : (32 : UInt8) ∉ t.target := fun mem => (targetByte_plain _ (all_eq_true.mp good.bytes _ mem)).1 rfl
    have version : ¬(t.proto ≠ strHTTP11 ∧ t.proto ≠ strHTTP10) := fun other => good.version.elim other.1 other.2
    have given : t.proto ≠ [] := by
      rcases good.version with is | is
      · rw [is]
        decide
      · rw [is]
        decide
    have named := token_ne good.method
    have addressed := good.target
    unfold parseLine
    rw [HeadText.line,indexByte_first free]
    simp only [take_left,drop_past]
    rw [if_neg (by simp [good.method,named]),indexByte_first solid]
    simp only [take_left,drop_two]
    rw [if_neg (by simp [addressed,given]),if_neg version,good.routes]
    simp only
    rw [if_neg (by simp only [good.bytes]; decide)]
    rfl
end
end FhServer

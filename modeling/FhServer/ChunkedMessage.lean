import FhServer.GoBytes

namespace FhServer
open List hiding count after

-- A chunked body as a sender lays it out, before anyone decides what its lines
-- mean: every line is kept as it stands between the CRLFs.
structure ChunkedMessage where
  chunks : List (Bytes × Bytes)
  last : Bytes
  trailers : List Bytes

namespace ChunkedMessage

def renderLines (lines : List Bytes) : Bytes := lines.flatMap (· ++ crlf)
def renderChunks (chunks : List (Bytes × Bytes)) : Bytes :=
  chunks.flatMap (fun chunk => chunk.1 ++ crlf ++ (chunk.2 ++ crlf))

def render (m : ChunkedMessage) : Bytes :=
  renderChunks m.chunks ++ (m.last ++ crlf ++ (renderLines m.trailers ++ crlf))

def body (m : ChunkedMessage) : Bytes := m.chunks.flatMap Prod.snd

def sizeLines (m : ChunkedMessage) : List Bytes := m.chunks.map Prod.fst ++ [m.last]
def allLines (m : ChunkedMessage) : List Bytes := m.sizeLines ++ m.trailers

-- What one decoder makes of the text of the lines: the size of a size line, the
-- field of a trailer line (given how many came before), and which chunk sizes
-- its limit admits after how many body bytes.
structure Rules where
  size : Bytes → Option Nat
  trailer : Nat → Bytes → Option Header
  admits : Nat → Nat → Bool

def Rules.fields (rules : Rules) : Nat → List Bytes → Option (List Header)
  | _,[] => some []
  | seen,line :: rest =>
    if line = [] then none
    else (rules.trailer seen line).bind fun field => (rules.fields (seen+1) rest).map (field :: ·)

def Rules.chunks (rules : Rules) : Nat → List (Bytes × Bytes) → Prop
  | _,[] => True
  | total,(line,data) :: rest =>
    rules.size line = some data.length ∧ data ≠ [] ∧ rules.admits total data.length = true ∧
      rules.chunks (total + data.length) rest

structure Rules.Reads (rules : Rules) (m : ChunkedMessage) (fields : List Header) : Prop where
  chunks : rules.chunks 0 m.chunks
  last : rules.size m.last = some 0
  room : rules.admits m.body.length 0 = true
  fields : rules.fields 0 m.trailers = some fields
end ChunkedMessage

inductive Taken (α : Type u) where
  | got (value : α)
  | short
  | bad

-- An input read line by line and, between lines, a stretch of n bytes with the
-- CRLF after it. `bytes` is what it still holds.
structure LineReader (σ : Type u) where
  bytes : σ → Bytes
  line : σ → Taken (Bytes × σ)
  data : Nat → σ → Taken (Bytes × σ)

inductive Decoded (σ : Type u) where
  | clean (body : Bytes) (fields : List Header) (after : σ)
  | short (body : Bytes) (fields : List Header)
  | bad

namespace Decoded

def prepend (data : Bytes) : Decoded σ → Decoded σ
  | .clean body fields after => .clean (data ++ body) fields after
  | .short body fields => .short (data ++ body) fields
  | .bad => .bad

def field (header : Header) : Decoded σ → Decoded σ
  | .clean body fields after => .clean body (header :: fields) after
  | .short body fields => .short body (header :: fields)
  | .bad => .bad

@[simp] theorem prepend_nil (result : Decoded σ) : result.prepend [] = result := by
  cases result <;> rfl

theorem prepend_prepend (one two : Bytes) (result : Decoded σ) :
    (result.prepend two).prepend one = result.prepend (one ++ two) := by
  cases result <;> simp [prepend]

theorem prepend_clean {result : Decoded σ} (clean : result.prepend data = .clean body fields after) :
    ∃ rest, result = .clean rest fields after ∧ body = data ++ rest := by
  cases result with
  | clean rest others last => cases clean; exact ⟨rest,rfl,rfl⟩
  | short => cases clean
  | bad => cases clean

theorem prepend_short {result : Decoded σ} (short : result.prepend data = .short body fields) :
    ∃ rest, result = .short rest fields ∧ body = data ++ rest := by
  cases result with
  | clean => cases short
  | short rest others => cases short; exact ⟨rest,rfl,rfl⟩
  | bad => cases short

theorem field_clean {result : Decoded σ} (clean : result.field header = .clean body fields after) :
    ∃ rest, result = .clean body rest after ∧ fields = header :: rest := by
  cases result with
  | clean text others last => cases clean; exact ⟨others,rfl,rfl⟩
  | short => cases clean
  | bad => cases clean

theorem field_short {result : Decoded σ} (short : result.field header = .short body fields) :
    ∃ rest, result = .short body rest ∧ fields = header :: rest := by
  cases result with
  | clean => cases short
  | short text others => cases short; exact ⟨others,rfl,rfl⟩
  | bad => cases short
end Decoded

structure LineReader.Lawful (reader : LineReader σ) : Prop where
  data_length : reader.data n s = .got (stretch,later) → stretch.length = n
  line_shrinks : reader.line s = .got (text,later) → (reader.bytes later).length < (reader.bytes s).length
  data_shrinks : reader.data n s = .got (stretch,later) → (reader.bytes later).length ≤ (reader.bytes s).length

namespace ChunkedMessage

theorem Rules.fields_cons {rules : Rules} (read : rules.fields seen (line :: rest) = some headers) :
    line ≠ [] ∧ ∃ field others, rules.trailer seen line = some field ∧
      rules.fields (seen+1) rest = some others ∧ headers = field :: others := by
  unfold Rules.fields at read
  split at read
  · cases read
  rename_i nonempty
  refine ⟨nonempty,?_⟩
  cases head : rules.trailer seen line with
  | none => simp [head] at read
  | some field =>
    cases tail : rules.fields (seen+1) rest with
    | none => simp [tail] at read
    | some others =>
      simp only [head,tail,Option.bind_some,Option.map_some,Option.some.injEq] at read
      exact ⟨field,others,rfl,rfl,read.symm⟩

variable {σ : Type u} (reader : LineReader σ) (rules : Rules)

def decodeFields : Nat → Nat → σ → Decoded σ
  | 0,_,_ => .bad
  | rounds+1,seen,s =>
    match reader.line s with
    | .short => .short [] []
    | .bad => .bad
    | .got (line,after) =>
      if line = [] then .clean [] [] after
      else
        match rules.trailer seen line with
        | none => .bad
        | some header => (decodeFields rounds (seen+1) after).field header

-- The decoder both implementations are compared with: it sees whole lines and
-- whole chunks. The rounds bound the lines.
def decode : Nat → Nat → σ → Decoded σ
  | 0,_,_ => .bad
  | rounds+1,total,s =>
    match reader.line s with
    | .short => .short [] []
    | .bad => .bad
    | .got (line,after) =>
      match rules.size line with
      | none => .bad
      | some size =>
        if rules.admits total size then
          if size = 0 then decodeFields reader rules rounds 0 after
          else
            match reader.data size after with
            | .short => .short ((reader.bytes after).take size) []
            | .bad => .bad
            | .got (data,next) => (decode rounds (total + size) next).prepend data
        else .bad

variable {reader rules} in

theorem decode_chunk (split : reader.line s = .got (line,after)) (sized : rules.size line = some size)
    (admitted : rules.admits total size = true) (more : size ≠ 0) (rounds : Nat) :
    decode reader rules (rounds+1) total s = match reader.data size after with
      | .short => .short ((reader.bytes after).take size) []
      | .bad => .bad
      | .got (data,next) => (decode reader rules rounds (total + size) next).prepend data := by
  simp [decode,split,sized,admitted,if_neg more]

def LinesRead : σ → List Bytes → σ → Prop
  | s,[],after => s = after
  | s,line :: rest,after => ∃ next, reader.line s = .got (line,next) ∧ LinesRead next rest after

def ChunksRead : σ → List (Bytes × Bytes) → σ → Prop
  | s,[],after => s = after
  | s,(line,data) :: rest,after =>
    ∃ middle next, reader.line s = .got (line,middle) ∧
      reader.data data.length middle = .got (data,next) ∧ ChunksRead next rest after

structure MessageRead (s : σ) (m : ChunkedMessage) (after : σ) : Prop where
  parts : ∃ before trailing, ChunksRead reader s m.chunks before ∧
    reader.line before = .got (m.last,trailing) ∧ LinesRead reader trailing (m.trailers ++ [[]]) after

-- The ways an input runs out while the rules still follow it: at a size line,
-- inside a chunk or its CRLF, at a trailer line.
inductive ShortRead (total : Nat) (s : σ) : Bytes → List Header → Prop where
  | atLine : ChunksRead reader s pieces before → rules.chunks total pieces →
      reader.line before = .short → ShortRead total s (pieces.flatMap Prod.snd) []
  | atData : ChunksRead reader s pieces before → rules.chunks total pieces →
      reader.line before = .got (line,middle) → rules.size line = some size → size ≠ 0 →
      rules.admits (total + (pieces.flatMap Prod.snd).length) size = true → reader.data size middle = .short →
      ShortRead total s (pieces.flatMap Prod.snd ++ (reader.bytes middle).take size) []
  | atFields : ChunksRead reader s pieces before → rules.chunks total pieces →
      reader.line before = .got (line,middle) → rules.size line = some 0 →
      rules.admits (total + (pieces.flatMap Prod.snd).length) 0 = true →
      LinesRead reader middle lines final → reader.line final = .short → rules.fields 0 lines = some headers →
      ShortRead total s (pieces.flatMap Prod.snd) headers

variable {reader} {rules}

theorem chunksRead_nil : ChunksRead reader s [] s := rfl

theorem decodeFields_sound (clean : decodeFields reader rules rounds seen s = .clean text headers after) :
    text = [] ∧ ∃ lines, LinesRead reader s (lines ++ [[]]) after ∧ rules.fields seen lines = some headers := by
  induction rounds generalizing seen s headers with
  | zero => cases clean
  | succ rounds ih =>
    unfold decodeFields at clean
    split at clean
    · cases clean
    · cases clean
    rename_i line next got
    split at clean
    · rename_i blank
      cases clean
      exact ⟨rfl,[],⟨after,by rw [got,blank],rfl⟩,rfl⟩
    · rename_i nonempty
      split at clean
      · cases clean
      rename_i header read
      obtain ⟨others,inner,rfl⟩ := Decoded.field_clean clean
      obtain ⟨empty,lines,path,rest⟩ := ih inner
      refine ⟨empty,line :: lines,⟨next,got,path⟩,?_⟩
      simp [Rules.fields,nonempty,read,rest]

theorem decodeFields_refused (rounds : Nat) (path : LinesRead reader s (lines ++ [[]]) after) (full : ∀ line ∈ lines, line ≠ [])
    (refused : rules.fields seen lines = none) : decodeFields reader rules rounds seen s = .bad := by
  induction lines generalizing seen s rounds with
  | nil => cases refused
  | cons line rest ih =>
    cases rounds with
    | zero => rfl
    | succ rounds =>
      obtain ⟨next,got,path⟩ := path
      have nonempty := full line mem_cons_self
      rw [Rules.fields,if_neg nonempty] at refused
      cases head : rules.trailer seen line with
      | none => simp [decodeFields,got,nonempty,head]
      | some header =>
        rw [head,Option.bind_some,Option.map_eq_none_iff] at refused
        have inner := ih rounds path (fun line mem => full line (mem_cons_of_mem _ mem)) refused
        simp [decodeFields,got,nonempty,head,inner,Decoded.field]

theorem decodeFields_short_sound (short : decodeFields reader rules rounds seen s = .short text headers) :
    text = [] ∧ ∃ lines final, LinesRead reader s lines final ∧ reader.line final = .short ∧
      rules.fields seen lines = some headers := by
  induction rounds generalizing seen s headers with
  | zero => cases short
  | succ rounds ih =>
    unfold decodeFields at short
    split at short
    · rename_i out
      cases short
      exact ⟨rfl,[],s,rfl,out,rfl⟩
    · cases short
    · rename_i line next got
      split at short
      · cases short
      rename_i nonempty
      split at short
      · cases short
      rename_i header read
      obtain ⟨others,inner,rfl⟩ := Decoded.field_short short
      obtain ⟨empty,lines,final,path,out,rest⟩ := ih inner
      refine ⟨empty,line :: lines,final,⟨next,got,path⟩,out,?_⟩
      simp [Rules.fields,nonempty,read,rest]

theorem ShortRead.cons (inner : ShortRead reader rules (total + piece.length) later text headers)
    (got : reader.line s = .got (line,middle)) (taken : reader.data piece.length middle = .got (piece,later))
    (sized : rules.size line = some piece.length) (nonempty : piece ≠ [])
    (admitted : rules.admits total piece.length = true) :
    ShortRead reader rules total s (piece ++ text) headers := by
  have extend : ∀ {pieces before}, ChunksRead reader later pieces before → rules.chunks (total + piece.length) pieces →
      ChunksRead reader s ((line,piece) :: pieces) before ∧ rules.chunks total ((line,piece) :: pieces) :=
    fun path chunks => ⟨⟨middle,later,got,taken,path⟩,sized,nonempty,admitted,chunks⟩
  cases inner with
  | atLine path chunks out =>
    obtain ⟨path,chunks⟩ := extend path chunks
    exact .atLine path chunks out
  | atData path chunks lineGot size positive room out =>
    obtain ⟨path,chunks⟩ := extend path chunks
    rw [← append_assoc]
    exact .atData path chunks lineGot size positive (by simpa [Nat.add_assoc] using room) out
  | atFields path chunks lineGot size room tail out read =>
    obtain ⟨path,chunks⟩ := extend path chunks
    exact .atFields path chunks lineGot size (by simpa [Nat.add_assoc] using room) tail out read

section
variable (lawful : reader.Lawful)
include lawful

theorem decode_sound (clean : decode reader rules rounds total s = .clean text headers after) :
    ∃ m, MessageRead reader s m after ∧ rules.chunks total m.chunks ∧ rules.size m.last = some 0 ∧
      rules.admits (total + m.body.length) 0 = true ∧ rules.fields 0 m.trailers = some headers ∧ text = m.body := by
  induction rounds generalizing total s text with
  | zero => cases clean
  | succ rounds ih =>
    unfold decode at clean
    split at clean
    · cases clean
    · cases clean
    rename_i line next got
    split at clean
    · cases clean
    rename_i size sized
    split at clean
    · rename_i admitted
      split at clean
      · rename_i zero
        subst zero
        obtain ⟨rfl,lines,path,read⟩ := decodeFields_sound clean
        exact ⟨⟨[],line,lines⟩,⟨s,next,rfl,got,path⟩,trivial,sized,by simpa [body] using admitted,read,rfl⟩
      · rename_i positive
        split at clean
        · cases clean
        · cases clean
        rename_i data following taken
        obtain ⟨rest,inner,rfl⟩ := Decoded.prepend_clean clean
        obtain ⟨m,⟨before,trailing,path,lastGot,tail⟩,chunks,last,room,read,rfl⟩ := ih inner
        have exact_size := lawful.data_length taken
        subst exact_size
        refine ⟨⟨(line,data) :: m.chunks,m.last,m.trailers⟩,⟨before,trailing,⟨next,following,got,taken,path⟩,lastGot,tail⟩,
          ⟨sized,?_,admitted,chunks⟩,last,?_,read,by simp [body]⟩
        · intro empty; simp [empty] at positive
        · simpa [body,Nat.add_assoc] using room
    · cases clean

theorem decodeFields_rounds (a b : Nat) (first : (reader.bytes s).length < a)
    (second : (reader.bytes s).length < b) :
    decodeFields reader rules a seen s = decodeFields reader rules b seen s := by
  induction a generalizing b seen s with
  | zero => lia
  | succ a ih =>
    obtain ⟨b,rfl⟩ := Nat.exists_eq_succ_of_ne_zero (by lia : b ≠ 0)
    unfold decodeFields
    cases got : reader.line s with
    | short => rfl
    | bad => rfl
    | got pair =>
      have shrinks := lawful.line_shrinks got
      have inner := fun seen => @ih pair.2 seen b (by lia) (by lia)
      simp [inner]

theorem decode_rounds (a b : Nat) (first : (reader.bytes s).length < a)
    (second : (reader.bytes s).length < b) :
    decode reader rules a total s = decode reader rules b total s := by
  induction a generalizing b total s with
  | zero => lia
  | succ a ih =>
    obtain ⟨b,rfl⟩ := Nat.exists_eq_succ_of_ne_zero (by lia : b ≠ 0)
    unfold decode
    cases got : reader.line s with
    | short => rfl
    | bad => rfl
    | got pair =>
      have shrinks := lawful.line_shrinks got
      have fields : decodeFields reader rules a 0 pair.2 = decodeFields reader rules b 0 pair.2 :=
        decodeFields_rounds lawful a b (by lia) (by lia)
      simp only [fields]
      cases sized : rules.size pair.1 with
      | none => rfl
      | some size =>
        cases taken : reader.data size pair.2 with
        | short => simp [taken]
        | bad => simp [taken]
        | got stretch =>
          have follows := lawful.data_shrinks taken
          have inner := fun total => @ih stretch.2 total b (by lia) (by lia)
          simp [taken,inner]

theorem decode_short_sound (short : decode reader rules rounds total s = .short text headers) :
    ShortRead reader rules total s text headers := by
  induction rounds generalizing total s text with
  | zero => cases short
  | succ rounds ih =>
    unfold decode at short
    split at short
    · rename_i out
      cases short
      exact .atLine chunksRead_nil trivial out
    · cases short
    · rename_i line next got
      split at short
      · cases short
      rename_i size sized
      split at short
      · rename_i admitted
        split at short
        · rename_i zero
          subst zero
          obtain ⟨rfl,lines,final,path,out,read⟩ := decodeFields_short_sound short
          exact .atFields chunksRead_nil trivial got sized (by simpa using admitted) path out read
        · rename_i positive
          split at short
          · rename_i out
            cases short
            exact .atData chunksRead_nil trivial got sized positive (by simpa using admitted) out
          · cases short
          · rename_i data following taken
            obtain ⟨rest,inner,rfl⟩ := Decoded.prepend_short short
            have exact_size := lawful.data_length taken
            subst exact_size
            exact (ih inner).cons got taken sized (by intro empty; simp [empty] at positive) admitted
      · cases short

section
variable (rounds : Nat)

theorem decodeFields_complete (path : LinesRead reader s (lines ++ [[]]) after) (read : rules.fields seen lines = some headers)
    (enough : (reader.bytes s).length < rounds) :
    decodeFields reader rules rounds seen s = .clean [] headers after := by
  induction lines generalizing seen s headers rounds with
  | nil =>
    obtain ⟨rounds,rfl⟩ := Nat.exists_eq_succ_of_ne_zero (by lia : rounds ≠ 0)
    obtain ⟨next,got,rfl⟩ := path
    simp only [Rules.fields,Option.some.injEq] at read
    simp [decodeFields,got,read]
  | cons line rest ih =>
    obtain ⟨rounds,rfl⟩ := Nat.exists_eq_succ_of_ne_zero (by lia : rounds ≠ 0)
    obtain ⟨next,got,path⟩ := path
    obtain ⟨nonempty,header,others,head,tail,rfl⟩ := Rules.fields_cons read
    have shrinks := lawful.line_shrinks got
    have inner := ih rounds path tail (by lia)
    simp [decodeFields,got,nonempty,head,inner,Decoded.field]

theorem decode_chunks (path : ChunksRead reader s pieces before)
    (chunks : rules.chunks total pieces) (enough : (reader.bytes s).length < rounds) :
    ∃ left, (reader.bytes before).length ≤ left ∧ decode reader rules rounds total s =
      (decode reader rules (left+1) (total + (pieces.flatMap Prod.snd).length) before).prepend (pieces.flatMap Prod.snd) := by
  induction pieces generalizing total s rounds with
  | nil => cases path; exact ⟨rounds-1,by lia,by simp [Nat.sub_add_cancel (Nat.one_le_of_lt enough)]⟩
  | cons piece rest ih =>
    obtain ⟨rounds,rfl⟩ := Nat.exists_eq_succ_of_ne_zero (by lia : rounds ≠ 0)
    obtain ⟨line,data⟩ := piece
    obtain ⟨middle,next,got,taken,path⟩ := path
    obtain ⟨sized,nonempty,admitted,chunks⟩ := chunks
    have positive : ¬ data.length = 0 := by simpa using nonempty
    have shrinks := lawful.line_shrinks got
    have follows := lawful.data_shrinks taken
    obtain ⟨left,more,inner⟩ := ih rounds path chunks (by lia)
    refine ⟨left,more,?_⟩
    rw [decode]
    simp only [got,sized,admitted,if_true,if_neg positive,taken,inner,flatMap_cons,
      length_append,Decoded.prepend_prepend,Nat.add_assoc]

theorem decode_complete (path : MessageRead reader s m after)
    (chunks : rules.chunks total m.chunks) (last : rules.size m.last = some 0)
    (room : rules.admits (total + m.body.length) 0 = true) (read : rules.fields 0 m.trailers = some headers)
    (enough : (reader.bytes s).length < rounds) :
    decode reader rules rounds total s = .clean m.body headers after := by
  obtain ⟨before,trailing,path,got,tail⟩ := path
  obtain ⟨left,more,eq⟩ := decode_chunks lawful rounds path chunks enough
  have shrinks := lawful.line_shrinks got
  have inner := decodeFields_complete lawful left tail read (by lia)
  simp only [body] at room
  simp only [eq,decode,got,last,room,if_true,inner,Decoded.prepend,append_nil,body]

theorem decode_refused (path : MessageRead reader s m after)
    (chunks : rules.chunks total m.chunks) (last : rules.size m.last = some 0)
    (full : ∀ line ∈ m.trailers, line ≠ []) (refused : rules.fields 0 m.trailers = none) (enough : (reader.bytes s).length < rounds) :
    decode reader rules rounds total s = .bad := by
  obtain ⟨before,trailing,path,got,tail⟩ := path
  obtain ⟨left,more,eq⟩ := decode_chunks lawful rounds path chunks enough
  have inner := decodeFields_refused left tail full refused
  simp [eq,decode,got,last,inner,Decoded.prepend]

theorem decodeFields_short_complete (path : LinesRead reader s lines final) (out : reader.line final = .short)
    (read : rules.fields seen lines = some headers) (enough : (reader.bytes s).length < rounds) :
    decodeFields reader rules rounds seen s = .short [] headers := by
  induction lines generalizing seen s headers rounds with
  | nil =>
    obtain ⟨rounds,rfl⟩ := Nat.exists_eq_succ_of_ne_zero (by lia : rounds ≠ 0)
    cases path
    simp only [Rules.fields,Option.some.injEq] at read
    simp [decodeFields,out,read]
  | cons line rest ih =>
    obtain ⟨rounds,rfl⟩ := Nat.exists_eq_succ_of_ne_zero (by lia : rounds ≠ 0)
    obtain ⟨next,got,path⟩ := path
    obtain ⟨nonempty,header,others,head,tail,rfl⟩ := Rules.fields_cons read
    have shrinks := lawful.line_shrinks got
    have inner := ih rounds path tail (by lia)
    simp [decodeFields,got,nonempty,head,inner,Decoded.field]

theorem decode_short_complete (short : ShortRead reader rules total s text headers) (enough : (reader.bytes s).length < rounds) :
    decode reader rules rounds total s = .short text headers := by
  cases short with
  | atLine path chunks out =>
    obtain ⟨left,more,eq⟩ := decode_chunks lawful rounds path chunks enough
    simp [eq,decode,out,Decoded.prepend]
  | atData path chunks got size positive room out =>
    obtain ⟨left,more,eq⟩ := decode_chunks lawful rounds path chunks enough
    simp only [eq,decode,got,size,room,if_true,if_neg positive,out,Decoded.prepend]
  | atFields path chunks got size room tail out read =>
    obtain ⟨left,more,eq⟩ := decode_chunks lawful rounds path chunks enough
    have shrinks := lawful.line_shrinks got
    have inner := decodeFields_short_complete lawful left tail out read (by lia)
    simp only [eq,decode,got,size,room,if_true,inner,Decoded.prepend,append_nil]
end
end

-- Two readers that follow each other line by line follow each other's messages.
-- `G` is what the second needs to know of a line.
section
variable {τ : Type v} {other : LineReader τ} {R : σ → τ → Prop} {G : Bytes → Prop}
  (line : ∀ {s t text next}, R s t → G text → reader.line s = .got (text,next) →
    ∃ later, other.line t = .got (text,later) ∧ R next later)
  (data : ∀ {s t n stretch next}, R s t → reader.data n s = .got (stretch,next) →
    ∃ later, other.data n t = .got (stretch,later) ∧ R next later)

include line

theorem LinesRead.follows (start : R s t) (path : LinesRead reader s lines after)
    (all : ∀ text ∈ lines, G text) : ∃ later, LinesRead other t lines later ∧ R after later := by
  induction lines generalizing s t with
  | nil => cases path; exact ⟨t,rfl,start⟩
  | cons text lines ih =>
    obtain ⟨next,got,path⟩ := path
    obtain ⟨later,taken,together⟩ := line start (all text (by simp)) got
    obtain ⟨final,path,ended⟩ := ih together path (fun text mem => all text (by simp [mem]))
    exact ⟨final,⟨later,taken,path⟩,ended⟩

include data

theorem ChunksRead.follows (start : R s t) (path : ChunksRead reader s pieces after)
    (all : ∀ piece ∈ pieces, G piece.1) : ∃ later, ChunksRead other t pieces later ∧ R after later := by
  induction pieces generalizing s t with
  | nil => cases path; exact ⟨t,rfl,start⟩
  | cons piece pieces ih =>
    obtain ⟨middle,next,got,taken,path⟩ := path
    obtain ⟨inner,line_got,together⟩ := line start (all piece (by simp)) got
    obtain ⟨later,data_got,together⟩ := data together taken
    obtain ⟨final,path,ended⟩ := ih together path (fun piece mem => all piece (by simp [mem]))
    exact ⟨final,⟨inner,later,line_got,data_got,path⟩,ended⟩

theorem MessageRead.follows (start : R s t) (path : MessageRead reader s m after) (blank : G [])
    (all : ∀ text ∈ m.allLines, G text) : ∃ later, MessageRead other t m later ∧ R after later := by
  obtain ⟨before,trailing,chunks,last,tail⟩ := path
  obtain ⟨one,chunks,together⟩ := ChunksRead.follows line data start chunks (fun piece mem =>
    all piece.1 (by simp only [allLines,sizeLines,mem_append,mem_map]; exact .inl (.inl ⟨piece,mem,rfl⟩)))
  obtain ⟨two,last,together⟩ := line together (all m.last (by simp [allLines,sizeLines])) last
  obtain ⟨final,tail,ended⟩ := LinesRead.follows line together tail (fun text mem => by
    rcases mem_append.mp mem with trailer | rest
    · exact all text (by simp [allLines,trailer])
    · cases mem_singleton.mp rest; exact blank)
  exact ⟨final,⟨one,two,chunks,last,tail⟩,ended⟩
end

-- Two sets of rules that never read different sizes off one line find the same
-- message in the same input.
section
variable {others : Rules}
  (compatible : ∀ {line a b}, rules.size line = some a → others.size line = some b → a = b)

theorem LinesRead.unique (one : LinesRead reader s (lines ++ [[]]) after) (two : LinesRead reader s (texts ++ [[]]) later)
    (first : rules.fields seen lines = some headers) (second : others.fields seen texts = some fields) :
    lines = texts ∧ after = later := by
  induction lines generalizing s texts headers fields seen with
  | nil =>
    obtain ⟨next,got,rfl⟩ := one
    cases texts with
    | nil =>
      obtain ⟨other,same,rfl⟩ := two
      rw [got] at same; cases same
      exact ⟨rfl,rfl⟩
    | cons text texts =>
      obtain ⟨other,same,-⟩ := two
      rw [got] at same; cases same
      exact absurd rfl (Rules.fields_cons second).1
  | cons line lines ih =>
    obtain ⟨next,got,one⟩ := one
    obtain ⟨nonempty,_,_,_,first,_⟩ := Rules.fields_cons first
    cases texts with
    | nil =>
      obtain ⟨other,same,-⟩ := two
      rw [got] at same; cases same
      exact absurd rfl nonempty
    | cons text texts =>
      obtain ⟨other,same,two⟩ := two
      rw [got] at same; cases same
      obtain ⟨_,_,_,_,second,_⟩ := Rules.fields_cons second
      obtain ⟨rfl,rfl⟩ := ih one two first second
      exact ⟨rfl,rfl⟩

include compatible

theorem ChunksRead.unique (one : ChunksRead reader s pieces before) (two : ChunksRead reader s parts start)
    (first : rules.chunks total pieces) (second : others.chunks total parts)
    (last : reader.line before = .got (line,middle)) (zero : rules.size line = some 0)
    (end_ : reader.line start = .got (text,later)) (nought : others.size text = some 0) :
    pieces = parts ∧ before = start := by
  induction pieces generalizing s parts total with
  | nil =>
    cases one
    cases parts with
    | nil => cases two; exact ⟨rfl,rfl⟩
    | cons part parts =>
      obtain ⟨_,_,got,-⟩ := two
      rw [last] at got; cases got
      have empty := compatible zero second.1
      exact absurd (eq_nil_of_length_eq_zero empty.symm) second.2.1
  | cons piece pieces ih =>
    obtain ⟨inner,later,got,taken,one⟩ := one
    cases parts with
    | nil =>
      cases two
      rw [end_] at got; cases got
      have empty := compatible first.1 nought
      exact absurd (eq_nil_of_length_eq_zero empty) first.2.1
    | cons part parts =>
      obtain ⟨_,_,same,taken',two⟩ := two
      obtain ⟨line,stretch⟩ := piece
      rw [got] at same; cases same
      have length := compatible first.1 second.1
      rw [length,taken'] at taken
      cases taken
      obtain ⟨rfl,rfl⟩ := ih one two first.2.2.2 second.2.2.2
      exact ⟨rfl,rfl⟩

theorem MessageRead.unique (one : MessageRead reader s m after) (two : MessageRead reader s n later)
    (first : rules.Reads m headers) (second : others.Reads n fields) : m = n ∧ after = later := by
  obtain ⟨before,trailing,chunks,last,tail⟩ := one
  obtain ⟨start,following,chunks',last',tail'⟩ := two
  obtain ⟨pieces,rfl⟩ := ChunksRead.unique compatible chunks chunks' first.chunks second.chunks last first.last
    last' second.last
  rw [last] at last'
  simp only [Taken.got.injEq,Prod.mk.injEq] at last'
  obtain ⟨lasts,rfl⟩ := last'
  obtain ⟨trailers,rfl⟩ := LinesRead.unique tail tail' first.fields second.fields
  obtain ⟨_,_,_⟩ := m
  simp_all
end

-- A reader over bytes that finds the lines some test lets through reads the
-- messages whose lines pass it, off their own rendering.
section
variable {reader : LineReader Bytes} {good : Bytes → Prop}
  (line : ∀ {w text rest}, reader.line w = .got (text,rest) ↔ w = text ++ crlf ++ rest ∧ good text)
  (data : ∀ {n w stretch rest}, reader.data n w = .got (stretch,rest) ↔ w = stretch ++ crlf ++ rest ∧ stretch.length = n)

include line

theorem linesRead_render : LinesRead reader w lines rest ↔ w = renderLines lines ++ rest ∧ ∀ text ∈ lines, good text := by
  induction lines generalizing w with
  | nil => simp [LinesRead,renderLines]
  | cons text lines ih =>
    simp only [LinesRead,line,ih,renderLines,flatMap_cons,forall_mem_cons]
    constructor
    · rintro ⟨next,⟨rfl,first⟩,rfl,others⟩
      exact ⟨by simp,first,others⟩
    · rintro ⟨rfl,first,others⟩
      exact ⟨_,⟨by simp,first⟩,rfl,others⟩

include data

theorem chunksRead_render : ChunksRead reader w pieces rest ↔
    w = renderChunks pieces ++ rest ∧ ∀ piece ∈ pieces, good piece.1 := by
  induction pieces generalizing w with
  | nil => simp [ChunksRead,renderChunks]
  | cons piece pieces ih =>
    obtain ⟨text,stretch⟩ := piece
    simp only [ChunksRead,line,data,ih,renderChunks,flatMap_cons,forall_mem_cons]
    constructor
    · rintro ⟨middle,next,⟨rfl,first⟩,⟨rfl,-⟩,rfl,others⟩
      exact ⟨by simp,first,others⟩
    · rintro ⟨rfl,first,others⟩
      exact ⟨stretch ++ crlf ++ (renderChunks pieces ++ rest),_,⟨by simp [renderChunks],first⟩,⟨rfl,trivial⟩,rfl,others⟩

theorem messageRead_render (blank : good []) :
    MessageRead reader w m rest ↔ w = m.render ++ rest ∧ ∀ text ∈ m.allLines, good text := by
  constructor
  · rintro ⟨before,trailing,chunks,last,tail⟩
    obtain ⟨rfl,first⟩ := (chunksRead_render line data).mp chunks
    obtain ⟨rfl,second⟩ := line.mp last
    obtain ⟨rfl,third⟩ := (linesRead_render line).mp tail
    refine ⟨by simp [render,renderLines],?_⟩
    intro text mem
    simp only [allLines,sizeLines,mem_append,mem_map,mem_singleton] at mem
    rcases mem with (⟨piece,inside,rfl⟩ | rfl) | trailer
    · exact first piece inside
    · exact second
    · exact third text (by simp [trailer])
  · rintro ⟨rfl,all⟩
    refine ⟨_,_,(chunksRead_render line data).mpr ⟨by rw [render,append_assoc],?_⟩,
      line.mpr ⟨by rw [append_assoc _ _ rest],?_⟩,
      (linesRead_render line).mpr ⟨by simp [renderLines],?_⟩⟩
    · exact fun piece inside => all piece.1 (by simp only [allLines,sizeLines,mem_append,mem_map]; exact .inl (.inl ⟨piece,inside,rfl⟩))
    · exact all m.last (by simp [allLines,sizeLines])
    intro text mem
    rcases mem_append.mp mem with trailer | rest
    · exact all text (by simp [allLines,trailer])
    · cases mem_singleton.mp rest; exact blank
end
end ChunkedMessage
end FhServer

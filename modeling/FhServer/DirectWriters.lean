import FhServer.ResponseWriter

namespace FhServer
open GoBytes List DefaultCtx
namespace DirectWriter

def directJSONHeaderReserve : Nat := 192

-- What an encoder leaves: it was given the buffer past the reserve, and its output is there unless it was moved to other
-- memory.
structure EncodedBody where
  memory : Bytes
  out : Bytes
  moved : Bool
  reserve : directJSONHeaderReserve ≤ memory.length
  held : moved = false → (memory.drop directJSONHeaderReserve).take out.length = out

def overwrite (memory : Bytes) (place : Nat) (text : Bytes) : Bytes := memory.take place ++ (text ++ memory.drop (place+text.length))
end DirectWriter
open DirectWriter
namespace DefaultCtx
variable (cfg : ResponseConfig) (c : DefaultCtx)

def backfill (memory header : Bytes) (length : Nat) : Bytes :=
  let start := directJSONHeaderReserve - header.length
  ((overwrite memory start header).take (directJSONHeaderReserve+length)).drop start

-- A header longer than the reserve makes the start of the slice negative, which panics.
def writeDirectJSONBytes200 (e : EncodedBody) : Option Bytes :=
  if decide (e.out.length < 256) && (decide (e.out = []) || !e.moved) && c.bareHeaders cfg then
    some (backfill e.memory (directJSON200Headers e.out.length) e.out.length)
  else
    let header := c.directHeader cfg e.out.length
    if decide (e.out ≠ []) && e.moved then some (header ++ e.out)
    else if directJSONHeaderReserve < header.length then none
    else some (backfill (overwrite e.memory 0 header) header e.out.length)
end DefaultCtx

inductive DirectWriter where
  | string (s : Bytes)
  | bytes (body : Bytes)
  | json (e : EncodedBody)

namespace DirectWriter

def body : DirectWriter → Bytes
  | .string s => s
  | .bytes body => body
  | .json e => e.out

def sends (cfg : ResponseConfig) (c : DefaultCtx) : DirectWriter → Option Bytes
  | .string s => some (c.writeDirect200String cfg s)
  | .bytes body => some (c.writeDirect200Bytes cfg body)
  | .json e => c.writeDirectJSONBytes200 cfg e

def headSize (cfg : ResponseConfig) (c : DefaultCtx) (length : Nat) : Nat :=
  17 + (if cfg.sendDateHeader then 8 + cfg.date.length else 0) + (c.contentType.map fun t => 16 + t.text.length).getD 0 +
    (if cfg.serverHeader ≠ [] then 10 + cfg.serverHeader.length else 0) + (18 + (appendInt length).length) +
    (if c.keepAlive && !c.forceClose then (if cfg.sendKeepAliveHeader then 24 else 0) else 19) + 2

-- The cached heads have no Server field and one content type each; any other head of a body in place fits into the reserve.
def Faithful (cfg : ResponseConfig) (c : DefaultCtx) : DirectWriter → Prop
  | .string s => s.length < 256 → c.bareHeaders cfg = true → c.contentType = some .plainTextCT → cfg.serverHeader = []
  | .bytes _ => True
  | .json e =>
    if e.out.length < 256 ∧ (e.out = [] ∨ e.moved = false) ∧ c.bareHeaders cfg = true then
      cfg.serverHeader = [] ∧ c.contentType.map ContentType.text = some (ascii "application/json")
    else e.out = [] ∨ e.moved = false → headSize cfg c e.out.length ≤ directJSONHeaderReserve
end DirectWriter

-- The calls and assignments before an answer. No content type with a line break in it is ever set.
inductive CtxCall where
  | build (call : ResponseCall)
  | setCookie (text : Bytes)
  | contentType (t : ContentType) (plain : breaksLine t.text = false)

def CtxCall.run (cfg : ResponseConfig) (c : DefaultCtx) : CtxCall → DefaultCtx
  | .build call => call.run cfg c
  | .setCookie text => c.setCookie text
  | .contentType t _ => {c with contentType := some t}

section
variable {cfg : ResponseConfig} {c : DefaultCtx}

theorem ctx_clean {calls : List CtxCall} (clean : c.Clean) : (calls.foldl (CtxCall.run cfg) c).Clean := by
  induction calls generalizing c with
  | nil => exact clean
  | cons call calls ih =>
    refine ih ?_
    cases call with
    | build call => exact clean.run
    | setCookie text => exact clean.setCookie
    | contentType t plain =>
      refine {clean with contentType := ?_}
      rintro other ⟨⟩
      exact plain

theorem directHeader_length (cfg : ResponseConfig) (c : DefaultCtx) (length : Nat) : (c.directHeader cfg length).length = headSize cfg c length := by
  have date : (dateLine cfg).length = if cfg.sendDateHeader then 8 + cfg.date.length else 0 := by
    rw [dateLine]
    split
    · simp [ascii,crlf]
      lia
    · rfl
  have type : c.contentTypeLine.length = (c.contentType.map fun t => 16 + t.text.length).getD 0 := by
    rw [contentTypeLine]
    cases c.contentType with
    | none => rfl
    | some t =>
      simp [ascii,crlf]
      lia
  have server : (appendSecurityHeaders cfg).length = if cfg.serverHeader ≠ [] then 10 + cfg.serverHeader.length else 0 := by
    rw [appendSecurityHeaders]
    split
    · simp [ascii,crlf]
      lia
    · rfl
  have size : (appendContentLengthLine length).length = 18 + (appendInt length).length := by
    rw [appendContentLengthLine,contentLengthSmall,append_assoc,ite_self]
    simp [ascii,crlf]
    lia
  have connection : (c.connectionLine cfg).length = if c.keepAlive && !c.forceClose then (if cfg.sendKeepAliveHeader then 24 else 0) else 19 := by
    rw [connectionLine]
    split
    · split <;> rfl
    · rfl
  have status : (ascii "HTTP/1.1 200 OK").length = 15 := rfl
  have line : crlf.length = 2 := rfl
  simp only [directHeader,length_append,date,type,server,size,connection,status,line,headSize]
  lia

section
variable {memory header : Bytes} (reserve : directJSONHeaderReserve ≤ memory.length) (short : header.length ≤ directJSONHeaderReserve)
include reserve short

theorem backfill_eq (length : Nat) :
    backfill memory header length = header ++ (memory.drop directJSONHeaderReserve).take length := by
  have place : directJSONHeaderReserve - header.length + header.length = directJSONHeaderReserve := by lia
  have front : (memory.take (directJSONHeaderReserve - header.length)).length = directJSONHeaderReserve - header.length := by
    rw [length_take]
    lia
  have size : directJSONHeaderReserve + length - (directJSONHeaderReserve - header.length) = header.length + length := by lia
  rw [backfill,overwrite,place,drop_take,drop_left' front,size,take_length_add_append]

theorem overwrite_front :
    directJSONHeaderReserve ≤ (overwrite memory 0 header).length ∧
      (overwrite memory 0 header).drop directJSONHeaderReserve = memory.drop directJSONHeaderReserve := by
  have place : directJSONHeaderReserve = header.length + (directJSONHeaderReserve - header.length) := by lia
  have text : overwrite memory 0 header = header ++ memory.drop header.length := by rw [overwrite,take_zero,nil_append,Nat.zero_add]
  rw [text]
  constructor
  · rw [length_append,length_drop]
    lia
  · rw [drop_append,drop_eq_nil_of_le short,nil_append,drop_drop,← place]
end

theorem in_place (e : EncodedBody) (place : e.out = [] ∨ e.moved = false) :
    (e.memory.drop directJSONHeaderReserve).take e.out.length = e.out := by
  rcases place with empty | still
  · rw [empty]
    rfl
  · exact e.held still

theorem bare_head (bare : c.bareHeaders cfg = true) {length : Nat} (short : length < 256) : c.directHeader cfg length =
    ascii "HTTP/1.1 200 OK" ++ (crlf ++ ((c.contentTypeLine ++ appendSecurityHeaders cfg) ++ (contentLengthSmall length ++ crlf))) := by
  simp only [bareHeaders,Bool.and_eq_true,Bool.not_eq_true'] at bare
  obtain ⟨⟨⟨date,keepAlive⟩,alive⟩,forced⟩ := bare
  have line : c.connectionLine cfg = [] := by simp [connectionLine,keepAlive,alive,forced]
  have none : dateLine cfg = [] := by simp [dateLine,date]
  rw [directHeader,appendContentLengthLine,if_pos (by lia),line,none]
  simp

theorem server_none : appendSecurityHeaders cfg = [] ↔ cfg.serverHeader = [] := by
  rw [appendSecurityHeaders]
  split
  · rename_i named
    exact iff_of_false (fun none => absurd (append_eq_nil_iff.mp none).1 (by decide)) named
  · rename_i unnamed
    exact iff_of_true rfl (not_not.mp unnamed)

theorem json_lines : c.contentTypeLine ++ appendSecurityHeaders cfg = ascii "Content-Type: application/json" ++ crlf ↔
    cfg.serverHeader = [] ∧ c.contentType.map ContentType.text = some (ascii "application/json") := by
  have apart : (83 : UInt8) ∉ ascii "Content-Type: application/json" ++ crlf := by decide
  constructor
  · intro same
    have unnamed : cfg.serverHeader = [] := by
      by_contra named
      refine apart (same ▸ mem_append_right _ ?_)
      rw [appendSecurityHeaders,if_pos named]
      exact mem_append_left _ (by decide)
    rw [server_none.mpr unnamed,append_nil,contentTypeLine] at same
    refine ⟨unnamed,?_⟩
    cases there : c.contentType with
    | none =>
      rw [there] at same
      exact absurd same (by decide)
    | some t =>
      rw [there] at same
      have split : ascii "Content-Type: application/json" ++ crlf = ascii "Content-Type: " ++ (ascii "application/json" ++ crlf) := by decide
      have text := append_cancel_right (append_cancel_left (same.trans split))
      rw [Option.map_some,text]
  · rintro ⟨unnamed,type⟩
    obtain ⟨t,there,text⟩ := Option.map_eq_some_iff.mp type
    rw [server_none.mpr unnamed,append_nil,contentTypeLine,there]
    show ascii "Content-Type: " ++ (t.text ++ crlf) = _
    rw [text]
    decide

section
variable (clean : c.Clean) (can : c.canDirectWrite200 = true)
include clean can

theorem json_cached_iff (bare : c.bareHeaders cfg = true) {out : Bytes} (short : out.length < 256) :
    directJSON200Headers out.length ++ out = c.assemble cfg out ↔
      cfg.serverHeader = [] ∧ c.contentType.map ContentType.text = some (ascii "application/json") := by
  have cached : directJSON200Headers out.length =
      ascii "HTTP/1.1 200 OK" ++ (crlf ++ ((ascii "Content-Type: application/json" ++ crlf) ++ (contentLengthSmall out.length ++ crlf))) := by
    rw [directJSON200Headers]
    simp
  rw [← directHeader_assemble clean can,bare_head bare short,cached,append_left_inj,append_right_inj,append_right_inj,
    append_left_inj,← json_lines]
  exact eq_comm

theorem string_cached_iff (bare : c.bareHeaders cfg = true)
    (plain : c.contentType = some .plainTextCT) {s : Bytes} (short : s.length < 256) :
    directPlain200Headers s.length ++ s = c.assemble cfg s ↔ cfg.serverHeader = [] := by
  have same : c.assemble {cfg with serverHeader := []} s = c.directHeader {cfg with serverHeader := []} s.length ++ s :=
    (directHeader_assemble clean can s).symm
  have unnamed : c.bareHeaders {cfg with serverHeader := []} = true := bare
  have none : appendSecurityHeaders {cfg with serverHeader := []} = [] := rfl
  rw [directPlain_assemble clean can bare plain short,same,← directHeader_assemble clean can,bare_head bare short,
    bare_head unnamed short,none,append_left_inj,append_right_inj,append_right_inj,append_left_inj,append_right_inj,eq_comm,
    server_none]

theorem json_direct_iff (e : EncodedBody) :
    c.writeDirectJSONBytes200 cfg e = some (c.assemble cfg e.out) ↔ (DirectWriter.json e).Faithful cfg c := by
  have test : (decide (e.out.length < 256) && (decide (e.out = []) || !e.moved) && c.bareHeaders cfg) = true ↔
      e.out.length < 256 ∧ (e.out = [] ∨ e.moved = false) ∧ c.bareHeaders cfg = true := by
    simp [and_assoc]
  have elsewhere : (decide (e.out ≠ []) && e.moved) = true ↔ ¬(e.out = [] ∨ e.moved = false) := by
    rw [Bool.and_eq_true,decide_eq_true_eq,not_or,Bool.not_eq_false]
  rw [writeDirectJSONBytes200,Faithful]
  by_cases cached : e.out.length < 256 ∧ (e.out = [] ∨ e.moved = false) ∧ c.bareHeaders cfg = true
  · obtain ⟨short,place,bare⟩ := cached
    have room : (directJSON200Headers e.out.length).length ≤ directJSONHeaderReserve := by
      have digits : (appendInt e.out.length).length ≤ 3 := by
        rw [appendInt_nat]
        exact (itoa_length 3 (by decide)).mpr (by lia)
      have size : (directJSON200Headers e.out.length).length = 69 + (appendInt e.out.length).length := by
        simp [directJSON200Headers,contentLengthSmall,ascii,crlf]
        lia
      rw [size]
      exact Nat.le_trans (Nat.add_le_add_left digits 69) (by decide)
    rw [if_pos (test.mpr ⟨short,place,bare⟩),if_pos ⟨short,place,bare⟩,Option.some_inj,backfill_eq e.reserve room,in_place e place]
    exact json_cached_iff clean can bare short
  · rw [if_neg fun is => cached (test.mp is),if_neg cached]
    have head := directHeader_length cfg c e.out.length
    by_cases place : e.out = [] ∨ e.moved = false
    · rw [if_neg fun is => elsewhere.mp is place]
      by_cases room : directJSONHeaderReserve < (c.directHeader cfg e.out.length).length
      · rw [if_pos room]
        exact iff_of_false (by simp) fun fits => absurd (fits place) (by lia)
      · obtain ⟨reserve,same⟩ := overwrite_front e.reserve (Nat.not_lt.mp room)
        rw [if_neg room,backfill_eq reserve (Nat.not_lt.mp room),same,in_place e place,directHeader_assemble clean can]
        exact iff_of_true rfl fun _ => by lia
    · rw [if_pos (elsewhere.mpr place),directHeader_assemble clean can]
      exact iff_of_true rfl fun still => absurd still place
end
end

-- A direct writer sends what the general one would have put together exactly when its cached head says the same and its
-- assembled head has room.
theorem direct_writers_iff {cfg : ResponseConfig} {keepAlive forceClose : Bool} {flags : ResponseFlags} {calls : List CtxCall} {c : DefaultCtx}
    (reached : c = calls.foldl (CtxCall.run cfg) {keepAlive := keepAlive, forceClose := forceClose, flags := flags})
    (can : c.canDirectWrite200 = true) (w : DirectWriter) : w.sends cfg c = some (c.assemble cfg w.body) ↔ w.Faithful cfg c := by
  have clean : c.Clean := reached ▸ ctx_clean (clean_fresh ..)
  cases w with
  | string s =>
    show some (c.writeDirect200String cfg s) = some (c.assemble cfg s) ↔ _
    rw [Option.some_inj,writeDirect200String]
    split
    · rename_i cached
      simp only [Bool.and_eq_true,decide_eq_true_eq] at cached
      obtain ⟨⟨short,bare⟩,plain⟩ := cached
      rw [string_cached_iff clean can bare plain short]
      exact ⟨fun unnamed _ _ _ => unnamed,fun faithful => faithful short bare plain⟩
    · rename_i uncached
      refine iff_of_true (directHeader_assemble clean can s) fun short bare plain => absurd ?_ uncached
      rw [decide_eq_true short,bare,decide_eq_true plain]
      rfl
  | bytes body => exact iff_of_true (congrArg some (directHeader_assemble clean can body)) trivial
  | json e => exact json_direct_iff clean can e

def encodedSmall : EncodedBody where
  memory := replicate 192 0 ++ ascii "[1,2]"
  out := ascii "[1,2]"
  moved := false
  reserve := by decide +kernel
  held := by decide

theorem small_document_same : (DirectWriter.json encodedSmall).sends {} {contentType := some .jsonCT} =
    some (assemble {} {contentType := some .jsonCT} (ascii "[1,2]")) := by
  have reached : ({contentType := some .jsonCT} : DefaultCtx) =
      [CtxCall.contentType .jsonCT rfl].foldl (CtxCall.run {}) {keepAlive := true, forceClose := false, flags := {}} := rfl
  refine (direct_writers_iff reached rfl (.json encodedSmall)).mpr ?_
  exact ⟨rfl,rfl⟩

-- With a server name and none of the switches a short text is sent without the Server field.
theorem server_name_left_out :
    let cfg : ResponseConfig := {serverHeader := ascii "fh"}
    let c : DefaultCtx := {contentType := some .plainTextCT}
    c.canDirectWrite200 = true ∧
    (DirectWriter.string (ascii "ok")).sends cfg c =
      some (ascii "HTTP/1.1 200 OK\r\nContent-Type: text/plain; charset=utf-8\r\nContent-Length: 2\r\n\r\nok") ∧
    c.assemble cfg (ascii "ok") = ascii "HTTP/1.1 200 OK\r\nContent-Type: text/plain; charset=utf-8\r\nServer: fh\r\nContent-Length: 2\r\n\r\nok" := by
  repeat rw [ascii_ofList]
  decide
end FhServer

import FhServer.DecoderAgreement

namespace FhServer
open GoBytes ChunkedMessage List
namespace Conn

def slow (bytes : Bytes) : Conn := ⟨bytes.map fun b => ⟨[b],cons_ne_nil _ _⟩,.eof,false⟩

theorem slow_bytes (bytes : Bytes) : (slow bytes).bytes = bytes := by
  rw [Conn.bytes,slow,flatMap_map]
  exact flatMap_singleton' bytes
end Conn
namespace Wire
open Conn
variable {held bytes line : Bytes} {after : Wire} {rounds n size : Nat}

theorem readMore_slow (got : readMore ⟨held,slow bytes⟩ = .ok after) : ∃ b rest, bytes = b :: rest ∧ after = ⟨held ++ [b],slow rest⟩ := by
  cases bytes with
  | nil => cases got
  | cons b rest =>
    cases got
    exact ⟨b,rest,rfl,rfl⟩

theorem index_arrives (none : index pat held = none) (found : index pat (held ++ [b]) = some i) :
    held.length < i+pat.length := by
  by_contra reaches
  have before := index_reaches found (Nat.not_lt.mp reaches)
  rw [take_left,none] at before
  cases before

theorem readLineLoop_slow (last : ∀ i, index crlf held = some i → i+2 = held.length) (room : held.length ≤ maxChunkLine+1)
    (got : readLineLoop rounds ⟨held,slow bytes⟩ = .ok (line,after)) : line.length < maxChunkLine ∧ ∃ rest, after = ⟨[],slow rest⟩ := by
  induction rounds generalizing held bytes with
  | zero => cases got
  | succ rounds ih =>
    rw [readLineLoop] at got
    split at got
    · rename_i i found
      cases got
      have at_end := last i found
      refine ⟨?_,bytes,?_⟩
      · rw [length_take]
        lia
      · show Wire.mk (held.drop (i+2)) (slow bytes) = _
        rw [at_end,drop_length]
    · rename_i missing
      split at got
      · cases got
      split at got
      · cases got
      rename_i more
      obtain ⟨b,rest,rfl,rfl⟩ := readMore_slow more
      refine ih ?_ ?_ got
      · intro i found
        have reaches := index_arrives missing found
        obtain ⟨text,tail,split,rfl⟩ := index_split found
        have length := congrArg List.length split
        simp only [crlf,length_append,length_cons,length_nil] at length reaches ⊢
        lia
      · show (held ++ [b]).length ≤ _
        rw [length_append,length_singleton]
        lia

theorem ensureLoop_slow (room : held.length ≤ n) (got : ensureLoop n rounds ⟨held,slow bytes⟩ = .ok after) :
    after.held.length = n ∧ ∃ rest, after.conn = slow rest := by
  induction rounds generalizing held bytes with
  | zero => cases got
  | succ rounds ih =>
    rw [ensureLoop] at got
    split at got
    · rename_i short
      split at got
      · cases got
      rename_i more
      obtain ⟨b,rest,rfl,rfl⟩ := readMore_slow more
      refine ih ?_ got
      rw [length_append,length_singleton]
      exact short
    · rename_i enough
      cases got
      exact ⟨Nat.le_antisymm room (Nat.not_lt.mp enough),bytes,rfl⟩

theorem readChunk_slow (got : readChunk ⟨[],slow bytes⟩ size = .ok (data,after)) : ∃ rest, after = ⟨[],slow rest⟩ := by
  rw [readChunk] at got
  split at got
  · cases got
  split at got
  · cases got
  rename_i full ensured
  obtain ⟨length,rest,conn⟩ := ensureLoop_slow (Nat.zero_le _) ensured
  split at got
  · cases got
    refine ⟨rest,?_⟩
    rw [← conn,← length,drop_length]
  · cases got
end Wire
section
variable {bytes line : Bytes} {after : Wire} {m : ChunkedMessage} {pieces : List (Bytes × Bytes)} {lines : List Bytes}

theorem wireReader_slow (got : wireReader.line ⟨[],Conn.slow bytes⟩ = .got (line,after)) :
    line.length < maxChunkLine ∧ ∃ rest, after = ⟨[],Conn.slow rest⟩ := by
  refine Wire.readLineLoop_slow (fun i found => ?_) (Nat.zero_le _) (taken_got.mp got)
  cases found

theorem linesRead_slow (path : LinesRead wireReader ⟨[],Conn.slow bytes⟩ lines after) : ∀ line ∈ lines, line.length < maxChunkLine := by
  induction lines generalizing bytes with
  | nil => exact nofun
  | cons line lines ih =>
    obtain ⟨next,got,path⟩ := path
    obtain ⟨short,rest,rfl⟩ := wireReader_slow got
    exact forall_mem_cons.mpr ⟨short,ih path⟩

theorem chunksRead_slow (path : ChunksRead wireReader ⟨[],Conn.slow bytes⟩ pieces after) :
    (∀ piece ∈ pieces, piece.1.length < maxChunkLine) ∧ ∃ rest, after = ⟨[],Conn.slow rest⟩ := by
  induction pieces generalizing bytes with
  | nil =>
    cases path
    exact ⟨nofun,bytes,rfl⟩
  | cons piece pieces ih =>
    obtain ⟨middle,next,got,taken,path⟩ := path
    obtain ⟨short,rest,rfl⟩ := wireReader_slow got
    obtain ⟨later,rfl⟩ := Wire.readChunk_slow (taken_got.mp taken)
    obtain ⟨others,last⟩ := ih path
    exact ⟨forall_mem_cons.mpr ⟨short,others⟩,last⟩

theorem messageRead_slow (path : MessageRead wireReader ⟨[],Conn.slow bytes⟩ m after) : ∀ line ∈ m.allLines, line.length < maxChunkLine := by
  obtain ⟨before,trailing,chunks,last,tail⟩ := path
  obtain ⟨sizes,rest,rfl⟩ := chunksRead_slow chunks
  obtain ⟨short,rest,rfl⟩ := wireReader_slow last
  have fields := linesRead_slow tail
  intro line mem
  rcases mem_append.mp mem with sized | trailer
  · rcases mem_append.mp sized with chunk | final
    · obtain ⟨piece,inside,rfl⟩ := mem_map.mp chunk
      exact sizes piece inside
    · cases mem_singleton.mp final
      exact short
  · exact fields line (mem_append_left _ trailer)
end
end FhServer

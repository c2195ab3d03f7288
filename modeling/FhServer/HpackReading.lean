import FhServer.Fragments
import FhServer.HpackCodec

namespace FhServer
open Fragments
namespace Decoder
variable (d : Decoder)

theorem readString_eq (first : UInt8) (rest : Bytes) : d.readString (first :: rest) =
    match readVarInt 7 (first :: rest) with
    | .error e => .error e
    | .ok (strLen,p) =>
      if d.maxStrLen ≠ 0 ∧ (strLen : Int) > d.maxStrLen64 then .error .stringLength
      else if p.length < strLen then .error .needMore
      else .ok (⟨p.take strLen,first &&& 0x80 ≠ 0⟩,p.drop strLen) := by
  rw [readString]
  cases readVarInt 7 (first :: rest) with
  | error e => rfl
  | ok read =>
    show (if _ then _ else _) = _
    simp only []
    split
    · rfl
    · split
      · rfl
      · rfl

def readParts (n : Nat) : Bytes → Except HpackError (((HeaderField ⊕ UndecodedStr) × UndecodedStr) × Bytes) :=
  andThen (readVarInt n) fun nameIdx =>
    if nameIdx > 0 then
      match d.entryAt nameIdx with
      | none => fun _ => .error (.invalidIndex nameIdx)
      | some ihf => checking (fun uValue => .ok (.inl ihf,uValue)) d.readString
    else andThen d.readString fun uName => checking (fun uValue => .ok (.inr uName,uValue)) d.readString

theorem readParts_new {buf : Bytes} (index : readVarInt n buf = .ok (0,rest)) : d.readParts n buf =
    andThen d.readString (fun uName => checking (fun uValue => .ok (.inr uName,uValue)) d.readString) rest := by
  rw [readParts,andThen,index]
  rfl

def decodeParts (it : IndexType) : HeaderField ⊕ UndecodedStr → UndecodedStr → Except HpackError HeaderField
  | name,uValue =>
    if d.emitEnabled || it.indexed then
      match name with
      | .inl ihf => (d.decodeString uValue).map fun value => ⟨ihf.name,value,false⟩
      | .inr uName =>
        match d.decodeString uName with
        | .error e => .error e
        | .ok name => (d.decodeString uValue).map fun value => ⟨name,value,false⟩
    else .ok ⟨match name with | .inl ihf => ihf.name | .inr _ => [],[],false⟩

theorem readLiteral_eq (n : Nat) (it : IndexType) : d.readLiteral n it =
    match d.readParts n d.buf with
    | .error e => .error e
    | .ok ((name,uValue),buf) => (d.decodeParts it name uValue).map fun hf => (hf,buf) := by
  rw [readLiteral,readParts,andThen]
  cases readVarInt n d.buf with
  | error e => rfl
  | ok read =>
    obtain ⟨nameIdx,buf⟩ := read
    show (if _ then _ else _) = _
    by_cases indexed : nameIdx > 0
    · rw [if_pos indexed]
      simp only [if_pos indexed]
      cases d.entryAt nameIdx with
      | none => rfl
      | some ihf =>
        simp only [checking,Except.map]
        cases d.readString buf with
        | error e => rfl
        | ok value =>
          obtain ⟨uValue,rest⟩ := value
          simp only [decodeParts]
          split
          · simp only [Bind.bind,Except.bind]
            cases d.decodeString uValue with
            | error e => rfl
            | ok text => rfl
          · rfl
    · rw [if_neg indexed]
      simp only [if_neg indexed,andThen]
      cases d.readString buf with
      | error e => rfl
      | ok first =>
        obtain ⟨uName,rest⟩ := first
        show Except.bind (d.readString rest) _ = _
        simp only [checking,Except.map]
        cases d.readString rest with
        | error e => rfl
        | ok value =>
          obtain ⟨uValue,rest⟩ := value
          simp only [decodeParts]
          split
          · simp only [Bind.bind,Except.bind]
            cases d.decodeString uName with
            | error e => rfl
            | ok name =>
              cases d.decodeString uValue with
              | error e => rfl
              | ok text => rfl
          · rfl

theorem callEmit_buf (hf : HeaderField) : (d.callEmit hf).1.buf = d.buf ∧ (d.callEmit hf).2 ≠ some .needMore := by
  rw [callEmit]
  split
  · exact ⟨rfl,nofun⟩
  simp only []
  split
  · split
    · exact ⟨rfl,nofun⟩
    · split
      · exact ⟨rfl,nofun⟩
      · exact ⟨rfl,nofun⟩
  · split
    · exact ⟨rfl,nofun⟩
    · split
      · exact ⟨rfl,nofun⟩
      · exact ⟨rfl,nofun⟩

theorem callEmit_frame (buf saveBuf : Bytes) (hf : HeaderField) :
    callEmit {d with buf := buf, saveBuf := saveBuf} hf = ({(d.callEmit hf).1 with buf := buf, saveBuf := saveBuf},(d.callEmit hf).2) := by
  simp only [callEmit]
  split
  · rfl
  split
  · split
    · rfl
    · split
      · rfl
      · rfl
  · split
    · rfl
    · split
      · rfl
      · rfl

theorem writeLoop_done {d : Decoder} (none : d.buf = []) (written rounds : Nat) : writeLoop written rounds d = (d,written,.none) := by
  cases rounds with
  | zero => rfl
  | succ rounds =>
    rw [writeLoop]
    simp [none]

theorem writeLoop_cut {d d' : Decoder} {b : UInt8} {tail : Bytes} (buf : d.buf = b :: tail)
    (slow : ¬(b &&& 0x80 ≠ 0 ∧ (b &&& 0x7f).toNat > 0 ∧ (b &&& 0x7f).toNat ≤ staticTableEntries.length))
    (parsed : d.parseHeaderFieldRepr b = (d',some .needMore)) (written rounds : Nat) : writeLoop written (rounds+1) d = d'.keepForMore written := by
  rw [writeLoop]
  simp only [buf]
  rw [if_neg slow,parsed]

theorem write_plain {d : Decoder} {p : Bytes} (none : d.saveBuf = []) (some : p ≠ []) : d.write p = writeLoop p.length p.length {d with buf := p} := by
  rw [write,if_neg fun empty => some (List.eq_nil_of_length_eq_zero empty),if_pos (by rw [none]; rfl)]
end Decoder
end FhServer

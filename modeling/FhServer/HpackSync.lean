import FhServer.HpackCodec
import FhServer.HuffmanDecoding

namespace FhServer
open HeaderFieldTable Encoder Nat
open DynamicTable (Same)

theorem firstByte (b : UInt8) : (b &&& 0x80 = 0 ↔ b.toNat/2^7 = 0) ∧ (b &&& 0xc0 = 0x40 ↔ b.toNat/2^6 = 1) ∧
    (b &&& 0xf0 = 0x00 ↔ b.toNat/2^4 = 0) ∧ (b &&& 0xf0 = 0x10 ↔ b.toNat/2^4 = 1) ∧
    (b &&& 0xe0 = 0x20 ↔ b.toNat/2^5 = 1) ∧ (b &&& 0x7f).toNat = b.toNat%2^7 := by
  revert b
  exact GoBytes.eachByte (by decide +kernel)

def Literal (lit s : Bytes) : Prop := ∀ (d : Decoder) rest, (d.maxStrLen = 0 ∨ (s.length : Int) ≤ d.maxStrLen) →
  ∃ u, d.readString (lit ++ rest) = .ok (u,rest) ∧ d.decodeString u = .ok s

theorem readString_reads (d : Decoder) (rest : Bytes) (flag : UInt8) (free : flag.toNat%2^7 = 0) (fits : text.length < 2^63)
    (limit : d.maxStrLen = 0 ∨ (text.length : Int) ≤ d.maxStrLen) :
    d.readString (orAt (appendVarInt [] 7 text.length) 0 flag ++ text ++ rest) = .ok (⟨text,flag.toNat/2^7 ≠ 0⟩,rest) := by
  obtain ⟨b,tail,front,high,read⟩ := readVarInt_appendVarInt (text ++ rest) (by lia) ((Nat.sub_le ..).trans_lt fits) free
  obtain ⟨huffman,_⟩ := firstByte b
  have short : ¬(d.maxStrLen ≠ 0 ∧ (text.length : Int) > d.maxStrLen64) := by
    rw [Decoder.maxStrLen64]
    split <;> lia
  rw [List.append_assoc,front,List.cons_append,Decoder.readString]
  rw [List.cons_append] at read
  simp only [read,bind,Except.bind]
  rw [if_neg short]
  simp only [pure,Except.pure]
  rw [if_neg (by rw [List.length_append]; lia)]
  simp only [List.take_left',List.drop_left',ne_eq,huffman,high]

theorem appendHpackString_literal (dst : Bytes) (fits : s.length < 2^63) :
    ∃ lit, appendHpackString dst s = dst ++ lit ∧ Literal lit s := by
  rw [appendHpackString]
  split
  · rename_i shorter
    obtain ⟨out,pad,append,small,packs⟩ := appendHuffmanString_packs (appendVarInt dst 7 (huffmanEncodeLength s)) s
    have length := huffmanEncodeLength_eq small packs
    refine ⟨orAt (appendVarInt [] 7 out.length) 0 0x80 ++ out,?_,?_⟩
    · rw [append,appendVarInt_append,orAt_append _ _ _ (appendVarInt_ne_nil _ _),length,List.append_assoc]
    · intro d rest limit
      refine ⟨_,readString_reads d rest 0x80 (by decide) (by lia) (by lia),?_⟩
      exact huffmanDecode_packed small limit packs
  · refine ⟨orAt (appendVarInt [] 7 s.length) 0 0 ++ s,?_,?_⟩
    · rw [appendVarInt_append,orAt_zero,List.append_assoc]
    · intro d rest limit
      exact ⟨_,readString_reads d rest 0 (by decide) fits limit,rfl⟩

-- A field within the decoder's limits; no Go string is longer than an int can say.
structure Decoder.Allows (d : Decoder) (f : HeaderField) : Prop where
  name : d.maxStrLen = 0 ∨ (f.name.length : Int) ≤ d.maxStrLen
  value : d.maxStrLen = 0 ∨ (f.value.length : Int) ≤ d.maxStrLen
  goName : f.name.length < 2^63
  goValue : f.value.length < 2^63

def listSizes (fields : List HeaderField) : Nat := (fields.map HeaderField.listSize).sum

structure Decoder.Emits (d d' : Decoder) (fields : List HeaderField) : Prop where
  emitted : d'.emitted = d.emitted ++ if d.emitEnabled then fields else []
  emitEnabled : d'.emitEnabled = d.emitEnabled
  maxStrLen : d'.maxStrLen = d.maxStrLen
  maxHeaderBytes : d'.maxHeaderBytes = d.maxHeaderBytes
  saveBuf : d'.saveBuf = d.saveBuf
  headerBytes : d.maxHeaderBytes = 0 ∨ d'.headerBytes.toNat ≤ d.headerBytes.toNat+listSizes fields

namespace Decoder

theorem Emits.refl (d : Decoder) : d.Emits d [] where
  emitted := by simp
  emitEnabled := rfl
  maxStrLen := rfl
  maxHeaderBytes := rfl
  saveBuf := rfl
  headerBytes := .inr (le_add_right _ _)

theorem Emits.trans (first : Emits d d' one) (second : Emits d' d'' two) : Emits d d'' (one ++ two) where
  emitted := by
    rw [second.emitted,first.emitted,first.emitEnabled]
    split <;> simp
  emitEnabled := second.emitEnabled.trans first.emitEnabled
  maxStrLen := second.maxStrLen.trans first.maxStrLen
  maxHeaderBytes := second.maxHeaderBytes.trans first.maxHeaderBytes
  saveBuf := second.saveBuf.trans first.saveBuf
  headerBytes := by
    rcases first.headerBytes with none | below
    · exact .inl none
    rcases second.headerBytes with none | below'
    · exact .inl (first.maxHeaderBytes ▸ none)
    · right
      simp only [listSizes,List.map_append,List.sum_append] at below below' ⊢
      lia

theorem callEmit_emits (d : Decoder) (hf f : HeaderField) (allows : d.Allows f)
    (block : d.maxHeaderBytes = 0 ∨ d.headerBytes.toNat+f.listSize ≤ d.maxHeaderBytes.toNat)
    (name : hf.name.length ≤ f.name.length) (value : hf.value.length ≤ f.value.length) (whole : d.emitEnabled = true → hf = f) :
    ∃ d', d.callEmit hf = (d',none) ∧ d.Emits d' [f] ∧ d'.buf = d.buf ∧ d'.dynTab = d.dynTab ∧ d'.firstField = d.firstField := by
  have strings : ¬(d.maxStrLen ≠ 0 ∧ ((hf.name.length : Int) > d.maxStrLen ∨ (hf.value.length : Int) > d.maxStrLen)) := by
    have := allows.name
    have := allows.value
    lia
  have smaller : hf.listSize ≤ f.listSize := by rw [HeaderField.listSize,HeaderField.listSize]; lia
  have one : listSizes [f] = f.listSize := by simp [listSizes]
  rw [callEmit,if_neg strings]
  by_cases unlimited : d.maxHeaderBytes = 0
  · rw [if_neg (not_not.mpr unlimited),if_neg (fun both => both.1 unlimited)]
    cases enabled : d.emitEnabled with
    | true =>
      rw [whole enabled]
      exact ⟨_,rfl,⟨by simp [enabled],enabled.symm,rfl,rfl,rfl,.inl unlimited⟩,rfl,rfl,rfl⟩
    | false => exact ⟨d,rfl,⟨by simp [enabled],rfl,rfl,rfl,rfl,.inl unlimited⟩,rfl,rfl,rfl⟩
  · have room := block.resolve_left unlimited
    have below := d.maxHeaderBytes.toNat_lt
    have sum : (d.headerBytes+hf.size).toNat = d.headerBytes.toNat+hf.listSize := by
      rw [UInt32.toNat_add,HeaderField.size,UInt32.toNat_ofNat',mod_eq_of_lt (by lia : hf.listSize < 2^32),
        mod_eq_of_lt (by lia)]
    have within : ¬d.headerBytes+hf.size > d.maxHeaderBytes := by
      intro more
      have := UInt32.lt_iff_toNat_lt.mp more
      lia
    rw [if_pos unlimited,if_neg (fun both => within both.2)]
    cases enabled : d.emitEnabled with
    | true =>
      rw [whole enabled] at sum ⊢
      exact ⟨_,rfl,⟨by simp [enabled],enabled.symm,rfl,rfl,rfl,.inr (by simp only; lia)⟩,rfl,rfl,rfl⟩
    | false => exact ⟨_,rfl,⟨by simp [enabled],enabled.symm,rfl,rfl,rfl,.inr (by simp only; lia)⟩,rfl,rfl,rfl⟩

theorem entryAt_static (d : Decoder) (entry : staticTable.lookup true i = some found) :
    d.entryAt i = some found ∧ staticTable.ents[i-1]? = some found := by
  rw [lookup] at entry
  split at entry
  · cases entry
  rw [entryAt,if_neg (by lia),if_pos (by lia)]
  exact ⟨entry,entry⟩

theorem entryAt_dynamic {d : Decoder} {e : Encoder} (same : e.dynTab.Same d.dynTab)
    (entry : e.dynTab.table.lookup false i = some found) : d.entryAt (i+staticTable.len) = some found := by
  have len : e.dynTab.table.len = d.dynTab.table.len := by rw [len,len,same.ents]
  rw [lookup] at entry
  split at entry
  · cases entry
  · rename_i mem
    rw [if_neg Bool.false_ne_true,len,same.ents] at entry
    rw [entryAt,if_neg (by lia),if_neg (by lia),maxTableIndex,if_neg (by lia),Nat.add_sub_cancel,entry]

theorem searchTable_found {d : Decoder} {e : Encoder} (same : e.dynTab.Same d.dynTab) (f : HeaderField) :
    HeaderFieldTable.Found d.entryAt (e.dynTab.table.len+staticTable.len) f (e.searchTable f) := by
  have fixed := staticTable.search_found true f
  have recent := e.dynTab.table.search_found false f
  rw [searchTable]
  generalize staticTable.search true f = inStatic at fixed
  obtain ⟨i,whole⟩ := inStatic
  have static : HeaderFieldTable.Found d.entryAt (e.dynTab.table.len+staticTable.len) f (i,whole) := by
    rcases fixed with none | ⟨found,entry,positive,within,name,value⟩
    · exact .inl none
    · exact .inr ⟨found,(d.entryAt_static entry).1,positive,le_add_left_of_le within,name,value⟩
  simp only
  split
  · rename_i both
    rwa [both] at static
  rename_i partly
  split
  · rename_i chosen
    rcases recent with none | ⟨found,entry,positive,within,name,value⟩
    · rw [Prod.mk.injEq] at none
      rw [none.1,none.2] at chosen
      simp at chosen
    · exact .inr ⟨found,entryAt_dynamic same entry,Nat.add_pos_left positive _,Nat.add_le_add_right within _,name,value⟩
  · rwa [Bool.eq_false_iff.mpr partly] at static

theorem static_plain : ∀ f ∈ staticTableEntries, f.sensitive = false := by decide

theorem writeLoop_parsed (buf : d.buf = b :: tail)
    (slow : ¬(b &&& 0x80 ≠ 0 ∧ (b &&& 0x7f).toNat > 0 ∧ (b &&& 0x7f).toNat ≤ staticTableEntries.length))
    (parsed : d.parseHeaderFieldRepr b = (d',none)) (written rounds : Nat) :
    writeLoop written (rounds+1) d = writeLoop written rounds {d' with firstField := false} := by
  rw [writeLoop]
  simp only [buf]
  rw [if_neg slow,parsed]

theorem writeLoop_failed (buf : d.buf = b :: tail)
    (slow : ¬(b &&& 0x80 ≠ 0 ∧ (b &&& 0x7f).toNat > 0 ∧ (b &&& 0x7f).toNat ≤ staticTableEntries.length))
    (parsed : d.parseHeaderFieldRepr b = (d',some e)) (final : e ≠ .needMore) (written rounds : Nat) :
    writeLoop written (rounds+1) d = ({d' with firstField := false},written,some e) := by
  rw [writeLoop]
  simp only [buf]
  rw [if_neg slow,parsed]
  cases e with
  | needMore => exact absurd rfl final
  | _ => rfl

def Takes (d : Decoder) (f : HeaderField) (dynTab : DynamicTable) (rest : Bytes) : Prop :=
  ∀ written rounds, ∃ d', writeLoop written (rounds+1) d = writeLoop written rounds d' ∧ d.Emits d' [f] ∧ d'.buf = rest ∧
    d'.dynTab = dynTab

theorem appendVarInt_zero (indexing : Bool) (flag : UInt8) : orAt (appendVarInt [] (if indexing then 6 else 4) 0) 0 flag = [flag] := by
  cases indexing <;> simp [appendVarInt,orAt]

-- How a literal field gives its name: written out after index zero, or by the index of an entry.
inductive NamePart (d : Decoder) (f : HeaderField) : Nat → Bytes → Bytes → Prop
  | written (name : Literal nameLit f.name) : NamePart d f 0 (nameLit ++ after) after
  | entry (positive : 0 < idx) (entry : d.entryAt idx = some found) (name : found.name = f.name) : NamePart d f idx after after

section
open List
variable {d : Decoder} {f hf found : HeaderField} {rest tail : Bytes} {b : UInt8} {idx : Nat} {table : DynamicTable}
variable (allows : d.Allows f)
variable (block : d.maxHeaderBytes = 0 ∨ d.headerBytes.toNat+f.listSize ≤ d.maxHeaderBytes.toNat)
include allows block

theorem takes_parsed (buf : d.buf = b :: tail) (slow : ¬(b &&& 0x80 ≠ 0 ∧ (b &&& 0x7f).toNat > 0 ∧ (b &&& 0x7f).toNat ≤ staticTableEntries.length))
    (parsed : d.parseHeaderFieldRepr b = callEmit {d with buf := rest, dynTab := table} hf)
    (name : hf.name.length ≤ f.name.length) (value : hf.value.length ≤ f.value.length) (whole : d.emitEnabled = true → hf = f) :
    Takes d f table rest := by
  intro written rounds
  obtain ⟨d',step,emits,buf',table,_⟩ := callEmit_emits {d with buf := rest, dynTab := table} hf f
    ⟨allows.name,allows.value,allows.goName,allows.goValue⟩ block name value whole
  rw [step] at parsed
  exact ⟨_,writeLoop_parsed buf slow parsed written rounds,⟨emits.emitted,emits.emitEnabled,emits.maxStrLen,emits.maxHeaderBytes,emits.saveBuf,emits.headerBytes⟩,buf',table⟩

theorem takes_static (buf : d.buf = b :: rest) (flagged : b &&& 0x80 ≠ 0) (positive : 0 < (b &&& 0x7f).toNat)
    (short : (b &&& 0x7f).toNat ≤ staticTableEntries.length) (entry : d.entryAt (b &&& 0x7f).toNat = some found)
    (whole : (⟨found.name,found.value,false⟩ : HeaderField) = f) : Takes d f d.dynTab rest := by
  intro written rounds
  have static : staticTable.ents[(b &&& 0x7f).toNat-1]? = some found := by
    rw [entryAt,if_neg (by lia),if_pos (by rw [len,staticTable_ents]; exact short)] at entry
    exact entry
  have same : staticTable.ents.getD ((b &&& 0x7f).toNat-1) ⟨[],[],false⟩ = f := by
    have never := static_plain found (staticTable_ents ▸ mem_of_getElem? static)
    rw [getD_eq_getElem?_getD,static,Option.getD_some,←whole,←never]
  obtain ⟨d',step,emits,buf',table,_⟩ := callEmit_emits {d with buf := rest, firstField := false} f f
    ⟨allows.name,allows.value,allows.goName,allows.goValue⟩ block (le_refl _) (le_refl _) (fun _ => rfl)
  rw [writeLoop,buf]
  simp only
  rw [if_pos ⟨flagged,positive,short⟩,same,step]
  exact ⟨d',rfl,⟨emits.emitted,emits.emitEnabled,emits.maxStrLen,emits.maxHeaderBytes,emits.saveBuf,emits.headerBytes⟩,buf',table⟩

theorem takes_indexed (fits : idx < 2^63) (positive : 0 < idx) (entry : d.entryAt idx = some found)
    (whole : (⟨found.name,found.value,false⟩ : HeaderField) = f)
    (buf : d.buf = orAt (appendVarInt [] 7 idx) 0 0x80 ++ rest) : Takes d f d.dynTab rest := by
  obtain ⟨b,tail,front,high,read⟩ := readVarInt_appendVarInt rest (by lia) ((Nat.sub_le ..).trans_lt fits) (by decide : (0x80 : UInt8).toNat%2^7 = 0)
  obtain ⟨indexed,_,_,_,_,low⟩ := firstByte b
  have flagged : b &&& 0x80 ≠ 0 := by rw [ne_eq,indexed,high]; decide
  rw [front,cons_append] at buf
  rw [cons_append] at read
  by_cases short : 0 < (b &&& 0x7f).toNat ∧ (b &&& 0x7f).toNat ≤ staticTableEntries.length
  · have mask : b.toNat &&& (1 <<< 7-1) = (b &&& 0x7f).toNat := by rw [low,one_shiftLeft,and_two_pow_sub_one_eq_mod]
    have size : staticTableEntries.length = 61 := rfl
    rw [readVarInt] at read
    rw [if_pos (by simp only [one_shiftLeft]; lia),Except.ok.injEq,Prod.mk.injEq] at read
    obtain ⟨rfl,left⟩ := read
    exact takes_static allows block (left ▸ buf) flagged short.1 short.2 entry whole
  · apply takes_parsed allows block buf (fun both => short both.2) _ (le_refl _) (le_refl _) (fun _ => rfl)
    rw [parseHeaderFieldRepr,if_pos flagged,parseFieldIndexed]
    simp [buf,read,entry,whole]

omit block in
theorem readLiteral_reads (n : Nat) (it : IndexType) (read : readVarInt n d.buf = .ok (idx,body)) (value : Literal valueLit f.value)
    (form : NamePart d f idx body (valueLit ++ rest)) :
    ∃ hf, d.readLiteral n it = .ok (hf,rest) ∧ hf.name.length ≤ f.name.length ∧ hf.value.length ≤ f.value.length ∧
      hf.sensitive = false ∧ ((d.emitEnabled || it.indexed) = true → hf.name = f.name ∧ hf.value = f.value) := by
  obtain ⟨uValue,readValue,decodeValue⟩ := value d rest allows.value
  rw [readLiteral]
  simp only [read,bind,Except.bind,pure,Except.pure]
  cases form with
  | written name =>
    obtain ⟨uName,readName,decodeName⟩ := name d (valueLit ++ rest) allows.name
    simp only [readName,readValue]
    cases wanted : d.emitEnabled || it.indexed with
    | true => simp [decodeName,decodeValue]
    | false => simp
  | entry positive entry name =>
    rw [if_pos positive]
    simp only [entry,readValue]
    cases wanted : d.emitEnabled || it.indexed with
    | true => simp [decodeValue,name]
    | false => simp [name]

theorem takes_literal (indexing : Bool) (plain : indexing = true → f.sensitive = false) (fits : idx < 2^63)
    (value : Literal valueLit f.value)
    (form : NamePart d f idx body (valueLit ++ rest))
    (buf : d.buf = orAt (appendVarInt [] (if indexing then 6 else 4) idx) 0 (encodeTypeByte indexing f.sensitive) ++ body) :
    Takes d f (if indexing then d.dynTab.add f else d.dynTab) rest := by
  have free : (encodeTypeByte indexing f.sensitive).toNat%2^(if indexing then 6 else 4) = 0 := by
    cases indexing with
    | true => rw [plain rfl]; decide
    | false => cases f.sensitive <;> decide
  obtain ⟨b,tail,front,high,read⟩ := readVarInt_appendVarInt body (by split <;> lia) ((Nat.sub_le ..).trans_lt fits) free
  obtain ⟨indexed,add,without,never,_⟩ := firstByte b
  rw [front,cons_append] at buf
  rw [cons_append,←buf] at read
  cases indexing with
  | true =>
    rw [plain rfl] at high
    have bit : b.toNat/2^6 = 1 := high
    have flagless : b &&& 0x80 = 0 := indexed.mpr (by lia)
    obtain ⟨hf,literal,name',value',never',strings⟩ := readLiteral_reads allows 6 .indexedTrue read value form
    obtain ⟨sameName,sameValue⟩ := strings (by simp [IndexType.indexed])
    have whole : hf = f := HeaderField.ext sameName sameValue (never'.trans (plain rfl).symm)
    refine takes_parsed allows block buf (fun both => both.1 flagless) ?_ name' value' (fun _ => whole)
    rw [parseHeaderFieldRepr,if_neg (not_not.mpr flagless),if_pos (add.mpr bit),parseFieldLiteral]
    simp only [literal,IndexType.indexed,IndexType.sensitive,decide_true,if_true,whole,reduceCtorEq,decide_false]
    rw [←plain rfl]
  | false =>
    simp only [Bool.false_eq_true,if_false] at high read ⊢
    let it : IndexType := if f.sensitive then .indexedNever else .indexedFalse
    have unindexed : it.indexed = false := by simp only [it]; split <;> rfl
    have marked : it.sensitive = f.sensitive := by simp only [it]; cases f.sensitive <;> rfl
    have bits : b.toNat/2^4 = if f.sensitive then 1 else 0 := by rw [high]; cases f.sensitive <;> rfl
    have flagless : b &&& 0x80 = 0 := indexed.mpr (by lia)
    have dispatch : d.parseHeaderFieldRepr b = d.parseFieldLiteral 4 it := by
      rw [parseHeaderFieldRepr,if_neg (not_not.mpr flagless),if_neg (fun added => absurd (add.mp added) (by lia))]
      simp only [it]
      cases kind : f.sensitive with
      | true =>
        rw [kind] at bits
        rw [if_neg (fun zero => absurd (without.mp zero) (by rw [bits]; decide)),if_pos (never.mpr bits)]
        rfl
      | false =>
        rw [kind] at bits
        rw [if_pos (without.mpr bits)]
        rfl
    obtain ⟨hf,literal,name',value',_,strings⟩ := readLiteral_reads allows 4 it read value form
    have parsed : d.parseHeaderFieldRepr b = callEmit {d with buf := rest, dynTab := d.dynTab} {hf with sensitive := f.sensitive} := by
      rw [dispatch,parseFieldLiteral]
      simp [literal,unindexed,marked]
    refine takes_parsed allows block buf (fun both => both.1 flagless) parsed name' value' ?_
    intro enabled
    obtain ⟨sameName,sameValue⟩ := strings (by rw [enabled]; rfl)
    exact HeaderField.ext sameName sameValue rfl

theorem takes_field {e : Encoder} (settled : e.tableSizeUpdate = false) (same : e.dynTab.Same d.dynTab) (room : e.dynTab.table.len < 2^62)
    (buf : d.buf = (e.appendField settled [] f).2 ++ rest) :
    ∃ table, Takes d f table rest ∧ (e.appendField settled [] f).1.dynTab.Same table := by
  have found := searchTable_found same f
  have size := staticTable_len
  rw [appendField] at buf ⊢
  generalize e.searchTable f = answer at found buf ⊢
  obtain ⟨idx,whole⟩ := answer
  cases whole with
  | true =>
    rcases found with none | ⟨found,entry,positive,within,name,value⟩
    · cases none
    obtain ⟨plain,value⟩ := value rfl
    refine ⟨d.dynTab,takes_indexed allows block (by lia) positive entry ?_ buf,same⟩
    exact HeaderField.ext name value plain.symm
  | false =>
    simp only [Bool.false_eq_true,if_false] at buf ⊢
    have plain : e.shouldIndex f = true → f.sensitive = false := by
      intro yes
      rw [shouldIndex,Bool.and_eq_true] at yes
      simpa using yes.1
    have tables : Same (if e.shouldIndex f then e.addEntry settled f else e).dynTab
        (if e.shouldIndex f then d.dynTab.add f else d.dynTab) := by
      split
      · exact same.add f
      · exact same
    refine ⟨_,?_,tables⟩
    rcases found with none | ⟨found,entry,positive,within,name,_⟩
    · rw [Prod.mk.injEq] at none
      obtain ⟨nameLit,appendedName,name⟩ := appendHpackString_literal [encodeTypeByte (e.shouldIndex f) f.sensitive] allows.goName
      obtain ⟨valueLit,appended,value⟩ := appendHpackString_literal ([encodeTypeByte (e.shouldIndex f) f.sensitive] ++ nameLit) allows.goValue
      rw [if_pos none.1,appendNewName,nil_append,appendedName,appended,←appendVarInt_zero] at buf
      simp only [append_assoc] at buf
      exact takes_literal allows block _ plain (by lia) value (.written name) buf
    · obtain ⟨valueLit,appended,value⟩ := appendHpackString_literal
        (orAt (appendVarInt [] (if e.shouldIndex f then 6 else 4) idx) 0 (encodeTypeByte (e.shouldIndex f) f.sensitive)) allows.goValue
      rw [if_neg (by lia : ¬idx = 0),appendIndexedName,length_nil,appended,append_assoc] at buf
      exact takes_literal allows block _ plain (by lia) value (.entry positive entry name) buf

omit block in
theorem appendField_length (e : Encoder) (settled : e.tableSizeUpdate = false) : 0 < (e.appendField settled [] f).2.length := by
  have some : ∀ n i flag, 0 < (orAt (appendVarInt [] n i) 0 flag).length := by
    intro n i flag
    rw [orAt,length_modify]
    exact length_pos_iff.mpr (appendVarInt_ne_nil n i)
  rw [appendField]
  simp only
  split
  · exact some _ _ _
  simp only
  split
  · rw [appendNewName]
    obtain ⟨nameLit,appendedName,_⟩ := appendHpackString_literal ([] ++ [encodeTypeByte (e.shouldIndex f) f.sensitive]) allows.goName
    obtain ⟨valueLit,appended,_⟩ := appendHpackString_literal ([] ++ [encodeTypeByte (e.shouldIndex f) f.sensitive] ++ nameLit) allows.goValue
    rw [appendedName,appended]
    simp
  · rw [appendIndexedName]
    obtain ⟨valueLit,appended,_⟩ := appendHpackString_literal (orAt (appendVarInt [] (if e.shouldIndex f then 6 else 4) (e.searchTable f).1) 0
      (encodeTypeByte (e.shouldIndex f) f.sensitive)) allows.goValue
    rw [length_nil,appended,length_append]
    exact Nat.add_pos_left (some _ _ _) _
end

-- No Go slice holds 2^62 entries: the table stays below that while the fields are written.
def TableFits (e : Encoder) (fields : List HeaderField) : Prop :=
  ∀ k, (e.writeFields (fields.take k)).1.dynTab.table.len < 2^62

section
variable {e : Encoder} (settled : e.tableSizeUpdate = false)
include settled

theorem appendField_settled (buf : Bytes) (f : HeaderField) :
    (e.appendField settled buf f).1.tableSizeUpdate = false := by
  rw [appendField]
  simp only
  split
  · exact settled
  split
  · exact settled
  · exact settled

theorem appendField_len (buf : Bytes) (f : HeaderField) :
    (e.appendField settled buf f).1.dynTab.table.len ≤ e.dynTab.table.len+1 := by
  rw [appendField]
  simp only
  split
  · exact le_succ _
  split
  · exact e.dynTab.add_len f
  · exact le_succ _

theorem writeFields_cons (f : HeaderField) (fields : List HeaderField) :
    e.writeFields (f :: fields) = (((e.appendField settled [] f).1.writeFields fields).1,
      (e.appendField settled [] f).2 ++ ((e.appendField settled [] f).1.writeFields fields).2) := by
  have flush : e.flushTableSize = (e,[]) := by rw [flushTableSize,if_neg (by rw [settled]; exact Bool.false_ne_true)]
  have write : e.writeField f = e.appendField settled [] f := by simp [writeField,flush]
  rw [writeFields,write]

theorem TableFits.rest (fits : TableFits e (f :: fields)) :
    e.dynTab.table.len < 2^62 ∧ TableFits (e.appendField settled [] f).1 fields := by
  refine ⟨fits 0,?_⟩
  intro k
  have next := fits (k+1)
  rw [List.take_succ_cons,writeFields_cons settled] at next
  exact next

theorem tableFits_of_length (few : e.dynTab.table.len+fields.length < 2^62) :
    TableFits e fields := by
  intro k
  induction fields generalizing e k with
  | nil => rw [List.take_nil]; exact few
  | cons f fields ih =>
    rw [List.length_cons] at few
    have len := appendField_len settled [] f
    cases k with
    | zero => exact lt_of_le_of_lt (le_add_right _ _) few
    | succ k =>
      rw [List.take_succ_cons,writeFields_cons settled]
      exact ih (appendField_settled settled [] f) (by lia) k
end

theorem Allows.kept (allows : d.Allows f) (emits : Emits d d' fields) : d'.Allows f :=
  ⟨emits.maxStrLen ▸ allows.name,emits.maxStrLen ▸ allows.value,allows.goName,allows.goValue⟩

theorem writeLoop_fields (written : Nat) : ∀ fields {e : Encoder} {d : Decoder} {rounds}, e.tableSizeUpdate = false → Same e.dynTab d.dynTab →
    TableFits e fields → (∀ f ∈ fields, d.Allows f) →
    (d.maxHeaderBytes = 0 ∨ d.headerBytes.toNat+listSizes fields ≤ d.maxHeaderBytes.toNat) →
    d.buf = (e.writeFields fields).2 → d.buf.length ≤ rounds →
    ∃ d', writeLoop written rounds d = (d',written,none) ∧ d.Emits d' fields ∧ Same (e.writeFields fields).1.dynTab d'.dynTab := by
  intro fields
  induction fields with
  | nil =>
    intro e d rounds _ same _ _ _ buf _
    refine ⟨d,?_,Emits.refl d,same⟩
    cases rounds with
    | zero => rfl
    | succ rounds => rw [writeLoop,buf]; rfl
  | cons f fields ih =>
    intro e d rounds settled same fits allows block buf enough
    have first := allows f (List.mem_cons_self ..)
    obtain ⟨room,fits'⟩ := fits.rest settled
    have bytes := appendField_length first e settled
    rw [writeFields_cons settled] at buf ⊢
    simp only [listSizes,List.map_cons,List.sum_cons] at block
    obtain ⟨table,takes,same'⟩ := takes_field first (block.imp_right fun below => by lia) settled same room buf
    rw [buf,List.length_append] at enough
    obtain ⟨rounds,rfl⟩ : ∃ k, rounds = k+1 := ⟨rounds-1,by lia⟩
    obtain ⟨next,step,emits,buf',rfl⟩ := takes written rounds
    have block' : next.maxHeaderBytes = 0 ∨ next.headerBytes.toNat+listSizes fields ≤ next.maxHeaderBytes.toNat := by
      rw [emits.maxHeaderBytes]
      rcases block with none | below
      · exact .inl none
      · refine emits.headerBytes.imp_right fun counted => ?_
        simp only [listSizes,List.map_cons,List.map_nil,List.sum_cons,List.sum_nil] at counted ⊢
        lia
    have enough' : next.buf.length ≤ rounds := by rw [buf']; lia
    obtain ⟨last,run,emits',same''⟩ := ih (appendField_settled settled [] f) same' fits'
      (fun g mem => (allows g (List.mem_cons_of_mem _ mem)).kept emits) block' buf' enough'
    exact ⟨last,step.trans run,emits.trans emits',same''⟩
end Decoder
open Decoder in
theorem tables_in_step (e : Encoder) (d : Decoder) (fields : List HeaderField) (same : Same e.dynTab d.dynTab)
    (settled : e.tableSizeUpdate = false) (whole : d.saveBuf = []) (allows : ∀ f ∈ fields, d.Allows f)
    (block : d.maxHeaderBytes = 0 ∨ d.headerBytes.toNat+listSizes fields ≤ d.maxHeaderBytes.toNat) (fits : TableFits e fields) :
    ∃ d', d.write (e.writeFields fields).2 = (d',(e.writeFields fields).2.length,none) ∧
      d'.emitted = d.emitted ++ (if d.emitEnabled then fields else []) ∧ Same (e.writeFields fields).1.dynTab d'.dynTab := by
  rw [write]
  split
  · rename_i empty
    have none : fields = [] := by
      cases fields with
      | nil => rfl
      | cons f fields =>
        have bytes := appendField_length (allows f (List.mem_cons_self ..)) e settled
        rw [writeFields_cons settled,List.length_append] at empty
        lia
    subst none
    exact ⟨d,by rw [empty],by simp,same⟩
  · rw [if_pos (by rw [whole]; rfl)]
    have allows' : ∀ f ∈ fields, Allows {d with buf := (e.writeFields fields).2} f := fun f mem =>
      ⟨(allows f mem).name,(allows f mem).value,(allows f mem).goName,(allows f mem).goValue⟩
    have start : Same e.dynTab ({d with buf := (e.writeFields fields).2} : Decoder).dynTab := same
    obtain ⟨d',run,emits,same'⟩ := writeLoop_fields (e.writeFields fields).2.length fields settled start fits allows' block rfl (le_refl _)
    exact ⟨d',run,emits.emitted,same'⟩

def sampleFields : List HeaderField :=
  [⟨ascii ":method",ascii "GET",false⟩,⟨ascii "x-request",ascii "7",false⟩,⟨ascii "x-request",ascii "7",false⟩,
    ⟨ascii "authorization",ascii "Basic Zm9v",true⟩]

theorem sample_fields_in_step : ∃ d', (Decoder.new 4096).write (({} : Encoder).writeFields sampleFields).2 =
      (d',(({} : Encoder).writeFields sampleFields).2.length,none) ∧
    d'.emitted = sampleFields ∧ Same (({} : Encoder).writeFields sampleFields).1.dynTab d'.dynTab :=
  tables_in_step {} (Decoder.new 4096) sampleFields ⟨⟨rfl,rfl⟩,rfl⟩ rfl rfl
    (by intro f mem; exact ⟨by revert f; decide,by revert f; decide,by revert f; decide,by revert f; decide⟩)
    (by decide) (Decoder.tableFits_of_length rfl (by decide))

theorem hpackString_reads_back (d : Decoder) (rest : Bytes) (fits : s.length < 2^63) (limit : d.maxStrLen = 0 ∨ (s.length : Int) ≤ d.maxStrLen) :
    ∃ u, d.readString (appendHpackString [] s ++ rest) = .ok (u,rest) ∧ d.decodeString u = .ok s := by
  obtain ⟨lit,eq,reads⟩ := appendHpackString_literal [] fits
  rw [eq,List.nil_append]
  exact reads d rest limit

theorem method_reads_back : ∃ u, (Decoder.new 4096).readString (appendHpackString [] (ascii "GET") ++ [1]) = .ok (u,[1]) ∧
    (Decoder.new 4096).decodeString u = .ok (ascii "GET") :=
  hpackString_reads_back _ [1] (by decide) (.inr (by decide))
end FhServer

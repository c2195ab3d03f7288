import FhServer.HpackReading
import FhServer.HpackSync
import FhServer.Transitions

namespace FhServer
open Fragments Transitions List Decoder UInt8

def HeaderFieldTable.reset (t : HeaderFieldTable) : HeaderFieldTable :=
  {t with
    ents := []
    evictCount := 0
    byName := fun _ => 0
    byNameValue := fun _ => 0
    names := no_names
    pairs := no_pairs}

namespace Decoder
variable (d : Decoder)

def reset (maxDynTableSize : UInt32) : Decoder :=
  let limit := if maxDynTableSize = 0 then maxDynamicTableSize else maxDynTableSize
  {d with
    emitted := []
    emitEnabled := true
    firstField := true
    saveBuf := []
    headerBytes := 0
    maxStrLen := maxHeaderFieldSize
    maxHeaderBytes := maxHeaderBlockSize
    dynTab := DynamicTable.setMaxSize
      {d.dynTab with table := d.dynTab.table.reset, allowedMaxSize := limit, size := 0, fits := .inr rfl} limit}

def setMaxStringLength (n : Int) : Decoder := {d with maxStrLen := n}

def setMaxHeaderBytes (n : UInt32) : Decoder := {d with maxHeaderBytes := n}

def setEmitFunc : Decoder := {d with emitted := []}

def setEmitEnabled (v : Bool) : Decoder := {d with emitEnabled := v}

def setMaxDynamicTableSize (v : UInt32) : Decoder := {d with dynTab := d.dynTab.setMaxSize v}

def setAllowedMaxDynamicTableSize (v : UInt32) : Decoder := {d with dynTab := {d.dynTab with allowedMaxSize := v}}

-- The fields go to a function of their own, and the one before comes back at the end.
def decodeFull (p : Bytes) : Decoder × Except HpackError (List HeaderField) :=
  match {d with emitted := []}.write p with
  | (after,_,some e) => ({after with emitted := d.emitted},.error e)
  | (after,_,none) =>
    match after.close with
    | (last,some e) => ({last with emitted := d.emitted},.error e)
    | (last,none) => ({last with emitted := d.emitted},.ok last.emitted)
end Decoder

inductive DecoderCall where
  | write (p : Bytes)
  | close
  | decodeFull (p : Bytes)
  | setMaxStringLength (n : Int)
  | setMaxHeaderBytes (n : UInt32)
  | setEmitFunc
  | setEmitEnabled (v : Bool)
  | setMaxDynamicTableSize (v : UInt32)
  | setAllowedMaxDynamicTableSize (v : UInt32)

def DecoderCall.run (d : Decoder) : DecoderCall → Decoder
  | .write p => (d.write p).1
  | .close => d.close.1
  | .decodeFull p => (d.decodeFull p).1
  | .setMaxStringLength n => d.setMaxStringLength n
  | .setMaxHeaderBytes n => d.setMaxHeaderBytes n
  | .setEmitFunc => d.setEmitFunc
  | .setEmitEnabled v => d.setEmitEnabled v
  | .setMaxDynamicTableSize v => d.setMaxDynamicTableSize v
  | .setAllowedMaxDynamicTableSize v => d.setAllowedMaxDynamicTableSize v

structure DecoderPool where
  maxDynTable : UInt32
  maxStrLen : Int
  maxHeaderBytes : UInt32
  free : List Decoder := []
  held : List Decoder := []

namespace DecoderPool
variable (p : DecoderPool)

def newDecoder : Decoder := ((new p.maxDynTable).setMaxStringLength p.maxStrLen).setMaxHeaderBytes p.maxHeaderBytes

-- The sync.Pool hands out any of its decoders or a new one.
def pick : Option Nat → Option (Decoder × List Decoder)
  | none => some (p.newDecoder,p.free)
  | some i => p.free[i]?.map fun d => (d,p.free.eraseIdx i)

def get (choice : Option Nat) : Option (Decoder × DecoderPool) :=
  (p.pick choice).map fun (d,free) =>
    let d := d.reset p.maxDynTable
    (d,{p with free := free, held := p.held ++ [d]})

def put (i : Nat) : Option DecoderPool :=
  p.held[i]?.map fun d => {p with held := p.held.eraseIdx i, free := p.free ++ [d]}
end DecoderPool

inductive PoolCall where
  | get (choice : Option Nat)
  | use (i : Nat) (call : DecoderCall)
  | put (i : Nat)
  | lose (i : Nat)

def PoolCall.run (p : DecoderPool) : PoolCall → Option DecoderPool
  | .get choice => (p.get choice).map Prod.snd
  | .use i call => p.held[i]?.map fun d => {p with held := p.held.set i (call.run d)}
  | .put i => p.put i
  | .lose i => some {p with free := p.free.eraseIdx i}

-- The calls that a header block consists of, and what its caller sees of them: the result and the fields so far.
inductive BlockCall where
  | write (p : Bytes)
  | close

structure Answer where
  n : Nat
  error : Option HpackError
  emitted : List HeaderField

namespace Decoder

def answer (d : Decoder) : BlockCall → Decoder × Answer
  | .write p =>
    match d.write p with
    | (d,n,error) => (d,⟨n,error,d.emitted⟩)
  | .close =>
    match d.close with
    | (d,error) => (d,⟨0,error,d.emitted⟩)

def answers (d : Decoder) : List BlockCall → List Answer
  | [] => []
  | call :: calls => (d.answer call).2 :: answers (d.answer call).1 calls
end Decoder
section
variable {d : Decoder}

theorem answer_buf (d : Decoder) (buf : Bytes) (call : BlockCall) :
    (({d with buf := buf} : Decoder).answer call).2 = (d.answer call).2 ∧
      ∃ other, (({d with buf := buf} : Decoder).answer call).1 = {(d.answer call).1 with buf := other} := by
  cases call with
  | close =>
    simp only [Decoder.answer,close]
    split
    · exact ⟨rfl,buf,rfl⟩
    · exact ⟨rfl,buf,rfl⟩
  | write p =>
    simp only [Decoder.answer,write]
    split
    · exact ⟨rfl,buf,rfl⟩
    split
    · exact ⟨rfl,_,rfl⟩
    · split
      · exact ⟨rfl,buf,rfl⟩
      · exact ⟨rfl,_,rfl⟩

theorem answers_buf (d : Decoder) (buf : Bytes) (calls : List BlockCall) : ({d with buf := buf} : Decoder).answers calls = d.answers calls := by
  induction calls generalizing d buf with
  | nil => rfl
  | cons call calls ih =>
    obtain ⟨same,other,after⟩ := answer_buf d buf call
    rw [answers,answers,same,after,ih]

theorem reset_eq (d : Decoder) (maxDynTable : UInt32) : d.reset maxDynTable = {new maxDynTable with buf := d.buf} := rfl
end

def fieldBytes (v : Bytes) : Bytes := 0 :: 0 :: ofNat v.length :: v

structure HeaderSpent (d : Decoder) (limit h : Nat) : Prop where
  saved : d.saveBuf = []
  strings : d.maxStrLen = maxHeaderFieldSize
  emits : d.emitEnabled = true
  limited : d.maxHeaderBytes.toNat = limit
  bytes : limit ≠ 0 → d.headerBytes.toNat = h

section
variable {d : Decoder} {limit h : Nat} {v : Bytes}

def spending (k : Nat) (v : Bytes) : List BlockCall := replicate k (.write (fieldBytes [])) ++ [.write (fieldBytes v)]

section
variable (spent : HeaderSpent d limit h) (short : v.length < 32)
include spent short

theorem readLiteral_fieldBytes (buf : d.buf = fieldBytes v) :
    d.readLiteral 4 .indexedFalse = .ok (⟨[],v,false⟩,[]) := by
  have small : (ofNat v.length).toNat = v.length := by
    exact Nat.mod_eq_of_lt (by lia)
  have plain : ofNat v.length &&& 0x80 = 0 := by
    have each : ∀ n < 32, ofNat n &&& 0x80 = 0 := by decide
    exact each _ short
  have length : readVarInt 7 (ofNat v.length :: v) = .ok (v.length,v) := by
    have each : ∀ n < 32, n &&& (1 <<< 7-1) = n ∧ n < 1 <<< 7-1 := by decide
    rw [readVarInt,small,(each _ short).1]
    exact if_pos (each _ short).2
  have within : ∀ n < 32, ¬(d.maxStrLen ≠ 0 ∧ ((n : Nat) : Int) > d.maxStrLen64) := by
    intro n low both
    rw [maxStrLen64,spent.strings] at both
    have := both.2
    simp only [maxHeaderFieldSize] at this
    lia
  have name : d.readString (0 :: ofNat v.length :: v) = .ok (⟨[],false⟩,ofNat v.length :: v) := by
    have zero : readVarInt 7 (0 :: ofNat v.length :: v) = .ok (0,ofNat v.length :: v) := rfl
    rw [readString_eq,zero]
    show (if _ then _ else _) = _
    rw [if_neg (within 0 (by decide))]
    rfl
  have value : d.readString (ofNat v.length :: v) = .ok (⟨v,false⟩,[]) := by
    rw [readString_eq,length]
    show (if _ then _ else _) = _
    rw [if_neg (within _ short),if_neg (Nat.lt_irrefl _),plain,take_length,drop_length]
    rfl
  have parts : d.readParts 4 d.buf = .ok ((.inr ⟨[],false⟩,⟨v,false⟩),[]) := by
    have index : readVarInt 4 d.buf = .ok (0,0 :: ofNat v.length :: v) := by
      rw [buf]
      rfl
    rw [d.readParts_new index,andThen,name]
    simp only [checking,value]
    rfl
  rw [readLiteral_eq,parts]
  simp only [decodeParts,spent.emits,Bool.true_or,if_true]
  rfl

theorem write_fieldBytes :
    d.write (fieldBytes v) = match callEmit {d with buf := []} ⟨[],v,false⟩ with
      | (after,error) => ({after with firstField := false},v.length+3,error) := by
  have read := readLiteral_fieldBytes (d := {d with buf := fieldBytes v}) ⟨spent.saved,spent.strings,spent.emits,spent.limited,spent.bytes⟩ short rfl
  have parsed : ({d with buf := fieldBytes v} : Decoder).parseHeaderFieldRepr 0 = callEmit {d with buf := []} ⟨[],v,false⟩ := by
    show parseFieldLiteral {d with buf := fieldBytes v} 4 .indexedFalse = _
    rw [parseFieldLiteral,read]
    rfl
  have slow : ¬((0 : UInt8) &&& 0x80 ≠ 0 ∧ ((0 : UInt8) &&& 0x7f).toNat > 0 ∧ ((0 : UInt8) &&& 0x7f).toNat ≤ staticTableEntries.length) := by
    exact fun both => both.1 rfl
  obtain ⟨empty,final⟩ := callEmit_buf {d with buf := []} ⟨[],v,false⟩
  rw [write_plain (p := fieldBytes v) spent.saved (cons_ne_nil _ _)]
  cases emit : callEmit {d with buf := []} ⟨[],v,false⟩ with
  | mk after error =>
    rw [emit] at parsed empty final
    cases error with
    | none =>
      have empty : ({after with firstField := false} : Decoder).buf = [] := empty
      exact (writeLoop_parsed rfl slow parsed _ _).trans (writeLoop_done empty _ _)
    | some e => exact writeLoop_failed rfl slow parsed (fun same => final (congrArg some same)) _ _

theorem callEmit_spent (room : h+64 < 2^32) :
    (limit ≠ 0 ∧ limit < h+32+v.length ∧ (d.callEmit ⟨[],v,false⟩).2 = some .headerListSize) ∨
      ((limit = 0 ∨ h+32+v.length ≤ limit) ∧ (d.callEmit ⟨[],v,false⟩).2 = none ∧ HeaderSpent (d.callEmit ⟨[],v,false⟩).1 limit (h+32+v.length)) := by
  obtain ⟨f,is⟩ : ∃ f : HeaderField, f = ⟨[],v,false⟩ := ⟨_,rfl⟩
  rw [← is]
  have strings : ¬(d.maxStrLen ≠ 0 ∧ ((f.name.length : Int) > d.maxStrLen ∨ (f.value.length : Int) > d.maxStrLen)) := by
    rw [spent.strings,maxHeaderFieldSize,is]
    rintro ⟨-,low | long⟩
    · cases low
    · have long : (v.length : Int) > 8192 := long
      lia
  have size : f.size.toNat = 32+v.length := by
    have total : f.listSize = 32+v.length := by
      rw [is]
      show 0+v.length+32 = _
      lia
    rw [HeaderField.size,UInt32.toNat_ofNat',total]
    exact Nat.mod_eq_of_lt (by lia)
  by_cases unlimited : d.maxHeaderBytes = 0
  · have zero : limit = 0 := by rw [← spent.limited,unlimited]; rfl
    have emit : d.callEmit f = ({d with emitted := d.emitted ++ [f]},none) := by
      rw [callEmit,if_neg strings]
      simp [unlimited,spent.emits]
    rw [emit]
    exact .inr ⟨.inl zero,rfl,spent.saved,spent.strings,spent.emits,spent.limited,fun some => absurd zero some⟩
  · have limited : limit ≠ 0 := fun zero => unlimited (UInt32.toNat_inj.mp (spent.limited.trans zero))
    have sum : (d.headerBytes+f.size).toNat = h+32+v.length := by
      rw [UInt32.toNat_add,size,spent.bytes limited,Nat.mod_eq_of_lt (by lia)]
      lia
    have above : d.headerBytes+f.size > d.maxHeaderBytes ↔ limit < h+32+v.length := by
      rw [gt_iff_lt,UInt32.lt_iff_toNat_lt,sum,spent.limited]
    by_cases beyond : limit < h+32+v.length
    · have emit : (d.callEmit f).2 = some .headerListSize := by
        rw [callEmit,if_neg strings]
        simp [unlimited,if_pos (above.mpr beyond)]
      exact .inl ⟨limited,beyond,emit⟩
    · have emit : d.callEmit f = ({d with headerBytes := d.headerBytes+f.size, emitted := d.emitted ++ [f]},none) := by
        rw [callEmit,if_neg strings]
        simp [unlimited,if_neg (mt above.mp beyond),spent.emits]
      rw [emit]
      exact .inr ⟨.inr (Nat.not_lt.mp beyond),rfl,spent.saved,spent.strings,spent.emits,spent.limited,fun _ => sum⟩

theorem write_spent (room : h+64 < 2^32) :
    (limit ≠ 0 ∧ limit < h+32+v.length ∧ (d.answer (.write (fieldBytes v))).2.error = some .headerListSize) ∨
      ((limit = 0 ∨ h+32+v.length ≤ limit) ∧ (d.answer (.write (fieldBytes v))).2.error = none ∧
        HeaderSpent (d.answer (.write (fieldBytes v))).1 limit (h+32+v.length)) := by
  have step := callEmit_spent (d := {d with buf := []}) ⟨spent.saved,spent.strings,spent.emits,spent.limited,spent.bytes⟩ short room
  rw [Decoder.answer,write_fieldBytes spent short]
  rcases step with ⟨limited,beyond,failed⟩ | ⟨within,fine,after⟩
  · exact .inl ⟨limited,beyond,failed⟩
  · exact .inr ⟨within,fine,after.saved,after.strings,after.emits,after.limited,after.bytes⟩

theorem spending_iff (room : h+32*k+64 < 2^32) :
    (∀ a ∈ d.answers (spending k v), a.error = none) ↔ limit = 0 ∨ h+32*k+32+v.length ≤ limit := by
  induction k generalizing d h with
  | zero =>
    show (∀ a ∈ [(d.answer (.write (fieldBytes v))).2], a.error = none) ↔ _
    rw [forall_mem_singleton]
    rcases write_spent spent short (by lia) with ⟨limited,beyond,failed⟩ | ⟨within,fine,-⟩
    · rw [failed]
      refine ⟨nofun,?_⟩
      rintro (zero | fits)
      · exact absurd zero limited
      · lia
    · exact ⟨fun _ => within,fun _ => fine⟩
  | succ k ih =>
    show (∀ a ∈ (d.answer (.write (fieldBytes []))).2 :: (d.answer (.write (fieldBytes []))).1.answers (spending k v), a.error = none) ↔ _
    rw [forall_mem_cons]
    rcases write_spent (v := []) spent (by decide) (by lia) with ⟨limited,beyond,failed⟩ | ⟨within,fine,after⟩
    · rw [failed]
      refine ⟨fun none => (nomatch none.1),?_⟩
      rintro (zero | fits)
      · exact absurd zero limited
      · rw [length_nil] at beyond
        lia
    · rw [length_nil,Nat.add_zero] at after
      rw [ih after (by lia),fine]
      refine ⟨fun both => ?_,fun fits => ⟨rfl,?_⟩⟩
      · refine both.2.imp_right fun fits => ?_
        lia
      · refine fits.imp_right fun fits => ?_
        lia
end
end
section
variable {maxDynTable : UInt32} {n : Int} {limit : UInt32}

def limitedDecoder (maxDynTable : UInt32) (n : Int) (limit : UInt32) : Decoder := ((new maxDynTable).setMaxStringLength n).setMaxHeaderBytes limit

theorem limitedDecoder_spent (maxDynTable limit : UInt32) : HeaderSpent (limitedDecoder maxDynTable maxHeaderFieldSize limit) limit.toNat 0 := ⟨rfl,rfl,rfl,rfl,fun _ => rfl⟩

theorem announced_error {length : Nat} (reads : readVarInt 7 announce = .ok (length,[])) (few : announce.length ≤ 8)
    (more : 0 < length) (nonneg : 0 ≤ n) :
    ((limitedDecoder maxDynTable n limit).answer (.write (0 :: announce))).2.error =
      if n ≠ 0 ∧ (n < length ∨ (2*(n+8)).bmod (2^64) < announce.length+1) then some .stringLength else none := by
  obtain ⟨first,rest,rfl⟩ : ∃ first rest, announce = first :: rest := by
    cases announce with
    | nil => cases reads
    | cons first rest => exact ⟨first,rest,rfl⟩
  let d : Decoder := {limitedDecoder maxDynTable n limit with buf := 0 :: first :: rest}
  have string : d.readString (first :: rest) = .error (if n ≠ 0 ∧ n < length then .stringLength else .needMore) := by
    have bound : d.maxStrLen64 = n := if_neg (Int.not_lt.mpr nonneg)
    rw [readString_eq,reads,bound]
    show (if n ≠ 0 ∧ n < length then _ else _) = _
    split
    · rfl
    · exact if_pos more
  have parsed : d.parseHeaderFieldRepr 0 = (d,some (if n ≠ 0 ∧ n < length then .stringLength else .needMore)) := by
    have literal : d.readLiteral 4 .indexedFalse = .error (if n ≠ 0 ∧ n < length then .stringLength else .needMore) := by
      rw [readLiteral_eq]
      have parts : d.readParts 4 d.buf = .error (if n ≠ 0 ∧ n < length then .stringLength else .needMore) := by
        have index : readVarInt 4 d.buf = .ok (0,first :: rest) := rfl
        rw [d.readParts_new index,andThen,string]
      rw [parts]
    show parseFieldLiteral d 4 .indexedFalse = _
    rw [parseFieldLiteral,literal]
  have slow : ¬((0 : UInt8) &&& 0x80 ≠ 0 ∧ ((0 : UInt8) &&& 0x7f).toNat > 0 ∧ ((0 : UInt8) &&& 0x7f).toNat ≤ staticTableEntries.length) :=
    fun both => both.1 rfl
  show (writeLoop (rest.length+2) ((rest.length+1)+1) d).2.2 = _
  by_cases long : n ≠ 0 ∧ n < length
  · rw [if_pos long] at parsed
    rw [writeLoop_failed rfl slow parsed (by rintro ⟨⟩),if_pos ⟨long.1,.inl long.2⟩]
  · rw [if_neg long] at parsed
    rw [writeLoop_cut rfl slow parsed,keepForMore]
    by_cases kept : d.maxStrLen ≠ 0 ∧ (d.buf.length : Int) > d.keptBound
    · rw [if_pos kept,if_pos ⟨kept.1,.inr kept.2⟩]
    · have saved : ¬ d.buf.length > maxSaveBufSize := by
        have size : d.buf.length ≤ 9 := Nat.succ_le_succ few
        have large : 9 < maxSaveBufSize := by decide
        lia
      rw [if_neg kept,if_neg saved,if_neg fun both => both.2.elim (fun far => long ⟨both.1,far⟩) fun far => kept ⟨both.1,far⟩]

theorem callEmit_negative {d : Decoder} (negative : d.maxStrLen < 0) (hf : HeaderField) : d.callEmit hf = (d,some .stringLength) := by
  rw [callEmit,if_pos]
  exact ⟨negative.ne,.inl (negative.trans_le (Int.natCast_nonneg _))⟩

theorem method_refused (negative : n < 0) : ((limitedDecoder maxDynTable n limit).answer (.write [0x82])).2.error = some .stringLength := by
  show (match callEmit {limitedDecoder maxDynTable n limit with buf := [], firstField := false} (staticTable.ents.getD 1 ⟨[],[],false⟩) with
    | (d,some e) => (d,1,some e)
    | (d,none) => writeLoop 1 0 d).2.2 = _
  rw [callEmit_negative negative]

theorem method_taken : ((limitedDecoder maxDynTable maxHeaderFieldSize maxHeaderBlockSize).answer (.write [0x82])).2.error = none := rfl

theorem limits_seen (same : ∀ calls, (limitedDecoder maxDynTable maxHeaderFieldSize maxHeaderBlockSize).answers calls = (limitedDecoder maxDynTable n limit).answers calls) :
    n = maxHeaderFieldSize ∧ limit = maxHeaderBlockSize := by
  have one : ∀ p, ((limitedDecoder maxDynTable maxHeaderFieldSize maxHeaderBlockSize).answer (.write p)).2.error =
      ((limitedDecoder maxDynTable n limit).answer (.write p)).2.error := fun p => congrArg Answer.error (List.cons.inj (same [.write p])).1
  have strings : n = maxHeaderFieldSize := by
    have nonneg : 0 ≤ n := by
      by_contra negative
      have method := one [0x82]
      rw [method_refused (Int.not_le.mp negative),method_taken] at method
      cases method
    have announced : ∀ length announce, readVarInt 7 announce = .ok (length,[]) → announce.length ≤ 8 → 0 < length →
        (maxHeaderFieldSize < length ↔ n ≠ 0 ∧ (n < length ∨ (2*(n+8)).bmod (2^64) < announce.length+1)) := by
      intro length announce reads few more
      have both := one (0 :: announce)
      rw [announced_error reads few more nonneg,announced_error reads few more (by decide)] at both
      have bound : (2*(maxHeaderFieldSize+8)).bmod (2^64) = 16400 := by decide
      have size : maxHeaderFieldSize = 8192 := rfl
      rw [bound] at both
      by_cases long : n ≠ 0 ∧ (n < length ∨ (2*(n+8)).bmod (2^64) < announce.length+1)
      · rw [if_pos long] at both
        split at both
        · lia
        · cases both
      · rw [if_neg long] at both
        split at both
        · cases both
        · lia
    generalize (2*(n+8)).bmod (2^64) = bound at announced
    have at_limit : (8192 : Int) < 8192 ↔ n ≠ 0 ∧ (n < 8192 ∨ bound < 4) := announced 8192 [0x7f,0x81,0x3f] rfl (by decide) (by decide)
    have above : (8192 : Int) < 8193 ↔ n ≠ 0 ∧ (n < 8193 ∨ bound < 4) := announced 8193 [0x7f,0x82,0x3f] rfl (by decide) (by decide)
    rw [maxHeaderFieldSize]
    lia
  refine ⟨strings,?_⟩
  rw [strings] at same
  have spends : ∀ total, 32 ≤ total → total ≤ 2^21 → ((limit.toNat = 0 ∨ total ≤ limit.toNat) ↔ total ≤ 2^20) := by
    intro total least most
    have split : 0+32*(total/32-1)+32+(replicate (total%32) (0 : UInt8)).length = total := by
      rw [length_replicate]
      lia
    have short : (replicate (total%32) (0 : UInt8)).length < 32 := by
      rw [length_replicate]
      exact Nat.mod_lt _ (by decide)
    have ours := spending_iff (limitedDecoder_spent maxDynTable limit) short (k := total/32-1) (by lia)
    have packages := spending_iff (limitedDecoder_spent maxDynTable maxHeaderBlockSize) short (k := total/32-1) (by lia)
    rw [same,ours,split] at packages
    have size : maxHeaderBlockSize.toNat = 2^20 := by decide
    lia
  have size : maxHeaderBlockSize.toNat = 2^20 := by decide
  refine UInt32.toNat_inj.mp ?_
  have above := spends (2^20+1) (by decide) (by decide)
  by_contra other
  have below := spends (max (limit.toNat+1) 32) (by lia) (by lia)
  lia
end

theorem PoolCall.run_config {p after : DecoderPool} {call : PoolCall} (ran : call.run p = some after) :
    after.maxDynTable = p.maxDynTable ∧ after.maxStrLen = p.maxStrLen ∧ after.maxHeaderBytes = p.maxHeaderBytes := by
  cases call with
  | get choice =>
    obtain ⟨pair,got,rfl⟩ := Option.map_eq_some_iff.mp ran
    obtain ⟨picked,-,rfl⟩ := Option.map_eq_some_iff.mp got
    exact ⟨rfl,rfl,rfl⟩
  | use i call | put i =>
    obtain ⟨d,-,rfl⟩ := Option.map_eq_some_iff.mp ran
    exact ⟨rfl,rfl,rfl⟩
  | lose i =>
    cases ran
    exact ⟨rfl,rfl,rfl⟩

theorem get_fresh {p after : DecoderPool} {choice : Option Nat} {d : Decoder} (got : p.get choice = some (d,after)) :
    ∀ calls, d.answers calls = (limitedDecoder p.maxDynTable maxHeaderFieldSize maxHeaderBlockSize).answers calls := by
  obtain ⟨picked,-,same⟩ := Option.map_eq_some_iff.mp got
  cases same
  intro calls
  rw [reset_eq]
  exact answers_buf _ picked.1.buf calls

theorem pooled_decoder_fresh_iff {maxDynTable : UInt32} {maxStrLen : Int} {maxHeaderBytes : UInt32} {p after : DecoderPool} {choice : Option Nat} {d : Decoder}
    (reached : Reached PoolCall.run (fun _ _ => True) ⟨maxDynTable,maxStrLen,maxHeaderBytes,[],[]⟩ p) (got : p.get choice = some (d,after)) :
    (∀ calls, d.answers calls = (((new maxDynTable).setMaxStringLength maxStrLen).setMaxHeaderBytes maxHeaderBytes).answers calls) ↔
      maxStrLen = maxHeaderFieldSize ∧ maxHeaderBytes = maxHeaderBlockSize := by
  have config : p.maxDynTable = maxDynTable := by
    refine Reached.keeps (fun p => p.maxDynTable = maxDynTable) rfl (fun before _ ran => ?_) reached
    rw [(PoolCall.run_config ran).1,before]
  have fresh := get_fresh got
  rw [config] at fresh
  refine ⟨fun same => limits_seen fun calls => (fresh calls).symm.trans (same calls),?_⟩
  rintro ⟨rfl,rfl⟩ calls
  exact fresh calls

-- A pool without limits hands out decoders that refuse a string of 8193 bytes.
theorem pool_limit_lost : ∃ d after, (⟨4096,0,0,[],[]⟩ : DecoderPool).get none = some (d,after) ∧
    (d.answer (.write [0,0x7f,0x82,0x3f])).2.error = some .stringLength ∧
      ((((new 4096).setMaxStringLength 0).setMaxHeaderBytes 0).answer (.write [0,0x7f,0x82,0x3f])).2.error = none :=
  ⟨_,_,rfl,by decide,by decide⟩

-- A decoder with a header list behind it and half a field in its buffer goes back to a pool with the limits of the package.
theorem used_decoder_fresh : ∃ p d after, Reached PoolCall.run (fun _ _ => True) ⟨4096,maxHeaderFieldSize,maxHeaderBlockSize,[],[]⟩ p ∧
    p.get (some 0) = some (d,after) ∧ ∀ calls, d.answers calls = (((new 4096).setMaxStringLength maxHeaderFieldSize).setMaxHeaderBytes maxHeaderBlockSize).answers calls := by
  obtain ⟨p,reached,some⟩ := play_reaches PoolCall.run (fun _ _ => True) ⟨4096,maxHeaderFieldSize,maxHeaderBlockSize,[],[]⟩
    (fun p => (p.get (some 0)).isSome = true) [.get none,.use 0 (.write [0x82,0x40]),.put 0] (by decide)
  obtain ⟨⟨d,after⟩,got⟩ := Option.isSome_iff_exists.mp some
  exact ⟨p,d,after,reached,got,(pooled_decoder_fresh_iff reached got).mpr ⟨rfl,rfl⟩⟩
end FhServer

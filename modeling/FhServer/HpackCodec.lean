import FhServer.HpackHuffman
import FhServer.HpackTable

namespace FhServer

inductive IndexType
  | indexedTrue
  | indexedFalse
  | indexedNever
deriving DecidableEq

def IndexType.indexed (it : IndexType) : Bool := it = .indexedTrue
def IndexType.sensitive (it : IndexType) : Bool := it = .indexedNever

def maxDynamicTableSize : UInt32 := 65536
def maxHeaderBlockSize : UInt32 := (1 : UInt32) <<< 20
def maxHeaderFieldSize : Int := 8192
def maxSaveBufSize : Nat := 1 <<< 20

-- emitted is what the emit callback has been given so far.
structure Decoder where
  dynTab : DynamicTable
  emitted : List HeaderField := []
  emitEnabled : Bool := true
  maxStrLen : Int := maxHeaderFieldSize
  maxHeaderBytes : UInt32 := maxHeaderBlockSize
  headerBytes : UInt32 := 0
  buf : Bytes := []
  saveBuf : Bytes := []
  firstField : Bool := true

structure UndecodedStr where
  b : Bytes
  isHuff : Bool

namespace Decoder

def new (maxDynTableSize : UInt32) : Decoder :=
  let limit := if maxDynTableSize = 0 then maxDynamicTableSize else maxDynTableSize
  {dynTab := DynamicTable.setMaxSize {allowedMaxSize := limit} limit}

section
variable (d : Decoder)

def maxTableIndex : Nat := d.dynTab.table.len+staticTable.len

def entryAt (i : Nat) : Option HeaderField :=
  if i = 0 then none
  else if i ≤ staticTable.len then staticTable.ents[i-1]?
  else if i > d.maxTableIndex then none
  else d.dynTab.table.ents[d.dynTab.table.len-(i-staticTable.len)]?

def maxStrLen64 : Int := if d.maxStrLen < 0 then d.maxStrLen+2^64 else d.maxStrLen

-- In int64, where the bound of a large limit wraps around.
def keptBound : Int := (2*(d.maxStrLen+8)).bmod (2^64)

def readString (p : Bytes) : Except HpackError (UndecodedStr × Bytes) :=
  match p with
  | [] => .error .needMore
  | first :: _ => do
    let (strLen,p) ← readVarInt 7 p
    if d.maxStrLen ≠ 0 ∧ (strLen : Int) > d.maxStrLen64 then throw .stringLength
    if p.length < strLen then throw .needMore
    return (⟨p.take strLen,first &&& 0x80 ≠ 0⟩,p.drop strLen)

def decodeString (u : UndecodedStr) : Except HpackError Bytes :=
  if u.isHuff then huffmanDecode [] d.maxStrLen u.b else .ok u.b

def callEmit (hf : HeaderField) : Decoder × Option HpackError :=
  if d.maxStrLen ≠ 0 ∧ ((hf.name.length : Int) > d.maxStrLen ∨ (hf.value.length : Int) > d.maxStrLen) then
    (d,some .stringLength)
  else
    let d := if d.maxHeaderBytes ≠ 0 then {d with headerBytes := d.headerBytes+hf.size} else d
    if d.maxHeaderBytes ≠ 0 ∧ d.headerBytes > d.maxHeaderBytes then (d,some .headerListSize)
    else if d.emitEnabled then ({d with emitted := d.emitted ++ [hf]},none)
    else (d,none)

def parseFieldIndexed : Decoder × Option HpackError :=
  match readVarInt 7 d.buf with
  | .error e => (d,some e)
  | .ok (idx,buf) =>
    match d.entryAt idx with
    | none => (d,some (.invalidIndex idx))
    | some hf => callEmit {d with buf := buf} ⟨hf.name,hf.value,false⟩

def readLiteral (n : Nat) (it : IndexType) : Except HpackError (HeaderField × Bytes) := do
  let (nameIdx,buf) ← readVarInt n d.buf
  let wantStr := d.emitEnabled || it.indexed
  if nameIdx > 0 then
    match d.entryAt nameIdx with
    | none => throw (.invalidIndex nameIdx)
    | some ihf =>
      let (uValue,buf) ← d.readString buf
      let value ← if wantStr then d.decodeString uValue else pure []
      return (⟨ihf.name,value,false⟩,buf)
  else
    let (uName,buf) ← d.readString buf
    let (uValue,buf) ← d.readString buf
    let name ← if wantStr then d.decodeString uName else pure []
    let value ← if wantStr then d.decodeString uValue else pure []
    return (⟨name,value,false⟩,buf)

def parseFieldLiteral (n : Nat) (it : IndexType) : Decoder × Option HpackError :=
  match d.readLiteral n it with
  | .error e => (d,some e)
  | .ok (hf,buf) =>
    let d := {d with buf := buf}
    let d := if it.indexed then {d with dynTab := d.dynTab.add hf} else d
    d.callEmit {hf with sensitive := it.sensitive}

def parseDynamicTableSizeUpdate : Decoder × Option HpackError :=
  if ¬d.firstField ∧ d.dynTab.size > 0 then (d,some (.lateSizeUpdate d.dynTab.size.toNat))
  else
    match readVarInt 5 d.buf with
    | .error e => (d,some e)
    | .ok (size,buf) =>
      if size > d.dynTab.allowedMaxSize.toNat then (d,some .sizeUpdateTooLarge)
      else ({d with dynTab := d.dynTab.setMaxSize (UInt32.ofNat size), buf := buf},none)

def parseHeaderFieldRepr (b : UInt8) : Decoder × Option HpackError :=
  if b &&& 0x80 ≠ 0 then d.parseFieldIndexed
  else if b &&& 0xc0 = 0x40 then d.parseFieldLiteral 6 .indexedTrue
  else if b &&& 0xf0 = 0x00 then d.parseFieldLiteral 4 .indexedFalse
  else if b &&& 0xf0 = 0x10 then d.parseFieldLiteral 4 .indexedNever
  else if b &&& 0xe0 = 0x20 then d.parseDynamicTableSizeUpdate
  else (d,some (.invalidEncoding b d.buf.length))

def keepForMore (written : Nat) : Decoder × Nat × Option HpackError :=
  if d.maxStrLen ≠ 0 ∧ (d.buf.length : Int) > d.keptBound then (d,0,some .stringLength)
  else if d.buf.length > maxSaveBufSize then (d,0,some .headerListSize)
  else ({d with saveBuf := d.buf},written,none)
end

-- Every representation takes at least one byte, so buf.length rounds are enough.
def writeLoop (written : Nat) : Nat → Decoder → Decoder × Nat × Option HpackError
  | 0,d => (d,written,none)
  | rounds+1,d =>
    match d.buf with
    | [] => (d,written,none)
    | b :: rest =>
      let idx := (b &&& 0x7f).toNat
      if b &&& 0x80 ≠ 0 ∧ idx > 0 ∧ idx ≤ staticTableEntries.length then
        match callEmit {d with buf := rest, firstField := false} (staticTable.ents.getD (idx-1) ⟨[],[],false⟩) with
        | (d,some e) => (d,written,some e)
        | (d,none) => writeLoop written rounds d
      else
        match d.parseHeaderFieldRepr b with
        | (d,some .needMore) => d.keepForMore written
        | (d,some e) => ({d with firstField := false},written,some e)
        | (d,none) => writeLoop written rounds {d with firstField := false}

def write (d : Decoder) (p : Bytes) : Decoder × Nat × Option HpackError :=
  if p.length = 0 then (d,0,none)
  else if d.saveBuf.length = 0 then writeLoop p.length p.length {d with buf := p}
  else if d.saveBuf.length+p.length > maxSaveBufSize then (d,0,some .headerListSize)
  else
    let buf := d.saveBuf ++ p
    writeLoop p.length buf.length {d with buf := buf, saveBuf := []}

def close (d : Decoder) : Decoder × Option HpackError :=
  if d.saveBuf.length > 0 then ({d with saveBuf := []},some (.truncated d.saveBuf.length))
  else ({d with firstField := true, headerBytes := 0},none)
end Decoder

def uint32Max : UInt32 := ~~~0
def initialHeaderTableSize : UInt32 := 4096

theorem le_uint32Max (v : UInt32) : v ≤ uint32Max := by
  exact Nat.le_of_lt_succ v.toNat_lt

-- Without a pending size update minSize is uint32Max, and the table has been cut down to minSize.
structure Encoder where
  dynTab : DynamicTable := DynamicTable.setMaxSize {} initialHeaderTableSize
  minSize : UInt32 := uint32Max
  maxSizeLimit : UInt32 := initialHeaderTableSize
  tableSizeUpdate : Bool := false
  quiet : tableSizeUpdate = false → minSize = uint32Max := by intro _; rfl
  cut : dynTab.size ≤ minSize ∨ dynTab.table.ents = [] := by exact .inr rfl

def appendHpackString (dst s : Bytes) : Bytes :=
  let huffLen := huffmanEncodeLength s
  if huffLen < s.length then orAt (appendHuffmanString (appendVarInt dst 7 huffLen) s) dst.length 0x80
  else appendVarInt dst 7 s.length ++ s

def encodeTypeByte (indexing sensitive : Bool) : UInt8 :=
  if sensitive then 0x10 else if indexing then 0x40 else 0x00

def appendIndexed (dst : Bytes) (i : Nat) : Bytes := orAt (appendVarInt dst 7 i) dst.length 0x80

def appendNewName (dst : Bytes) (f : HeaderField) (indexing : Bool) : Bytes :=
  appendHpackString (appendHpackString (dst ++ [encodeTypeByte indexing f.sensitive]) f.name) f.value

def appendIndexedName (dst : Bytes) (f : HeaderField) (i : Nat) (indexing : Bool) : Bytes :=
  let n := if indexing then 6 else 4
  appendHpackString (orAt (appendVarInt dst n i) dst.length (encodeTypeByte indexing f.sensitive)) f.value

def appendTableSize (dst : Bytes) (v : UInt32) : Bytes := orAt (appendVarInt dst 5 v.toNat) dst.length 0x20

namespace Encoder

def searchTable (e : Encoder) (f : HeaderField) : Nat × Bool :=
  let (i,nameValueMatch) := staticTable.search true f
  if nameValueMatch then (i,true)
  else
    let (j,found) := e.dynTab.table.search false f
    if found ∨ i = 0 ∧ j ≠ 0 then (j+staticTable.len,found) else (i,false)

def shouldIndex (e : Encoder) (f : HeaderField) : Bool := !f.sensitive && decide (f.size ≤ e.dynTab.maxSize)

def flushTableSize (e : Encoder) : Encoder × Bytes :=
  if e.tableSizeUpdate then
    let buf := if e.minSize < e.dynTab.maxSize then appendTableSize [] e.minSize else []
    ({e with
      tableSizeUpdate := false
      minSize := uint32Max
      quiet := fun _ => rfl
      cut := .inl (le_uint32Max _)},appendTableSize buf e.dynTab.maxSize)
  else (e,[])

theorem flushTableSize_settled (e : Encoder) : e.flushTableSize.1.tableSizeUpdate = false := by
  rw [flushTableSize]
  split
  · rfl
  · rename_i settled
    exact Bool.eq_false_iff.mpr settled

def addEntry (e : Encoder) (settled : e.tableSizeUpdate = false) (f : HeaderField) : Encoder :=
  {e with dynTab := e.dynTab.add f, cut := .inl (e.quiet settled ▸ le_uint32Max _)}

def appendField (e : Encoder) (settled : e.tableSizeUpdate = false) (buf : Bytes) (f : HeaderField) : Encoder × Bytes :=
  let (idx,nameValueMatch) := e.searchTable f
  if nameValueMatch then (e,appendIndexed buf idx)
  else
    let indexing := e.shouldIndex f
    (if indexing then e.addEntry settled f else e,
      if idx = 0 then appendNewName buf f indexing else appendIndexedName buf f idx indexing)

def writeField (e : Encoder) (f : HeaderField) : Encoder × Bytes :=
  e.flushTableSize.1.appendField e.flushTableSize_settled e.flushTableSize.2 f

def writeFields (e : Encoder) : List HeaderField → Encoder × Bytes
  | [] => (e,[])
  | f :: fields =>
    let (e,first) := e.writeField f
    let (e,rest) := writeFields e fields
    (e,first ++ rest)

def setMaxDynamicTableSize (e : Encoder) (v : UInt32) : Encoder :=
  let v := if v > e.maxSizeLimit then e.maxSizeLimit else v
  {e with
    minSize := if v < e.minSize then v else e.minSize
    tableSizeUpdate := true
    dynTab := e.dynTab.setMaxSize v
    quiet := fun set => absurd set.symm Bool.false_ne_true
    cut := by
      split
      · exact (e.dynTab.setMaxSize v).fits
      · exact e.dynTab.setMaxSize_below v e.cut}

def setMaxDynamicTableSizeLimit (e : Encoder) (v : UInt32) : Encoder :=
  let e := {e with maxSizeLimit := v}
  if e.dynTab.maxSize > v then
    {e with
      tableSizeUpdate := true
      dynTab := e.dynTab.setMaxSize v
      quiet := fun set => absurd set.symm Bool.false_ne_true
      cut := e.dynTab.setMaxSize_below v e.cut}
  else e
end Encoder
end FhServer

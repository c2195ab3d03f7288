import FhServer.CodeTree
import FhServer.HpackWire

namespace FhServer
open UInt8
open CodeTree (Node)

def huffmanCodes : List Nat :=
  [0x1ff8,0x7fffd8,0xfffffe2,0xfffffe3,0xfffffe4,0xfffffe5,0xfffffe6,0xfffffe7,
   0xfffffe8,0xffffea,0x3ffffffc,0xfffffe9,0xfffffea,0x3ffffffd,0xfffffeb,0xfffffec,
   0xfffffed,0xfffffee,0xfffffef,0xffffff0,0xffffff1,0xffffff2,0x3ffffffe,0xffffff3,
   0xffffff4,0xffffff5,0xffffff6,0xffffff7,0xffffff8,0xffffff9,0xffffffa,0xffffffb,
   0x14,0x3f8,0x3f9,0xffa,0x1ff9,0x15,0xf8,0x7fa,
   0x3fa,0x3fb,0xf9,0x7fb,0xfa,0x16,0x17,0x18,
   0x0,0x1,0x2,0x19,0x1a,0x1b,0x1c,0x1d,
   0x1e,0x1f,0x5c,0xfb,0x7ffc,0x20,0xffb,0x3fc,
   0x1ffa,0x21,0x5d,0x5e,0x5f,0x60,0x61,0x62,
   0x63,0x64,0x65,0x66,0x67,0x68,0x69,0x6a,
   0x6b,0x6c,0x6d,0x6e,0x6f,0x70,0x71,0x72,
   0xfc,0x73,0xfd,0x1ffb,0x7fff0,0x1ffc,0x3ffc,0x22,
   0x7ffd,0x3,0x23,0x4,0x24,0x5,0x25,0x26,
   0x27,0x6,0x74,0x75,0x28,0x29,0x2a,0x7,
   0x2b,0x76,0x2c,0x8,0x9,0x2d,0x77,0x78,
   0x79,0x7a,0x7b,0x7ffe,0x7fc,0x3ffd,0x1ffd,0xffffffc,
   0xfffe6,0x3fffd2,0xfffe7,0xfffe8,0x3fffd3,0x3fffd4,0x3fffd5,0x7fffd9,
   0x3fffd6,0x7fffda,0x7fffdb,0x7fffdc,0x7fffdd,0x7fffde,0xffffeb,0x7fffdf,
   0xffffec,0xffffed,0x3fffd7,0x7fffe0,0xffffee,0x7fffe1,0x7fffe2,0x7fffe3,
   0x7fffe4,0x1fffdc,0x3fffd8,0x7fffe5,0x3fffd9,0x7fffe6,0x7fffe7,0xffffef,
   0x3fffda,0x1fffdd,0xfffe9,0x3fffdb,0x3fffdc,0x7fffe8,0x7fffe9,0x1fffde,
   0x7fffea,0x3fffdd,0x3fffde,0xfffff0,0x1fffdf,0x3fffdf,0x7fffeb,0x7fffec,
   0x1fffe0,0x1fffe1,0x3fffe0,0x1fffe2,0x7fffed,0x3fffe1,0x7fffee,0x7fffef,
   0xfffea,0x3fffe2,0x3fffe3,0x3fffe4,0x7ffff0,0x3fffe5,0x3fffe6,0x7ffff1,
   0x3ffffe0,0x3ffffe1,0xfffeb,0x7fff1,0x3fffe7,0x7ffff2,0x3fffe8,0x1ffffec,
   0x3ffffe2,0x3ffffe3,0x3ffffe4,0x7ffffde,0x7ffffdf,0x3ffffe5,0xfffff1,0x1ffffed,
   0x7fff2,0x1fffe3,0x3ffffe6,0x7ffffe0,0x7ffffe1,0x3ffffe7,0x7ffffe2,0xfffff2,
   0x1fffe4,0x1fffe5,0x3ffffe8,0x3ffffe9,0xffffffd,0x7ffffe3,0x7ffffe4,0x7ffffe5,
   0xfffec,0xfffff3,0xfffed,0x1fffe6,0x3fffe9,0x1fffe7,0x1fffe8,0x7ffff3,
   0x3fffea,0x3fffeb,0x1ffffee,0x1ffffef,0xfffff4,0xfffff5,0x3ffffea,0x7ffff4,
   0x3ffffeb,0x7ffffe6,0x3ffffec,0x3ffffed,0x7ffffe7,0x7ffffe8,0x7ffffe9,0x7ffffea,
   0x7ffffeb,0xffffffe,0x7ffffec,0x7ffffed,0x7ffffee,0x7ffffef,0x7fffff0,0x3ffffee]

def huffmanCodeLen : List Nat :=
  [13,23,28,28,28,28,28,28,28,24,30,28,28,30,28,28,28,28,28,28,28,28,30,28,28,28,28,28,28,28,28,28,
   6,10,10,12,13,6,8,11,10,10,8,11,8,6,6,6,5,5,5,6,6,6,6,6,6,6,7,8,15,6,12,10,
   13,6,7,7,7,7,7,7,7,7,7,7,7,7,7,7,7,7,7,7,7,7,7,7,8,7,8,13,19,13,14,6,
   15,5,6,5,6,5,6,6,6,5,7,7,6,6,6,5,6,7,6,5,5,6,7,7,7,7,7,15,11,14,13,28,
   20,22,20,20,22,22,22,23,22,23,23,23,23,23,24,23,24,24,22,23,24,23,23,23,23,21,22,23,22,23,23,24,
   22,21,20,22,22,23,23,21,23,22,22,24,21,22,23,23,21,21,22,21,23,22,23,23,20,22,22,22,23,22,22,23,
   26,26,20,19,22,23,22,25,26,26,26,27,27,26,24,25,19,21,26,27,27,26,27,24,21,21,26,26,28,27,27,27,
   20,24,20,21,22,21,21,23,22,22,25,25,24,24,26,23,26,27,26,26,27,27,27,27,27,28,27,27,27,27,27,26]

def huffmanCode (c : UInt8) : Nat := huffmanCodes.getD c.toNat 0
def huffmanLen (c : UInt8) : Nat := huffmanCodeLen.getD c.toNat 0

-- AppendHuffmanString: x is a uint64 that holds the n bits not yet written, and four bytes are written as
-- soon as there are thirty-two.
def appendHuffmanLoop (dst : Bytes) (x n : Nat) : Bytes → Bytes × Nat × Nat
  | [] => (dst,x,n)
  | c :: s =>
    let n := n+huffmanLen c
    let x := (x <<< (huffmanLen c%64))%2^64 ||| huffmanCode c
    if n ≥ 32 then
      let n := n%32
      let y := (x >>> n)%2^32
      appendHuffmanLoop (dst ++ [ofNat (y >>> 24),ofNat (y >>> 16),ofNat (y >>> 8),ofNat y]) x n s
    else appendHuffmanLoop dst x n s

def padHuffman (x n : Nat) : Nat × Nat :=
  let beyond := n%8
  let pad := 8-beyond
  if beyond > 0 then ((x <<< pad)%2^64 ||| 0xff >>> beyond,n+pad) else (x,n)

def flushHuffman (dst : Bytes) (x n : Nat) : Bytes :=
  match n/8 with
  | 0 => dst
  | 1 => dst ++ [ofNat x]
  | 2 =>
    let y := x%2^16
    dst ++ [ofNat (y >>> 8),ofNat y]
  | 3 =>
    let y := (x >>> 8)%2^16
    dst ++ [ofNat (y >>> 8),ofNat y,ofNat x]
  | _ =>
    let y := x%2^32
    dst ++ [ofNat (y >>> 24),ofNat (y >>> 16),ofNat (y >>> 8),ofNat y]

def appendHuffmanString (dst s : Bytes) : Bytes :=
  let (dst,x,n) := appendHuffmanLoop dst 0 0 s
  let (x,n) := padHuffman x n
  flushHuffman dst x n

def huffmanEncodeLength (s : Bytes) : Nat := ((s.map huffmanLen).sum+7)/8

@[irreducible] def buildHuffmanTree : Node UInt8 :=
  CodeTree.build ((List.range 256).map fun sym => ⟨ofNat sym,huffmanCode (ofNat sym),huffmanLen (ofNat sym)⟩)
    .empty

-- huffmanDecode.  root says whether n is the root node, which the source finds out by comparing pointers; cbits and
-- sbits are uint8, cur is a uint64.
structure HuffmanState where
  n : Node UInt8
  root : Bool
  cur : Nat
  cbits : Nat
  sbits : Nat
  totalCodeBits : Nat
  dst : Bytes

namespace HuffmanState

def start (dst : Bytes) : HuffmanState := ⟨buildHuffmanTree,true,0,0,0,0,dst⟩

section
variable (st : HuffmanState)

def child (idx : UInt8) : Option (Node UInt8) :=
  match st.n with
  | .inner children => children idx
  | .leaf _ _ => none

def emit (maxLen : Int) (sym : UInt8) (codeLen : Nat) : Except HpackError HuffmanState :=
  if maxLen ≠ 0 ∧ (st.dst.length : Int) = maxLen then .error .stringLength
  else
    let cbits := (st.cbits+(256-codeLen))%256
    .ok
      {
        n := buildHuffmanTree
        root := true
        cur := st.cur
        cbits := cbits
        sbits := cbits
        totalCodeBits := st.totalCodeBits+codeLen
        dst := st.dst ++ [sym]
      }

def wholeByte (maxLen : Int) : Except HpackError HuffmanState :=
  match st.child (ofNat (st.cur >>> (st.cbits-8))) with
  | none => .error .invalidHuffman
  | some (.leaf sym codeLen) => st.emit maxLen sym codeLen
  | some (.inner children) => .ok {st with n := .inner children, root := false, cbits := st.cbits-8, totalCodeBits := st.totalCodeBits+8}

def unread : Nat := (8+(256-st.cbits))%256

def window : UInt8 := ofNat ((st.cur <<< st.unread)%2^64)

def allOnes : UInt8 := ofNat (0xff <<< st.unread)

def padding (src : Bytes) : Except HpackError Bytes :=
  let padding : Int := (src.length*8 : Nat)-(st.totalCodeBits : Nat)
  if padding > 7 ∨ padding < 0 then .error .invalidHuffman
  else if ¬st.root then .error .invalidHuffman
  else if st.sbits < st.cbits then .error .invalidHuffman
  else if st.cbits > 0 ∧ st.window &&& st.allOnes ≠ st.allOnes then .error .invalidHuffman
  else .ok st.dst
end

def wholeBytes (maxLen : Int) : Nat → HuffmanState → Except HpackError HuffmanState
  | 0,st => .ok st
  | rounds+1,st =>
    if st.cbits ≥ 8 then st.wholeByte maxLen >>= wholeBytes maxLen rounds
    else .ok st

-- Every code takes at least one bit, so the inner loop ends within cbits rounds.
def readByte (maxLen : Int) (st : HuffmanState) (b : UInt8) : Except HpackError HuffmanState :=
  let st := {st with cur := ((st.cur <<< 8)%2^64 ||| b.toNat), cbits := (st.cbits+8)%256, sbits := (st.sbits+8)%256}
  wholeBytes maxLen st.cbits st

def lastBits (maxLen : Int) : Nat → HuffmanState → Except HpackError HuffmanState
  | 0,st => .ok st
  | rounds+1,st =>
    if st.cbits > 0 then
      match st.child st.window with
      | none => .error .invalidHuffman
      | some (.inner _) => .ok st
      | some (.leaf sym codeLen) =>
        if st.sbits < codeLen then .ok st
        else st.emit maxLen sym codeLen >>= lastBits maxLen rounds
    else .ok st
end HuffmanState

-- The loop over the last bits starts over with at most 255 bits after its first symbol.
def huffmanDecode (dst : Bytes) (maxLen : Int) (src : Bytes) : Except HpackError Bytes := do
  let st ← src.foldlM (HuffmanState.readByte maxLen) (HuffmanState.start dst)
  let st ← HuffmanState.lastBits maxLen 257 st
  st.padding src
end FhServer

import FhServer.HuffmanEncoding

namespace FhServer
open BitString CodeTree List
namespace HuffmanState

-- Where the decoder stands: between two symbols at the root, or with r bits of a long code still to read.
inductive Place (st : HuffmanState) : Bytes → List Bool → Prop
  | between (n : st.n = buildHuffmanTree) (root : st.root = true) (sbits : st.sbits = st.cbits) :
      Place st todo (todo.flatMap huffmanBits)
  | inside (finds : Finds c (huffmanCode c) r st.n) (positive : 0 < r) (part : r < huffmanLen c)
      (sbits : st.sbits = st.cbits+(huffmanLen c-r)) :
      Place st (c :: later) (bits r (huffmanCode c) ++ later.flatMap huffmanBits)

-- What the decoder holds and what it has still to read make up the encoded string.
structure Reads (s : Bytes) (pad total : Nat) (st : HuffmanState) (rest todo : Bytes) : Prop where
  ahead : ∃ ahead, Place st todo ahead ∧ bits st.cbits st.cur ++ packed rest = ahead ++ replicate pad true
  done : st.dst ++ todo = s
  count : st.totalCodeBits+st.cbits+8*rest.length = total

variable {st : HuffmanState} {rest : Bytes}

theorem Place.symbol (place : Place st (c :: later) ahead) : ∃ r, 0 < r ∧ r ≤ huffmanLen c ∧
    Finds c (huffmanCode c) r st.n ∧ ahead = bits r (huffmanCode c) ++ later.flatMap huffmanBits ∧
    st.sbits = st.cbits+(huffmanLen c-r) := by
  cases place with
  | between n root sbits =>
    obtain ⟨least,_,_⟩ := huffman_bounds c
    refine ⟨huffmanLen c,by lia,le_refl _,?_,by rw [flatMap_cons]; rfl,by lia⟩
    rw [n]
    exact buildHuffmanTree_finds c
  | inside finds positive part sbits => exact ⟨_,positive,by lia,finds,rfl,sbits⟩

theorem Place.last (place : Place st [] ahead) :
    ahead = [] ∧ st.n = buildHuffmanTree ∧ st.root = true ∧ st.sbits = st.cbits := by
  cases place with
  | between n root sbits => exact ⟨rfl,n,root,sbits⟩

theorem emit_reads (reads : st.dst ++ c :: later = s) (count : st.totalCodeBits+st.cbits+8*rest.length = total)
    (room : maxLen = 0 ∨ (s.length : Int) ≤ maxLen) (few : st.cbits < 256) (enough : r ≤ st.cbits)
    (window : bits st.cbits st.cur ++ packed rest =
      bits r (huffmanCode c) ++ later.flatMap huffmanBits ++ replicate pad true) :
    ∃ st', st.emit maxLen c r = .ok st' ∧ st'.cbits = st.cbits-r ∧ Reads s pad total st' rest later := by
  have length := congrArg List.length reads
  rw [length_append,length_cons] at length
  have free : ¬(maxLen ≠ 0 ∧ (st.dst.length : Int) = maxLen) := by lia
  have left : (st.cbits+(256-r))%256 = st.cbits-r := by lia
  rw [emit,if_neg free]
  refine ⟨_,rfl,left,?_⟩
  constructor
  · refine ⟨_,.between rfl rfl rfl,?_⟩
    have split : bits st.cbits st.cur = bits r (st.cur >>> (st.cbits-r)) ++ bits (st.cbits-r) st.cur := by rw [←bits_add]; congr 1; lia
    rw [split,append_assoc,append_assoc] at window
    simp only [left]
    exact (append_inj window (by simp)).2
  · simpa using reads
  · simp only [left]
    lia

theorem child_next (finds : Finds c code (remaining+9) st.n) (byte : idx = UInt8.ofNat (code >>> (remaining+1))) :
    ∃ children, st.child idx = some (.inner children) ∧ Finds c code (remaining+1) (.inner children) := by
  rw [child]
  generalize st.n = node at finds
  cases finds with
  | last short leaves => lia
  | step found onward =>
    cases onward with
    | last short leaves => exact ⟨_,byte ▸ found,.last short leaves⟩
    | step further onward => exact ⟨_,byte ▸ found,.step further onward⟩

theorem child_leaf (finds : Finds c code r st.n) (short : r ≤ 8) (begins : bits r code <+: bits 8 idx.toNat) :
    st.child idx = some (.leaf c r) := by
  rw [child]
  generalize st.n = node at finds
  cases finds with
  | last _ leaves => exact leaves idx begins
  | step found onward => lia

theorem wholeByte_reads (reads : Reads s pad total st rest todo) (small : pad < 8)
    (room : maxLen = 0 ∨ (s.length : Int) ≤ maxLen) (enough : 8 ≤ st.cbits) (few : st.cbits < 256) :
    ∃ st' todo', st.wholeByte maxLen = .ok st' ∧ st'.cbits < st.cbits ∧ Reads s pad total st' rest todo' := by
  obtain ⟨⟨ahead,place,window⟩,done,count⟩ := reads
  cases todo with
  | nil =>
    -- The padding is shorter than a byte.
    obtain ⟨rfl,_⟩ := place.last
    have length := congrArg List.length window
    simp only [length_append,bits_length,length_nil,length_replicate] at length
    lia
  | cons c later =>
    obtain ⟨r,positive,within,finds,rfl,sbits⟩ := place.symbol
    have split : bits st.cbits st.cur = bits 8 (UInt8.ofNat (st.cur >>> (st.cbits-8))).toNat ++ bits (st.cbits-8) st.cur := by
      rw [bits_byte,←bits_add]; congr 1; lia
    rw [wholeByte]
    rcases Nat.lt_or_ge 8 r with long | short
    · obtain ⟨remaining,rfl⟩ : ∃ remaining, r = remaining+9 := ⟨r-9,by lia⟩
      have parts := window
      simp only [split,bits_first,append_assoc] at parts
      obtain ⟨byte,behind⟩ := append_inj parts (by simp)
      obtain ⟨children,next,onward⟩ := child_next finds (byte_of_bits _ _ byte)
      rw [next]
      refine ⟨_,c :: later,rfl,by simp only; lia,⟨_,.inside onward (by lia) (by lia) (by simp only; lia),?_⟩,done,?_⟩
      · simpa using behind
      · simp only
        lia
    · have begins : bits r (huffmanCode c) <+: bits 8 (UInt8.ofNat (st.cur >>> (st.cbits-8))).toNat := by
        rw [split,append_assoc,append_assoc] at window
        exact prefix_of_prefix_length_le ⟨_,window.symm⟩ (prefix_append _ _) (by simpa using short)
      rw [child_leaf finds short begins]
      obtain ⟨st',step,fewer,reads⟩ := emit_reads done count room few (by lia) window
      exact ⟨st',later,step,by lia,reads⟩

theorem wholeBytes_reads (small : pad < 8) (room : maxLen = 0 ∨ (s.length : Int) ≤ maxLen) : ∀ rounds st todo,
    st.cbits ≤ rounds → st.cbits < 256 → Reads s pad total st rest todo →
    ∃ st' todo', wholeBytes maxLen rounds st = .ok st' ∧ st'.cbits < 8 ∧ Reads s pad total st' rest todo' := by
  intro rounds
  induction rounds with
  | zero => intro st todo enough _ reads; exact ⟨st,todo,rfl,by lia,reads⟩
  | succ rounds ih =>
    intro st todo enough few reads
    rw [wholeBytes]
    split
    · rename_i full
      obtain ⟨next,todo',step,fewer,reads⟩ := wholeByte_reads reads small room full few
      rw [step]
      exact ih next todo' (by lia) (by lia) reads
    · exact ⟨st,todo,rfl,by lia,reads⟩

theorem readByte_reads (small : pad < 8) (room : maxLen = 0 ∨ (s.length : Int) ≤ maxLen) (few : st.cbits < 8)
    (reads : Reads s pad total st (b :: rest) todo) :
    ∃ st' todo', st.readByte maxLen b = .ok st' ∧ st'.cbits < 8 ∧ Reads s pad total st' rest todo' := by
  obtain ⟨⟨ahead,place,window⟩,done,count⟩ := reads
  have width : (st.cbits+8)%256 = st.cbits+8 := by lia
  rw [readByte,width]
  apply wholeBytes_reads small room _ _ todo (le_refl _) (by simp only; lia)
  refine ⟨⟨ahead,?_,?_⟩,done,?_⟩
  · cases place with
    | between n root sbits => exact .between n root (by simp only; lia)
    | @inside c _ _ finds positive part sbits =>
      obtain ⟨_,short,_⟩ := huffman_bounds c
      exact .inside finds positive part (by simp only; lia)
  · rw [packed_cons,←append_assoc] at window
    rw [bits_push_mod (by lia) b.toNat_lt]
    exact window
  · rw [length_cons] at count
    lia

theorem foldlM_reads (small : pad < 8) (room : maxLen = 0 ∨ (s.length : Int) ≤ maxLen) : ∀ src st todo, st.cbits < 8 →
    Reads s pad total st src todo →
    ∃ st' todo', src.foldlM (readByte maxLen) st = .ok st' ∧ st'.cbits < 8 ∧ Reads s pad total st' [] todo' := by
  intro src
  induction src with
  | nil => intro st todo few reads; exact ⟨st,todo,rfl,few,reads⟩
  | cons b src ih =>
    intro st todo few reads
    obtain ⟨next,todo',step,few',reads'⟩ := readByte_reads small room few reads
    rw [foldlM_cons,step]
    exact ih next todo' few' reads'

theorem unread_eq (few : st.cbits < 8) : st.unread = 8-st.cbits := by
  rw [unread]; lia

theorem window_bits (few : st.cbits < 8) : bits 8 st.window.toNat = bits st.cbits st.cur ++ bits (8-st.cbits) 0 := by
  have pushed : bits (st.cbits+(8-st.cbits)) ((st.cur <<< (8-st.cbits))%2^64 ||| 0) = _ :=
    bits_push_mod (by lia) (Nat.two_pow_pos _) st.cur
  rw [window,unread_eq few,bits_byte,←pushed,Nat.or_zero]
  congr 1
  lia

theorem ones_open (root : st.n = buildHuffmanTree) (few : 0 < k) (low : k < 8) (idx : UInt8)
    (ones : bits 8 idx.toNat = replicate k true ++ bits (8-k) 0) :
    (∃ children, st.child idx = some (.inner children)) ∨ ∃ c r, st.child idx = some (.leaf c r) ∧ k < r := by
  have leaf : ∀ c : UInt8, k < huffmanLen c → huffmanLen c ≤ 8 → huffmanBits c <+: replicate k true ++ bits (8-k) 0 →
      (∃ children, st.child idx = some (.inner children)) ∨ ∃ c r, st.child idx = some (.leaf c r) ∧ k < r := by
    intro c more short begins
    rw [←ones] at begins
    exact .inr ⟨c,_,child_leaf (root ▸ buildHuffmanTree_finds c) short begins,more⟩
  have cases : k = 1 ∨ k = 2 ∨ k = 3 ∨ k = 4 ∨ k = 5 ∨ k = 6 ∨ k = 7 := by lia
  rcases cases with rfl | rfl | rfl | rfl | rfl | rfl | rfl
  · exact leaf 61 (by decide) (by decide) (by decide)
  · exact leaf 69 (by decide) (by decide) (by decide)
  · exact leaf 85 (by decide) (by decide) (by decide)
  · exact leaf 119 (by decide) (by decide) (by decide)
  · exact leaf 38 (by decide) (by decide) (by decide)
  · exact leaf 88 (by decide) (by decide) (by decide)
  -- Seven ones lead on to the codes of ten bits and more.
  · have finds := buildHuffmanTree_finds 33
    rw [←root,show huffmanLen 33 = 1+9 by decide] at finds
    have byte : idx = UInt8.ofNat (huffmanCode 33 >>> (1+1)) :=
      byte_of_bits _ _ (ones.trans (by decide))
    obtain ⟨children,next,_⟩ := child_next finds byte
    exact .inl ⟨children,next⟩

theorem lastBits_reads (small : pad < 8) (room : maxLen = 0 ∨ (s.length : Int) ≤ maxLen) : ∀ rounds st todo, st.cbits < rounds →
    st.cbits < 8 → Reads s pad total st [] todo →
    ∃ st', lastBits maxLen rounds st = .ok st' ∧ st'.cbits < 8 ∧ Reads s pad total st' [] [] := by
  intro rounds
  induction rounds with
  | zero => intro st todo less; lia
  | succ rounds ih =>
    intro st todo less few reads
    obtain ⟨⟨ahead,place,window⟩,done,count⟩ := reads
    have held := window_bits few
    have length := congrArg List.length window
    rw [lastBits]
    cases todo with
    | nil =>
      obtain ⟨rfl,root,_,sbits⟩ := place.last
      have reads : Reads s pad total st [] [] := ⟨⟨[],place,window⟩,done,count⟩
      rw [packed_nil,append_nil,nil_append] at window
      simp only [packed_nil,append_nil,nil_append,bits_length,length_replicate] at length
      split
      · rename_i more
        rw [window,length] at held
        rcases ones_open root (by lia) small st.window held with ⟨children,next⟩ | ⟨c,r,next,beyond⟩
        · rw [next]
          exact ⟨st,rfl,few,reads⟩
        rw [next]
        simp only
        rw [if_pos (by lia)]
        exact ⟨st,rfl,few,reads⟩
      · exact ⟨st,rfl,few,reads⟩
    | cons c later =>
      obtain ⟨r,positive,within,finds,rfl,sbits⟩ := place.symbol
      simp only [packed_nil,append_nil,length_append,bits_length] at length
      have begins : bits r (huffmanCode c) <+: bits 8 st.window.toNat := by
        rw [packed_nil,append_nil,append_assoc] at window
        rw [held,window,append_assoc]
        exact prefix_append _ _
      rw [if_pos (by lia),child_leaf finds (by lia) begins]
      simp only
      rw [if_neg (by lia)]
      obtain ⟨next,step,fewer,reads⟩ := emit_reads done count room (by lia) (by lia) window
      rw [step]
      exact ih next later (by lia) (by lia) reads

theorem padding_reads (small : pad < 8) (few : st.cbits < 8) (reads : Reads s pad (8*src.length) st [] []) :
    st.padding src = .ok s := by
  obtain ⟨⟨ahead,place,window⟩,done,count⟩ := reads
  obtain ⟨rfl,_,root,sbits⟩ := place.last
  have held := window_bits few
  have length := congrArg List.length window
  simp only [packed_nil,append_nil,nil_append,bits_length,length_replicate] at length window
  rw [length_nil] at count
  have ones : st.window = st.allOnes := by
    apply byte_of_bits
    rw [held,window,allOnes,unread_eq few,bits_byte,length,←bits_ones]
    have cases : pad = 0 ∨ pad = 1 ∨ pad = 2 ∨ pad = 3 ∨ pad = 4 ∨ pad = 5 ∨ pad = 6 ∨ pad = 7 := by lia
    rcases cases with rfl | rfl | rfl | rfl | rfl | rfl | rfl | rfl <;> decide
  rw [append_nil] at done
  rw [padding,if_neg (by lia),if_neg (by simp [root]),if_neg (by lia),if_neg (by simp [ones]),done]
end HuffmanState
open HuffmanState in
theorem huffmanDecode_packed (small : pad < 8) (room : maxLen = 0 ∨ (s.length : Int) ≤ maxLen)
    (packs : packed src = s.flatMap huffmanBits ++ replicate pad true) : huffmanDecode [] maxLen src = .ok s := by
  have reads : Reads s pad (8*src.length) (start []) src s :=
    ⟨⟨_,.between rfl rfl rfl,packs⟩,rfl,by simp [start]⟩
  obtain ⟨st,todo,bytes,few,reads⟩ := foldlM_reads small room src (start []) s (by simp [start]) reads
  obtain ⟨last,tail,few',reads⟩ := lastBits_reads small room 257 st todo (by lia) few reads
  rw [huffmanDecode,bytes]
  simp only [bind,Except.bind,tail]
  exact padding_reads small few' reads

theorem huffman_round_trip (s : Bytes) : (appendHuffmanString [] s).length = huffmanEncodeLength s ∧
    ∀ maxLen : Int, maxLen = 0 ∨ (s.length : Int) ≤ maxLen → huffmanDecode [] maxLen (appendHuffmanString [] s) = .ok s := by
  obtain ⟨out,pad,eq,small,packs⟩ := appendHuffmanString_packs [] s
  rw [eq,nil_append]
  exact ⟨huffmanEncodeLength_eq small packs,fun _ room => huffmanDecode_packed small room packs⟩
end FhServer

import FhServer.HpackHuffman

namespace FhServer
open BitString CodeTree List UInt8

def huffmanBits (c : UInt8) : List Bool := bits (huffmanLen c) (huffmanCode c)

def huffmanTable : List (Nat × Nat) := huffmanCodes.zip huffmanCodeLen

theorem huffmanTable_entry (c : UInt8) : huffmanTable[c.toNat]? = some (huffmanCode c,huffmanLen c) := by
  have bound := c.toNat_lt
  have codes : c.toNat < huffmanCodes.length := Nat.lt_of_lt_of_eq bound (by decide +kernel)
  have lens : c.toNat < huffmanCodeLen.length := Nat.lt_of_lt_of_eq bound (by decide +kernel)
  rw [huffmanTable,List.getElem?_zip_eq_some,huffmanCode,huffmanLen,getD_eq_getElem _ _ codes,
    getD_eq_getElem _ _ lens]
  exact ⟨List.getElem?_eq_getElem codes,List.getElem?_eq_getElem lens⟩

theorem huffman_bounds (c : UInt8) : 5 ≤ huffmanLen c ∧ huffmanLen c ≤ 30 ∧ huffmanCode c < 2^huffmanLen c := by
  have all : ∀ p ∈ huffmanTable, 5 ≤ p.2 ∧ p.2 ≤ 30 ∧ p.1 < 2^p.2 := by decide +kernel
  exact all _ (mem_of_getElem? (huffmanTable_entry c))

-- A code stands for the numbers of thirty bits that begin with it.  No two codes share one.
def span (p : Nat × Nat) : Nat × Nat := (p.1 <<< (30-p.2),(p.1+1) <<< (30-p.2))

-- The recursor is what the kernel runs fast.
def ofLength (codes : List ((Nat × Nat) × Nat)) (len : Nat) : List ((Nat × Nat) × Nat) :=
  List.rec (motive := fun _ => List ((Nat × Nat) × Nat)) [] (fun p _ later => bif p.1.2.beq len then p :: later else later) codes

theorem mem_ofLength (mem : p ∈ codes) : p ∈ ofLength codes p.1.2 := by
  induction codes with
  | nil => cases mem
  | cons first codes ih =>
    change p ∈ bif first.1.2.beq p.1.2 then first :: ofLength codes p.1.2 else ofLength codes p.1.2
    rcases mem_cons.mp mem with rfl | later
    · simp
    · cases first.1.2.beq p.1.2 with
      | true => exact mem_cons_of_mem first (ih later)
      | false => exact ih later

def huffmanOrder : List ((Nat × Nat) × Nat) := (range 31).flatMap (ofLength huffmanTable.zipIdx)

def Behind (p q : (Nat × Nat) × Nat) : Prop := (span p.1).2 ≤ (span q.1).1

instance : DecidableRel Behind := fun _ _ => inferInstanceAs (Decidable (_ ≤ _))
instance : Trans Behind Behind Behind := ⟨fun one two => (one.trans (by simp [span,Nat.shiftLeft_eq,Nat.add_mul])).trans two⟩

theorem huffman_order : huffmanOrder.Pairwise Behind := isChain_iff_pairwise.mp (by decide +kernel)

theorem span_prefix (short : b ≤ 30) (first : v < 2^a) (second : w < 2^b) (begins : bits a v <+: bits b w) :
    ¬(Behind ((v,a),m) ((w,b),n) ∨ Behind ((w,b),n) ((v,a),m)) := by
  have within : a ≤ b := by simpa using begins.length_le
  have same := bits_prefix within first second begins
  have power : 2^(30-a) = 2^(b-a)*2^(30-b) := by rw [←Nat.pow_add]; congr 1; lia
  have low : v*2^(b-a) ≤ w := by rw [←same,Nat.shiftRight_eq_div_pow]; exact Nat.div_mul_le_self _ _
  have high : w+1 ≤ (v+1)*2^(b-a) := by
    rw [←same,Nat.shiftRight_eq_div_pow]
    exact (Nat.div_lt_iff_lt_mul (Nat.two_pow_pos _)).mp (Nat.lt_succ_self _)
  have positive := Nat.two_pow_pos (30-b)
  have start := Nat.mul_le_mul_right (2^(30-b)) low
  have stop := Nat.mul_le_mul_right (2^(30-b)) high
  simp only [Behind,span,Nat.shiftLeft_eq,power]
  lia

def huffmanCodeOf (c : UInt8) : Code UInt8 := ⟨c,huffmanCode c,huffmanLen c⟩

theorem huffman_apart (different : c ≠ d) : Apart (huffmanCodeOf c) (huffmanCodeOf d) := by
  have listed (c : UInt8) : ((huffmanCode c,huffmanLen c),c.toNat) ∈ huffmanOrder := mem_flatMap.mpr
    ⟨_,mem_range.mpr (Nat.lt_succ_of_le (huffman_bounds c).2.1),mem_ofLength (mem_zipIdx_iff_getElem?.mpr (huffmanTable_entry c))⟩
  have : Std.Symm fun p q => Behind p q ∨ Behind q p := ⟨fun _ _ => Or.symm⟩
  have apart := (huffman_order.imp Or.inl : huffmanOrder.Pairwise fun p q => Behind p q ∨ Behind q p).forall (listed c) (listed d)
    fun same => different (UInt8.toNat_inj.mp (congrArg Prod.snd same))
  obtain ⟨_,shortC,fitsC⟩ := huffman_bounds c
  obtain ⟨_,shortD,fitsD⟩ := huffman_bounds d
  exact ⟨fun begins => span_prefix shortD fitsC fitsD begins apart,fun begins => span_prefix shortC fitsD fitsC begins apart.symm⟩

theorem buildHuffmanTree_finds (c : UInt8) : Finds c (huffmanCode c) (huffmanLen c) buildHuffmanTree := by
  have apart : ((range 256).map fun sym => huffmanCodeOf (ofNat sym)).Pairwise Apart := by
    apply pairwise_map.mpr
    apply pairwise_lt_range.imp_of_mem
    intro a b memberA memberB less
    apply huffman_apart
    intro same
    have numbers := congrArg toNat same
    rw [mem_range] at memberA memberB
    rw [toNat_ofNat',toNat_ofNat'] at numbers
    lia
  have mem : huffmanCodeOf c ∈ (range 256).map fun sym => huffmanCodeOf (ofNat sym) :=
    mem_map.mpr ⟨c.toNat,mem_range.mpr c.toNat_lt,by rw [UInt8.ofNat_toNat]⟩
  unfold buildHuffmanTree
  exact build_finds apart mem

theorem push_code (few : n < 32) (x : Nat) (c : UInt8) :
    bits (n+huffmanLen c) ((x <<< (huffmanLen c%64))%2^64 ||| huffmanCode c) = bits n x ++ huffmanBits c := by
  obtain ⟨_,short,fits⟩ := huffman_bounds c
  rw [Nat.mod_eq_of_lt (by lia : huffmanLen c < 64),huffmanBits]
  exact bits_push_mod (by lia) fits x

theorem appendHuffmanLoop_packs : ∀ s dst x n, n < 32 → ∃ out x' n', appendHuffmanLoop dst x n s = (dst ++ out,x',n') ∧
    n' < 32 ∧ packed out ++ bits n' x' = bits n x ++ s.flatMap huffmanBits := by
  intro s
  induction s with
  | nil => intro dst x n few; exact ⟨[],x,n,by simp [appendHuffmanLoop],few,by simp⟩
  | cons c s ih =>
    intro dst x n few
    have pushed := push_code few x c
    obtain ⟨_,short,_⟩ := huffman_bounds c
    rw [appendHuffmanLoop]
    generalize (x <<< (huffmanLen c%64))%2^64 ||| huffmanCode c = y at pushed ⊢
    split
    · rename_i full
      have left : (n+huffmanLen c)%32 = n+huffmanLen c-32 := by lia
      obtain ⟨out,x',n',run,few',packs⟩ := ih (dst ++ _) y ((n+huffmanLen c)%32) (Nat.mod_lt _ (by lia))
      refine ⟨_,x',n',by rw [run,append_assoc],few',?_⟩
      rw [packed_append,packed_word,bits_mod (le_refl 32),append_assoc,packs,left,←append_assoc,←bits_add,
        flatMap_cons,←append_assoc,←pushed]
      congr 2
      lia
    · rename_i few'
      obtain ⟨out,x',n',run,few',packs⟩ := ih dst y (n+huffmanLen c) (by lia)
      refine ⟨out,x',n',run,few',?_⟩
      rw [packs,pushed,flatMap_cons,append_assoc]

theorem padHuffman_packs (few : n < 32) (x : Nat) : ∃ y m pad, padHuffman x n = (y,m) ∧ m ≤ 32 ∧ m%8 = 0 ∧ pad < 8 ∧
    bits m y = bits n x ++ replicate pad true := by
  rw [padHuffman]
  split
  · rename_i beyond
    refine ⟨_,_,8-n%8,rfl,by lia,by lia,by lia,?_⟩
    have ones : 0xff >>> (n%8) = 2^(8-n%8)-1 := by
      have cases : n%8 = 1 ∨ n%8 = 2 ∨ n%8 = 3 ∨ n%8 = 4 ∨ n%8 = 5 ∨ n%8 = 6 ∨ n%8 = 7 := by lia
      rcases cases with h | h | h | h | h | h | h <;> rw [h] <;> rfl
    have fits : 2^(8-n%8)-1 < 2^(8-n%8) := by have := Nat.two_pow_pos (8-n%8); lia
    rw [ones,←bits_ones]
    exact bits_push_mod (by lia) fits x
  · exact ⟨x,n,0,rfl,by lia,by lia,by lia,by simp⟩

theorem flushHuffman_packs (few : n ≤ 32) (whole : n%8 = 0) (dst : Bytes) (x : Nat) :
    ∃ out, flushHuffman dst x n = dst ++ out ∧ packed out = bits n x := by
  have cases : n = 0 ∨ n = 8 ∨ n = 16 ∨ n = 24 ∨ n = 32 := by lia
  rcases cases with rfl | rfl | rfl | rfl | rfl
  · exact ⟨[],by simp [flushHuffman],rfl⟩
  · exact ⟨_,rfl,by rw [packed_cons,packed_nil,bits_byte,append_nil]⟩
  · exact ⟨_,rfl,by rw [packed_half,bits_mod (le_refl 16)]⟩
  · refine ⟨[ofNat (((x >>> 8)%2^16) >>> 8),ofNat ((x >>> 8)%2^16)] ++ [ofNat x],rfl,?_⟩
    rw [packed_append,packed_half,bits_mod (le_refl 16),packed_cons,packed_nil,bits_byte,append_nil,←bits_add]
  · exact ⟨_,rfl,by rw [packed_word,bits_mod (le_refl 32)]⟩

theorem appendHuffmanString_packs (dst s : Bytes) : ∃ out pad, appendHuffmanString dst s = dst ++ out ∧ pad < 8 ∧
    packed out = s.flatMap huffmanBits ++ replicate pad true := by
  obtain ⟨out,x,n,run,few,packs⟩ := appendHuffmanLoop_packs s dst 0 0 (by lia)
  obtain ⟨y,m,pad,padded,low,whole,small,ones⟩ := padHuffman_packs few x
  obtain ⟨last,flush,final⟩ := flushHuffman_packs low whole (dst ++ out) y
  refine ⟨out ++ last,pad,?_,small,?_⟩
  · simp [appendHuffmanString,run,padded,flush]
  · rw [packed_append,final,ones,←append_assoc,packs]
    rfl

theorem flatMap_huffmanBits_length (s : Bytes) : (s.flatMap huffmanBits).length = (s.map huffmanLen).sum := by
  rw [length_flatMap]
  congr 1
  apply map_congr_left
  intro c _
  exact bits_length _ _

theorem huffmanEncodeLength_eq (small : pad < 8) (packs : packed out = s.flatMap huffmanBits ++ replicate pad true) :
    out.length = huffmanEncodeLength s := by
  have total := congrArg List.length packs
  rw [packed_length,length_append,flatMap_huffmanBits_length,length_replicate] at total
  rw [huffmanEncodeLength]
  lia
end FhServer

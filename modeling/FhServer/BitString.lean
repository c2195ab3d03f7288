import Mathlib

namespace BitString
open List Nat UInt8

def bits : Nat → Nat → List Bool
  | 0,_ => []
  | n+1,v => v.testBit n :: bits n v

example (n v : Nat) : bits (n+1) v ≠ [] := by simp [bits]

@[simp] theorem bits_length (n v : Nat) : (bits n v).length = n := by
  induction n with
  | zero => rfl
  | succ n ih => simp [bits,ih]

theorem bits_congr (same : ∀ i < n, v.testBit i = w.testBit i) : bits n v = bits n w := by
  induction n with
  | zero => rfl
  | succ n ih => rw [bits,bits,same n (lt_succ_self n),ih fun i below => same i (lt_succ_of_lt below)]

theorem bits_add (a b v : Nat) : bits (a+b) v = bits a (v >>> b) ++ bits b v := by
  induction a with
  | zero => simp [bits]
  | succ a ih => rw [add_right_comm,bits,bits,ih,cons_append,testBit_shiftRight,add_comm b a]

theorem bits_mod (fits : n ≤ w) (v : Nat) : bits n (v % 2^w) = bits n v := by
  apply bits_congr
  intro i below
  simp [lt_of_lt_of_le below fits]

theorem bits_push (n : Nat) (small : c < 2^k) (x : Nat) : bits (n+k) (x <<< k ||| c) = bits n x ++ bits k c := by
  rw [bits_add]
  congr 1
  · apply bits_congr
    intro i _
    have gone : c.testBit (k+i) = false := testBit_lt_two_pow (lt_of_lt_of_le small
      (Nat.pow_le_pow_right (by lia) (by lia)))
    rw [testBit_shiftRight,testBit_or,testBit_shiftLeft,gone]
    simp
  · apply bits_congr
    intro i below
    simp [not_le.mpr below]

theorem bits_push_mod (fits : n+k ≤ w) (small : c < 2^k) (x : Nat) :
    bits (n+k) ((x <<< k)%2^w ||| c) = bits n x ++ bits k c := by
  have word : c < 2^w := Nat.lt_of_lt_of_le small (Nat.pow_le_pow_right (by lia) (by lia))
  have narrow := bits_mod fits (x <<< k ||| c)
  rw [or_mod_two_pow,mod_eq_of_lt word,bits_push n small x] at narrow
  exact narrow

theorem bits_inj (first : v < 2^n) (second : w < 2^n) (same : bits n v = bits n w) : v = w := by
  have each : ∀ {n}, bits n v = bits n w → ∀ i < n, v.testBit i = w.testBit i := by
    intro n
    induction n with
    | zero => intro _ i below; lia
    | succ n ih =>
      intro same i below
      rw [bits,bits,List.cons.injEq] at same
      rcases Nat.lt_succ_iff_lt_or_eq.mp below with lower | rfl
      · exact ih same.2 i lower
      · exact same.1
  apply eq_of_testBit_eq
  intro i
  by_cases below : i < n
  · exact each same i below
  · have power : 2^n ≤ 2^i := Nat.pow_le_pow_right (by lia) (by lia)
    rw [testBit_lt_two_pow (by lia),testBit_lt_two_pow (by lia)]

theorem bits_prefix (within : a ≤ b) (first : v < 2^a) (second : w < 2^b) (begins : bits a v <+: bits b w) :
    w >>> (b-a) = v := by
  have split : bits b w = bits a (w >>> (b-a)) ++ bits (b-a) w := by rw [←bits_add]; congr 1; lia
  have taken := prefix_iff_eq_take.mp begins
  rw [split,bits_length,take_left' (bits_length _ _)] at taken
  have low : w >>> (b-a) < 2^a := by
    rw [Nat.shiftRight_eq_div_pow,Nat.div_lt_iff_lt_mul (Nat.two_pow_pos _),←Nat.pow_add]
    rwa [Nat.add_sub_cancel' within]
  exact (bits_inj first low taken).symm

theorem bits_ones (k : Nat) : bits k (2^k-1) = replicate k true := by
  apply eq_replicate_iff.mpr
  refine ⟨bits_length _ _,?_⟩
  have each : ∀ n ≤ k, ∀ b ∈ bits n (2^k-1), b = true := by
    intro n within
    induction n with
    | zero => intro b mem; cases mem
    | succ n ih =>
      intro b mem
      rcases mem_cons.mp mem with rfl | later
      · rw [testBit_two_pow_sub_one]; simp; lia
      · exact ih (by lia) b later
  exact each k (le_refl k)

def packed (bytes : List UInt8) : List Bool := bytes.flatMap fun b => bits 8 b.toNat

@[simp] theorem packed_nil : packed [] = [] := rfl

@[simp] theorem packed_cons (b : UInt8) (bytes : List UInt8) : packed (b :: bytes) = bits 8 b.toNat ++ packed bytes := by simp [packed]

@[simp] theorem packed_append (one two : List UInt8) : packed (one ++ two) = packed one ++ packed two := by simp [packed]

theorem packed_length (bytes : List UInt8) : (packed bytes).length = 8*bytes.length := by
  induction bytes with
  | nil => rfl
  | cons b bytes ih => simp [ih]; lia

theorem bits_byte (v : Nat) : bits 8 (ofNat v).toNat = bits 8 v := by
  exact bits_mod (le_refl 8) v

theorem packed_half (v : Nat) : packed [ofNat (v >>> 8),ofNat v] = bits 16 v := by
  rw [packed_cons,packed_cons,packed_nil,bits_byte,bits_byte,append_nil,←bits_add]

theorem packed_word (v : Nat) :
    packed [ofNat (v >>> 24),ofNat (v >>> 16),ofNat (v >>> 8),ofNat v] = bits 32 v := by
  have split := bits_add 16 16 v
  rw [←packed_half,←packed_half,←packed_append,←shiftRight_add] at split
  exact split.symm

theorem byte_of_bits (a b : UInt8) (same : bits 8 a.toNat = bits 8 b.toNat) : a = b :=
  UInt8.toNat_inj.mp (bits_inj (UInt8.toNat_lt a) (UInt8.toNat_lt b) same)
end BitString

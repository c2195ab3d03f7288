import FhServer.GoBytes

namespace FhServer
open List Nat

-- The errors of package hpack.
inductive HpackError
  | needMore
  | varintOverflow
  | stringLength
  | headerListSize
  | invalidHuffman
  | invalidIndex (index : Nat)
  | invalidEncoding (first : UInt8) (remaining : Nat)
  | lateSizeUpdate (size : Nat)
  | sizeUpdateTooLarge
  | truncated (remaining : Nat)
  deriving DecidableEq

-- An HPACK integer with an n-bit first part.  The accumulator is a uint64.
def readVarIntLoop (i shift : Nat) : Bytes → Except HpackError (Nat × Bytes)
  | [] => .error .needMore
  | b :: p =>
    let i := (i+((b &&& 0x7f).toNat <<< shift)%2^64)%2^64
    if b &&& 0x80 = 0 then .ok (i,p)
    else if shift+7 ≥ 63 then .error .varintOverflow
    else readVarIntLoop i (shift+7) p

def readVarInt (n : Nat) : Bytes → Except HpackError (Nat × Bytes)
  | [] => .error .needMore
  | b :: p =>
    let mask := 1 <<< n-1
    let i := b.toNat &&& mask
    if i < mask then .ok (i,p) else readVarIntLoop i 0 p

def appendVarIntLoop (dst : Bytes) (i : Nat) : Nat → Bytes
  | 0 => dst ++ [UInt8.ofNat i]
  | rounds+1 =>
    if i ≥ 128 then appendVarIntLoop (dst ++ [UInt8.ofNat (0x80 ||| (i &&& 0x7f))]) (i >>> 7) rounds
    else dst ++ [UInt8.ofNat i]

def appendVarInt (dst : Bytes) (n i : Nat) : Bytes :=
  let k := 1 <<< n-1
  if i < k then dst ++ [UInt8.ofNat i]
  else appendVarIntLoop (dst ++ [UInt8.ofNat k]) (i-k) (i-k)

def orAt (dst : Bytes) (first : Nat) (flag : UInt8) : Bytes := dst.modify first (· ||| flag)

theorem appendVarIntLoop_append (dst : Bytes) (i rounds : Nat) :
    appendVarIntLoop dst i rounds = dst ++ appendVarIntLoop [] i rounds := by
  induction rounds generalizing dst i with
  | zero => rfl
  | succ rounds ih =>
    rw [appendVarIntLoop,appendVarIntLoop]
    split
    · rw [ih,ih ([] ++ _)]
      simp
    · rfl

theorem appendVarInt_append (dst : Bytes) (n i : Nat) : appendVarInt dst n i = dst ++ appendVarInt [] n i := by
  rw [appendVarInt,appendVarInt]
  split
  · rfl
  · rw [appendVarIntLoop_append,appendVarIntLoop_append ([] ++ _)]
    simp

theorem appendVarInt_ne_nil (n i : Nat) : appendVarInt [] n i ≠ [] := by
  rw [appendVarInt]
  split
  · simp
  · rw [appendVarIntLoop_append]
    simp

theorem orAt_append (dst rest : Bytes) (flag : UInt8) (some : front ≠ []) :
    orAt (dst ++ front ++ rest) dst.length flag = dst ++ orAt front 0 flag ++ rest := by
  induction dst with
  | nil =>
    cases front with
    | nil => exact absurd rfl some
    | cons b front => simp [orAt]
  | cons c dst ih =>
    simp only [orAt,append_assoc] at ih ⊢
    rw [cons_append,length_cons,modify_succ_cons,ih,cons_append]

theorem orAt_zero (b : Bytes) (first : Nat) : orAt b first 0 = b := by
  rw [orAt]
  induction b generalizing first with
  | nil => simp
  | cons c b ih =>
    cases first with
    | zero => simp
    | succ first => rw [modify_succ_cons,ih]

theorem last_byte : ∀ j < 128, (UInt8.ofNat j &&& 0x7f).toNat = j ∧ UInt8.ofNat j &&& 0x80 = 0 := by decide

theorem more_byte : ∀ j < 128, (UInt8.ofNat (0x80 ||| j) &&& 0x7f).toNat = j ∧ UInt8.ofNat (0x80 ||| j) &&& 0x80 ≠ 0 := by
  decide

theorem readVarIntLoop_last (rest : Bytes) (low : j < 128) (sum : i+j <<< shift < 2^64) :
    readVarIntLoop i shift (UInt8.ofNat j :: rest) = .ok (i+j <<< shift,rest) := by
  obtain ⟨digit,done⟩ := last_byte j low
  rw [readVarIntLoop,digit,if_pos done,mod_eq_of_lt (by lia : j <<< shift < 2^64),mod_eq_of_lt sum]

theorem readVarIntLoop_appendVarIntLoop (rest : Bytes) : ∀ rounds j i shift, j ≤ rounds → j < 2^(63-shift) →
    i+j <<< shift < 2^64 →
    readVarIntLoop i shift (appendVarIntLoop [] j rounds ++ rest) = .ok (i+j <<< shift,rest) := by
  intro rounds
  induction rounds with
  | zero =>
    intro j i shift few _ sum
    exact readVarIntLoop_last rest (by lia) sum
  | succ rounds ih =>
    intro j i shift few fits sum
    rw [appendVarIntLoop]
    split
    · rename_i more
      have digits : shift+7 < 63 := by
        by_contra late
        have : 2^(63-shift) ≤ 2^7 := Nat.pow_le_pow_right (by lia) (by lia)
        lia
      have power : 2^(63-shift) = 2^(63-(shift+7))*2^7 := by rw [←pow_add]; congr 1; lia
      have whole : i+j <<< shift = i+(j%128) <<< shift+(j >>> 7) <<< (shift+7) := by
        have split : j = j%128+j/128*128 := by lia
        rw [shiftRight_eq_div_pow,shiftLeft_eq,shiftLeft_eq,shiftLeft_eq,pow_add]
        conv_lhs => rw [split]
        ring
      rw [whole] at sum ⊢
      have part : i+(j%128) <<< shift < 2^64 := lt_of_le_of_lt (le_add_right _ _) sum
      obtain ⟨digit,goes⟩ := more_byte (j%128) (by lia)
      rw [appendVarIntLoop_append,append_assoc,show j &&& 0x7f = j%128 from and_two_pow_sub_one_eq_mod j 7]
      rw [nil_append,singleton_append,readVarIntLoop,digit,if_neg goes,if_neg (by lia)]
      rw [mod_eq_of_lt (by lia : (j%128) <<< shift < 2^64),mod_eq_of_lt part]
      apply ih
      · rw [shiftRight_eq_div_pow]; lia
      · rw [shiftRight_eq_div_pow,div_lt_iff_lt_mul (by lia),←power]; exact fits
      · exact sum
    · exact readVarIntLoop_last rest (by lia) sum

theorem readVarInt_appendVarInt (rest : Bytes) (few : n ≤ 8) (fits : i-(2^n-1) < 2^63) (free : flag.toNat%2^n = 0) :
    ∃ b tail, orAt (appendVarInt [] n i) 0 flag = b :: tail ∧ b.toNat/2^n = flag.toNat/2^n ∧
      readVarInt n (b :: tail ++ rest) = .ok (i,rest) := by
  have mask : 1 <<< n-1 = 2^n-1 := by rw [Nat.one_shiftLeft]
  have width : 2^n ≤ 2^8 := Nat.pow_le_pow_right (by lia) few
  have first : ∀ v < 2^n, (UInt8.ofNat v ||| flag).toNat = flag.toNat+v := by
    intro v low
    rw [UInt8.toNat_or,UInt8.toNat_ofNat',Nat.mod_eq_of_lt (by lia),Nat.or_comm]
    have whole := Nat.two_pow_add_eq_or_of_lt low (flag.toNat/2^n)
    rw [Nat.mul_div_cancel' (Nat.dvd_of_mod_eq_zero free)] at whole
    exact whole.symm
  have high : ∀ v < 2^n, (flag.toNat+v)/2^n = flag.toNat/2^n := by
    intro v low
    obtain ⟨count,whole⟩ := Nat.dvd_of_mod_eq_zero free
    rw [whole,Nat.mul_add_div (Nat.two_pow_pos n),Nat.mul_div_cancel_left _ (Nat.two_pow_pos n),Nat.div_eq_of_lt low,
      Nat.add_zero]
  have under : ∀ v < 2^n, (flag.toNat+v) &&& (1 <<< n-1) = v := by
    intro v low
    rw [mask,Nat.and_two_pow_sub_one_eq_mod,Nat.add_mod,free,Nat.zero_add,Nat.mod_mod,Nat.mod_eq_of_lt low]
  have positive : 0 < 2^n := Nat.two_pow_pos n
  rw [appendVarInt]
  split
  · rename_i short
    have low : i < 2^n := by lia
    refine ⟨_,_,rfl,?_,?_⟩
    · rw [first i low,high i low]
    · simp only [readVarInt,cons_append]
      rw [first i low,under i low,if_pos short]
      rfl
  · rename_i long
    have low : 2^n-1 < 2^n := by lia
    rw [appendVarIntLoop_append,mask]
    refine ⟨_,_,rfl,?_,?_⟩
    · rw [first _ low,high _ low]
    simp only [readVarInt,cons_append]
    rw [first _ low,under _ low,mask,if_neg (by lia)]
    have loop := readVarIntLoop_appendVarIntLoop rest (i-(2^n-1)) (i-(2^n-1)) (2^n-1) 0 (le_refl _) (by lia)
      (by rw [Nat.shiftLeft_zero]; lia)
    rw [Nat.shiftLeft_zero,Nat.add_sub_cancel' (by lia)] at loop
    exact loop

-- The bytes after the first, seven bits each with the lowest in front.
def groupsValue : Bytes → Nat
  | [] => 0
  | b :: p => b.toNat%128+128*groupsValue p

def varIntValue (n : Nat) : Bytes → Nat
  | [] => 0
  | b :: p => b.toNat%2^n+groupsValue p

-- The sum stays below 2^(shift+7)+256, and the shift ends at 56.
theorem readVarIntLoop_value (sum : i < 2^shift+256) (low : shift ≤ 56) (sevens : 7 ∣ shift) (read : readVarIntLoop i shift p = .ok (v,rest)) :
    ∃ front, p = front ++ rest ∧ v = i+groupsValue front*2^shift := by
  induction p generalizing i shift with
  | nil => cases read
  | cons b p ih =>
    have digit : (b &&& 0x7f).toNat = b.toNat%128 := and_two_pow_sub_one_eq_mod b.toNat 7
    have next : 2^(shift+7) = 2^shift*128 := pow_add 2 shift 7
    have most : 2^shift ≤ 2^56 := Nat.pow_le_pow_right (by lia) low
    have part : b.toNat%128*2^shift ≤ 127*2^shift := Nat.mul_le_mul_right _ (by lia)
    rw [readVarIntLoop,digit,shiftLeft_eq,mod_eq_of_lt (by lia : b.toNat%128*2^shift < 2^64),mod_eq_of_lt (by lia)] at read
    split at read
    · cases read
      exact ⟨[b],rfl,by simp [groupsValue]⟩
    split at read
    · cases read
    · obtain ⟨front,rfl,rfl⟩ := ih (by lia) (by lia) (by lia) read
      refine ⟨b :: front,rfl,?_⟩
      rw [groupsValue,next]
      ring

theorem varInt_exact :
    (∀ n i rest, 1 ≤ n → n ≤ 8 → i-(2^n-1) < 2^63 → readVarInt n (appendVarInt [] n i ++ rest) = .ok (i,rest)) ∧
    ∀ n p v rest, readVarInt n p = .ok (v,rest) → ∃ front, p = front ++ rest ∧ v = varIntValue n front := by
  constructor
  · intro n i rest _ few fits
    have free : (0 : UInt8).toNat%2^n = 0 := Nat.zero_mod _
    obtain ⟨b,tail,eq,-,read⟩ := readVarInt_appendVarInt rest few fits free
    rw [orAt_zero] at eq
    rw [eq,read]
  · intro n p v rest read
    cases p with
    | nil => cases read
    | cons b p =>
      have low : b.toNat &&& (1 <<< n-1) = b.toNat%2^n := by rw [Nat.one_shiftLeft,and_two_pow_sub_one_eq_mod]
      have byte := b.toNat_lt
      have small := Nat.mod_le b.toNat (2^n)
      rw [readVarInt,low] at read
      split at read
      · cases read
        exact ⟨[b],rfl,rfl⟩
      · obtain ⟨front,rfl,rfl⟩ := readVarIntLoop_value (by lia) (by lia) (Nat.dvd_zero 7) read
        exact ⟨b :: front,rfl,by rw [varIntValue,Nat.pow_zero,Nat.mul_one]⟩

theorem varInt_exact_1337 : readVarInt 5 (appendVarInt [] 5 1337 ++ [7]) = .ok (1337,[7]) ∧
    ∃ front, [31,154,10,7] = front ++ [7] ∧ 1337 = varIntValue 5 front := by
  obtain ⟨reads,means⟩ := varInt_exact
  exact ⟨reads 5 1337 [7] (by decide) (by decide) (by decide),means 5 [31,154,10,7] 1337 [7] (by decide)⟩
end FhServer

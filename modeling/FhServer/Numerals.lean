import Mathlib

-- Numbers written in a base, with the digit of the highest place first.
namespace Numerals
open List

-- The digits are found from the lowest place on and put before those found already. The rounds bound the loop.
def digitsLoop (base : Nat) : Nat → Nat → List Nat → List Nat
  | 0,_,found => found
  | rounds+1,n,found => if n = 0 then found else digitsLoop base rounds (n/base) (n%base :: found)

def digits (base n : Nat) : List Nat := digitsLoop base n n []

def value (base : Nat) (places : List Nat) : Nat := places.foldl (fun n d => n*base + d) 0

section
variable {base n rounds : Nat}
section
variable (many : 1 < base)
include many

theorem digitsLoop_eq (found : List Nat) (enough : n ≤ rounds) :
    digitsLoop base rounds n found = (Nat.digits base n).reverse ++ found := by
  induction rounds generalizing n found with
  | zero =>
    cases Nat.le_zero.mp enough
    rw [digitsLoop,Nat.digits_zero]
    rfl
  | succ rounds ih =>
    rw [digitsLoop]
    split
    · rename_i zero
      rw [zero,Nat.digits_zero]
      rfl
    · rename_i more
      have positive : 0 < n := Nat.pos_of_ne_zero more
      have smaller : n/base < n := Nat.div_lt_self positive many
      rw [ih _ (by lia),Nat.digits_def' many positive,reverse_cons,append_assoc,singleton_append]

theorem digits_eq : digits base n = (Nat.digits base n).reverse := by
  rw [digits,digitsLoop_eq many [] (Nat.le_refl n),append_nil]

theorem value_digits : value base (digits base n) = n := by
  have step : (fun d v : Nat => v*base + d) = fun d v => d + base*v := by
    funext d v
    rw [Nat.mul_comm,Nat.add_comm]
  rw [value,digits_eq many,foldl_reverse,step]
  exact (Nat.ofDigits_eq_foldr base (Nat.digits base n)).symm.trans (Nat.ofDigits_digits base n)

theorem digits_lt : ∀ d ∈ digits base n, d < base := by
  intro d mem
  rw [digits_eq many,mem_reverse] at mem
  exact Nat.digits_lt_base many mem

theorem digits_ne_nil (positive : n ≠ 0) : digits base n ≠ [] := by
  rw [digits_eq many]
  exact fun none => positive (Nat.digits_eq_nil_iff_eq_zero.mp (reverse_eq_nil_iff.mp none))

theorem digits_length (k : Nat) : (digits base n).length ≤ k ↔ n < base^k := by
  rw [digits_eq many,length_reverse,Nat.digits_length_le_iff many]
end
end
end Numerals

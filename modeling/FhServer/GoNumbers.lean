import FhServer.GoBytes
import FhServer.Numerals

namespace FhServer
open GoBytes List

def digitByte (d : Nat) : UInt8 := UInt8.ofNat (if d < 10 then 48 + d else 87 + d)

def itoa (n : Nat) : Bytes := if n = 0 then [48] else (Numerals.digits 10 n).map digitByte

def decimalByte (c : UInt8) : Bool := 48 ≤ c && c ≤ 57

section
variable {d n : Nat}

theorem digitByte_decimal : ∀ d < 10, decimalByte (digitByte d) = true ∧ (digitByte d).toNat - 48 = d := by decide

theorem itoa_decimal : ∀ c ∈ itoa n, decimalByte c = true := by
  rw [itoa]
  split
  · intro c mem
    cases mem_singleton.mp mem
    rfl
  · intro c mem
    obtain ⟨d,digit,rfl⟩ := mem_map.mp mem
    exact (digitByte_decimal d (Numerals.digits_lt (by decide) d digit)).1

theorem itoa_ne_nil : itoa n ≠ [] := by
  rw [itoa]
  split
  · exact cons_ne_nil _ _
  · rename_i more
    exact fun none => Numerals.digits_ne_nil (by decide) more (map_eq_nil_iff.mp none)

theorem digits_value (places : List Nat) (start : Nat) (small : ∀ d ∈ places, d < 10) :
    (places.map digitByte).foldl (fun n c => n*10 + (c.toNat - 48)) start = places.foldl (fun n d => n*10 + d) start := by
  induction places generalizing start with
  | nil => rfl
  | cons d places ih =>
    rw [map_cons,foldl_cons,foldl_cons,(digitByte_decimal d (small d mem_cons_self)).2]
    exact ih _ fun d mem => small d (mem_cons_of_mem _ mem)

theorem itoa_value : (itoa n).foldl (fun n c => n*10 + (c.toNat - 48)) 0 = n := by
  rw [itoa]
  split
  · rename_i zero
    rw [zero]
    rfl
  · rw [digits_value _ 0 (Numerals.digits_lt (by decide))]
    exact Numerals.value_digits (by decide)

theorem itoa_inj (same : itoa n = itoa m) : n = m := by
  have value := itoa_value (n := n)
  rw [same,itoa_value] at value
  exact value.symm

theorem colon_not_decimal (n : Nat) : (58 : UInt8) ∉ itoa n := by
  intro mem
  have digit := itoa_decimal 58 mem
  revert digit
  decide

theorem colon_inj (same : itoa n ++ 58 :: x = itoa m ++ 58 :: y) : n = m ∧ x = y := by
  have places := congrArg (indexByte · 58) same
  simp only [indexByte_first (colon_not_decimal _),Option.some.injEq] at places
  obtain ⟨digits,colon⟩ := append_inj same places
  exact ⟨itoa_inj digits,(List.cons.inj colon).2⟩

theorem itoa_length (k : Nat) (one : 1 ≤ k) : (itoa n).length ≤ k ↔ n < 10^k := by
  rw [itoa]
  split
  · rename_i zero
    rw [zero]
    exact iff_of_true one (Nat.pow_pos (by decide))
  · rw [length_map,Numerals.digits_length (by decide)]
end
end FhServer

import FhServer.GoBytes

namespace FhServer
open List

-- What compress/gzip writes for the text.
def hi : Bytes := ascii "hi"
def hiGzip : Bytes := [31,139,8,0,0,0,0,0,0,255,202,200,4,4,0,0,255,255,172,42,147,216,2,0,0,0]

namespace ClientGzip

-- What is left to read of a body. A file refuses to be read once it is closed, a reader without a Close of its own does not.
structure RequestBody where
  rest : Bytes
  file : Bool := false
  closed : Bool := false

def RequestBody.read (b : RequestBody) : Option Bytes := if b.file && b.closed then none else some b.rest

structure Request where
  body : Option RequestBody
  contentLength : Int
  contentEncoding : Bytes := []

def gunzip (b : Bytes) : Option Bytes := if b = hiGzip then some hi else none

end ClientGzip
namespace Decompress

inductive DecodeError where
  | tooLarge
  | malformedContent
  | expansionRatio

def wrap (x : Int) : Int := x.bmod (2^64)

-- What gzip makes of the source: nothing when its head is no gzip head, or the bytes that can be read and whether they
-- end with io.EOF. The answer comes with the number of bytes that were read.
variable (gzip : Bytes → Option (Bytes × Bool)) (src : Bytes) (maxSize maxRatio : Int)

def decodeGzip : Except DecodeError Bytes × Nat :=
  if maxSize ≤ 0 then (.error .tooLarge,0)
  else
    match gzip src with
    | none => (.error .malformedContent,0)
    | some (data,ends) =>
      let ratioLimit := wrap (src.length*maxRatio)
      let limit := if 0 < maxRatio ∧ 0 < src.length ∧ src.length ≤ maxSize/maxRatio ∧ ratioLimit < maxSize then ratioLimit else maxSize
      let n := (wrap (limit+1)).toNat
      let out := data.take n
      (if data.length < n ∧ ends = false then .error .malformedContent
       else if out.length > maxSize then .error .tooLarge
       else if 0 < maxRatio ∧ 0 < src.length ∧ maxRatio ≤ maxSize/src.length ∧ out.length > ratioLimit then .error .expansionRatio
       else .ok out,out.length)

def bound : Int := min maxSize (src.length*maxRatio)

def Exact : Prop :=
  (∀ out, (decodeGzip gzip src maxSize maxRatio).1 = .ok out ↔ gzip src = some (out,true) ∧ out.length ≤ bound src maxSize maxRatio) ∧
    (decodeGzip gzip src maxSize maxRatio).2 ≤ bound src maxSize maxRatio+1

variable {gzip src maxSize maxRatio}
section
variable (size : 0 < maxSize ∧ maxSize < 2^63) (ratio : 0 < maxRatio) (filled : 0 < src.length)
include size ratio filled

-- Both divisions test whether the exact product is within maxSize, and then it does not wrap.
theorem ratio_tests : ((src.length : Int) ≤ maxSize/maxRatio ↔ src.length*maxRatio ≤ maxSize) ∧
    (maxRatio ≤ maxSize/src.length ↔ src.length*maxRatio ≤ maxSize) ∧
    (src.length*maxRatio ≤ maxSize → wrap (src.length*maxRatio) = src.length*maxRatio) := by
  refine ⟨Int.le_ediv_iff_mul_le ratio,?_,fun within => Int.bmod_eq_of_le ?_ ?_⟩
  · rw [Int.le_ediv_iff_mul_le (by lia),Int.mul_comm]
  · have least := Int.mul_nonneg (Int.natCast_nonneg src.length) (Int.le_of_lt ratio)
    lia
  · lia

theorem decodeGzip_opened (opened : gzip src = .some (data,ends)) {n : Nat} (reads : n = (wrap (bound src maxSize maxRatio+1)).toNat) :
    decodeGzip gzip src maxSize maxRatio =
      (if data.length < n ∧ ends = false then .error .malformedContent
       else if (data.take n).length > maxSize then .error .tooLarge
       else if (data.take n).length > bound src maxSize maxRatio then .error .expansionRatio
       else .ok (data.take n),(data.take n).length) := by
  obtain ⟨first,second,exact⟩ := ratio_tests size ratio filled
  have limit : (if 0 < maxRatio ∧ 0 < src.length ∧ src.length ≤ maxSize/maxRatio ∧ wrap (src.length*maxRatio) < maxSize then wrap (src.length*maxRatio)
      else maxSize) = bound src maxSize maxRatio := by
    simp only [bound,first,ratio,filled,true_and]
    by_cases within : src.length*maxRatio ≤ maxSize
    · rw [exact within]
      split <;> lia
    · rw [if_neg fun both => within both.1,Int.min_eq_left (by lia)]
  rw [decodeGzip,if_neg (by lia),opened]
  simp only [limit,← reads]
  congr 1
  split
  · rfl
  split
  · rfl
  refine if_congr ?_ rfl rfl
  simp only [second,ratio,filled,true_and,bound]
  by_cases within : src.length*maxRatio ≤ maxSize
  · rw [exact within]
    lia
  · lia
end

theorem decodeGzip_exact_iff (empty : gzip [] = none) (size : 0 < maxSize ∧ maxSize < 2^63) (ratio : 0 < maxRatio) :
    Exact gzip src maxSize maxRatio ↔ bound src maxSize maxRatio < 2^63-1 ∨ gzip src = none ∨ gzip src = some ([],true) := by
  have least := Int.mul_nonneg (Int.natCast_nonneg src.length) (Int.le_of_lt ratio)
  have small : 0 ≤ bound src maxSize maxRatio ∧ bound src maxSize maxRatio ≤ maxSize := by
    rw [bound]
    lia
  rw [Exact]
  cases opened : gzip src with
  | none =>
    rw [decodeGzip,if_neg (by lia),opened]
    simp
    lia
  | some stream =>
    obtain ⟨data,ends⟩ := stream
    have filled : 0 < src.length := by
      rw [length_pos_iff]
      rintro rfl
      rw [empty] at opened
      cases opened
    rw [decodeGzip_opened size ratio filled opened rfl]
    by_cases low : bound src maxSize maxRatio < 2^63-1
    · have reads : wrap (bound src maxSize maxRatio+1) = bound src maxSize maxRatio+1 := Int.bmod_eq_of_le (by lia) (by lia)
      generalize bound src maxSize maxRatio = b at *
      obtain ⟨k,rfl⟩ := Int.eq_ofNat_of_zero_le small.1
      have count : ((k : Int)+1).toNat = k+1 := rfl
      rw [reads,count]
      refine iff_of_true ⟨fun out => ?_,?_⟩ (.inl low)
      · by_cases fit : data.length ≤ k
        · rw [take_of_length_le (by lia)]
          cases ends with
          | false => simp [Nat.lt_succ_of_le fit]
          | true =>
            simp only [Bool.true_eq_false,and_false,if_false,Option.some.injEq,Prod.mk.injEq,and_true]
            rw [if_neg (by lia),if_neg (by lia),Except.ok.injEq]
            exact ⟨fun same => ⟨same,same ▸ by lia⟩,fun both => both.1⟩
        · have long : (data.take (k+1)).length = k+1 := length_take_of_le (by lia)
          rw [if_neg (by lia),long]
          refine iff_of_false ?_ fun both => ?_
          · split
            · nofun
            · rw [if_pos (by lia)]
              nofun
          · cases both.1
            lia
      · rw [length_take]
        lia
    · have reads : (wrap (bound src maxSize maxRatio+1)).toNat = 0 := by
        rw [(by lia : bound src maxSize maxRatio = 2^63-1)]
        rfl
      simp only [reads,take_zero,length_nil,Nat.not_lt_zero,false_and,if_false]
      rw [if_neg (by lia),if_neg (by lia)]
      simp only [Except.ok.injEq,low,reduceCtorEq,false_or]
      refine ⟨fun all => ((all.1 []).mp rfl).1,fun same => ⟨fun out => ?_,by lia⟩⟩
      rw [same,Option.some.injEq,Prod.mk.injEq]
      exact ⟨fun here => ⟨⟨here,rfl⟩,by cases here; exact small.1⟩,fun both => both.1.1⟩

def gunzip (src : Bytes) : Option (Bytes × Bool) := if src = hiGzip then some (hi,true) else none

theorem small_stream_exact : Exact gunzip hiGzip 3 2 := (decodeGzip_exact_iff (by decide) (by decide) (by decide)).mpr (by decide)

theorem largest_size_shortened : (decodeGzip gunzip hiGzip (2^63-1) (2^63-1)).1.toOption = some [] ∧ ¬Exact gunzip hiGzip (2^63-1) (2^63-1) := by
  refine ⟨by decide,fun all => ?_⟩
  have shortened := (all.1 []).mp rfl
  revert shortened
  decide
end Decompress
end FhServer

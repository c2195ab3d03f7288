import Mathlib

namespace FhServer
open List

abbrev Bytes := List UInt8

instance : LawfulBEq Bytes := inferInstanceAs (LawfulBEq (List UInt8))

def cr : UInt8 := 13
def lf : UInt8 := 10
def crlf : Bytes := [cr,lf]

-- Field names and texts are written as strings in the source and compared as
-- bytes. All of them are ASCII.
def ascii (s : String) : Bytes := s.toList.map (fun c => UInt8.ofNat c.toNat)

theorem ascii_ofList (letters : List Char) : ascii (.ofList letters) = letters.map (fun c => UInt8.ofNat c.toNat) := by
  rw [ascii,String.toList_ofList]

structure Header where
  key : Bytes
  value : Bytes
deriving DecidableEq

namespace GoBytes

def indexByte (b : Bytes) (c : UInt8) : Option Nat := b.findIdx? (· == c)

def index (pat : Bytes) : Bytes → Option Nat
  | [] => if pat = [] then some 0 else none
  | c :: rest => if pat.isPrefixOf (c :: rest) then some 0 else (index pat rest).map (· + 1)

def before (b : Bytes) (c : UInt8) : Bytes :=
  match indexByte b c with
  | some i => b.take i
  | none => b

def isOWS (c : UInt8) : Bool := c == 32 || c == 9

-- trimRight, and with it trimOWS, drops a trailing CR as well.
def trimRight (b : Bytes) : Bytes := b.rdropWhile (fun c => c == 32 || c == cr || c == 9)
def trimOWS (b : Bytes) : Bytes := trimRight (b.dropWhile isOWS)
def trimOWSRight (b : Bytes) : Bytes := b.rdropWhile isOWS

def forbiddenTokenByte (c : UInt8) : Bool := (ascii "()<>@,;:\\\"/[]?=").contains c || c == 123 || c == 125
def tokenByte (c : UInt8) : Bool := !(c ≤ 32 || c ≥ 127 || forbiddenTokenByte c)
def validToken (b : Bytes) : Bool := b.all tokenByte && !b.isEmpty

def foldByte (c : UInt8) : UInt8 := if 65 ≤ c && c ≤ 90 then c ||| 32 else c
def bytesEqualFold (a b : Bytes) : Bool := a.length == b.length && a.map foldByte == b.map foldByte

-- unicode.IsSpace over UTF-8: the ASCII white space, U+0085 and U+00A0 in two
-- bytes, and the other space separators in three.
def asciiSpace (c : UInt8) : Bool := (9 ≤ c && c ≤ 13) || c == 32
def space2 (a b : UInt8) : Bool := a == 0xC2 && (b == 0x85 || b == 0xA0)
def space3 (a b c : UInt8) : Bool :=
  (a == 0xE1 && b == 0x9A && c == 0x80) ||
  (a == 0xE2 && b == 0x80 && ((0x80 ≤ c && c ≤ 0x8A) || c == 0xA8 || c == 0xA9 || c == 0xAF)) ||
  (a == 0xE2 && b == 0x81 && c == 0x9F) || (a == 0xE3 && b == 0x80 && c == 0x80)

def trimRunes (one : UInt8 → Bool) (two : UInt8 → UInt8 → Bool)
    (three : UInt8 → UInt8 → UInt8 → Bool) : Bytes → Bytes
  | [] => []
  | [a] => if one a then [] else [a]
  | [a,b] =>
    if one a then trimRunes one two three [b]
    else if two a b then [] else [a,b]
  | a :: b :: c :: rest =>
    if one a then trimRunes one two three (b :: c :: rest)
    else if two a b then trimRunes one two three (c :: rest)
    else if three a b c then trimRunes one two three rest
    else a :: b :: c :: rest

def trimSpaceLeft (b : Bytes) : Bytes := trimRunes asciiSpace space2 space3 b

-- utf8.DecodeLastRune finds a white-space rune at the end exactly when its
-- encoding is the suffix, so the right trim is the left one on the reversal.
def trimSpaceRight (b : Bytes) : Bytes :=
  (trimRunes asciiSpace (fun x y => space2 y x) (fun x y z => space3 z y x) b.reverse).reverse

def trimSpace (b : Bytes) : Bytes := trimSpaceRight (trimSpaceLeft b)

def hexDigit (c : UInt8) : Option Nat :=
  if 48 ≤ c && c ≤ 57 then some (c.toNat - 48)
  else if 97 ≤ c && c ≤ 102 then some (c.toNat - 97 + 10)
  else if 65 ≤ c && c ≤ 70 then some (c.toNat - 65 + 10)
  else none

def maxInt : Nat := 2^63 - 1

-- strconv.ParseUint(s,16,64) with its digits read left to right; range errors
-- surface at the end because the value only grows.
def parseUint16 (b : Bytes) : Option Nat :=
  if b.isEmpty then none
  else b.foldl (fun acc c => acc.bind fun n => (hexDigit c).map (n*16 + ·)) (some 0)

-- strconv.ParseInt(s,16,64): one optional sign, and the range of int64.
def parseInt16 : Bytes → Option Int
  | [] => none
  | c :: rest =>
    if c == 45 then (parseUint16 rest).bind fun n => if n ≤ maxInt + 1 then some (-(n : Int)) else none
    else
      (parseUint16 (if c == 43 then rest else c :: rest)).bind fun n =>
        if n ≤ maxInt then some (n : Int) else none

theorem eachByte {P : UInt8 → Prop} (each : ∀ n < 256, P (UInt8.ofNat n)) (c : UInt8) : P c := by
  have here := each c.toNat c.toNat_lt
  rwa [UInt8.ofNat_toNat] at here

theorem indexByte_first (free : c ∉ text) (rest : Bytes) :
    indexByte (text ++ c :: rest) c = some text.length := by
  induction text with
  | nil => simp [indexByte,List.findIdx?_cons]
  | cons b text ih =>
    have other : (b == c) = false := by simp only [beq_eq_false_iff_ne]; rintro rfl; exact free (by simp)
    have tail := ih fun mem => free (by simp [mem])
    rw [indexByte] at tail ⊢
    rw [cons_append,List.findIdx?_cons,other,tail]
    rfl

theorem indexByte_split (found : indexByte b c = some i) :
    ∃ text rest, b = text ++ c :: rest ∧ c ∉ text ∧ text.length = i := by
  induction b generalizing i with
  | nil => simp [indexByte] at found
  | cons a b ih =>
    rw [indexByte,List.findIdx?_cons] at found
    split at found
    · rename_i here
      cases found
      obtain rfl : a = c := by simpa using here
      exact ⟨[],b,rfl,by simp,rfl⟩
    · rename_i other
      obtain ⟨j,inner,rfl⟩ := Option.map_eq_some_iff.mp found
      obtain ⟨text,rest,rfl,free,rfl⟩ := ih inner
      refine ⟨a :: text,rest,rfl,?_,rfl⟩
      simp only [mem_cons,not_or]
      exact ⟨fun same => other (by simp [same]),free⟩

theorem indexByte_none : indexByte b c = none ↔ c ∉ b := by
  rw [indexByte,List.findIdx?_eq_none_iff]
  constructor
  · intro other mem
    simpa using other c mem
  · intro free a mem
    exact beq_eq_false_iff_ne.mpr fun same => free (same ▸ mem)

theorem index_split (found : index pat w = some i) :
    ∃ text rest, w = text ++ (pat ++ rest) ∧ text.length = i := by
  induction w generalizing i with
  | nil =>
    simp only [index] at found
    split at found
    · cases found; exact ⟨[],[],by simp [*],rfl⟩
    · cases found
  | cons c w ih =>
    simp only [index] at found
    split at found
    · rename_i here
      cases found
      obtain ⟨rest,eq⟩ := isPrefixOf_iff_prefix.mp here
      exact ⟨[],rest,by simp [eq],rfl⟩
    · obtain ⟨j,inner,rfl⟩ := Option.map_eq_some_iff.mp found
      obtain ⟨text,rest,rfl,rfl⟩ := ih inner
      exact ⟨c :: text,rest,rfl,rfl⟩

theorem index_append (more : Bytes) (found : index pat w = some i) :
    index pat (w ++ more) = some i := by
  induction w generalizing i with
  | nil =>
    simp only [index] at found
    split at found
    · rename_i empty
      cases found; subst empty
      cases more <;> simp [index]
    · cases found
  | cons c w ih =>
    simp only [index] at found
    simp only [cons_append,index]
    split at found
    · rename_i here
      cases found
      have there : pat.isPrefixOf (c :: (w ++ more)) = true := by
        obtain ⟨rest,eq⟩ := isPrefixOf_iff_prefix.mp here
        exact isPrefixOf_iff_prefix.mpr ⟨rest ++ more,by rw [← append_assoc,eq]; rfl⟩
      rw [if_pos there]
    · rename_i absent
      obtain ⟨j,inner,rfl⟩ := Option.map_eq_some_iff.mp found
      obtain ⟨text,rest,eq,-⟩ := index_split inner
      have length : pat.length ≤ (c :: w).length := by rw [eq,length_cons,length_append,length_append]; lia
      have still : ¬ pat.isPrefixOf (c :: (w ++ more)) = true := fun there => absent
        ( isPrefixOf_iff_prefix.mpr (prefix_of_prefix_length_le ( isPrefixOf_iff_prefix.mp there)
          (prefix_append (c :: w) more) length))
      rw [if_neg still,ih inner]
      rfl

theorem index_reaches (found : index pat w = some i) (reaches : i + pat.length ≤ k) :
    index pat (w.take k) = some i := by
  induction w generalizing i k with
  | nil => simpa using found
  | cons c w ih =>
    simp only [index] at found
    split at found
    · rename_i here
      cases found
      cases k with
      | zero =>
        have empty : pat = [] := eq_nil_of_length_eq_zero (by lia)
        simp [empty,index]
      | succ k =>
        have there : pat.isPrefixOf (c :: w.take k) = true := isPrefixOf_iff_prefix.mpr
          (prefix_of_prefix_length_le ( isPrefixOf_iff_prefix.mp here) ( take_prefix (k+1) (c :: w)) (by
            have length := ( isPrefixOf_iff_prefix.mp here).length_le
            rw [length_cons] at length
            rw [length_cons,length_take]; lia))
        simp [index,there]
    · rename_i absent
      obtain ⟨j,inner,rfl⟩ := Option.map_eq_some_iff.mp found
      obtain ⟨k,rfl⟩ := Nat.exists_eq_succ_of_ne_zero (by lia : k ≠ 0)
      have still : ¬ pat.isPrefixOf (c :: w.take k) = true := fun there => absent
        ( isPrefixOf_iff_prefix.mpr (( isPrefixOf_iff_prefix.mp there).trans ( take_prefix (k+1) (c :: w))))
      rw [take_succ_cons,index,if_neg still,ih inner (by lia)]
      rfl

theorem index_take (found : index pat w = some i) (k : Nat) :
    index pat (w.take k) = if i + pat.length ≤ k then some i else none := by
  by_cases reaches : i + pat.length ≤ k
  · rw [if_pos reaches,index_reaches found reaches]
  rw [if_neg reaches]
  cases got : index pat (w.take k) with
  | none => rfl
  | some j =>
    have whole := index_append (w.drop k) got
    rw [take_append_drop,found] at whole
    obtain ⟨text,rest,split,rfl⟩ := index_split got
    have length := congrArg List.length split
    rw [length_append,length_append,length_take] at length
    lia

theorem index_crlf (free : index crlf line = none) (rest : Bytes) :
    index crlf (line ++ (crlf ++ rest)) = some line.length := by
  induction line with
  | nil => rfl
  | cons c line ih =>
    simp only [index] at free
    split at free
    · cases free
    rename_i absent
    rw [Option.map_eq_none_iff] at free
    have still : ¬ crlf.isPrefixOf (c :: (line ++ (crlf ++ rest))) = true := by
      intro there
      cases line with
      | nil => simp [crlf,cr,lf] at there
      | cons d line => simp [crlf,List.isPrefixOf] at there absent; exact absent there.1 there.2
    rw [cons_append,index,if_neg still,ih free]
    rfl

theorem index_crlf_iff : index crlf w = some line.length ∧ w.take line.length = line ↔
    index crlf line = none ∧ ∃ rest, w = line ++ (crlf ++ rest) := by
  constructor
  · rintro ⟨found,start⟩
    obtain ⟨text,rest,rfl,size⟩ := index_split found
    rw [← size,take_left] at start
    subst start
    have before := index_take found text.length
    rw [take_left,if_neg (by simp [crlf])] at before
    exact ⟨before,rest,rfl⟩
  · rintro ⟨free,rest,rfl⟩
    exact ⟨index_crlf free rest,take_left⟩
end GoBytes
end FhServer

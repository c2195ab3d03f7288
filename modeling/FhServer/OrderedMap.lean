import Mathlib

structure OrderedMap (κ ν : Type) [LT κ] where
  entries : List (κ × ν) := []
  ordered : entries.Pairwise (fun a b => a.1 < b.1) := by simp

namespace OrderedMap
open List
variable {κ ν : Type} [LT κ]
section
variable [DecidableLT κ] [DecidableEq κ]

def insertEntry (k : κ) (v : ν) : List (κ × ν) → List (κ × ν)
  | [] => [(k,v)]
  | (a,w) :: rest =>
    if k < a then (k,v) :: (a,w) :: rest
    else if k = a then (k,v) :: rest
    else (a,w) :: insertEntry k v rest

theorem insertEntry_keys {e : κ × ν} (mem : e ∈ insertEntry k v l) : e.1 = k ∨ e ∈ l := by
  induction l with
  | nil => exact .inl (by simpa using congrArg Prod.fst (mem_singleton.mp mem))
  | cons a rest ih =>
    unfold insertEntry at mem
    split at mem
    · rcases mem_cons.mp mem with rfl | old
      · exact .inl rfl
      · exact .inr old
    · split at mem
      · rcases mem_cons.mp mem with rfl | old
        · exact .inl rfl
        · exact .inr (mem_cons_of_mem _ old)
      · rcases mem_cons.mp mem with rfl | old
        · exact .inr mem_cons_self
        · exact (ih old).imp_right (mem_cons_of_mem _)

theorem insertEntry_ordered [Trans (α := κ) (· < ·) (· < ·) (· < ·)] [Std.Trichotomous (α := κ) (· < ·)] (k : κ) (v : ν) {l : List (κ × ν)}
    (ordered : l.Pairwise fun a b => a.1 < b.1) : (insertEntry k v l).Pairwise fun a b => a.1 < b.1 := by
  induction l with
  | nil => simp [insertEntry]
  | cons a rest ih =>
    obtain ⟨first,later⟩ := pairwise_cons.mp ordered
    unfold insertEntry
    split
    · rename_i low
      refine pairwise_cons.mpr ⟨?_,ordered⟩
      intro e mem
      rcases mem_cons.mp mem with rfl | old
      · exact low
      · exact Trans.trans low (first e old)
    · split
      · rename_i same
        exact pairwise_cons.mpr ⟨fun e mem => same ▸ first e mem,later⟩
      rename_i high other
      have above : a.1 < k := by
        rcases Std.Trichotomous.rel_or_eq_or_rel_swap (r := (· < · : κ → κ → Prop)) (a := k) (b := a.1) with less | same | more
        · exact absurd less high
        · exact absurd same other
        · exact more
      refine pairwise_cons.mpr ⟨?_,ih later⟩
      intro e mem
      rcases insertEntry_keys mem with same | old
      · exact same ▸ above
      · exact first e old

theorem filter_insertEntry (k : κ) (v : ν) (l : List (κ × ν)) :
    (insertEntry k v l).filter (fun e => e.1 ≠ k) = l.filter fun e => e.1 ≠ k := by
  induction l with
  | nil => simp [insertEntry]
  | cons a rest ih =>
    unfold insertEntry
    split
    · simp
    split
    · rename_i same
      simp [← same]
    · simp only [filter_cons,ih]

theorem find_insertEntry_self (k : κ) (v : ν) (l : List (κ × ν)) : (insertEntry k v l).find? (fun e => e.1 = k) = some (k,v) := by
  induction l with
  | nil => simp [insertEntry]
  | cons a rest ih =>
    unfold insertEntry
    split
    · simp
    split
    · simp
    · rename_i other
      have differs : a.1 ≠ k := fun same => other same.symm
      simp [differs,ih]

theorem find_insertEntry_ne (v : ν) (l : List (κ × ν)) (other : k' ≠ k) :
    (insertEntry k v l).find? (fun e => e.1 = k') = l.find? fun e => e.1 = k' := by
  induction l with
  | nil => simp [insertEntry,other.symm]
  | cons a rest ih =>
    unfold insertEntry
    split
    · simp [other.symm]
    split
    · rename_i same
      simp [← same,other.symm]
    · simp [List.find?_cons,ih]
end

section
variable [DecidableEq κ]

def get (m : OrderedMap κ ν) (k : κ) : Option ν := (m.entries.find? fun e => e.1 = k).map Prod.snd

def erase (m : OrderedMap κ ν) (k : κ) : OrderedMap κ ν := ⟨m.entries.filter fun e => e.1 ≠ k,m.ordered.filter _⟩

theorem erase_absent {m : OrderedMap κ ν} (absent : m.get k = none) : m.erase k = m := by
  simp only [get,Option.map_eq_none_iff,List.find?_eq_none,decide_eq_true_eq] at absent
  have all : m.entries.filter (fun e => e.1 ≠ k) = m.entries := by
    apply filter_eq_self.mpr
    intro e mem
    simpa using absent e mem
  simp only [erase,all]

variable [DecidableLT κ] [Trans (α := κ) (· < ·) (· < ·) (· < ·)] [Std.Trichotomous (α := κ) (· < ·)]

def set (m : OrderedMap κ ν) (k : κ) (v : ν) : OrderedMap κ ν := ⟨insertEntry k v m.entries,insertEntry_ordered k v m.ordered⟩

@[simp] theorem get_set_self (m : OrderedMap κ ν) (k : κ) (v : ν) : (m.set k v).get k = some v := by simp [get,set,find_insertEntry_self]

theorem get_set_ne (m : OrderedMap κ ν) (v : ν) (other : k' ≠ k) : (m.set k v).get k' = m.get k' := by
  simp [get,set,find_insertEntry_ne v m.entries other]

theorem erase_set (m : OrderedMap κ ν) (k : κ) (v : ν) : (m.set k v).erase k = m.erase k := by
  simp only [erase,set,filter_insertEntry]
end
end OrderedMap

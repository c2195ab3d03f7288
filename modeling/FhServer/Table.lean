import Mathlib

-- A map that differs from a default value at finitely many keys only, with the sum of a weight over those keys.
structure Table (κ ν : Type) (base : ν) where
  get : κ → ν
  keys : List κ
  nodup : keys.Nodup
  outside : ∀ k, k ∉ keys → get k = base

namespace Table
open Function
open List
variable {κ ν : Type} {base : ν}

def empty : Table κ ν base := ⟨fun _ => base,[],nodup_nil,fun _ _ => rfl⟩

@[simp] theorem get_empty (k : κ) : (empty : Table κ ν base).get k = base := rfl

def sum (t : Table κ ν base) (w : κ → ν → Int) : Int := (t.keys.map fun k => w k (t.get k)).sum

@[simp] theorem sum_empty (w : κ → ν → Int) : (empty : Table κ ν base).sum w = 0 := rfl

def mapAll (t : Table κ ν base) (f : κ → ν → ν) (fixed : ∀ k, f k base = base) : Table κ ν base where
  get k := f k (t.get k)
  keys := t.keys
  nodup := t.nodup
  outside := by
    intro k absent
    rw [t.outside k absent,fixed]

section
variable (t : Table κ ν base)

theorem sum_nonneg (each : ∀ k, 0 ≤ w k (t.get k)) : 0 ≤ t.sum w := by
  apply List.sum_nonneg
  intro x mem
  obtain ⟨k,-,rfl⟩ := List.mem_map.mp mem
  exact each k

theorem sum_eq_zero (each : ∀ k, w k (t.get k) = 0) : t.sum w = 0 := by
  apply List.sum_eq_zero
  intro x mem
  obtain ⟨k,-,rfl⟩ := List.mem_map.mp mem
  exact each k

theorem sum_congr (each : ∀ k, w k (t.get k) = w' k (t.get k)) : t.sum w = t.sum w' := by
  rw [sum,sum]
  congr 1
  apply map_congr_left
  intro k _
  exact each k

@[simp] theorem get_mapAll (f : κ → ν → ν) (fixed : ∀ k, f k base = base) (k : κ) :
    (t.mapAll f fixed).get k = f k (t.get k) := rfl

theorem sum_mapAll
    (same : ∀ k v, w k (f k v) = w k v) : (t.mapAll f fixed).sum w = t.sum w := by
  simp [sum,mapAll,same]
end
section
variable [DecidableEq κ]

def set (t : Table κ ν base) (k : κ) (v : ν) : Table κ ν base where
  get := update t.get k v
  keys := t.keys.insert k
  nodup := t.nodup.insert
  outside := by
    intro other absent
    rw [mem_insert_iff,not_or] at absent
    rw [update_of_ne absent.1]
    exact t.outside other absent.2

def update (t : Table κ ν base) (k : κ) (f : ν → ν) : Table κ ν base := t.set k (f (t.get k))

section
variable (t : Table κ ν base)

@[simp] theorem get_set_self (k : κ) (v : ν) : (t.set k v).get k = v :=
  update_self ..

theorem get_set_ne (v : ν) (other : k' ≠ k) : (t.set k v).get k' = t.get k' :=
  update_of_ne other ..

theorem get_set (k : κ) (v : ν) (k' : κ) : (t.set k v).get k' = if k' = k then v else t.get k' :=
  update_apply ..

@[simp] theorem get_update_self (k : κ) (f : ν → ν) : (t.update k f).get k = f (t.get k) :=
  get_set_self ..

theorem get_update_ne (f : ν → ν) (other : k' ≠ k) : (t.update k f).get k' = t.get k' :=
  get_set_ne t _ other

theorem get_update (k : κ) (f : ν → ν) (k' : κ) :
    (t.update k f).get k' = if k' = k then f (t.get k) else t.get k' :=
  get_set ..

theorem update_all {P : κ → ν → Prop} (each : ∀ k, P k (t.get k)) (one : P k (f (t.get k))) :
    ∀ k', P k' ((t.update k f).get k') := by
  intro k'
  rw [get_update]
  split
  · rename_i same
    exact same ▸ one
  · exact each k'

theorem update_part (part : ν → α) (same : part (f (t.get k)) = part (t.get k)) (k' : κ) :
    part ((t.update k f).get k') = part (t.get k') := by
  rw [get_update]
  split
  · rename_i here
    exact here ▸ same
  · rfl
end

private theorem sum_map_update (w : κ → ν → Int) (get : κ → ν) (v : ν) {keys : List κ} (nodup : keys.Nodup) (mem : k ∈ keys) :
    (keys.map fun k' => w k' (Function.update get k v k')).sum+w k (get k) = (keys.map fun k' => w k' (get k')).sum+w k v := by
  have inside : keys.idxOf k < keys.length := idxOf_lt_length_of_mem mem
  have moved : (fun k' => w k' (Function.update get k v k')) = Function.update (fun k' => w k' (get k')) k (w k v) :=
    funext (apply_update w get k v)
  rw [moved,nodup.map_update,if_pos mem,sum_set',dif_pos (by simpa using inside),getElem_map,getElem_idxOf inside]
  abel

theorem sum_set (t : Table κ ν base) (nothing : ∀ k, w k base = 0) (k : κ) (v : ν) :
    (t.set k v).sum w+w k (t.get k) = t.sum w+w k v := by
  by_cases mem : k ∈ t.keys
  · have moved := sum_map_update w t.get v t.nodup mem
    simpa [sum,set,insert_of_mem mem] using moved
  have moved := sum_map_update w t.get v (nodup_cons.mpr ⟨mem,t.nodup⟩) (mem_cons_self ..)
  have default := t.outside k mem
  simp only [map_cons,sum_cons] at moved
  simp only [sum,set,insert_of_not_mem mem,map_cons,sum_cons]
  rw [default,nothing] at moved ⊢
  lia

theorem sum_update (t : Table κ ν base) (nothing : ∀ k, w k base = 0) (k : κ) (f : ν → ν) :
    (t.update k f).sum w+w k (t.get k) = t.sum w+w k (f (t.get k)) :=
  sum_set t nothing k _
end
end Table

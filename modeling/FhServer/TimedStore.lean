import FhServer.Table

structure TimedEntry (ν : Type) where
  value : ν
  ends : Option Int := none
deriving DecidableEq

def TimedEntry.live (now : Int) (e : TimedEntry ν) : Bool := e.ends.all fun ends => decide (now < ends)

-- A store that is read and changed one key at a time, each time as a whole.
structure TimedStore (κ ν : Type) where
  data : Table κ (Option (TimedEntry ν)) none := .empty

namespace TimedStore
variable {κ ν α : Type}

def find (s : TimedStore κ ν) (k : κ) (now : Int) : Option ν := ((s.data.get k).filter (TimedEntry.live now)).map TimedEntry.value

def size (s : TimedStore κ ν) (now : Int) : Nat := s.data.keys.countP fun k => (s.find k now).isSome

theorem find_empty (k : κ) (now : Int) : ({} : TimedStore κ ν).find k now = none := rfl

theorem find_lasting {s : TimedStore κ ν} (there : s.data.get k = some ⟨v,none⟩) (now : Int) : s.find k now = some v := by
  rw [find,there]
  rfl

theorem find_absent {s : TimedStore κ ν} (gone : s.data.get k = none) (now : Int) : s.find k now = none := by
  rw [find,gone]
  rfl

theorem find_ending {s : TimedStore κ ν} (there : s.data.get k = some ⟨v,some ends⟩) (now : Int) :
    s.find k now = if now < ends then some v else none := by
  rw [find,there]
  by_cases before : now < ends <;> simp [TimedEntry.live,before]

theorem size_le (s : TimedStore κ ν) (now : Int) : s.size now ≤ s.data.keys.length := List.countP_le_length

theorem size_eq_zero {s : TimedStore κ ν} (none : ∀ k, s.find k now = .none) : s.size now = 0 := by
  refine List.countP_eq_zero.mpr fun k _ => ?_
  rw [none]
  exact Bool.false_ne_true

variable [DecidableEq κ]

-- A time to live that is not positive is no limit.
def put (s : TimedStore κ ν) (k : κ) (v : ν) (ttl now : Int) : TimedStore κ ν :=
  ⟨s.data.set k (some ⟨v,if 0 < ttl then some (now+ttl) else none⟩)⟩

def erase (s : TimedStore κ ν) (k : κ) : TimedStore κ ν := ⟨s.data.set k none⟩

def mutate (s : TimedStore κ ν) (k : κ) (now : Int) (fn : Option ν → α × Option (ν × Int)) : α × TimedStore κ ν :=
  match fn (s.find k now) with
  | (a,none) => (a,s)
  | (a,some (v,ttl)) => (a,s.put k v ttl now)

section
variable {s : TimedStore κ ν} {fn : Option ν → α × Option (ν × Int)}

theorem get_put_self (ttl now : Int) : (s.put k v ttl now).data.get k = some ⟨v,if 0 < ttl then some (now+ttl) else none⟩ :=
  Table.get_set_self ..

theorem get_put_ne (ttl now : Int) (other : k' ≠ k) : (s.put k v ttl now).data.get k' = s.data.get k' := Table.get_set_ne _ _ other

theorem get_erase_self : (s.erase k).data.get k = none := Table.get_set_self ..

theorem get_erase_ne (other : k' ≠ k) : (s.erase k).data.get k' = s.data.get k' := Table.get_set_ne _ _ other

theorem find_put_ne (ttl now t : Int) (other : k' ≠ k) : (s.put k v ttl now).find k' t = s.find k' t := by
  rw [find,find,get_put_ne ttl now other]

theorem mutate_left (leaves : fn (s.find k now) = (a,none)) : s.mutate k now fn = (a,s) := by rw [mutate,leaves]

theorem mutate_stored (stores : fn (s.find k now) = (a,some (v,ttl))) : s.mutate k now fn = (a,s.put k v ttl now) := by rw [mutate,stores]

theorem get_mutate_ne (now : Int) (fn : Option ν → α × Option (ν × Int)) (other : k' ≠ k) : (s.mutate k now fn).2.data.get k' = s.data.get k' := by
  rw [mutate]
  split
  · rfl
  · exact get_put_ne _ now other

theorem find_put_self (positive : 0 < ttl) (now t : Int) : (s.put k v ttl now).find k t = if t < now+ttl then some v else none := by
  have there := get_put_self (s := s) (k := k) (v := v) ttl now
  rw [if_pos positive] at there
  exact find_ending there t

theorem keys_put (ttl now : Int) : (s.put k v ttl now).data.keys.length ≤ s.data.keys.length+1 := by
  show (s.data.keys.insert k).length ≤ _
  rw [List.length_insert]
  split <;> lia
end
section
def Holds (s : TimedStore κ ν) (k : κ) (ends : Int) : Prop := ∀ t < ends, (s.find k t).isSome = true

theorem holds_put (s : TimedStore κ ν) (k : κ) (v : ν) (positive : 0 < ttl) (now : Int) : (s.put k v ttl now).Holds k (now+ttl) := by
  intro t before
  rw [find_put_self positive,if_pos before]
  rfl

theorem Holds.put {s : TimedStore κ ν} (holds : s.Holds k ends) (v : ν) (positive : 0 < ttl) (absent : s.find k' now = none) :
    (s.put k' v ttl now).Holds k ends := by
  intro t before
  by_cases same : k = k'
  · subst same
    have ended : ends ≤ now := by
      apply Int.not_lt.mp
      intro going
      have found := holds now going
      rw [absent] at found
      cases found
    rw [find_put_self positive,if_pos (by lia)]
    rfl
  · rw [find_put_ne _ now t same]
    exact holds t before
end
end TimedStore

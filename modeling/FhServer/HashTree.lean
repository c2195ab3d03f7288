import Mathlib

-- Binary trees that are built from the bottom, level by level, and the values they give to their roots.
inductive HashTree (α : Type)
  | leaf (value : α)
  | node (left right : HashTree α)

namespace HashTree
open List
section
variable {α β : Type} (join : α → α → α)

def pairUp : List α → List α
  | [] => []
  | [a] => [a]
  | a :: b :: rest => join a b :: pairUp rest

def climb : Nat → List α → Option α
  | _,[] => none
  | _,[a] => some a
  | 0,_ :: _ :: _ => none
  | fuel+1,a :: b :: rest => climb fuel (pairUp join (a :: b :: rest))

theorem pairUp_length : ∀ l : List α, (pairUp join l).length = (l.length+1)/2
  | [] | [_] => by simp [pairUp]
  | a :: b :: rest => by
    simp only [pairUp,length_cons,pairUp_length rest]
    lia

theorem pairUp_map (hom : ∀ a b, f (join a b) = join' (f a) (f b)) :
    ∀ l : List α, pairUp join' (l.map f) = (pairUp join l).map f
  | [] => rfl
  | [_] => rfl
  | a :: b :: rest => by simp [pairUp,hom,pairUp_map hom rest]

theorem climb_map (hom : ∀ a b, f (join a b) = join' (f a) (f b)) (fuel : Nat) (l : List α) :
    climb join' fuel (l.map f) = (climb join fuel l).map f := by
  induction fuel generalizing l with
  | zero => rcases l with _ | ⟨a,_ | ⟨b,rest⟩⟩ <;> rfl
  | succ fuel ih =>
    rcases l with _ | ⟨a,_ | ⟨b,rest⟩⟩
    · rfl
    · rfl
    · have up := pairUp_map join hom (a :: b :: rest)
      simp only [map_cons] at up
      simp [climb,up,ih]

theorem climb_ends (enough : l.length ≤ fuel+1) (some : l ≠ []) : ∃ a, climb join fuel l = .some a := by
  induction fuel generalizing l with
  | zero =>
    rcases l with _ | ⟨a,_ | ⟨b,rest⟩⟩
    · exact absurd rfl some
    · exact ⟨a,rfl⟩
    · simp at enough
  | succ fuel ih =>
    rcases l with _ | ⟨a,_ | ⟨b,rest⟩⟩
    · exact absurd rfl some
    · exact ⟨a,rfl⟩
    apply ih
    · rw [pairUp_length]
      lia
    · simp [pairUp]
end
section
variable {α β : Type}

def value (join : α → α → α) : HashTree α → α
  | leaf a => a
  | node l r => join (value join l) (value join r)

def leaves : HashTree α → List α
  | leaf a => [a]
  | node l r => leaves l ++ leaves r

def shape : HashTree α → HashTree Unit
  | leaf _ => leaf ()
  | node l r => node (shape l) (shape r)

def pairs (join : α → α → α) : HashTree α → List (α × α)
  | leaf _ => []
  | node l r => (value join l,value join r) :: (pairs join l ++ pairs join r)

-- The tree over a list of leaves; the loop never runs out, so the default is not reached.
def build (default : α) (l : List α) : HashTree α := (climb node l.length (l.map leaf)).getD (leaf default)

theorem build_climb (default : α) (some : l ≠ []) : climb node l.length (l.map leaf) = .some (build default l) := by
  have enough : (l.map leaf).length ≤ l.length+1 := by simp
  obtain ⟨t,climbs⟩ := climb_ends node enough (by simpa using some)
  simp [build,climbs]

theorem value_build (join : α → α → α) {default : α} (some : l ≠ []) :
    climb join l.length l = .some ((build default l).value join) := by
  have up : climb join l.length ((l.map leaf).map (value join)) = _ := climb_map node (fun _ _ => rfl) l.length (l.map leaf)
  rw [build_climb default some,Option.map_some,map_map] at up
  have plain : (value join ∘ leaf) = id := rfl
  rwa [plain,map_id] at up

theorem pairUp_leaves : ∀ l : List (HashTree α), (pairUp node l).flatMap leaves = l.flatMap leaves
  | [] => rfl
  | [_] => rfl
  | a :: b :: rest => by simp [pairUp,leaves,pairUp_leaves rest]

theorem climb_leaves (top : climb node fuel l = some t) : t.leaves = l.flatMap leaves := by
  induction fuel generalizing l with
  | zero =>
    rcases l with _ | ⟨a,_ | ⟨b,rest⟩⟩
    · cases top
    · cases top
      simp
    · cases top
  | succ fuel ih =>
    rcases l with _ | ⟨a,_ | ⟨b,rest⟩⟩
    · cases top
    · cases top
      simp
    · rw [climb] at top
      rw [ih top,pairUp_leaves]

theorem leaves_build {default : α} (some : l ≠ []) : (build default l).leaves = l := by
  rw [climb_leaves (build_climb default some)]
  simp [flatMap_map,leaves]

theorem leaves_length (t : HashTree α) : t.leaves.length = t.shape.leaves.length := by
  induction t with
  | leaf a => rfl
  | node l r left right => simp [leaves,shape,left,right]

def shapeOf (n : Nat) : HashTree Unit := build () (replicate n ())

theorem shape_build {default : α} (some : l ≠ []) : (build default l).shape = shapeOf l.length := by
  have up : climb node l.length ((l.map leaf).map shape) = _ := climb_map node (fun _ _ => rfl) l.length (l.map leaf)
  rw [build_climb default some,Option.map_some,map_map] at up
  have units : l.map (shape ∘ leaf) = (replicate l.length ()).map leaf := by
    rw [map_replicate]
    exact map_const' ..
  rw [units] at up
  have units : shapeOf l.length = (climb node l.length ((replicate l.length ()).map leaf)).getD (leaf ()) := by
    rw [shapeOf,build,length_replicate]
  rw [units,up,Option.getD_some]

theorem ext_shape {t : HashTree α} (shapes : s.shape = t.shape) (same : s.leaves = t.leaves) : s = t := by
  induction s generalizing t with
  | leaf a =>
    cases t with
    | leaf b => simpa [leaves] using same
    | node l r => cases shapes
  | node l r left right =>
    cases t with
    | leaf b => cases shapes
    | node l' r' =>
      simp only [shape,node.injEq] at shapes
      have long : l.leaves.length = l'.leaves.length := by rw [leaves_length l,leaves_length l',shapes.1]
      obtain ⟨first,second⟩ := append_inj same long
      rw [left shapes.1 first,right shapes.2 second]

-- A tree in which some subtrees have been cut off and replaced by their values.
inductive Pruned (join : α → α → α) : HashTree α → HashTree α → Prop
  | cut (s : HashTree α) : Pruned join s (leaf (s.value join))
  | node (left : Pruned join l l') (right : Pruned join r r') : Pruned join (node l r) (node l' r')

def prunes : HashTree Unit → HashTree Unit → Bool
  | _,leaf _ => true
  | leaf _,node _ _ => false
  | node l r,node l' r' => prunes l l' && prunes r r'

variable {join : α → α → α} {s t : HashTree α}

theorem Pruned.value (pruned : Pruned join s t) : t.value join = s.value join := by
  induction pruned with
  | cut => rfl
  | node _ _ left right => simp [HashTree.value,left,right]

theorem Pruned.prunes (pruned : Pruned join s t) : prunes s.shape t.shape = true := by
  induction pruned with
  | cut s => cases s <;> rfl
  | node _ _ left right => simp [shape,HashTree.prunes,left,right]

theorem Pruned.pairs_subset (pruned : Pruned join s t) : t.pairs join ⊆ s.pairs join := by
  induction pruned with
  | cut => simp [pairs]
  | node left right inLeft inRight =>
    simp only [pairs,left.value,right.value]
    exact cons_subset_cons _ (append_subset.mpr ⟨subset_append_of_subset_left _ inLeft,subset_append_of_subset_right _ inRight⟩)

section
variable {P : α → Prop} (joins : ∀ a b, P a → P b → P (join a b))
include joins

theorem value_keeps (each : ∀ a ∈ t.leaves, P a) : P (t.value join) := by
  induction t with
  | leaf a => exact each a (by simp [leaves])
  | node l r left right =>
    apply joins
    · exact left fun a mem => each a (mem_append_left _ mem)
    · exact right fun a mem => each a (mem_append_right _ mem)

theorem pairs_keep (each : ∀ a ∈ t.leaves, P a) :
    ∀ p ∈ t.pairs join, P p.1 ∧ P p.2 := by
  induction t with
  | leaf a => simp [pairs]
  | node l r left right =>
    have inLeft : ∀ a ∈ l.leaves, P a := fun a mem => each a (mem_append_left _ mem)
    have inRight : ∀ a ∈ r.leaves, P a := fun a mem => each a (mem_append_right _ mem)
    intro p mem
    simp only [pairs,mem_cons,mem_append] at mem
    rcases mem with rfl | there | there
    · exact ⟨value_keeps joins inLeft,value_keeps joins inRight⟩
    · exact left inLeft p there
    · exact right inRight p there

theorem Pruned.leaves_keep (pruned : Pruned join s t) (each : ∀ a ∈ s.leaves, P a) :
    ∀ a ∈ t.leaves, P a := by
  induction pruned with
  | cut s =>
    intro a mem
    cases mem_singleton.mp mem
    exact value_keeps joins each
  | node _ _ left right =>
    intro a mem
    rcases mem_append.mp mem with there | there
    · exact left (fun a mem => each a (mem_append_left _ mem)) a there
    · exact right (fun a mem => each a (mem_append_right _ mem)) a there
end

theorem Pruned.eq_of_shape (pruned : Pruned join s t) (shapes : s.shape = t.shape) : s = t := by
  induction pruned with
  | cut s =>
    cases s with
    | leaf a => rfl
    | node l r => cases shapes
  | node _ _ left right =>
    simp only [shape,node.injEq] at shapes
    rw [left shapes.1,right shapes.2]

theorem exists_pruned (join : α → α → α) : ∀ (s : HashTree α) (u : HashTree Unit), HashTree.prunes s.shape u = true →
    ∃ t, Pruned join s t ∧ t.shape = u := by
  intro s u
  induction u generalizing s with
  | leaf =>
    intro _
    exact ⟨_,.cut s,rfl⟩
  | node l' r' left right =>
    cases s with
    | leaf a => exact nofun
    | node l r =>
      intro prunes
      simp only [shape,HashTree.prunes,Bool.and_eq_true] at prunes
      obtain ⟨t,cutLeft,shapeLeft⟩ := left l prunes.1
      obtain ⟨t',cutRight,shapeRight⟩ := right r prunes.2
      exact ⟨.node t t',.node cutLeft cutRight,by simp [shape,shapeLeft,shapeRight]⟩

theorem pruned_of_value (joined : ∀ p ∈ s.pairs join, ∀ q ∈ t.pairs join, join p.1 p.2 = join q.1 q.2 → p = q)
    (apart : ∀ a ∈ s.leaves, ∀ q ∈ t.pairs join, a ≠ join q.1 q.2) (same : t.value join = s.value join) : Pruned join s t := by
  induction t generalizing s with
  | leaf a =>
    simp only [value] at same
    exact same ▸ .cut s
  | node l' r' left right =>
    cases s with
    | leaf a => exact absurd same.symm (apart a (by simp [leaves]) (_,_) (by simp [pairs]))
    | node l r =>
      have pair := joined (l.value join,r.value join) (by simp [pairs]) (l'.value join,r'.value join) (by simp [pairs]) same.symm
      simp only [Prod.mk.injEq] at pair
      apply Pruned.node
      · apply left
        · intro p first q second
          exact joined p (by simp [pairs,first]) q (by simp [pairs,second])
        · intro a mem q second
          exact apart a (by simp [leaves,mem]) q (by simp [pairs,second])
        · exact pair.1.symm
      · apply right
        · intro p first q second
          exact joined p (by simp [pairs,first]) q (by simp [pairs,second])
        · intro a mem q second
          exact apart a (by simp [leaves,mem]) q (by simp [pairs,second])
        · exact pair.2.symm
end

example : prunes (shapeOf 4) (shapeOf 3) = true := by decide
example : prunes (shapeOf 5) (shapeOf 4) = false := by decide
end HashTree

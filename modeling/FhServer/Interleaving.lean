import Mathlib

-- Threads that share a state.  A thread is a list of atomic actions.  An action may put further actions in front of
-- what its thread still has to do, and may start threads.  A choice decides what the surroundings supply to an action.
namespace Interleaving
open List

structure Effect (σ α : Type) where
  state : σ
  next : List α := []
  spawned : List (List α) := []

structure Config (σ α : Type) where
  state : σ
  threads : List (List α)

variable {σ α ε : Type}

def Config.after (c : Config σ α) (i : Nat) (rest : List α) (f : Effect σ α) : Config σ α :=
  ⟨f.state,c.threads.set i (f.next ++ rest) ++ f.spawned⟩

-- Runs in which every action meets a condition on the state before it.
inductive Runs (exec : σ → α → ε → Option (Effect σ α)) (allowed : σ → α → ε → Prop) (c : Config σ α) : Config σ α → Prop
  | start : Runs exec allowed c c
  | step (before : Runs exec allowed c d) (thread : d.threads[i]? = some (a :: rest)) (meets : allowed d.state a e)
      (does : exec d.state a e = some f) : Runs exec allowed c (d.after i rest f)

section
variable (exec : σ → α → ε → Option (Effect σ α)) (allowed : σ → α → ε → Prop) [∀ s a e, Decidable (allowed s a e)]

def advance (c : Config σ α) (i : Nat) (e : ε) : Option (Config σ α) :=
  match c.threads[i]? with
  | some (a :: rest) => if allowed c.state a e then (exec c.state a e).map (c.after i rest) else none
  | _ => none

def follow (c : Config σ α) : List (Nat × ε) → Option (Config σ α)
  | [] => some c
  | (i,e) :: later => (advance exec allowed c i e).bind fun d => follow d later

theorem advance_runs (before : Runs exec allowed c d) (moved : advance exec allowed d i e = some d') : Runs exec allowed c d' := by
  rw [advance] at moved
  split at moved
  · rename_i a rest thread
    split at moved
    · rename_i meets
      obtain ⟨f,does,rfl⟩ := Option.map_eq_some_iff.mp moved
      exact .step before thread meets does
    · cases moved
  · cases moved

theorem follow_runs (before : Runs exec allowed c d) : ∀ schedule {d'}, follow exec allowed d schedule = some d' → Runs exec allowed c d' := by
  intro schedule
  induction schedule generalizing d with
  | nil =>
    intro d' followed
    rw [follow,Option.some.injEq] at followed
    exact followed ▸ before
  | cons move later ih =>
    intro d' followed
    obtain ⟨next,moved,rest⟩ := Option.bind_eq_some_iff.mp followed
    exact ih (advance_runs exec allowed before moved) rest

theorem follow_reaches (P : Config σ α → Prop) [DecidablePred P] (schedule : List (Nat × ε))
    (ends : (follow exec allowed c schedule).any (fun d => decide (P d)) = true) : ∃ d, Runs exec allowed c d ∧ P d := by
  rw [Option.any_eq_true] at ends
  obtain ⟨d,followed,holds⟩ := ends
  exact ⟨d,follow_runs exec allowed .start schedule followed,of_decide_eq_true holds⟩
end
section
open Config
variable {exec : σ → α → ε → Option (Effect σ α)} {allowed : σ → α → ε → Prop} {c d : Config σ α}

def Config.Pending (c : Config σ α) (a : α) : Prop := ∃ t ∈ c.threads, a ∈ t

theorem Config.pending_head {i : Nat} (thread : d.threads[i]? = some (a :: rest)) : d.Pending a :=
  ⟨_,mem_of_getElem? thread,mem_cons_self ..⟩

theorem Config.pending_after (thread : d.threads[i]? = some (a :: rest)) (pending : (d.after i rest f).Pending b) :
    d.Pending b ∨ b ∈ f.next ∨ ∃ t ∈ f.spawned, b ∈ t := by
  obtain ⟨t,mem,inside⟩ := pending
  rcases mem_append.mp mem with old | new
  · rcases mem_or_eq_of_mem_set old with same | rfl
    · exact .inl ⟨t,same,inside⟩
    · rcases mem_append.mp inside with next | later
      · exact .inr (.inl next)
      · exact .inl ⟨_,mem_of_getElem? thread,mem_cons_of_mem _ later⟩
  · exact .inr (.inr ⟨t,new,inside⟩)

-- In every run from c, what holds of the state and of every action that is pending in it.
def Keeps (exec : σ → α → ε → Option (Effect σ α)) (allowed : σ → α → ε → Prop) (c : Config σ α) (good : σ → Prop) (sound : σ → α → Prop) : Prop :=
  ∀ ⦃d⦄, Runs exec allowed c d → good d.state ∧ ∀ a, d.Pending a → sound d.state a

variable {good : σ → Prop} {sound : σ → α → Prop}

theorem Keeps.of_step
    (step : ∀ {s a e f}, good s → sound s a → allowed s a e → exec s a e = some f →
      good f.state ∧ (∀ b, sound s b → sound f.state b) ∧ (∀ b ∈ f.next, sound f.state b) ∧ ∀ t ∈ f.spawned, ∀ b ∈ t, sound f.state b)
    (start : good c.state) (first : ∀ a, c.Pending a → sound c.state a) : Keeps exec allowed c good sound := by
  intro d run
  induction run with
  | start => exact ⟨start,first⟩
  | step before thread meets does ih =>
    obtain ⟨holds,each⟩ := ih
    obtain ⟨holds',stays,next,spawned⟩ := step holds (each _ (pending_head thread)) meets does
    refine ⟨holds',?_⟩
    intro b pending
    rcases pending_after thread pending with old | new | ⟨t,new,mem⟩
    · exact stays b (each b old)
    · exact next b new
    · exact spawned t new b mem

def carried (w : α → Int) (t : List α) : Int := (t.map w).sum

def carriedBy (w : α → Int) (threads : List (List α)) : Int := (threads.map (carried w)).sum

section
variable (w : α → Int)

@[simp] theorem carried_nil : carried w [] = 0 := rfl

@[simp] theorem carried_cons (a : α) (t : List α) : carried w (a :: t) = w a+carried w t := by simp [carried]

@[simp] theorem carried_append (s t : List α) : carried w (s ++ t) = carried w s+carried w t := by simp [carried]

@[simp] theorem carriedBy_nil : carriedBy w [] = 0 := rfl

@[simp] theorem carriedBy_cons (t : List α) (threads : List (List α)) :
    carriedBy w (t :: threads) = carried w t+carriedBy w threads := by
  simp [carriedBy]

theorem carriedBy_append (one two : List (List α)) : carriedBy w (one ++ two) = carriedBy w one+carriedBy w two := by
  simp [carriedBy]

theorem carriedBy_set (t : List α) {threads : List (List α)} (found : threads[i]? = some old) :
    carriedBy w (threads.set i t)+carried w old = carriedBy w threads+carried w t := by
  obtain ⟨inside,rfl⟩ := List.getElem?_eq_some_iff.mp found
  simp only [carriedBy,map_set,sum_set',length_map,inside,getElem_map,dif_pos]
  abel
end

def Config.total (c : Config σ α) (held : σ → Int) (w : α → Int) : Int := held c.state+carriedBy w c.threads

theorem Config.total_after (held : σ → Int) (w : α → Int) (thread : d.threads[i]? = some (a :: rest)) :
    (d.after i rest f).total held w+(held d.state+w a) = d.total held w+(held f.state+carried w f.next+carriedBy w f.spawned) := by
  have moved := carriedBy_set w (f.next ++ rest) thread
  simp only [carried_cons,carried_append] at moved
  simp only [total,after,carriedBy_append]
  lia

-- If every action hands on what it carries and what it takes from the state, the total stays until the state is
-- marked as stopped, which it then remains.
theorem Keeps.conserves (keeps : Keeps exec allowed c good sound) (held : σ → Int) (w : α → Int) (stopped : σ → Prop)
    (step : ∀ {s a e f}, good s → sound s a → allowed s a e → exec s a e = some f → stopped f.state ∨
      ¬stopped s ∧ held f.state+carried w f.next+carriedBy w f.spawned = held s+w a)
    (run : Runs exec allowed c d) : stopped d.state ∨ d.total held w = c.total held w := by
  induction run with
  | start => exact .inr rfl
  | @step d i a rest e f before thread meets does ih =>
    obtain ⟨holds,each⟩ := keeps before
    rcases step holds (each _ (pending_head thread)) meets does with stop | ⟨still,one⟩
    · exact .inl stop
    have moved := total_after (f := f) held w thread
    right
    lia

theorem Keeps.shrinks (keeps : Keeps exec allowed c good sound) (held : σ → Int) (w : α → Int)
    (step : ∀ {s a e f}, good s → sound s a → allowed s a e → exec s a e = some f →
      held f.state+carried w f.next+carriedBy w f.spawned ≤ held s+w a)
    (run : Runs exec allowed c d) : d.total held w ≤ c.total held w := by
  induction run with
  | start => exact Int.le_refl _
  | @step d i a rest e f before thread meets does ih =>
    obtain ⟨holds,each⟩ := keeps before
    have one := step holds (each _ (pending_head thread)) meets does
    have moved := total_after (f := f) held w thread
    lia

theorem Config.pending_kept (f : Effect σ α) (thread : d.threads[i]? = some (a :: rest))
    (pending : d.Pending b) : b = a ∨ (d.after i rest f).Pending b := by
  obtain ⟨t,mem,inside⟩ := pending
  obtain ⟨j,found⟩ := mem_iff_getElem?.mp mem
  obtain ⟨short,-⟩ := List.getElem?_eq_some_iff.mp thread
  by_cases same : i = j
  · subst same
    have rest_eq : a :: rest = t := Option.some.inj (thread.symm.trans found)
    rcases mem_cons.mp (rest_eq ▸ inside) with rfl | later
    · exact .inl rfl
    · refine .inr ⟨f.next ++ rest,mem_append_left _ ?_,mem_append_right _ later⟩
      exact mem_of_getElem? (i := i) (by rw [List.getElem?_set_self short])
  · refine .inr ⟨t,mem_append_left _ ?_,inside⟩
    exact mem_of_getElem? (i := j) (by rw [List.getElem?_set_ne same]; exact found)

theorem Config.pending_next (thread : d.threads[i]? = some (a :: rest)) (new : b ∈ f.next) :
    (d.after i rest f).Pending b := by
  obtain ⟨short,-⟩ := List.getElem?_eq_some_iff.mp thread
  refine ⟨f.next ++ rest,mem_append_left _ ?_,mem_append_left _ new⟩
  exact mem_of_getElem? (i := i) (by rw [List.getElem?_set_self short])

theorem Config.pending_spawned (mem : t ∈ f.spawned) (new : b ∈ t) :
    (d.after i rest f).Pending b :=
  ⟨t,mem_append_right _ mem,new⟩

-- While something is due, some pending action still has to settle it: an action that makes it due leaves one behind,
-- and one that was to settle it either does so or leaves another.
theorem Keeps.owed (keeps : Keeps exec allowed c good sound) (due : σ → Prop) (owner : α → Prop)
    (step : ∀ {s a e f}, good s → sound s a → allowed s a e → exec s a e = some f → due f.state →
      (due s ∧ ¬owner a) ∨ (∃ b ∈ f.next, owner b) ∨ ∃ t ∈ f.spawned, ∃ b ∈ t, owner b)
    (start : ¬due c.state) (run : Runs exec allowed c d) (now : due d.state) : ∃ b, d.Pending b ∧ owner b := by
  induction run with
  | start => exact absurd now start
  | @step d i a rest e f before thread meets does ih =>
    obtain ⟨holds,each⟩ := keeps before
    rcases step holds (each _ (pending_head thread)) meets does now with ⟨earlier,other⟩ | ⟨b,new,owns⟩ | ⟨t,mem,b,new,owns⟩
    · obtain ⟨b,pending,owns⟩ := ih earlier
      rcases pending_kept f thread pending with rfl | still
      · exact absurd owns other
      · exact ⟨b,still,owns⟩
    · exact ⟨b,pending_next thread new,owns⟩
    · exact ⟨b,pending_spawned mem new,owns⟩

theorem carried_eq_zero {w : α → Int} {t : List α} (nothing : ∀ a ∈ t, w a = 0) : carried w t = 0 := by
  apply sum_eq_zero
  intro x mem
  obtain ⟨a,inside,rfl⟩ := mem_map.mp mem
  exact nothing a inside

theorem carriedBy_eq_zero {w : α → Int} {threads : List (List α)} (nothing : ∀ t ∈ threads, ∀ a ∈ t, w a = 0) : carriedBy w threads = 0 := by
  apply sum_eq_zero
  intro x mem
  obtain ⟨t,inside,rfl⟩ := mem_map.mp mem
  exact carried_eq_zero (nothing t inside)

section
variable {w : α → Int} (nonneg : ∀ a, 0 ≤ w a)
include nonneg

theorem carried_nonneg (t : List α) : 0 ≤ carried w t := sum_nonneg (by simpa using fun a _ => nonneg a)

theorem carriedBy_nonneg (threads : List (List α)) : 0 ≤ carriedBy w threads := sum_nonneg (by simpa using fun t _ => carried_nonneg nonneg t)

theorem le_carried (mem : a ∈ t) : w a ≤ carried w t := single_le_sum (by simpa using fun a _ => nonneg a) _ (mem_map_of_mem mem)

theorem le_carriedBy (pending : d.Pending a) : w a ≤ carriedBy w d.threads := by
  obtain ⟨t,mem,inside⟩ := pending
  refine (le_carried nonneg inside).trans (single_le_sum ?_ _ (mem_map_of_mem mem))
  simpa using fun t _ => carried_nonneg nonneg t
end
end
end Interleaving

import Mathlib

-- Systems in which any enabled event may come next.
namespace Transitions
variable {σ ε : Type}

-- The states that events which meet a condition on the state before them can reach.
inductive Reached (step : σ → ε → Option σ) (allowed : σ → ε → Prop) (start : σ) : σ → Prop
  | start : Reached step allowed start start
  | step (before : Reached step allowed start s) (meets : allowed s e) (does : step s e = some t) : Reached step allowed start t

section
variable {step : σ → ε → Option σ} {allowed : σ → ε → Prop} {start s : σ}

theorem Reached.keeps (good : σ → Prop) (first : good start)
    (each : ∀ {s e t}, good s → allowed s e → step s e = some t → good t) (run : Reached step allowed start s) : good s := by
  induction run with
  | start => exact first
  | step _ meets does ih => exact each ih meets does
end
section
variable (step : σ → ε → Option σ) (allowed : σ → ε → Prop) [∀ s e, Decidable (allowed s e)]

def play (s : σ) : List ε → Option σ
  | [] => some s
  | e :: later => if allowed s e then (step s e).bind fun t => play t later else none

theorem play_reached (before : Reached step allowed start s) : ∀ events {t}, play step allowed s events = some t → Reached step allowed start t := by
  intro events
  induction events generalizing s with
  | nil =>
    intro t played
    rw [play,Option.some.injEq] at played
    exact played ▸ before
  | cons e later ih =>
    intro t played
    rw [play] at played
    split at played
    · rename_i meets
      obtain ⟨next,does,rest⟩ := Option.bind_eq_some_iff.mp played
      exact ih (.step before meets does) rest
    · cases played

theorem play_reaches (start : σ) (P : σ → Prop) [DecidablePred P] (events : List ε)
    (ends : (play step allowed start events).any (fun s => decide (P s)) = true) : ∃ s, Reached step allowed start s ∧ P s := by
  rw [Option.any_eq_true] at ends
  obtain ⟨s,played,holds⟩ := ends
  exact ⟨s,play_reached step allowed .start events played,of_decide_eq_true holds⟩
end
end Transitions

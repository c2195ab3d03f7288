import Mathlib

-- Readers and machines over input that comes in pieces.
namespace Fragments
variable {α β γ ε σ : Type}

-- A reader that asks for more input with one of its errors. Any other answer stays the same when input follows.
structure Stable (more : ε) (read : List α → Except ε (β × List α)) : Prop where
  longer : read x = .ok (b,rest) → ∀ y, read (x ++ y) = .ok (b,rest ++ y)
  fails : read x = .error e → e ≠ more → ∀ y, read (x ++ y) = .error e
  shrinks : read x = .ok (b,rest) → rest.length < x.length

def andThen (first : List α → Except ε (β × List α)) (second : β → List α → Except ε (γ × List α)) (x : List α) : Except ε (γ × List α) :=
  match first x with
  | .error e => .error e
  | .ok (b,rest) => second b rest

-- What follows a reader may take nothing itself.
theorem Stable.bind {second : β → List α → Except ε (γ × List α)} (one : Stable more first)
    (longer : ∀ {b x c rest}, second b x = .ok (c,rest) → ∀ y, second b (x ++ y) = .ok (c,rest ++ y))
    (fails : ∀ {b x e}, second b x = .error e → e ≠ more → ∀ y, second b (x ++ y) = .error e)
    (shrinks : ∀ {b x c rest}, second b x = .ok (c,rest) → rest.length ≤ x.length) : Stable more (andThen first second) where
  longer {x} c rest done y := by
    rw [andThen] at done ⊢
    cases read : first x with
    | error e =>
      rw [read] at done
      cases done
    | ok pair =>
      rw [read] at done
      rw [one.longer read y]
      exact longer done y
  fails {x} e failed other y := by
    rw [andThen] at failed ⊢
    cases read : first x with
    | error e' =>
      rw [read] at failed
      cases failed
      rw [one.fails read other y]
    | ok pair =>
      rw [read] at failed
      rw [one.longer read y]
      exact fails failed other y
  shrinks {x} c rest done := by
    rw [andThen] at done
    cases read : first x with
    | error e =>
      rw [read] at done
      cases done
    | ok pair =>
      rw [read] at done
      exact Nat.lt_of_le_of_lt (shrinks done) (one.shrinks read)

theorem Stable.andThen (one : Stable more first) (two : ∀ b, Stable more (second b)) : Stable more (andThen first second) :=
  one.bind (fun done => (two _).longer done) (fun failed => (two _).fails failed) fun done => Nat.le_of_lt ((two _).shrinks done)

def checking (f : β → Except ε γ) (read : List α → Except ε (β × List α)) (x : List α) : Except ε (γ × List α) :=
  match read x with
  | .error e => .error e
  | .ok (b,rest) => (f b).map fun c => (c,rest)

theorem Stable.checking {read : List α → Except ε (β × List α)} (stable : Stable more read) (f : β → Except ε γ) :
    Stable more (checking f read) := by
  show Stable more (Fragments.andThen read fun b rest => (f b).map fun c => (c,rest))
  refine stable.bind (fun {b x c rest} done y => ?_) (fun {b x e} failed _ y => ?_) fun {b x c rest} done => ?_
  all_goals cases checked : f b
  · rw [checked] at done
    cases done
  · rw [checked] at done
    cases done
    rfl
  · rw [checked] at failed
    cases failed
    rfl
  · rw [checked] at failed
    cases failed
  · rw [checked] at done
    cases done
  · rw [checked] at done
    cases done
    exact Nat.le_refl _

theorem Stable.refuse (more e : ε) : Stable more (fun _ : List α => (.error e : Except ε (β × List α))) :=
  ⟨nofun,fun failed _ _ => failed,nofun⟩

-- A machine that takes its input item by item. It goes on behind an item, asks for more, or fails for good.
inductive Step (σ α : Type) where
  | next (s : σ) (rest : List α)
  | more
  | fail (s : σ)

def Step.All (good : σ → Prop) : Step σ α → Prop
  | .next s _ => good s
  | .more => True
  | .fail s => good s

structure Steady (step : σ → List α → Step σ α) : Prop where
  longer : step s x = .next t rest → ∀ y, step s (x ++ y) = .next t (rest ++ y)
  fails : step s x = .fail t → ∀ y, step s (x ++ y) = .fail t
  shrinks : step s x = .next t rest → rest.length < x.length
  empty : step s [] = .more

inductive End (σ α : Type) where
  | stopped (s : σ) (rest : List α)
  | failed (s : σ)

def End.All (good : σ → Prop) : End σ α → Prop
  | .stopped s _ => good s
  | .failed s => good s

section
variable (step : σ → List α → Step σ α)

def scan : Nat → σ → List α → End σ α
  | 0,s,x => .stopped s x
  | rounds+1,s,x =>
    match step s x with
    | .next t rest => scan rounds t rest
    | .more => .stopped s x
    | .fail t => .failed t

-- Every item takes some input, so that the length is enough.
def run (s : σ) (x : List α) : End σ α := scan step x.length s x

example (s : σ) : run step s [] = .stopped s [] := by rw [run,List.length_nil,scan]

variable {step} (steady : Steady step)
include steady

theorem scan_enough : ∀ {rounds : Nat} {s : σ} {x : List α}, x.length ≤ rounds → scan step rounds s x = run step s x := by
  have equal : ∀ {length rounds more : Nat} {s : σ} {x : List α}, x.length ≤ length → length ≤ rounds → length ≤ more →
      scan step rounds s x = scan step more s x := by
    intro length
    induction length with
    | zero =>
      intro rounds more s x none _ _
      obtain rfl : x = [] := List.eq_nil_of_length_eq_zero (Nat.le_zero.mp none)
      have stays : ∀ n, scan step n s [] = .stopped s [] := by
        intro n
        cases n with
        | zero => rfl
        | succ n => rw [scan,steady.empty]
      rw [stays,stays]
    | succ length ih =>
      intro rounds more s x few enough also
      cases rounds with
      | zero => lia
      | succ rounds =>
        cases more with
        | zero => lia
        | succ more =>
          rw [scan,scan]
          cases taken : step s x with
          | next t rest =>
            have shorter := steady.shrinks taken
            exact ih (by lia) (by lia) (by lia)
          | more => rfl
          | fail t => rfl
  intro rounds s x enough
  exact equal (Nat.le_refl _) enough (Nat.le_refl _)

theorem run_next (taken : step s x = .next t rest) : run step s x = run step t rest := by
  have shorter := steady.shrinks taken
  rw [← scan_enough steady (Nat.le_succ x.length),scan,taken]
  exact scan_enough steady (by lia)

omit steady in
theorem run_more (taken : step s x = .more) : run step s x = .stopped s x := by
  rw [run]
  cases x.length with
  | zero => rfl
  | succ n => rw [scan,taken]

theorem run_fail (taken : step s x = .fail t) : run step s x = .failed t := by
  rw [← scan_enough steady (Nat.le_succ x.length),scan,taken]

theorem run_append (s : σ) (x y : List α) : run step s (x ++ y) =
    match run step s x with
    | .stopped t rest => run step t (rest ++ y)
    | .failed t => .failed t := by
  induction length : x.length using Nat.strongRecOn generalizing s x with
  | ind n ih =>
    cases taken : step s x with
    | next t rest =>
      have shorter := steady.shrinks taken
      rw [run_next steady taken,run_next steady (steady.longer taken y)]
      exact ih rest.length (by lia) t rest rfl
    | more => rw [run_more taken]
    | fail t => rw [run_fail steady taken,run_fail steady (steady.fails taken y)]

theorem run_stopped (stopped : run step s x = .stopped t rest) : step t rest = .more := by
  induction length : x.length using Nat.strongRecOn generalizing s x with
  | ind n ih =>
    cases taken : step s x with
    | next u tail =>
      have shorter := steady.shrinks taken
      rw [run_next steady taken] at stopped
      exact ih tail.length (by lia) stopped rfl
    | more =>
      rw [run_more taken] at stopped
      cases stopped
      exact taken
    | fail u =>
      rw [run_fail steady taken] at stopped
      cases stopped

theorem run_keeps (good : σ → Prop) (each : ∀ {s} x, good s → (step s x).All good) (start : good s) (x : List α) : (run step s x).All good := by
  induction length : x.length using Nat.strongRecOn generalizing s x with
  | ind n ih =>
    have kept := each x start
    cases taken : step s x with
    | next t rest =>
      have shorter := steady.shrinks taken
      rw [taken] at kept
      rw [run_next steady taken]
      exact ih rest.length (by lia) kept rest rfl
    | more =>
      rw [run_more taken]
      exact start
    | fail t =>
      rw [taken] at kept
      rw [run_fail steady taken]
      exact kept
end
end Fragments

import FhServer.Transitions

namespace FhServer.Bulkhead
open Transitions

structure Config where
  maxConcurrent : Int
  queue : Int
  timeout : Int

-- New takes 1024 for a limit that is not positive.
def Config.limit (cfg : Config) : Nat := if cfg.maxConcurrent ≤ 0 then 1024 else cfg.maxConcurrent.toNat

-- The bucket of a key, with its requests by where they are; those that come without a timeout are direct.
structure Bucket where
  sem : Nat := 0
  queued : Int := 0
  waiting : Nat := 0
  running : Nat := 0
  leaving : Nat := 0
  direct : Nat := 0

-- The deferred calls are the same after a panic.
inductive Event where
  | start
  | send
  | giveUp
  | receive
  | lower
  | receiveDirect

def step (cfg : Config) (b : Bucket) : Event → Option Bucket
  | .start =>
    if cfg.timeout ≤ 0 then
      if b.sem < cfg.limit then some {b with sem := b.sem+1, direct := b.direct+1} else some b
    else if b.sem = cfg.limit ∧ cfg.queue ≤ b.queued then some b
    else some {b with queued := b.queued+1, waiting := b.waiting+1}
  | .send =>
    if 0 < b.waiting ∧ b.sem < cfg.limit then some {b with sem := b.sem+1, waiting := b.waiting-1, running := b.running+1} else none
  | .giveUp => if 0 < b.waiting then some {b with waiting := b.waiting-1, leaving := b.leaving+1} else none
  | .receive => if 0 < b.running then some {b with sem := b.sem-1, running := b.running-1, leaving := b.leaving+1} else none
  | .lower => if 0 < b.leaving then some {b with queued := b.queued-1, leaving := b.leaving-1} else none
  | .receiveDirect => if 0 < b.direct then some {b with sem := b.sem-1, direct := b.direct-1} else none

structure Counted (cfg : Config) (b : Bucket) : Prop where
  sem : b.sem = b.running+b.direct
  bounded : b.sem ≤ cfg.limit
  queued : b.queued = b.waiting+b.running+b.leaving

theorem Counted.step (counted : Counted cfg b) (does : step cfg b e = some after) : Counted cfg after := by
  obtain ⟨sem,bounded,queued⟩ := counted
  cases e with
  | start =>
    rw [Bulkhead.step] at does
    split at does
    all_goals
      split at does <;> cases does <;> constructor <;> lia
  | _ =>
    obtain ⟨there,⟨⟩⟩ := Option.ite_none_right_eq_some.mp does
    constructor <;> lia

theorem counters_exact (cfg : Config) (run : Reached (step cfg) (fun _ _ => True) {} b) :
    b.running+b.direct ≤ cfg.limit ∧ (b.waiting = 0 ∧ b.running = 0 ∧ b.leaving = 0 ∧ b.direct = 0 ↔ b.sem = 0 ∧ b.queued = 0) := by
  have counted : Counted cfg b := run.keeps (Counted cfg) ⟨rfl,Nat.zero_le _,rfl⟩ fun good _ does => good.step does
  obtain ⟨sem,bounded,queued⟩ := counted
  omega

theorem timed_out_counted : ∃ b : Bucket, b.leaving = 1 ∧ b.running+b.direct ≤ 1 := by
  obtain ⟨b,run,one⟩ := play_reaches (step ⟨1,1,5⟩) (fun _ _ => True) {} (·.leaving = 1) [.start,.start,.send,.giveUp] (by decide)
  exact ⟨b,one,(counters_exact ⟨1,1,5⟩ run).1⟩
end FhServer.Bulkhead

import FhServer.GoText
import FhServer.Table
import FhServer.Transitions

namespace FhServer.Cluster
open GoBytes GoText Transitions List

structure Lease where
  name : Bytes
  owner : Bytes
  expires : Int
deriving DecidableEq

abbrev Leases := Table Bytes (Option Lease) none

def leaseTime (ttl : Int) : Int := if ttl ≤ 0 then 15000000000 else ttl

-- The state goes through JSON after each mutation, so names and owners come back as text. The entries are written in the
-- order of their raw names, and of two that come back under one name the later one stays.
def save (leases : Leases) (lease : Lease) : Leases :=
  let name := jsonText lease.name
  if lease.name < name ∧ (leases.get name).isSome then leases
  else leases.set name (some ⟨name,jsonText lease.owner,lease.expires⟩)

def grant (leases : Leases) (lease : Lease) : (Lease × Bool) × Leases := ((lease,true),save leases lease)

def tryAcquire (leases : Leases) (name owner : Bytes) (ttl now : Int) : (Lease × Bool) × Leases :=
  let fresh := grant leases ⟨name,owner,now+leaseTime ttl⟩
  match leases.get name with
  | some l => if now < l.expires ∧ l.owner ≠ [] ∧ l.owner ≠ owner then ((l,false),leases) else fresh
  | none => fresh

def renew (leases : Leases) (name owner : Bytes) (ttl now : Int) : (Lease × Bool) × Leases :=
  let l := (leases.get name).getD ⟨[],[],0⟩
  if l.owner ≠ [] ∧ l.owner ≠ owner ∧ now < l.expires then ((l,false),leases)
  else grant leases ⟨name,owner,now+leaseTime ttl⟩

def release (leases : Leases) (name owner : Bytes) : Leases :=
  let l := (leases.get name).getD ⟨[],[],0⟩
  if l.owner = owner then leases.set name none else leases

structure Node where
  owner : Bytes
  named : owner ≠ []
deriving DecidableEq

inductive Op
  | tryAcquire
  | renew
  | release
deriving DecidableEq

structure Call where
  node : Node
  op : Op
  name : Bytes
  ttl : Int
  now : Int
deriving DecidableEq

structure Holding where
  node : Node
  name : Bytes
  expires : Int
deriving DecidableEq

structure State where
  now : Int
  leases : Leases
  pending : List Call
  held : List Holding

def State.start : State := ⟨0,.empty,[],[]⟩

inductive Event
  | tick (time : Nat)
  | call (node : Node) (op : Op) (name : Bytes) (ttl : Int)
  | mutate (i : Nat)

def State.answer (s : State) (c : Call) (result : (Lease × Bool) × Leases) : State :=
  { s with
    leases := result.2
    held := if result.1.2 then ⟨c.node,c.name,result.1.1.expires⟩ :: s.held else s.held }

def State.mutate (s : State) (c : Call) : State :=
  match c.op with
  | .tryAcquire => s.answer c (tryAcquire s.leases c.name c.node.owner c.ttl c.now)
  | .renew => s.answer c (renew s.leases c.name c.node.owner c.ttl c.now)
  | .release =>
    { s with
      leases := release s.leases c.name c.node.owner
      held := s.held.filter fun h => h.node ≠ c.node ∨ h.name ≠ c.name }

def step (s : State) : Event → Option State
  | .tick time => some { s with now := s.now+time }
  | .call node op name ttl => some { s with pending := s.pending ++ [⟨node,op,name,ttl,s.now⟩] }
  | .mutate i => (s.pending[i]?).map fun c => State.mutate { s with pending := s.pending.eraseIdx i } c

def Exclusive (s : State) : Prop :=
  ∀ h ∈ s.held, ∀ h' ∈ s.held, h.name = h'.name → s.now < h.expires → s.now < h'.expires → h.node = h'.node

instance (s : State) : Decidable (Exclusive s) := by unfold Exclusive; infer_instance

def Sound (s : State) (c : Call) : Prop :=
  jsonText c.name = c.name ∧ jsonText c.node.owner = c.node.owner ∧
    (s.leases.get c.name).all fun l => l.owner = c.node.owner → l.expires ≤ c.now+leaseTime c.ttl ∨ l.expires ≤ s.now

instance (s : State) (c : Call) : Decidable (Sound s c) := by unfold Sound; infer_instance

def Kept (s : State) : Event → Prop
  | .mutate i => ∀ c ∈ s.pending[i]?, c.op ≠ .release → Sound s c
  | _ => True

instance (s : State) (e : Event) : Decidable (Kept s e) := by
  cases e <;> unfold Kept <;> infer_instance

theorem renew_eq (leases : Leases) (name owner : Bytes) (ttl now : Int) :
    renew leases name owner ttl now = tryAcquire leases name owner ttl now := by
  unfold renew tryAcquire
  cases leases.get name with
  | none => simp
  | some l =>
    simp only [Option.getD_some]
    congr 1
    apply propext
    constructor
    · intro ⟨a,b,c⟩
      exact ⟨c,a,b⟩
    · intro ⟨a,b,c⟩
      exact ⟨b,c,a⟩

theorem get_save (name : jsonText lease.name = lease.name) (owner : jsonText lease.owner = lease.owner)
    (k : Bytes) : (save leases lease).get k = if k = lease.name then some lease else leases.get k := by
  have same : ¬ lease.name < lease.name := List.lt_irrefl _
  simp [save,name,owner,same,Table.get_set]

inductive Tried (leases : Leases) (name owner : Bytes) (ttl now : Int) : (Lease × Bool) × Leases → Prop
  | refused (stored : leases.get name = some l) (unexpired : now < l.expires) (foreign : l.owner ≠ owner) :
      Tried leases name owner ttl now ((l,false),leases)
  | granted (free : ∀ l, leases.get name = some l → l.expires ≤ now ∨ l.owner = [] ∨ l.owner = owner) :
      Tried leases name owner ttl now (grant leases ⟨name,owner,now+leaseTime ttl⟩)

theorem tryAcquire_tried (leases : Leases) (name owner : Bytes) (ttl now : Int) :
    Tried leases name owner ttl now (tryAcquire leases name owner ttl now) := by
  unfold tryAcquire
  cases stored : leases.get name with
  | none =>
    apply Tried.granted
    simp [stored]
  | some l =>
    simp only
    split
    · rename_i h
      exact .refused stored h.1 h.2.2
    rename_i h
    apply Tried.granted
    intro l' again
    cases stored.symm.trans again
    by_cases expired : l.expires ≤ now
    · exact .inl expired
    apply Or.inr
    apply Classical.or_iff_not_imp_left.mpr
    intro named
    apply Classical.byContradiction
    intro foreign
    exact h ⟨by lia,named,foreign⟩

theorem State.mutate_tried (s : State) (other : c.op ≠ .release) : ∃ result,
    s.mutate c = s.answer c result ∧ Tried s.leases c.name c.node.owner c.ttl c.now result := by
  refine ⟨_,?_,tryAcquire_tried ..⟩
  unfold State.mutate
  cases op : c.op with
  | tryAcquire => rfl
  | renew => simp [renew_eq]
  | release => exact absurd op other

structure Covered (s : State) : Prop where
  read : ∀ c ∈ s.pending, c.now ≤ s.now
  named : ∀ name l, s.leases.get name = some l → l.owner ≠ []
  covered : ∀ h ∈ s.held, s.now < h.expires → ∃ l, s.leases.get h.name = some l ∧ l.owner = h.node.owner ∧ h.expires ≤ l.expires

theorem Covered.exclusive (good : Covered s) : Exclusive s := by
  intro h mem h' inside' same unexpired unexpired'
  obtain ⟨l,stored,owner,-⟩ := good.covered h mem unexpired
  obtain ⟨l',stored',owner',-⟩ := good.covered h' inside' unexpired'
  rw [same,stored'] at stored
  cases stored
  cases node' : h'.node
  simp_all

theorem Covered.taken (good : Covered s) (i : Nat) : Covered { s with pending := s.pending.eraseIdx i } :=
  ⟨fun c mem => good.read c (mem_of_mem_eraseIdx mem),good.named,good.covered⟩

section
variable {s : State} {c : Call} (good : Covered s) (read : c.now ≤ s.now)
include good read

theorem Covered.granted (sound : Sound s c)
    (free : ∀ l, s.leases.get c.name = some l → l.expires ≤ c.now ∨ l.owner = [] ∨ l.owner = c.node.owner) :
    Covered (s.answer c (grant s.leases ⟨c.name,c.node.owner,c.now+leaseTime c.ttl⟩)) := by
  obtain ⟨name,owner,longer⟩ := sound
  have saved (k : Bytes) : (save s.leases ⟨c.name,c.node.owner,c.now+leaseTime c.ttl⟩).get k = _ := get_save name owner k
  refine ⟨good.read,?_,?_⟩
  · intro k l stored
    simp only [State.answer,grant,saved] at stored
    split at stored
    · cases stored
      exact c.node.named
    · exact good.named k l stored
  · intro h mem unexpired
    simp only [State.answer,grant,if_true,mem_cons] at mem
    simp only [State.answer,grant,saved] at unexpired ⊢
    cases mem with
    | inl new => simp [new]
    | inr old =>
      obtain ⟨l,stored,own,enough⟩ := good.covered h old unexpired
      split
      · rename_i same
        rw [same] at stored
        -- The stored lease is unexpired and has an owner, so the call was granted to that owner.
        have mine : l.owner = c.node.owner := by
          rcases free l stored with expired | unnamed | mine
          · lia
          · exact absurd unnamed (good.named _ l stored)
          · exact mine
        have shown : l.expires ≤ c.now+leaseTime c.ttl ∨ l.expires ≤ s.now := by simpa [stored,mine] using longer
        refine ⟨_,rfl,mine.symm.trans own,?_⟩
        lia
      · exact ⟨l,stored,own,enough⟩

theorem Covered.mutate (sound : c.op ≠ .release → Sound s c) :
    Covered (s.mutate c) := by
  by_cases op : c.op = .release
  · simp only [State.mutate,op]
    refine ⟨good.read,?_,?_⟩
    · intro k l stored
      simp only [release] at stored
      split at stored
      · rw [Table.get_set] at stored
        split at stored
        · cases stored
        · exact good.named k l stored
      · exact good.named k l stored
    · intro h mem unexpired
      obtain ⟨old,kept⟩ := mem_filter.mp mem
      obtain ⟨l,stored,own,enough⟩ := good.covered h old unexpired
      refine ⟨l,?_,own,enough⟩
      simp only [release]
      split
      · rename_i mine
        rw [Table.get_set]
        split
        · rename_i same
          rw [same] at stored
          simp only [stored,Option.getD_some] at mine
          have node : h.node = c.node := by
            cases node' : c.node
            simp_all
          simp [node,same] at kept
        · exact stored
      · exact stored
  · obtain ⟨result,does,tried⟩ := s.mutate_tried op
    rw [does]
    cases tried with
    | refused => exact ⟨good.read,good.named,good.covered⟩
    | granted free => exact good.granted read (sound op) free

theorem Covered.untouched (sound : c.op ≠ .release → Sound s c)
    (stored : s.leases.get name = some l) (unexpired : s.now < l.expires) (foreign : l.owner ≠ c.node.owner) :
    (s.mutate c).leases.get name = some l := by
  by_cases op : c.op = .release
  · simp only [State.mutate,op,release]
    split
    · rename_i mine
      rw [Table.get_set]
      split
      · rename_i same
        rw [same] at stored
        simp only [stored,Option.getD_some] at mine
        exact absurd mine foreign
      · exact stored
    · exact stored
  · obtain ⟨result,does,tried⟩ := s.mutate_tried op
    rw [does]
    cases tried with
    | refused => exact stored
    | granted free =>
      obtain ⟨text,owner,-⟩ := sound op
      simp only [State.answer,grant]
      rw [get_save text owner]
      split
      · rename_i same
        subst same
        rcases free l stored with expired | unnamed | mine
        · lia
        · exact absurd unnamed (good.named _ l stored)
        · exact absurd mine foreign
      · exact stored
end

theorem Covered.step (good : Covered s) (kept : Kept s e) (does : step s e = some t) : Covered t := by
  cases e with
  | tick time =>
    cases Option.some.inj does
    refine ⟨?_,good.named,?_⟩
    · intro c mem
      have := good.read c mem
      lia
    · intro h mem unexpired
      exact good.covered h mem (by lia)
  | call node op name ttl =>
    cases Option.some.inj does
    exact ⟨forall_mem_append.mpr ⟨good.read,forall_mem_singleton.mpr (Int.le_refl _)⟩,good.named,good.covered⟩
  | mutate i =>
    obtain ⟨c,found,rfl⟩ := Option.map_eq_some_iff.mp does
    exact (good.taken i).mutate (good.read c (mem_of_getElem? found)) (kept c found)

theorem reached_covered (run : Reached step Kept State.start s) : Covered s := by
  apply run.keeps Covered
  · exact ⟨by simp [State.start],by simp [State.start],by simp [State.start]⟩
  · exact Covered.step

theorem leases_exclusive {s : State} (run : Reached step Kept State.start s) : Exclusive s ∧
    ∀ i c t, s.pending[i]? = some c → c.op ≠ .tryAcquire → Kept s (.mutate i) → step s (.mutate i) = some t →
      ∀ name l, s.leases.get name = some l → s.now < l.expires → l.owner ≠ c.node.owner → t.leases.get name = some l := by
  have good := reached_covered run
  refine ⟨good.exclusive,?_⟩
  intro i c t found _ kept does name l stored unexpired foreign
  obtain ⟨c',again,rfl⟩ := Option.map_eq_some_iff.mp does
  cases found.symm.trans again
  exact (good.taken i).untouched (good.read c (mem_of_getElem? found)) (kept c found) stored unexpired foreign

def alpha : Node := ⟨ascii "a",by decide⟩
def beta : Node := ⟨ascii "b",by decide⟩

def job : Bytes := ascii "job"

def renewals : List Event :=
  [.call alpha .tryAcquire job 100,.mutate 0,.tick 60,.call alpha .renew job 100,.call beta .renew job 100,.mutate 0]

theorem renewed_lease_kept : ∃ s, Reached step Kept State.start s ∧ Exclusive s ∧ ∃ t, step s (.mutate 0) = some t ∧
    t.leases.get job = some ⟨job,ascii "a",160⟩ := by
  have played : ((play step Kept State.start renewals).any fun s => decide (s.now = 60 ∧
      s.pending[0]? = some ⟨beta,.renew,job,100,60⟩ ∧ Kept s (.mutate 0) ∧ s.leases.get job = some ⟨job,ascii "a",160⟩)) = true := by
    decide
  obtain ⟨s,run,now,found,kept,stored⟩ := play_reaches step Kept State.start _ renewals played
  obtain ⟨exclusive,untouched⟩ := leases_exclusive run
  have does : step s (.mutate 0) = some (State.mutate { s with pending := s.pending.eraseIdx 0 } ⟨beta,.renew,job,100,60⟩) := by
    simp [step,found]
  refine ⟨s,run,exclusive,_,does,?_⟩
  exact untouched 0 _ _ found (by decide) kept does job _ stored (by rw [now]; decide) (by decide)

def overlappingRenewals : List Event :=
  [.call alpha .renew job 15,.tick 10,.call alpha .renew job 15,.mutate 1,.mutate 0,.tick 5,.call beta .tryAcquire job 15,.mutate 0]

def unreadableName : List Event :=
  [.call alpha .tryAcquire [0xFF] 15,.mutate 0,.call beta .tryAcquire [0xFF] 15,.mutate 0]

def unreadableOwners : List Event :=
  [.call ⟨[0xFF],by decide⟩ .tryAcquire job 15,.mutate 0,.call ⟨replacement,by decide⟩ .tryAcquire job 15,.mutate 0]

def collidingName : List Event :=
  [.call alpha .tryAcquire replacement 15,.mutate 0,.call beta .renew [0xFF] 15]

abbrev Open (_ : State) (_ : Event) : Prop := True

theorem overlapping_renewals_share_lease :
    (∃ s, Reached step Open State.start s ∧ ¬ Exclusive s ∧ ⟨alpha,job,25⟩ ∈ s.held ∧ ⟨beta,job,30⟩ ∈ s.held ∧ s.now = 15) ∧
    (∃ s, Reached step Open State.start s ∧ ¬ Exclusive s ∧ ⟨alpha,[0xFF],15⟩ ∈ s.held ∧ ⟨beta,[0xFF],15⟩ ∈ s.held ∧ s.now = 0) ∧
    (∃ s, Reached step Open State.start s ∧ ¬ Exclusive s ∧ s.leases.get job = some ⟨job,replacement,15⟩) ∧
    (∃ s, Reached step Open State.start s ∧ s.leases.get replacement = some ⟨replacement,ascii "a",15⟩ ∧ s.now = 0 ∧
      (step s (.mutate 0)).any fun t => t.leases.get replacement = some ⟨replacement,ascii "b",15⟩) := by
  refine ⟨?_,?_,?_,?_⟩
  · exact play_reaches step Open State.start _ overlappingRenewals (by decide)
  · exact play_reaches step Open State.start _ unreadableName (by decide)
  · exact play_reaches step Open State.start _ unreadableOwners (by decide)
  · exact play_reaches step Open State.start _ collidingName (by decide)
end FhServer.Cluster

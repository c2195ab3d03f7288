import FhServer.BitString

-- A decoding tree that reads a bit code eight bits at a time.  A code whose length is not a multiple of
-- eight fills every slot that begins with its last bits.
namespace CodeTree
open BitString UInt8 Nat
open List

inductive Node (α : Type)
  | inner (children : UInt8 → Option (Node α))
  | leaf (sym : α) (codeLen : Nat)

def Node.empty : Node α := .inner fun _ => none

def insert (sym : α) (code : Nat) : Nat → Node α → Node α
  -- Below a leaf there is nothing to write; a prefix-free table never gets there.
  | _,.leaf other codeLen => .leaf other codeLen
  | remaining+9,.inner children =>
    let i := ofNat (code >>> (remaining+1))
    let next := (children i).getD .empty
    .inner (Function.update children i (some (insert sym code (remaining+1) next)))
  | remaining,.inner children =>
    let shift := 8-remaining
    let start := (ofNat (code <<< shift)).toNat
    let count := 1 <<< shift
    .inner fun i =>
      if start ≤ i.toNat ∧ i.toNat < start+count then some (.leaf sym remaining) else children i

theorem insert_short (short : len ≤ 8) (children : UInt8 → Option (Node α)) :
    insert sym code len (.inner children) = .inner fun i =>
      if (ofNat (code <<< (8-len))).toNat ≤ i.toNat ∧
        i.toNat < (ofNat (code <<< (8-len))).toNat+1 <<< (8-len) then some (.leaf sym len) else children i := by
  rcases len with _ | _ | _ | _ | _ | _ | _ | _ | _ | len
  all_goals first | rfl | lia

theorem slot_iff (short : len ≤ 8) (code : Nat) (i : UInt8) :
    ((ofNat (code <<< (8-len))).toNat ≤ i.toNat ∧
      i.toNat < (ofNat (code <<< (8-len))).toNat+1 <<< (8-len)) ↔ bits len code <+: bits 8 i.toNat := by
  have split : 2^8 = 2^len*2^(8-len) := by rw [←pow_add]; congr 1; lia
  have positive : 0 < 2^(8-len) := Nat.two_pow_pos _
  have start : (ofNat (code <<< (8-len))).toNat = code%2^len*2^(8-len) := by
    rw [toNat_ofNat',shiftLeft_eq,split,mul_mod_mul_right]
  have window : bits 8 i.toNat = bits len (i.toNat >>> (8-len)) ++ bits (8-len) i.toNat := by rw [←bits_add]; congr 1; lia
  have low : i.toNat >>> (8-len) < 2^len := by
    rw [shiftRight_eq_div_pow,div_lt_iff_lt_mul positive,←split]
    exact i.toNat_lt
  have quotient : (code%2^len*2^(8-len) ≤ i.toNat ∧ i.toNat < code%2^len*2^(8-len)+2^(8-len)) ↔
      i.toNat/2^(8-len) = code%2^len := by
    rw [Nat.div_eq_iff positive]; lia
  rw [start,one_shiftLeft,quotient,window]
  constructor
  · intro same
    rw [shiftRight_eq_div_pow,same,bits_mod (le_refl len)]
    exact prefix_append _ _
  · intro begins
    have head : bits len code = bits len (i.toNat >>> (8-len)) := by
      have taken := prefix_iff_eq_take.mp begins
      rwa [bits_length,take_left' (bits_length _ _)] at taken
    rw [←bits_mod (le_refl len) code] at head
    rw [←shiftRight_eq_div_pow]
    exact (bits_inj (Nat.mod_lt _ (Nat.two_pow_pos _)) low head).symm

inductive Finds (sym : α) (code : Nat) : Nat → Node α → Prop
  | last (short : len ≤ 8) (leaves : ∀ i, bits len code <+: bits 8 i.toNat → children i = some (.leaf sym len)) :
      Finds sym code len (.inner children)
  | step (found : children (ofNat (code >>> (remaining+1))) = some child) (onward : Finds sym code (remaining+1) child) :
      Finds sym code (remaining+9) (.inner children)

inductive Clear {α : Type} (code : Nat) : Nat → Node α → Prop
  | last (short : len ≤ 8) : Clear code len (.inner children)
  | step (onward : Clear code (remaining+1) ((children (ofNat (code >>> (remaining+1)))).getD .empty)) :
      Clear code (remaining+9) (.inner children)

theorem clear_empty (code len : Nat) : Clear code len (Node.empty : Node α) := by
  induction len using Nat.strongRecOn with
  | _ len ih =>
    rcases lt_or_ge 8 len with long | short
    · obtain ⟨remaining,rfl⟩ : ∃ remaining, len = remaining+9 := ⟨len-9,by lia⟩
      exact .step (ih (remaining+1) (by lia))
    · exact .last short

theorem bits_first (remaining code : Nat) : bits (remaining+9) code =
    bits 8 (ofNat (code >>> (remaining+1))).toNat ++ bits (remaining+1) code := by
  rw [bits_byte,←bits_add,add_comm 8]

theorem insert_finds (clear : Clear code len node) : Finds sym code len (insert sym code len node) := by
  induction clear with
  | last short =>
    rw [insert_short short]
    apply Finds.last short
    intro i begins
    rw [if_pos ((slot_iff short code i).mpr begins)]
  | step onward ih => exact .step (Function.update_self _ _ _) ih

theorem insert_child (sym : α) (code len : Nat) (children : UInt8 → Option (Node α)) :
    ∃ written, insert sym code len (.inner children) = .inner written ∧ ∀ i, written i = children i ∨
      (len ≤ 8 ∧ bits len code <+: bits 8 i.toNat) ∨
      ∃ remaining, len = remaining+9 ∧ i = ofNat (code >>> (remaining+1)) ∧
        written i = some (insert sym code (remaining+1) ((children i).getD .empty)) := by
  rcases lt_or_ge 8 len with long | short
  · obtain ⟨remaining,rfl⟩ : ∃ remaining, len = remaining+9 := ⟨len-9,by lia⟩
    refine ⟨_,rfl,?_⟩
    intro i
    by_cases here : i = ofNat (code >>> (remaining+1))
    · subst here
      exact .inr (.inr ⟨remaining,rfl,rfl,Function.update_self _ _ _⟩)
    · exact .inl (Function.update_of_ne here _ _)
  · refine ⟨_,insert_short short children,?_⟩
    intro i
    by_cases mem : bits len code <+: bits 8 i.toNat
    · exact .inr (.inl ⟨short,mem⟩)
    · exact .inl (if_neg (mt (slot_iff short code i).mp mem))

theorem not_prefix_rest (apart : ¬bits (one+9) first <+: bits (two+9) second)
    (same : ofNat (second >>> (two+1)) = ofNat (first >>> (one+1))) :
    ¬bits (one+1) first <+: bits (two+1) second := by
  intro begins
  apply apart
  rw [bits_first,bits_first,same]
  exact (prefix_append_right_inj _).mpr begins

theorem insert_keeps_clear (sym : α) (code : Nat) (clear : Clear other kept node) :
    ∀ {len}, ¬bits len code <+: bits kept other → Clear other kept (insert sym code len node) := by
  induction clear with
  | @last kept children short =>
    intro len _
    obtain ⟨written,step,_⟩ := insert_child sym code len children
    rw [step]
    exact .last short
  | @step rest children onward ih =>
    intro len apart
    obtain ⟨written,step,change⟩ := insert_child sym code len children
    rw [step]
    apply Clear.step
    rcases change (ofNat (other >>> (rest+1))) with same | ⟨_,mem⟩ | ⟨remaining,rfl,here,new⟩
    · rwa [same]
    · rw [bits_first] at apart
      exact absurd (mem.trans (prefix_append _ _)) apart
    · rw [new]
      exact ih (not_prefix_rest apart here)

theorem insert_keeps_finds (sym : α) (code : Nat) (finds : Finds old other kept node) :
    ∀ {len}, ¬bits len code <+: bits kept other → ¬bits kept other <+: bits len code →
      Finds old other kept (insert sym code len node) := by
  induction finds with
  | @last kept children short leaves =>
    intro len apart apart'
    obtain ⟨written,step,change⟩ := insert_child sym code len children
    rw [step]
    apply Finds.last short
    intro i begins
    rcases change i with same | ⟨_,mem⟩ | ⟨remaining,rfl,here,_⟩
    · exact same.trans (leaves i begins)
    -- Two codes that begin one byte: the shorter begins the other.
    · rcases le_total len kept with less | more
      · exact absurd (prefix_of_prefix_length_le mem begins (by simpa using less)) apart
      · exact absurd (prefix_of_prefix_length_le begins mem (by simpa using more)) apart'
    · rw [bits_first remaining code,←here] at apart'
      exact absurd (begins.trans (prefix_append _ _)) apart'
  | @step children next rest found onward ih =>
    intro len apart apart'
    obtain ⟨written,step,change⟩ := insert_child sym code len children
    rw [step]
    rcases change (ofNat (other >>> (rest+1))) with same | ⟨_,mem⟩ | ⟨remaining,rfl,here,new⟩
    · exact .step (same.trans found) onward
    · rw [bits_first rest other] at apart
      exact absurd (mem.trans (prefix_append _ _)) apart
    · rw [found,Option.getD_some] at new
      exact .step new (ih (not_prefix_rest apart here) (not_prefix_rest apart' here.symm))

structure Code (α : Type) where
  sym : α
  code : Nat
  len : Nat

def Code.bits (c : Code α) : List Bool := BitString.bits c.len c.code

def Apart (one two : Code α) : Prop := ¬one.bits <+: two.bits ∧ ¬two.bits <+: one.bits

def build (codes : List (Code α)) (node : Node α) : Node α :=
  codes.foldl (fun node c => insert c.sym c.code c.len node) node

theorem build_keeps : ∀ {codes done : List (Code α)} {node : Node α}, (done ++ codes).Pairwise Apart →
    (∀ c ∈ done, Finds c.sym c.code c.len node) → (∀ c ∈ codes, Clear c.code c.len node) →
    ∀ c ∈ done ++ codes, Finds c.sym c.code c.len (build codes node) := by
  intro codes
  induction codes with
  | nil => intro done node _ finds _; simpa [build] using finds
  | cons c codes ih =>
    intro done node apart finds clear
    have whole : done ++ c :: codes = (done ++ [c]) ++ codes := by simp
    rw [whole] at apart ⊢
    apply ih apart
    · intro old mem
      rcases mem_append.mp mem with before | last
      · have split := (pairwise_append.mp (pairwise_append.mp apart).1).2.2 old before c (by simp)
        exact insert_keeps_finds _ _ (finds old before) split.2 split.1
      · rw [mem_singleton.mp last]
        exact insert_finds (clear c (by simp))
    · intro later mem
      have split := (pairwise_append.mp apart).2.2 c (by simp) later mem
      exact insert_keeps_clear _ _ (clear later (by simp [mem])) split.1

theorem build_finds {codes : List (Code α)} (apart : codes.Pairwise Apart) (mem : c ∈ codes) :
    Finds c.sym c.code c.len (build codes .empty) := by
  have nothing : ∀ c ∈ ([] : List (Code α)), Finds c.sym c.code c.len .empty := by intro c mem; cases mem
  exact build_keeps (by simpa using apart) nothing (fun c _ => clear_empty _ _) c (by simpa using mem)
end CodeTree

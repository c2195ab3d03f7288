import FhServer.GoText

namespace FhServer.Redaction
open GoBytes GoText List

inductive Outcome
  | returned (s : Bytes)
  | panicked

def valueEnds (c : UInt8) : Bool := c == 38 || c == 32 || c == 59

section
variable (lo : Lowering)

def pattern (k : Bytes) : Bytes := lo.lower k ++ [61]

def redactKey (k repl : Bytes) : Nat → Bytes → Option Outcome
  | 0,_ => none
  | fuel+1,s =>
    match index (pattern lo k) (lo.lower s) with
    | none => some (.returned s)
    | some i =>
      let j := i+k.length+1
      if s.length < j then some .panicked
      else redactKey k repl fuel (s.take j ++ repl ++ (s.drop j).dropWhile fun c => !valueEnds c)

def redactString (fuel : Nat) (repl : Bytes) : List Bytes → Bytes → Option Outcome
  | [],s => some (.returned s)
  | k :: ks,s =>
    match redactKey lo k repl fuel s with
    | some (.returned out) => redactString fuel repl ks out
    | stopped => stopped

def Redacted (keys : List Bytes) (repl out : Bytes) : Prop :=
  ∀ k ∈ keys, ∀ a m rest, out = a ++ m ++ 61 :: rest → lo.lower (a ++ m) = lo.lower a ++ lo.lower m → lo.lower m = lo.lower k → repl <+: rest

def Redacts (keys : List Bytes) (repl s : Bytes) : Prop :=
  ∃ fuel out, redactString lo fuel repl keys s = some (.returned out) ∧ Redacted lo keys repl out

def Absent (keys : List Bytes) (s : Bytes) : Prop := ∀ k ∈ keys, index (pattern lo k) (lo.lower s) = none

-- A key that is found stands in the lower case copy where it stands in the text.
def InPlace (keys : List Bytes) (s : Bytes) : Prop :=
  ∀ k ∈ keys, ∀ i, index (pattern lo k) (lo.lower s) = some i → (lo.lower k).length = k.length ∧
    ∃ a b, s = a ++ 61 :: b ∧ a.length = i+k.length ∧ (lo.lower a).length = a.length
end
variable {lo : Lowering} {keys : List Bytes} {k repl s : Bytes}

theorem lower_equals (a b : Bytes) : lo.lower (a ++ 61 :: b) = lo.lower a ++ [61] ++ lo.lower b := by
  rw [lo.letter a 61 b (by decide)]
  simp
  rfl

theorem index_some_of_split (text pat rest : Bytes) : index pat (text ++ pat ++ rest) ≠ none := by
  induction text with
  | nil =>
    cases pat with
    | nil => cases rest <;> simp [index]
    | cons c pat => simp [index]
  | cons c text ih =>
    simp only [cons_append,index]
    split
    · simp
    · simpa using ih

theorem Absent.redacts (absent : Absent lo keys s) (repl : Bytes) : Redacts lo keys repl s := by
  refine ⟨1,s,?_,?_⟩
  · have each : ∀ ks ⊆ keys, redactString lo 1 repl ks s = some (.returned s) := by
      intro ks
      induction ks with
      | nil => exact fun _ => rfl
      | cons k ks ih =>
        intro mem
        have none := absent k (mem mem_cons_self)
        simp only [redactString,redactKey,none]
        exact ih fun k' later => mem (mem_cons_of_mem k later)
    exact each keys fun _ mem => mem
  · intro k mem a m rest split place same
    have found := index_some_of_split (lo.lower a) (pattern lo k) (lo.lower rest)
    apply absurd _ found
    rw [← absent k mem,split,lower_equals,place,same,pattern]
    simp

theorem redactKey_none (before : a.length = i+k.length)
    (found : index (pattern lo k) (lo.lower a ++ [61]) = some i) (fuel : Nat) (b : Bytes) : redactKey lo k repl fuel (a ++ 61 :: b) = none := by
  induction fuel generalizing b with
  | zero => rfl
  | succ fuel ih =>
    have again : index (pattern lo k) (lo.lower (a ++ 61 :: b)) = some i := by
      rw [lower_equals]
      exact index_append _ found
    have mem : ¬ (a ++ 61 :: b).length < i+k.length+1 := by
      simp only [length_append,length_cons]
      lia
    have kept : (a ++ 61 :: b).take (i+k.length+1) = a ++ [61] := by
      rw [← before,take_length_add_append]
      rfl
    simp only [redactKey,again,if_neg mem,kept]
    simpa using ih _

theorem redactKey_loops (place : (lo.lower k).length = k.length ∧ ∃ a b, s = a ++ 61 :: b ∧ a.length = i+k.length ∧ (lo.lower a).length = a.length)
    (found : index (pattern lo k) (lo.lower s) = some i) (fuel : Nat) (repl : Bytes) : redactKey lo k repl fuel s = none := by
  obtain ⟨long,a,b,rfl,before,same⟩ := place
  apply redactKey_none before
  have reaches := index_reaches found (k := (lo.lower a).length+1) (by simp [pattern]; lia)
  rw [lower_equals,append_assoc,take_length_add_append] at reaches
  simpa using reaches

theorem redactString_loops (place : InPlace lo keys s) (present : ¬ Absent lo keys s) (fuel : Nat) (repl : Bytes) : redactString lo fuel repl keys s = none := by
  induction keys with
  | nil => exact absurd (by simp [Absent]) present
  | cons k keys ih =>
    cases found : index (pattern lo k) (lo.lower s) with
    | some i => simp [redactString,redactKey_loops (place k mem_cons_self i found) found]
    | none =>
      cases fuel with
      | zero => rfl
      | succ fuel =>
        simp only [redactString,redactKey,found]
        apply ih
        · exact fun k' later => place k' (mem_cons_of_mem k later)
        intro absent
        exact present (forall_mem_cons.mpr ⟨found,absent⟩)

theorem redacts_iff (place : InPlace lo keys s) (repl : Bytes) : Redacts lo keys repl s ↔ Absent lo keys s := by
  constructor
  · intro ⟨fuel,out,returned,_⟩
    apply Classical.byContradiction
    intro present
    rw [redactString_loops place present] at returned
    cases returned
  · intro absent
    exact absent.redacts repl

theorem lower_ascii (plain : ∀ c ∈ s, c < 0x80) : lo.lower s = s.map foldByte := by
  induction s with
  | nil => exact lo.empty
  | cons c s ih =>
    have first := lo.letter [] c s (plain c mem_cons_self)
    rw [lo.empty] at first
    simp only [nil_append] at first
    rw [first,ih fun d mem => plain d (mem_cons_of_mem c mem)]
    rfl

theorem foldByte_equals : ∀ c : UInt8, foldByte c = 61 → c = 61 := eachByte (by decide +kernel)

theorem ascii_inPlace (plain : ∀ c ∈ s, c < 0x80) (plainKeys : ∀ k ∈ keys, ∀ c ∈ k, c < 0x80) : InPlace lo keys s := by
  intro k mem i found
  rw [pattern,lower_ascii (plainKeys k mem),lower_ascii plain] at found
  obtain ⟨text,rest,split,rfl⟩ := index_split found
  rw [← append_assoc,← append_assoc] at split
  obtain ⟨before,b,rfl,joined,-⟩ := map_eq_append_iff.mp split
  obtain ⟨a,equals,rfl,front,last⟩ := map_eq_append_iff.mp joined
  obtain ⟨c,rfl,sign⟩ := map_eq_singleton_iff.mp last
  cases foldByte_equals c sign
  refine ⟨by rw [lower_ascii (plainKeys k mem),length_map],a,b,by simp,?_,?_⟩
  · simpa using congrArg List.length front
  · rw [lower_ascii fun c there => plain c (by simp [there]),length_map]

def defaultKeys : List Bytes :=
  [ascii "password",ascii "token",ascii "secret",ascii "authorization",ascii "cookie",ascii "set-cookie",ascii "api_key",
    ascii "access_token",ascii "refresh_token"]

def redactedText : Bytes := ascii "[REDACTED]"

theorem defaultKeys_plain : ∀ k ∈ defaultKeys, ∀ c ∈ k, c < 0x80 := by
  decide +kernel

theorem plain_text_redacted : Absent lowering defaultKeys (ascii "user=alice") ∧ Redacts lowering defaultKeys redactedText (ascii "user=alice") := by
  have absent : Absent lowering defaultKeys (ascii "user=alice") := by
    unfold Absent defaultKeys
    repeat rw [ascii_ofList]
    decide
  exact ⟨absent,(redacts_iff (ascii_inPlace (by decide +kernel) defaultKeys_plain) redactedText).mpr absent⟩

theorem password_never_redacted : (¬ ∃ fuel outcome, redactString lowering fuel redactedText defaultKeys (ascii "user=alice&password=x") = some outcome) ∧
    ¬ Redacts lowering defaultKeys redactedText (ascii "user=alice&password=x") := by
  have present : ¬ Absent lowering defaultKeys (ascii "user=alice&password=x") := by
    unfold Absent defaultKeys
    repeat rw [ascii_ofList]
    decide
  have loops := redactString_loops (ascii_inPlace (by decide +kernel) defaultKeys_plain) present
  constructor
  · intro ⟨fuel,outcome,stopped⟩
    rw [loops fuel redactedText] at stopped
    cases stopped
  · intro ⟨fuel,out,returned,_⟩
    rw [loops fuel redactedText] at returned
    cases returned
end FhServer.Redaction

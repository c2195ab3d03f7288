import FhServer.Fragments
import FhServer.GoText

namespace FhServer
open GoText Fragments List
namespace GoText

-- The length that the first byte of a rune announces. It is 1 for a byte that no longer rune starts with.
def announced (a : UInt8) : Nat :=
  if 0xC2 ≤ a && a ≤ 0xDF then 2 else if 0xE0 ≤ a && a ≤ 0xEF then 3 else if 0xF0 ≤ a && a ≤ 0xF4 then 4 else 1

def second (a b : UInt8) : Bool :=
  if a == 0xE0 then 0xA0 ≤ b && b ≤ 0xBF
  else if a == 0xED then 0x80 ≤ b && b ≤ 0x9F
  else if a == 0xF0 then 0x90 ≤ b && b ≤ 0xBF
  else if a == 0xF4 then 0x80 ≤ b && b ≤ 0x8F
  else continuation b

-- utf8.FullRune: an invalid encoding is full, as it is a rune of its own.
def fullRune : Bytes → Bool
  | [] => false
  | a :: rest =>
    if announced a ≤ rest.length+1 then true
    else match rest with
      | [] => false
      | b :: more =>
        if !second a b then true
        else match more with
          | [] => false
          | c :: _ => !continuation c

def validLoop : Nat → Bytes → Bool
  | _,[] => true
  | 0,_ :: _ => false
  | rounds+1,c :: rest =>
    match runeLength (c :: rest) with
    | some n => validLoop rounds ((c :: rest).drop n)
    | none => false

def validUtf8 (b : Bytes) : Bool := validLoop b.length b

theorem second_two (two : (0xC2 ≤ a && a ≤ 0xDF) = true) (b : UInt8) : second a b = continuation b := by
  grind [second]

theorem second_three (three : (0xE0 ≤ a && a ≤ 0xEF) = true) (b : UInt8) :
    second a b = if a == 0xE0 then decide (0xA0 ≤ b) && decide (b ≤ 0xBF) else if a == 0xED then decide (0x80 ≤ b) && decide (b ≤ 0x9F) else continuation b := by
  have low : (a == 0xF0) = false := by grind
  have high : (a == 0xF4) = false := by grind
  simp only [second,low,high]
  rfl

theorem second_four (four : (0xF0 ≤ a && a ≤ 0xF4) = true) (b : UInt8) :
    second a b = if a == 0xF0 then decide (0x90 ≤ b) && decide (b ≤ 0xBF) else if a == 0xF4 then decide (0x80 ≤ b) && decide (b ≤ 0x8F) else continuation b := by
  have low : (a == 0xE0) = false := by grind
  have high : (a == 0xED) = false := by grind
  simp only [second,low,high]
  rfl

theorem runeLength_eq (a : UInt8) (rest : Bytes) : runeLength (a :: rest) =
    if a < 0x80 then some 1
    else match announced a,rest with
      | 2,b :: _ => if second a b then some 2 else none
      | 3,b :: c :: _ => if second a b && continuation c then some 3 else none
      | 4,b :: c :: d :: _ => if second a b && continuation c && continuation d then some 4 else none
      | _,_ => none := by
  rw [runeLength.eq_def]
  simp only []
  split
  · rfl
  by_cases two : (0xC2 ≤ a && a ≤ 0xDF) = true
  · have three : (0xE0 ≤ a && a ≤ 0xEF) = false := by grind
    have four : (0xF0 ≤ a && a ≤ 0xF4) = false := by grind
    simp only [announced,two,three,four,second_two two]
    grind
  · have two := Bool.eq_false_iff.mpr two
    by_cases three : (0xE0 ≤ a && a ≤ 0xEF) = true
    · have four : (0xF0 ≤ a && a ≤ 0xF4) = false := by grind
      simp only [announced,two,three,four,second_three three]
      grind
    · have three := Bool.eq_false_iff.mpr three
      by_cases four : (0xF0 ≤ a && a ≤ 0xF4) = true
      · simp only [announced,two,three,four,second_four four]
        grind
      · have four := Bool.eq_false_iff.mpr four
        simp only [announced,two,three,four]
        grind
theorem announced_range (a : UInt8) : announced a = 1 ∨ announced a = 2 ∨ announced a = 3 ∨ announced a = 4 := by
  grind [announced]

theorem runeLength_append (rune : runeLength x = some n) (y : Bytes) :
    runeLength (x ++ y) = some n ∧ 0 < n ∧ n ≤ x.length := by
  cases x with
  | nil => cases rune
  | cons a rest =>
    rw [cons_append]
    rw [runeLength_eq] at rune ⊢
    split at rune
    · grind
    split at rune
    · grind
    · grind
    · grind
    · cases rune

theorem fullRune_iff (a : UInt8) (rest : Bytes) : fullRune (a :: rest) = true ↔
    announced a ≤ rest.length+1 ∨ (∃ b more, rest = b :: more ∧ second a b = false) ∨ ∃ b c more, rest = b :: c :: more ∧ continuation c = false := by
  match rest with
  | [] | [b] | b :: c :: more => simp [fullRune]

theorem fullRune_append (full : fullRune x = true) (y : Bytes) : fullRune (x ++ y) = true := by
  cases x with
  | nil => cases full
  | cons a rest =>
    rw [cons_append]
    rw [fullRune_iff] at full ⊢
    rcases full with enough | ⟨b,more,rfl,bad⟩ | ⟨b,c,more,rfl,bad⟩
    · exact .inl (by rw [length_append]; lia)
    · exact .inr (.inl ⟨b,more ++ y,rfl,bad⟩)
    · exact .inr (.inr ⟨b,c,more ++ y,rfl,bad⟩)

theorem fullRune_rune (rune : runeLength x = some n) : fullRune x = true := by
  cases x with
  | nil => cases rune
  | cons a rest =>
    rw [runeLength_eq] at rune
    rw [fullRune_iff]
    split at rune
    · exact .inl (by grind [announced])
    split at rune
    · exact .inl (by grind)
    · exact .inl (by grind)
    · exact .inl (by grind)
    · cases rune

theorem runeLength_refused (full : fullRune x = true) (refused : runeLength x = none) (y : Bytes) : runeLength (x ++ y) = none := by
  cases x with
  | nil => cases full
  | cons a rest =>
    rw [cons_append]
    rw [fullRune_iff] at full
    rw [runeLength_eq] at refused ⊢
    split at refused
    · cases refused
    rename_i long
    rw [if_neg long]
    rcases full with enough | ⟨b,more,rfl,bad⟩ | ⟨b,c,more,rfl,bad⟩
    · rcases announced_range a with is | is | is | is
      · simp [is]
      · simp only [is] at refused enough ⊢
        match rest with
        | b :: more => exact refused
      · simp only [is] at refused enough ⊢
        match rest with
        | b :: c :: more => exact refused
      · simp only [is] at refused enough ⊢
        match rest with
        | b :: c :: d :: more => exact refused
    · grind
    · grind

theorem fullRune_short (cut : fullRune x = false) : x.length < 4 := by
  cases x with
  | nil => decide
  | cons a rest =>
    have short : ¬(announced a ≤ rest.length+1) := fun enough => by rw [(fullRune_iff a rest).mpr (.inl enough)] at cut; cases cut
    have range := announced_range a
    rw [length_cons]
    lia
end GoText

structure Utf8StreamValidator where
  tail : Bytes := []

namespace Utf8StreamValidator

-- Every round takes at least one byte. The result is the new tail, or none for an error.
def writeLoop : Nat → Bytes → Option Bytes
  | _,[] => some []
  | 0,_ :: _ => none
  | rounds+1,c :: rest =>
    if c < 0x80 then writeLoop rounds rest
    else if !fullRune (c :: rest) then
      if rest.length+1 > 4 then none else some (c :: rest)
    else
      match runeLength (c :: rest) with
      | none => none
      | some n => writeLoop rounds ((c :: rest).drop n)

-- An error leaves no tail behind. The result says whether there was one.
def write (v : Utf8StreamValidator) (p : Bytes) : Utf8StreamValidator × Bool :=
  if p.length = 0 then (v,false)
  else
    match writeLoop (v.tail ++ p).length (v.tail ++ p) with
    | some tail => ({tail := tail},false)
    | none => ({},true)

def finish (v : Utf8StreamValidator) : Bool := v.tail.length ≠ 0
end Utf8StreamValidator

def runeStep (_ : Unit) : Bytes → Step Unit UInt8
  | [] => .more
  | c :: rest =>
    if fullRune (c :: rest) then
      match runeLength (c :: rest) with
      | some n => .next () ((c :: rest).drop n)
      | none => .fail ()
    else .more

theorem runeStep_steady : Steady runeStep where
  longer {_ x t rest} taken y := by
    cases x with
    | nil => cases taken
    | cons c x =>
      rw [cons_append]
      rw [runeStep] at taken ⊢
      rw [← cons_append]
      split at taken
      · rename_i full
        rw [if_pos (fullRune_append full y)]
        split at taken
        · rename_i n rune
          cases taken
          obtain ⟨same,_,within⟩ := runeLength_append rune y
          simp only [same]
          rw [drop_append_of_le_length within]
        · cases taken
      · cases taken
  fails {_ x t} taken y := by
    cases x with
    | nil => cases taken
    | cons c x =>
      rw [cons_append]
      rw [runeStep] at taken ⊢
      rw [← cons_append]
      split at taken
      · rename_i full
        rw [if_pos (fullRune_append full y)]
        split at taken
        · cases taken
        · rename_i refused
          rw [runeLength_refused full refused y]
      · cases taken
  shrinks {_ x t rest} taken := by
    cases x with
    | nil => cases taken
    | cons c x =>
      rw [runeStep] at taken
      split at taken
      · split at taken
        · rename_i n rune
          cases taken
          obtain ⟨_,some,within⟩ := runeLength_append rune []
          rw [length_drop]
          lia
        · cases taken
      · cases taken
  empty := rfl

section
variable {c : UInt8} {rest : Bytes}

theorem runeStep_rune (rune : runeLength (c :: rest) = some n) : runeStep () (c :: rest) = .next () ((c :: rest).drop n) := by
  rw [runeStep,if_pos (fullRune_rune rune),rune]

theorem runeStep_refused (full : fullRune (c :: rest) = true) (refused : runeLength (c :: rest) = none) : runeStep () (c :: rest) = .fail () := by
  rw [runeStep,if_pos full,refused]

theorem runeStep_cut (cut : fullRune (c :: rest) = false) : runeStep () (c :: rest) = .more := by
  rw [runeStep,cut]
  rfl

theorem rune_shorter (rune : runeLength (c :: rest) = some n) (enough : rest.length ≤ rounds) : ((c :: rest).drop n).length ≤ rounds := by
  obtain ⟨_,some,within⟩ := runeLength_append rune []
  rw [length_drop,length_cons]
  lia
end

theorem validUtf8_iff (b : Bytes) : validUtf8 b = true ↔ run runeStep () b = .stopped () [] := by
  suffices each : ∀ rounds (b : Bytes), b.length ≤ rounds → (validLoop rounds b = true ↔ run runeStep () b = .stopped () []) from each _ b (Nat.le_refl _)
  intro rounds
  induction rounds with
  | zero =>
    intro b none
    cases eq_nil_of_length_eq_zero (Nat.le_zero.mp none)
    simp [validLoop,run_more runeStep_steady.empty]
  | succ rounds ih =>
    intro b enough
    cases b with
    | nil => simp [validLoop,run_more runeStep_steady.empty]
    | cons c rest =>
      rw [validLoop]
      cases rune : runeLength (c :: rest) with
      | some n =>
        rw [run_next runeStep_steady (runeStep_rune rune)]
        exact ih _ (rune_shorter rune (Nat.lt_succ_iff.mp enough))
      | none =>
        cases full : fullRune (c :: rest) with
        | true => simp [run_fail runeStep_steady (runeStep_refused full rune)]
        | false => simp [run_more (runeStep_cut full)]

theorem Utf8StreamValidator.writeLoop_run (b : Bytes) : Utf8StreamValidator.writeLoop b.length b =
    match run runeStep () b with
    | .stopped _ tail => some tail
    | .failed _ => none := by
  suffices each : ∀ rounds (b : Bytes), b.length ≤ rounds → Utf8StreamValidator.writeLoop rounds b =
      match run runeStep () b with
      | .stopped _ tail => some tail
      | .failed _ => none from each _ b (Nat.le_refl _)
  intro rounds
  induction rounds with
  | zero =>
    intro b none
    cases eq_nil_of_length_eq_zero (Nat.le_zero.mp none)
    rfl
  | succ rounds ih =>
    intro b enough
    cases b with
    | nil =>
      rfl
    | cons c rest =>
      have enough := Nat.lt_succ_iff.mp enough
      rw [Utf8StreamValidator.writeLoop]
      split
      · rename_i plain
        have rune : runeLength (c :: rest) = some 1 := by rw [runeLength_eq,if_pos plain]
        rw [run_next runeStep_steady (runeStep_rune rune)]
        exact ih rest enough
      · cases full : fullRune (c :: rest) with
        | false =>
          have short : ¬rest.length+1 > 4 := by
            have few := fullRune_short full
            rw [length_cons] at few
            lia
          rw [run_more (runeStep_cut full)]
          simp [short]
        | true =>
          cases rune : runeLength (c :: rest) with
          | some n =>
            rw [run_next runeStep_steady (runeStep_rune rune)]
            exact ih _ (rune_shorter rune enough)
          | none =>
            rw [run_fail runeStep_steady (runeStep_refused full rune)]
            rfl

def Utf8StreamValidator.Saw (v : Utf8StreamValidator) (seen : Bytes) : Prop := run runeStep () seen = .stopped () v.tail

theorem Utf8StreamValidator.saw_nothing : Saw {} [] := run_more runeStep_steady.empty

theorem Utf8StreamValidator.write_saw {v : Utf8StreamValidator} (saw : v.Saw seen) (p : Bytes) : v.write p =
    match run runeStep () (seen ++ p) with
    | .stopped _ tail => ({tail := tail},false)
    | .failed _ => ({},true) := by
  have rest : run runeStep () (seen ++ p) = run runeStep () (v.tail ++ p) := by rw [run_append runeStep_steady,saw]
  rw [write,rest]
  by_cases none : p.length = 0
  · cases eq_nil_of_length_eq_zero none
    rw [append_nil,run_more (run_stopped runeStep_steady saw),if_pos none]
  rw [if_neg none,writeLoop_run]
  cases run runeStep () (v.tail ++ p) with
  | stopped t tail => rfl
  | failed t => rfl

theorem fullRune_completes {x : Bytes} (cut : fullRune x = false) : ∃ more ≠ [], runeLength (x ++ more) = some (x ++ more).length := by
  cases x with
  | nil => exact ⟨[65],by decide,rfl⟩
  | cons a rest =>
    have open_ := mt (fullRune_iff a rest).mpr (Bool.eq_false_iff.mp cut)
    simp only [not_or,not_exists,not_and,Nat.not_le,Bool.not_eq_false] at open_
    obtain ⟨short,two,three⟩ := open_
    have lead : ¬a < 0x80 := by grind [announced]
    obtain ⟨b,first⟩ : ∃ b, GoText.second a b = true :=
      ⟨if a == 0xE0 then 0xA0 else if a == 0xF0 then 0x90 else 0x80,by grind [GoText.second,continuation]⟩
    have tail : continuation 0x80 = true := rfl
    match rest with
    | [] =>
      rcases announced_range a with is | is | is | is
      · simp [is] at short
      · exact ⟨[b],by simp,by simp [runeLength_eq,is,lead,first]⟩
      · exact ⟨[b,0x80],by simp,by simp [runeLength_eq,is,lead,first,tail]⟩
      · exact ⟨[b,0x80,0x80],by simp,by simp [runeLength_eq,is,lead,first,tail]⟩
    | [b] =>
      have good := two b [] rfl
      rcases announced_range a with is | is | is | is
      · simp [is] at short
      · simp [is] at short
      · exact ⟨[0x80],by simp,by simp [runeLength_eq,is,lead,tail,good]⟩
      · exact ⟨[0x80,0x80],by simp,by simp [runeLength_eq,is,lead,tail,good]⟩
    | b :: c :: more =>
      have range := announced_range a
      simp only [length_cons] at short
      obtain rfl : more = [] := eq_nil_of_length_eq_zero (by lia)
      have is : announced a = 4 := by lia
      exact ⟨[0x80],by simp,by simp [runeLength_eq,is,lead,tail,two b [c] rfl,three b c [] rfl]⟩

namespace Utf8StreamValidator

def writes (v : Utf8StreamValidator) : List Bytes → Utf8StreamValidator × List Bool
  | [] => (v,[])
  | p :: later => (((v.write p).1.writes later).1,(v.write p).2 :: ((v.write p).1.writes later).2)

variable {v : Utf8StreamValidator}

theorem write_cut (cut : fullRune v.tail = false) (p : Bytes) : fullRune (v.write p).1.tail = false := by
  rw [write,writeLoop_run]
  split
  · exact cut
  cases ran : run runeStep () (v.tail ++ p) with
  | failed _ => rfl
  | stopped _ tail =>
    have more := run_stopped runeStep_steady ran
    cases tail with
    | nil => rfl
    | cons c rest =>
      by_contra full
      rw [runeStep,if_pos (Bool.not_eq_false _ ▸ full)] at more
      split at more <;> cases more

theorem writes_cut (cut : fullRune v.tail = false) (pieces : List Bytes) : fullRune (v.writes pieces).1.tail = false := by
  induction pieces generalizing v with
  | nil => exact cut
  | cons p later ih => exact ih (write_cut cut p)

theorem writes_saw {seen : Bytes} (saw : v.Saw seen) (pieces : List Bytes) :
    ((∀ failed ∈ (v.writes pieces).2, failed = false) ∧ (v.writes pieces).1.finish = false) ↔ validUtf8 (seen ++ pieces.flatten) = true := by
  induction pieces generalizing v seen with
  | nil =>
    rw [flatten_nil,append_nil,validUtf8_iff,saw]
    simp [writes,finish]
  | cons p later ih =>
    have wrote := write_saw saw p
    simp only [writes,forall_mem_cons,flatten_cons,← append_assoc]
    cases ran : run runeStep () (seen ++ p) with
    | stopped _ tail =>
      rw [ran] at wrote
      rw [wrote,and_assoc,ih (v := ⟨tail⟩) ran]
      exact and_iff_right rfl
    | failed _ =>
      rw [ran] at wrote
      rw [wrote,validUtf8_iff,run_append runeStep_steady,ran]
      simp
end Utf8StreamValidator

-- A stream is refused exactly where its text is, however it is cut, and what is kept between two writes is the start of a rune.
theorem writes_valid_iff (pieces : List Bytes) :
    (((∀ failed ∈ (Utf8StreamValidator.writes {} pieces).2, failed = false) ∧ (Utf8StreamValidator.writes {} pieces).1.finish = false) ↔
      validUtf8 pieces.flatten = true) ∧
    (Utf8StreamValidator.writes {} pieces).1.tail.length < 4 ∧ ∃ more ≠ [],
      runeLength ((Utf8StreamValidator.writes {} pieces).1.tail ++ more) = some ((Utf8StreamValidator.writes {} pieces).1.tail ++ more).length := by
  have cut := Utf8StreamValidator.writes_cut (v := {}) rfl pieces
  exact ⟨Utf8StreamValidator.writes_saw Utf8StreamValidator.saw_nothing pieces,fullRune_short cut,fullRune_completes cut⟩
end FhServer

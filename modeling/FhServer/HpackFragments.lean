import FhServer.DecoderPool

namespace FhServer
open Fragments List

theorem readVarIntLoop_stable (i shift : Nat) : Stable .needMore (readVarIntLoop i shift) := by
  have each : ∀ (x : Bytes) (i shift : Nat),
      (∀ n rest, readVarIntLoop i shift x = .ok (n,rest) → (∀ y, readVarIntLoop i shift (x ++ y) = .ok (n,rest ++ y)) ∧ rest.length < x.length) ∧
        ∀ e, readVarIntLoop i shift x = .error e → e ≠ .needMore → ∀ y, readVarIntLoop i shift (x ++ y) = .error e := by
    intro x
    induction x with
    | nil =>
      intro i shift
      refine ⟨fun _ _ done => (by cases done),fun e failed other => ?_⟩
      cases failed
      exact absurd rfl other
    | cons b x ih =>
      intro i shift
      simp only [cons_append,readVarIntLoop]
      split
      · refine ⟨fun n rest done => ?_,fun _ failed => by cases failed⟩
        cases done
        exact ⟨fun y => rfl,Nat.lt_succ_self _⟩
      · split
        · refine ⟨fun _ _ done => (by cases done),fun e failed _ y => ?_⟩
          exact failed
        obtain ⟨longer,fails⟩ := ih ((i+((b &&& 0x7f).toNat <<< shift)%2^64)%2^64) (shift+7)
        refine ⟨fun n rest done => ?_,fails⟩
        obtain ⟨more,shorter⟩ := longer n rest done
        exact ⟨more,Nat.lt_succ_of_lt shorter⟩
  exact ⟨fun done => ((each _ i shift).1 _ _ done).1,fun failed => (each _ i shift).2 _ failed,fun done => ((each _ i shift).1 _ _ done).2⟩

theorem readVarInt_stable (n : Nat) : Stable .needMore (readVarInt n) := by
  refine ⟨fun {x i rest} done y => ?_,fun {x e} failed other y => ?_,fun {x i rest} done => ?_⟩
  · cases x with
    | nil => cases done
    | cons b x =>
      simp only [cons_append,readVarInt] at done ⊢
      split at done
      · rename_i small
        cases done
        rw [if_pos small]
      · rename_i large
        rw [if_neg large]
        exact (readVarIntLoop_stable _ _).longer done y
  · cases x with
    | nil =>
      cases failed
      exact absurd rfl other
    | cons b x =>
      simp only [cons_append,readVarInt] at failed ⊢
      split at failed
      · cases failed
      · rename_i large
        rw [if_neg large]
        exact (readVarIntLoop_stable _ _).fails failed other y
  · cases x with
    | nil => cases done
    | cons b x =>
      simp only [readVarInt] at done
      split at done
      · cases done
        exact Nat.lt_succ_self _
      · exact Nat.lt_succ_of_lt ((readVarIntLoop_stable _ _).shrinks done)

namespace Decoder
variable (d : Decoder)

theorem readString_stable : Stable .needMore d.readString := by
  have taken : ∀ {x u rest}, d.readString x = .ok (u,rest) → ∃ first tail strLen p, x = first :: tail ∧ readVarInt 7 (first :: tail) = .ok (strLen,p) ∧
      ¬(d.maxStrLen ≠ 0 ∧ (strLen : Int) > d.maxStrLen64) ∧ ¬ p.length < strLen ∧ u = ⟨p.take strLen,first &&& 0x80 ≠ 0⟩ ∧ rest = p.drop strLen := by
    intro x u rest done
    cases x with
    | nil => cases done
    | cons first tail =>
      rw [readString_eq] at done
      cases read : readVarInt 7 (first :: tail) with
      | error e =>
        rw [read] at done
        cases done
      | ok pair =>
        obtain ⟨strLen,p⟩ := pair
        rw [read] at done
        simp only [] at done
        split at done
        · cases done
        rename_i within
        split at done
        · cases done
        · rename_i there
          cases done
          exact ⟨first,tail,strLen,p,rfl,read,within,there,rfl,rfl⟩
  refine ⟨fun {x u rest} done y => ?_,fun {x e} failed other y => ?_,fun {x u rest} done => ?_⟩
  · obtain ⟨first,tail,strLen,p,rfl,read,within,there,rfl,rfl⟩ := taken done
    have longer := (readVarInt_stable 7).longer read y
    have enough : ¬ (p ++ y).length < strLen := by
      rw [length_append]
      lia
    rw [cons_append] at longer ⊢
    rw [readString_eq,longer]
    simp only []
    rw [if_neg within,if_neg enough,take_append_of_le_length (Nat.not_lt.mp there),drop_append_of_le_length (Nat.not_lt.mp there)]
  · cases x with
    | nil =>
      cases failed
      exact absurd rfl other
    | cons first tail =>
      rw [readString_eq] at failed
      rw [cons_append,readString_eq,← cons_append]
      cases read : readVarInt 7 (first :: tail) with
      | error e' =>
        rw [read] at failed
        cases failed
        rw [(readVarInt_stable 7).fails read other y]
      | ok pair =>
        rw [read] at failed
        rw [(readVarInt_stable 7).longer read y]
        simp only [] at failed ⊢
        split at failed
        · rename_i long
          rw [if_pos long]
          exact failed
        · split at failed
          · cases failed
            exact absurd rfl other
          · cases failed
  · obtain ⟨first,tail,strLen,p,rfl,read,-,-,-,rfl⟩ := taken done
    have shorter := (readVarInt_stable 7).shrinks read
    rw [length_drop]
    lia

theorem readParts_stable (n : Nat) : Stable .needMore (d.readParts n) := by
  refine (readVarInt_stable n).andThen fun nameIdx => ?_
  split
  · split
    · exact .refuse _ _
    · exact d.readString_stable.checking _
  · exact d.readString_stable.andThen fun uName => d.readString_stable.checking _
end Decoder

inductive Effect where
  | emit (hf : HeaderField)
  | literal (hf : HeaderField) (it : IndexType)
  | resize (size : Nat)

def Effect.apply (d : Decoder) : Effect → Decoder × Option HpackError
  | .emit hf => d.callEmit hf
  | .literal hf it => (if it.indexed then {d with dynTab := d.dynTab.add hf} else d).callEmit {hf with sensitive := it.sensitive}
  | .resize size => ({d with dynTab := d.dynTab.setMaxSize (UInt32.ofNat size)},none)

namespace Decoder
variable (d : Decoder)

def readRepr (b : UInt8) : Bytes → Except HpackError (Effect × Bytes) :=
  if b &&& 0x80 ≠ 0 then
    checking (fun idx => match d.entryAt idx with | none => .error (.invalidIndex idx) | some hf => .ok (.emit ⟨hf.name,hf.value,false⟩)) (readVarInt 7)
  else if b &&& 0xc0 = 0x40 then checking (fun parts => (d.decodeParts .indexedTrue parts.1 parts.2).map (.literal · .indexedTrue)) (d.readParts 6)
  else if b &&& 0xf0 = 0x00 then checking (fun parts => (d.decodeParts .indexedFalse parts.1 parts.2).map (.literal · .indexedFalse)) (d.readParts 4)
  else if b &&& 0xf0 = 0x10 then checking (fun parts => (d.decodeParts .indexedNever parts.1 parts.2).map (.literal · .indexedNever)) (d.readParts 4)
  else if ¬d.firstField ∧ d.dynTab.size > 0 then fun _ => .error (.lateSizeUpdate d.dynTab.size.toNat)
  else checking (fun size => if size > d.dynTab.allowedMaxSize.toNat then .error .sizeUpdateTooLarge else .ok (.resize size)) (readVarInt 5)

theorem readRepr_stable (b : UInt8) : Stable .needMore (d.readRepr b) := by
  rw [readRepr]
  split
  · exact (readVarInt_stable 7).checking _
  split
  · exact (d.readParts_stable 6).checking _
  split
  · exact (d.readParts_stable 4).checking _
  split
  · exact (d.readParts_stable 4).checking _
  · split
    · exact .refuse _ _
    · exact (readVarInt_stable 5).checking _

theorem parseFieldLiteral_eq (n : Nat) (it : IndexType) : d.parseFieldLiteral n it =
    match checking (fun parts => (d.decodeParts it parts.1 parts.2).map (Effect.literal · it)) (d.readParts n) d.buf with
    | .error e => (d,some e)
    | .ok (effect,rest) => effect.apply {d with buf := rest} := by
  rw [parseFieldLiteral,readLiteral_eq,checking]
  cases d.readParts n d.buf with
  | error e => rfl
  | ok parts =>
    obtain ⟨⟨name,uValue⟩,rest⟩ := parts
    simp only []
    cases d.decodeParts it name uValue with
    | error e => rfl
    | ok hf => rfl

theorem parseHeaderFieldRepr_eq (b : UInt8) : d.parseHeaderFieldRepr b =
    match d.readRepr b d.buf with
    | .error e => (d,some e)
    | .ok (effect,rest) => effect.apply {d with buf := rest} := by
  have kinds : ∀ b : UInt8, b &&& 0x80 ≠ 0 ∨ b &&& 0xc0 = 0x40 ∨ b &&& 0xf0 = 0x00 ∨ b &&& 0xf0 = 0x10 ∨ b &&& 0xe0 = 0x20 :=
    GoBytes.eachByte (by decide +kernel)
  rw [parseHeaderFieldRepr,readRepr]
  split
  · rw [parseFieldIndexed,checking]
    cases readVarInt 7 d.buf with
    | error e => rfl
    | ok read =>
      obtain ⟨idx,rest⟩ := read
      simp only []
      cases d.entryAt idx with
      | none => rfl
      | some hf => rfl
  · rename_i one
    split
    · exact d.parseFieldLiteral_eq 6 .indexedTrue
    rename_i two
    split
    · exact d.parseFieldLiteral_eq 4 .indexedFalse
    rename_i three
    split
    · exact d.parseFieldLiteral_eq 4 .indexedNever
    rename_i four
    have update : b &&& 0xe0 = 0x20 := by
      rcases kinds b with is | is | is | is | is
      · exact absurd is one
      · exact absurd is two
      · exact absurd is three
      · exact absurd is four
      · exact is
    rw [if_pos update,parseDynamicTableSizeUpdate]
    split
    · rfl
    rw [checking]
    cases readVarInt 5 d.buf with
    | error e => rfl
    | ok read =>
      simp only []
      split
      · rfl
      · rfl

def core : Decoder := {d with buf := [], saveBuf := []}

def step : Bytes → Step Decoder UInt8
  | [] => .more
  | b :: tail =>
    if b &&& 0x80 ≠ 0 ∧ (b &&& 0x7f).toNat > 0 ∧ (b &&& 0x7f).toNat ≤ staticTableEntries.length then
      match callEmit {d with firstField := false} (staticTable.ents.getD ((b &&& 0x7f).toNat-1) ⟨[],[],false⟩) with
      | (d,some _) => .fail d.core
      | (d,none) => .next d.core tail
    else
      match d.readRepr b (b :: tail) with
      | .error e => if e = .needMore then .more else .fail {d.core with firstField := false}
      | .ok (effect,rest) =>
        match effect.apply d with
        | (d,some _) => .fail {d.core with firstField := false}
        | (d,none) => .next {d.core with firstField := false} rest

theorem step_steady : Steady step where
  longer {d x t rest} taken y := by
    cases x with
    | nil => cases taken
    | cons b tail =>
      rw [cons_append]
      rw [step] at taken ⊢
      split at taken
      · rename_i short
        rw [if_pos short]
        split at taken
        · cases taken
        · cases taken
          rfl
      · rename_i slow
        rw [if_neg slow]
        split at taken
        · split at taken
          · cases taken
          · cases taken
        · rename_i effect after read
          rw [← cons_append,(d.readRepr_stable b).longer read y]
          simp only []
          split at taken
          · cases taken
          · cases taken
            rfl
  fails {d x t} taken y := by
    cases x with
    | nil => cases taken
    | cons b tail =>
      rw [cons_append]
      rw [step] at taken ⊢
      split at taken
      · rename_i short
        rw [if_pos short]
        split at taken
        · exact taken
        · cases taken
      · rename_i slow
        rw [if_neg slow]
        split at taken
        · rename_i e read
          split at taken
          · cases taken
          rename_i other
          rw [← cons_append,(d.readRepr_stable b).fails read other y]
          simp only [if_neg other]
          exact taken
        · rename_i effect after read
          rw [← cons_append,(d.readRepr_stable b).longer read y]
          simp only []
          split at taken
          · exact taken
          · cases taken
  shrinks {d x t rest} taken := by
    cases x with
    | nil => cases taken
    | cons b tail =>
      rw [step] at taken
      split at taken
      · split at taken
        · cases taken
        · cases taken
          exact Nat.lt_succ_self _
      · split at taken
        · split at taken
          · cases taken
          · cases taken
        · rename_i effect after read
          split at taken
          · cases taken
          · cases taken
            exact (d.readRepr_stable b).shrinks read
  empty := rfl

theorem apply_frame (buf saveBuf : Bytes) (effect : Effect) :
    effect.apply {d with buf := buf, saveBuf := saveBuf} = ({(effect.apply d).1 with buf := buf, saveBuf := saveBuf},(effect.apply d).2) := by
  cases effect with
  | emit hf => exact d.callEmit_frame buf saveBuf hf
  | literal hf it =>
    simp only [Effect.apply]
    split
    · exact callEmit_frame {d with dynTab := d.dynTab.add hf} buf saveBuf _
    · exact d.callEmit_frame buf saveBuf _
  | resize size => rfl

theorem apply_final (effect : Effect) : (effect.apply d).2 ≠ some .needMore := by
  cases effect with
  | emit hf => exact (d.callEmit_buf hf).2
  | literal hf it => exact (callEmit_buf _ _).2
  | resize size => exact nofun

structure Writes (written rounds : Nat) (d : Decoder) (ended : End Decoder UInt8) : Prop where
  stopped : ∀ t rest, ended = .stopped t rest → writeLoop written rounds d = if rest = [] then (t,written,none) else keepForMore {t with buf := rest} written
  failed : ∀ t, ended = .failed t → ∃ d' e, writeLoop written rounds d = (d',written,some e) ∧ d'.core = t

variable {d}

theorem core_buf (none : d.saveBuf = []) (buf : d.buf = x) : ({d.core with buf := x} : Decoder) = d := by
  cases buf
  show ({d with buf := d.buf, saveBuf := []} : Decoder) = d
  rw [← none]

theorem Writes.later
    (same : writeLoop written (rounds+1) d = writeLoop written rounds d') (later : Writes written rounds d' ended) : Writes written (rounds+1) d ended :=
  ⟨fun t rest is => same.trans (later.stopped t rest is),fun t is => same ▸ later.failed t is⟩

theorem writes_empty (none : d.saveBuf = []) (empty : d.buf = []) : Writes written rounds d (run step d.core d.buf) := by
  rw [empty,run_more (step_steady.empty)]
  refine ⟨fun t rest same => ?_,by simp⟩
  cases same
  rw [if_pos rfl,writeLoop_done empty]
  nth_rewrite 1 [← core_buf none empty]
  rfl

section
variable {b : UInt8} {tail : Bytes} {written rounds : Nat}
variable (none : d.saveBuf = []) (buf : d.buf = b :: tail) (enough : tail.length ≤ rounds)
variable (later : ∀ {d : Decoder}, d.buf.length ≤ rounds → d.saveBuf = [] → Writes written rounds d (run step d.core d.buf))
include none buf enough later

theorem writes_short (short : b &&& 0x80 ≠ 0 ∧ (b &&& 0x7f).toNat > 0 ∧ (b &&& 0x7f).toNat ≤ staticTableEntries.length) :
    Writes written (rounds+1) d (run step d.core (b :: tail)) := by
  have emits := callEmit_frame {d.core with firstField := false} tail [] (staticTable.ents.getD ((b &&& 0x7f).toNat-1) ⟨[],[],false⟩)
  have shown : ({d.core with firstField := false, buf := tail, saveBuf := []} : Decoder) = {d with buf := tail, firstField := false} := by
    rw [← none]
    rfl
  rw [shown] at emits
  cases emitted : callEmit {d.core with firstField := false} (staticTable.ents.getD ((b &&& 0x7f).toNat-1) ⟨[],[],false⟩) with
  | mk c e =>
    rw [emitted] at emits
    have taken : step d.core (b :: tail) =
        match (c,e) with
        | (d,some _) => .fail d.core
        | (d,.none) => .next d.core tail := by
      rw [step,if_pos short,emitted]
    have looped : writeLoop written (rounds+1) d =
        match (({c with buf := tail, saveBuf := []} : Decoder),e) with
        | (d,some e) => (d,written,some e)
        | (d,.none) => writeLoop written rounds d := by
      rw [writeLoop]
      simp only [buf]
      rw [if_pos short]
      exact congrArg (fun r => match r with
        | (d,some e) => (d,written,some e)
        | (d,.none) => writeLoop written rounds d) emits
    cases e with
    | none =>
      rw [run_next step_steady taken]
      exact Writes.later looped (later (d := {c with buf := tail, saveBuf := []}) enough rfl)
    | some e =>
      rw [run_fail step_steady taken]
      refine ⟨by simp,fun t same => ?_⟩
      cases same
      exact ⟨_,e,looped,rfl⟩

theorem writes_parsed (slow : ¬(b &&& 0x80 ≠ 0 ∧ (b &&& 0x7f).toNat > 0 ∧ (b &&& 0x7f).toNat ≤ staticTableEntries.length)) :
    Writes written (rounds+1) d (run step d.core (b :: tail)) := by
  have parsed := d.parseHeaderFieldRepr_eq b
  rw [buf] at parsed
  have taken : step d.core (b :: tail) =
      match d.readRepr b (b :: tail) with
      | .error e => if e = .needMore then .more else .fail {d.core with firstField := false}
      | .ok (effect,rest) =>
        match effect.apply d.core with
        | (d,some _) => .fail {d.core with firstField := false}
        | (d,.none) => .next {d.core with firstField := false} rest := by
    rw [step,if_neg slow]
    rfl
  cases read : d.readRepr b (b :: tail) with
  | error e =>
    rw [read] at parsed taken
    by_cases cut : e = .needMore
    · cases cut
      rw [run_more taken]
      refine ⟨fun t rest same => ?_,by simp⟩
      cases same
      rw [if_neg (cons_ne_nil b tail),writeLoop_cut buf slow parsed,core_buf none buf]
    · rw [run_fail step_steady (taken.trans (if_neg cut))]
      refine ⟨by simp,fun t same => ?_⟩
      cases same
      exact ⟨_,e,writeLoop_failed buf slow parsed cut written rounds,rfl⟩
  | ok got =>
    obtain ⟨effect,rest⟩ := got
    have shorter := (d.readRepr_stable b).shrinks read
    have applied := apply_frame d.core rest [] effect
    have shown : ({d.core with buf := rest, saveBuf := []} : Decoder) = {d with buf := rest} := by
      rw [← none]
      rfl
    rw [shown] at applied
    rw [read] at parsed taken
    simp only [] at parsed
    rw [applied] at parsed
    have final := apply_final d.core effect
    cases did : effect.apply d.core with
    | mk c e =>
      rw [did] at parsed final
      simp only [did] at taken
      cases e with
      | none =>
        rw [run_next step_steady taken]
        exact Writes.later (writeLoop_parsed buf slow parsed written rounds)
          (later (d := {c with buf := rest, saveBuf := [], firstField := false}) (Nat.le_trans (Nat.lt_succ_iff.mp shorter) enough) rfl)
      | some e =>
        rw [run_fail step_steady taken]
        refine ⟨by simp,fun t same => ?_⟩
        cases same
        exact ⟨_,e,writeLoop_failed buf slow parsed (fun same => final (congrArg some same)) written rounds,rfl⟩
end

theorem writeLoop_run (written : Nat) (enough : d.buf.length ≤ rounds) (none : d.saveBuf = []) :
    Writes written rounds d (run step d.core d.buf) := by
  induction rounds generalizing d with
  | zero => exact writes_empty none (eq_nil_of_length_eq_zero (Nat.le_zero.mp enough))
  | succ rounds ih =>
    cases buf : d.buf with
    | nil =>
      rw [← buf]
      exact writes_empty none buf
    | cons b tail =>
      rw [buf] at enough
      have enough := Nat.lt_succ_iff.mp enough
      by_cases short : b &&& 0x80 ≠ 0 ∧ (b &&& 0x7f).toNat > 0 ∧ (b &&& 0x7f).toNat ≤ staticTableEntries.length
      · exact writes_short none buf enough ih short
      · exact writes_parsed none buf enough ih short

def Overlong (d : Decoder) (kept : Bytes) : Prop :=
  kept ≠ [] ∧ ((d.maxStrLen ≠ 0 ∧ (kept.length : Int) > d.keptBound) ∨ kept.length > maxSaveBufSize)

def TooLong (kept p : Bytes) : Prop := p ≠ [] ∧ kept ≠ [] ∧ kept.length+p.length > maxSaveBufSize

instance (d : Decoder) (kept : Bytes) : Decidable (d.Overlong kept) := inferInstanceAs (Decidable (_ ∧ _))
instance (kept p : Bytes) : Decidable (TooLong kept p) := inferInstanceAs (Decidable (_ ∧ _))

theorem write_eq (some : p ≠ []) (fits : ¬TooLong d.saveBuf p) :
    d.write p = writeLoop p.length (d.saveBuf ++ p).length {d with buf := d.saveBuf ++ p, saveBuf := []} := by
  by_cases none : d.saveBuf = []
  · rw [write_plain none some,none,nil_append]
  · rw [write,if_neg fun empty => some (eq_nil_of_length_eq_zero empty),if_neg fun empty => none (eq_nil_of_length_eq_zero empty),
      if_neg fun more => fits ⟨some,none,more⟩]

theorem write_tooLong (long : TooLong d.saveBuf p) : d.write p = (d,0,some .headerListSize) := by
  obtain ⟨some,kept,more⟩ := long
  rw [write,if_neg fun empty => some (eq_nil_of_length_eq_zero empty),if_neg fun empty => kept (eq_nil_of_length_eq_zero empty),if_pos more]

theorem step_core (d : Decoder) (x : Bytes) : (d.step x).All fun t => t.core = t := by
  cases x with
  | nil => trivial
  | cons b tail =>
    rw [step]
    split
    · split
      · rfl
      · rfl
    · split
      · split
        · trivial
        · rfl
      · split
        · rfl
        · rfl

theorem run_core (ran : run step d.core x = .stopped t rest) : t.core = t := by
  have kept := run_keeps step_steady (fun t : Decoder => t.core = t) (fun x _ => step_core _ x) (s := d.core) rfl x
  rwa [ran] at kept

section
variable {t : Decoder} {p rest : Bytes} (some : p ≠ []) (fits : ¬TooLong d.saveBuf p)
include some fits

theorem write_stopped (ran : run step d.core (d.saveBuf ++ p) = .stopped t rest) :
    (d.write p).1.core = t ∧ (t.Overlong rest → (d.write p).2.2 ≠ none) ∧ (¬t.Overlong rest → (d.write p).2.2 = none ∧ (d.write p).1.saveBuf = rest) := by
  have wrote := (writeLoop_run (d := {d with buf := d.saveBuf ++ p, saveBuf := []}) p.length (Nat.le_refl _) rfl).stopped t rest ran
  rw [← write_eq some fits] at wrote
  have bare := run_core ran
  split at wrote
  · rename_i empty
    rw [wrote]
    refine ⟨bare,fun long => absurd empty long.1,fun _ => ⟨rfl,?_⟩⟩
    rw [← bare,empty]
    rfl
  · rename_i left
    rw [keepForMore] at wrote
    split at wrote
    · rename_i strings
      rw [wrote]
      exact ⟨bare,by rintro - ⟨⟩,fun short => absurd ⟨left,.inl strings⟩ short⟩
    · rename_i strings
      split at wrote
      · rename_i saved
        rw [wrote]
        exact ⟨bare,by rintro - ⟨⟩,fun short => absurd ⟨left,.inr saved⟩ short⟩
      · rename_i saved
        rw [wrote]
        exact ⟨bare,fun long => absurd long.2 (not_or.mpr ⟨strings,saved⟩),fun _ => ⟨rfl,rfl⟩⟩

theorem write_failed (ran : run step d.core (d.saveBuf ++ p) = .failed t) : (d.write p).1.core = t ∧ (d.write p).2.2 ≠ none := by
  obtain ⟨d',e,wrote,is⟩ := (writeLoop_run (d := {d with buf := d.saveBuf ++ p, saveBuf := []}) p.length (Nat.le_refl _) rfl).failed t ran
  rw [write_eq some fits]
  simp only [wrote]
  exact ⟨is,nofun⟩
end

def writes : Decoder → List Bytes → Decoder × Option HpackError
  | d,[] => d.close
  | d,p :: pieces =>
    match d.write p with
    | (d,_,some e) => (d,some e)
    | (d,_,none) => d.writes pieces

structure Outcome where
  emitted : List HeaderField
  dynTab : DynamicTable
  failed : Bool

def outcome (d : Decoder) (pieces : List Bytes) : Outcome :=
  ⟨(d.writes pieces).1.emitted,(d.writes pieces).1.dynTab,(d.writes pieces).2.isSome⟩

def broken (d : Decoder) : Outcome := ⟨d.emitted,d.dynTab,true⟩

-- The bytes decoded without a bound on what is kept. Bytes without a field's end are an error of Close.
def unbounded (d : Decoder) (x : Bytes) : Outcome :=
  match run step d x with
  | .stopped t rest => ⟨t.emitted,t.dynTab,rest ≠ []⟩
  | .failed t => t.broken

def stall (t : Decoder) (kept : Bytes) : List Bytes → Option (Decoder × Bytes)
  | [] => none
  | p :: pieces =>
    if p = [] then stall t kept pieces
    else if TooLong kept p then some (t,kept ++ (p :: pieces).flatten)
    else
      match run step t (kept ++ p) with
      | .stopped t rest => if t.Overlong rest then some (t,rest ++ pieces.flatten) else stall t rest pieces
      | .failed _ => none

def Barren (t : Decoder) (x : Bytes) : Prop :=
  match run step t x with
  | .stopped u rest => rest ≠ [] ∧ u.emitted = t.emitted ∧ u.dynTab = t.dynTab
  | .failed u => u.emitted = t.emitted ∧ u.dynTab = t.dynTab

-- No bound on kept bytes is met, or what it keeps from being decoded holds nothing.
structure BoundsUnseen (d : Decoder) (pieces : List Bytes) : Prop where
  cut : ¬TooLong d.saveBuf pieces.flatten → ∀ t x, stall d.core d.saveBuf pieces = some (t,x) → t.Barren x
  both : TooLong d.saveBuf pieces.flatten → ∀ t x, stall d.core d.saveBuf pieces = some (t,x) → t.emitted = d.emitted ∧ t.dynTab = d.dynTab
  whole : TooLong d.saveBuf pieces.flatten → stall d.core d.saveBuf pieces = none → d.core.Barren (d.saveBuf ++ pieces.flatten)

theorem broken_iff (t u : Decoder) : t.broken = u.broken ↔ t.emitted = u.emitted ∧ t.dynTab = u.dynTab := by
  simp [broken]

theorem barren_iff (t : Decoder) (x : Bytes) : t.Barren x ↔ t.unbounded x = t.broken := by
  rw [Barren,unbounded]
  split
  · rw [broken,Outcome.mk.injEq,decide_eq_true_iff]
    tauto
  · rw [broken_iff]

theorem unbounded_stopped (ran : run step s x = .stopped t rest) (y : Bytes) : s.unbounded (x ++ y) = t.unbounded (rest ++ y) := by
  rw [unbounded,run_append step_steady,ran]
  rfl

theorem unbounded_failed (ran : run step s x = .failed t) (y : Bytes) : s.unbounded (x ++ y) = t.broken := by
  rw [unbounded,run_append step_steady,ran]

theorem stall_rest {t u : Decoder} {kept x : Bytes} {pieces : List Bytes} (stalled : stall t kept pieces = some (u,x)) :
    t.unbounded (kept ++ pieces.flatten) = u.unbounded x ∧ pieces.flatten ≠ [] := by
  induction pieces generalizing t kept with
  | nil => cases stalled
  | cons p pieces ih =>
    rw [stall] at stalled
    split at stalled
    · rename_i empty
      rw [empty]
      exact ih stalled
    · rename_i some
      refine ⟨?_,fun empty => some (append_eq_nil_iff.mp empty).1⟩
      split at stalled
      · cases stalled
        rfl
      split at stalled
      · rename_i v rest ran
        rw [flatten_cons,← append_assoc,unbounded_stopped ran]
        split at stalled
        · cases stalled
          rfl
        · exact (ih stalled).1
      · cases stalled

theorem outcome_next (taken : (d.write p).2.2 = none) (pieces : List Bytes) : d.outcome (p :: pieces) = (d.write p).1.outcome pieces := by
  have same : d.writes (p :: pieces) = (d.write p).1.writes pieces := by
    rw [writes]
    rcases wrote : d.write p with ⟨d',n,e⟩
    rw [wrote] at taken
    cases taken
    rfl
  rw [outcome,outcome,same]

theorem outcome_failed (failed : (d.write p).2.2 ≠ none) (pieces : List Bytes) : d.outcome (p :: pieces) = (d.write p).1.broken := by
  obtain ⟨e,is⟩ := Option.ne_none_iff_exists'.mp failed
  have same : d.writes (p :: pieces) = ((d.write p).1,some e) := by
    rw [writes]
    rcases wrote : d.write p with ⟨d',n,e⟩
    rw [wrote] at is
    cases is
    rfl
  rw [outcome,same]
  rfl

theorem outcome_nil (d : Decoder) : d.outcome [] = ⟨d.emitted,d.dynTab,d.saveBuf ≠ []⟩ := by
  rw [outcome,writes,close]
  split
  · rename_i kept
    simp [length_pos_iff.mp kept]
  · rename_i none
    simp [eq_nil_of_length_eq_zero (Nat.eq_zero_of_not_pos none)]

theorem outcome_eq (d : Decoder) (pieces : List Bytes) : d.outcome pieces =
    match stall d.core d.saveBuf pieces with
    | some (t,_) => t.broken
    | none => if pieces.flatten = [] then ⟨d.emitted,d.dynTab,d.saveBuf ≠ []⟩ else d.core.unbounded (d.saveBuf ++ pieces.flatten) := by
  induction pieces generalizing d with
  | nil => exact d.outcome_nil
  | cons p pieces ih =>
    by_cases empty : p = []
    · cases empty
      exact (outcome_next rfl pieces).trans (ih d)
    rw [stall,if_neg empty]
    by_cases long : TooLong d.saveBuf p
    · have wrote := write_tooLong long
      rw [if_pos long,outcome_failed (by rw [wrote]; simp),wrote]
      rfl
    rw [if_neg long,flatten_cons,if_neg fun none => empty (append_eq_nil_iff.mp none).1,← append_assoc]
    cases ran : run step d.core (d.saveBuf ++ p) with
    | failed t =>
      obtain ⟨core,refused⟩ := write_failed empty long ran
      rw [outcome_failed refused,unbounded_failed ran,← core]
      rfl
    | stopped t rest =>
      obtain ⟨core,refused,kept⟩ := write_stopped empty long ran
      by_cases limit : t.Overlong rest
      · simp only [if_pos limit]
        rw [outcome_failed (refused limit),← core]
        rfl
      · obtain ⟨taken,saved⟩ := kept limit
        simp only [if_neg limit]
        rw [outcome_next taken,ih,core,saved,unbounded_stopped ran]
        cases stall t rest pieces with
        | some stop => rfl
        | none =>
          simp only []
          split
          · rename_i nothing
            rw [nothing,append_nil,unbounded,run_more (run_stopped step_steady ran),← core]
            rfl
          · rfl

theorem outcome_whole (d : Decoder) (block : Bytes) : d.outcome [block] =
    if TooLong d.saveBuf block then d.broken
    else if block = [] then ⟨d.emitted,d.dynTab,d.saveBuf ≠ []⟩ else d.core.unbounded (d.saveBuf ++ block) := by
  rw [outcome_eq,flatten_singleton]
  cases stalled : stall d.core d.saveBuf [block] with
  | none =>
    have fits : ¬TooLong d.saveBuf block := by
      intro long
      rw [stall,if_neg long.1,if_pos long] at stalled
      cases stalled
    rw [if_neg fits]
  | some stop =>
    obtain ⟨rest,some⟩ := stall_rest stalled
    rw [flatten_singleton] at rest some
    rw [stall,if_neg some] at stalled
    split at stalled
    · rename_i long
      cases stalled
      rw [if_pos long]
      rfl
    · rename_i fits
      rw [if_neg fits,if_neg some,rest]
      split at stalled
      · rename_i u left ran
        split at stalled
        · rename_i long
          cases stalled
          rw [flatten_nil,append_nil,unbounded,run_more (run_stopped step_steady ran)]
          simp [broken,long.1]
        · cases stalled
      · cases stalled

-- The outcome of a block does not depend on how it is cut, except for the bounds on the bytes kept between two pieces.
theorem fragments_same_iff (d : Decoder) (pieces : List Bytes) : d.outcome pieces = d.outcome [pieces.flatten] ↔ d.BoundsUnseen pieces := by
  rw [outcome_eq,outcome_whole]
  cases stalled : stall d.core d.saveBuf pieces with
  | none =>
    by_cases long : TooLong d.saveBuf pieces.flatten
    · rw [if_pos long,if_neg long.1]
      have same := barren_iff d.core (d.saveBuf ++ pieces.flatten)
      exact ⟨fun is => ⟨fun fits => absurd long fits,fun _ t x some => (by rw [stalled] at some; cases some),fun _ _ => same.mpr is⟩,
        fun seen => same.mp (seen.whole long stalled)⟩
    · rw [if_neg long]
      exact ⟨fun _ => ⟨fun _ t x some => (by rw [stalled] at some; cases some),fun is => absurd is long,fun is => absurd is long⟩,fun _ => rfl⟩
  | some stop =>
    obtain ⟨t,x⟩ := stop
    obtain ⟨rest,some⟩ := stall_rest stalled
    by_cases long : TooLong d.saveBuf pieces.flatten
    · rw [if_pos long]
      refine ⟨fun is => ⟨fun fits => absurd long fits,fun _ u y same => ?_,fun _ none => (by rw [stalled] at none; cases none)⟩,
        fun seen => (broken_iff t d).mpr (seen.both long t x stalled)⟩
      rw [stalled] at same
      cases same
      exact (broken_iff t d).mp is
    · rw [if_neg long,if_neg some,rest]
      refine ⟨fun is => ⟨fun _ u y same => ?_,fun is => absurd is long,fun is => absurd is long⟩,
        fun seen => ((barren_iff t x).mp (seen.cut long t x stalled)).symm⟩
      rw [stalled] at same
      cases same
      exact (barren_iff t x).mpr is.symm

def padded : Bytes := 0x7f :: replicate 8 0x80 ++ [0x00]

def paddedField : Bytes := 0x00 :: padded ++ replicate 127 0x61 ++ padded ++ replicate 127 0x62

theorem padded_field_cut :
    let d := (new 4096).setMaxStringLength 127
    (d.outcome [paddedField]).failed = false ∧ (d.outcome [paddedField.take 274,paddedField.drop 274]).failed = true ∧
      [paddedField.take 274,paddedField.drop 274].flatten = paddedField := by
  decide +kernel

def twoFields : List Bytes := [[0x82,0x40],[0x02,0x61],[0x62,0x01,0x63],[],[0xbe]]

theorem two_fields_cut : (new 4096).outcome twoFields = (new 4096).outcome [twoFields.flatten] ∧ ((new 4096).outcome twoFields).emitted.length = 3 := by
  have short : ¬TooLong (new 4096).saveBuf twoFields.flatten := fun long => long.2.1 rfl
  refine ⟨((new 4096).fragments_same_iff twoFields).mpr ⟨fun _ t x some => ?_,fun long => absurd long short,fun long => absurd long short⟩,by decide⟩
  cases some
end Decoder
end FhServer

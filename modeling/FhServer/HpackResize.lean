import FhServer.HpackReading
import FhServer.HpackSync

namespace FhServer
open Encoder
open DynamicTable (Same Alike)

def kept (maxSize size : UInt32) : List HeaderField → List HeaderField × UInt32
  | [] => ([],size)
  | f :: rest => if size > maxSize then kept maxSize (size-f.size) rest else (f :: rest,size)

theorem kept_eq (maxSize : UInt32) : ∀ ents size,
    kept maxSize size ents = (ents.drop (excess maxSize size ents).1,(excess maxSize size ents).2) := by
  intro ents
  induction ents with
  | nil => intro size; rfl
  | cons f ents ih =>
    intro size
    rw [kept,excess]
    split
    · rw [ih]; rfl
    · rfl

theorem kept_fits (fits : size ≤ maxSize ∨ ents = []) : kept maxSize size ents = (ents,size) := by
  cases ents with
  | nil => rfl
  | cons f ents => rw [kept,if_neg (UInt32.not_lt.mpr (fits.resolve_right (List.cons_ne_nil _ _)))]

theorem kept_less (below : b ≤ a) : ∀ ents size, kept b (kept a size ents).2 (kept a size ents).1 = kept b size ents := by
  intro ents
  induction ents with
  | nil => intro size; rfl
  | cons f ents ih =>
    intro size
    by_cases more : size > a
    · rw [kept,if_pos more,ih,kept,if_pos (UInt32.lt_of_le_of_lt below more)]
    · rw [kept,if_neg more]

theorem kept_more (below : a ≤ b) (ents : List HeaderField) (size : UInt32) :
    kept b (kept a size ents).2 (kept a size ents).1 = kept a size ents := by
  have fits := excess_fits a ents size
  rw [kept_eq a]
  exact kept_fits (fits.imp_left fun small => UInt32.le_trans small below)

def smaller (a b : UInt32) : UInt32 := if a < b then a else b

theorem kept_kept (a b : UInt32) (ents : List HeaderField) (size : UInt32) :
    kept b (kept a size ents).2 (kept a size ents).1 = kept (smaller a b) size ents := by
  rw [smaller]
  split
  · rename_i less
    exact kept_more (UInt32.le_of_lt less) ents size
  · rename_i more
    exact kept_less (UInt32.not_lt.mp more) ents size

theorem setMaxSize_kept (dt : DynamicTable) (v : UInt32) :
    ((dt.setMaxSize v).table.ents,(dt.setMaxSize v).size) = kept v dt.size dt.table.ents := by
  rw [kept_eq]
  rfl

inductive Resize
  | maxSize (v : UInt32)
  | limit (v : UInt32)

def Encoder.resize (e : Encoder) : Resize → Encoder
  | .maxSize v => e.setMaxDynamicTableSize v
  | .limit v => e.setMaxDynamicTableSizeLimit v

def Encoder.resizes (e : Encoder) (calls : List Resize) : Encoder := calls.foldl resize e

-- What the calls ask for, told from the calls alone: the limit, the size in force, the least size in force so far and the
-- least size that SetMaxDynamicTableSize has set.
structure Sizes where
  limit : UInt32
  now : UInt32
  least : UInt32
  leastSet : UInt32

def Sizes.put (s : Sizes) (v : UInt32) : Sizes := {s with now := v, least := smaller s.least v}

def Sizes.call (s : Sizes) : Resize → Sizes
  | .maxSize v =>
    let v := if v > s.limit then s.limit else v
    {s.put v with leastSet := smaller v s.leastSet}
  | .limit v =>
    let s := {s with limit := v}
    if s.now > v then s.put v else s

def Encoder.sizes (e : Encoder) (calls : List Resize) : Sizes :=
  calls.foldl Sizes.call ⟨e.maxSizeLimit,e.dynTab.maxSize,smaller e.dynTab.maxSize e.minSize,e.minSize⟩

theorem smaller_left (a b : UInt32) : smaller a b ≤ a := by
  rw [smaller]
  split
  · exact UInt32.le_refl a
  · rename_i more
    exact UInt32.not_lt.mp more

theorem smaller_right (a b : UInt32) : smaller a b ≤ b := by
  rw [smaller]
  split
  · rename_i less
    exact UInt32.le_of_lt less
  · exact UInt32.le_refl b

theorem le_smaller (first : c ≤ a) (second : c ≤ b) : c ≤ smaller a b := by
  rw [smaller]
  split
  · exact first
  · exact second

-- The encoder after the calls, from a start with table dt: it has dropped what the least size in force made it drop.
structure Tracks (dt : DynamicTable) (e : Encoder) (s : Sizes) : Prop where
  limit : e.maxSizeLimit = s.limit
  now : e.dynTab.maxSize = s.now
  minSize : e.minSize = s.leastSet
  table : (e.dynTab.table.ents,e.dynTab.size) = kept s.least dt.size dt.table.ents
  leastNow : s.least ≤ s.now
  leastSet : s.least ≤ s.leastSet
  idle : e.tableSizeUpdate = false → s.now = dt.maxSize ∧ s.least = dt.maxSize

theorem tracks_start (e : Encoder) : Tracks e.dynTab e ⟨e.maxSizeLimit,e.dynTab.maxSize,smaller e.dynTab.maxSize e.minSize,e.minSize⟩ where
  limit := rfl
  now := rfl
  minSize := rfl
  table := by
    have fits : e.dynTab.size ≤ smaller e.dynTab.maxSize e.minSize ∨ e.dynTab.table.ents = [] := by
      rcases e.dynTab.fits with below | none
      · exact e.cut.imp_left fun cut => le_smaller below cut
      · exact .inr none
    exact (kept_fits fits).symm
  leastNow := smaller_left _ _
  leastSet := smaller_right _ _
  idle := by
    intro settled
    rw [e.quiet settled,smaller]
    refine ⟨rfl,?_⟩
    split
    · rfl
    · rename_i more
      exact UInt32.le_antisymm (UInt32.not_lt.mp more) (le_uint32Max _)

theorem Tracks.put (tracks : Tracks dt e s) (v : UInt32) :
    ((e.dynTab.setMaxSize v).table.ents,(e.dynTab.setMaxSize v).size) = kept (s.put v).least dt.size dt.table.ents := by
  have table := Prod.mk.inj tracks.table
  rw [setMaxSize_kept,table.1,table.2,kept_kept]
  rfl

theorem Tracks.call (tracks : Tracks dt e s) (c : Resize) : Tracks dt (e.resize c) (s.call c) := by
  cases c with
  | maxSize v =>
    exact
      {
        limit := tracks.limit
        now := by simp only [resize,setMaxDynamicTableSize,Sizes.call,tracks.limit]; rfl
        minSize := by simp only [resize,setMaxDynamicTableSize,Sizes.call,tracks.limit,tracks.minSize]; rfl
        table := by
          have table := tracks.put (if v > s.limit then s.limit else v)
          simp only [resize,setMaxDynamicTableSize,tracks.limit]
          exact table
        leastNow := smaller_right _ _
        leastSet := le_smaller (smaller_right _ _) (UInt32.le_trans (smaller_left _ _) tracks.leastSet)
        idle := fun settled => absurd settled.symm Bool.false_ne_true
      }
  | limit v =>
    simp only [resize,setMaxDynamicTableSizeLimit,Sizes.call,tracks.now]
    split
    · exact
        {
          limit := rfl
          now := rfl
          minSize := tracks.minSize
          table := tracks.put v
          leastNow := smaller_right _ _
          leastSet := UInt32.le_trans (smaller_left _ _) tracks.leastSet
          idle := fun settled => absurd settled.symm Bool.false_ne_true
        }
    · exact ⟨rfl,tracks.now,tracks.minSize,tracks.table,tracks.leastNow,tracks.leastSet,tracks.idle⟩

theorem tracks_resizes (e : Encoder) (calls : List Resize) : Tracks e.dynTab (e.resizes calls) (e.sizes calls) := by
  have run : ∀ (calls : List Resize) {encoder sizes}, Tracks e.dynTab encoder sizes →
      Tracks e.dynTab (calls.foldl resize encoder) (calls.foldl Sizes.call sizes) := by
    intro calls
    induction calls with
    | nil => intro encoder sizes tracks; exact tracks
    | cons c calls ih => intro encoder sizes tracks; exact ih (tracks.call c)
  exact run calls (tracks_start e)

def Encoder.announced (e : Encoder) : List UInt32 :=
  if e.tableSizeUpdate then (if e.minSize < e.dynTab.maxSize then [e.minSize] else []) ++ [e.dynTab.maxSize] else []

theorem appendTableSize_append (dst : Bytes) (v : UInt32) : appendTableSize dst v = dst ++ appendTableSize [] v := by
  have flagged := orAt_append dst [] 0x20 (appendVarInt_ne_nil 5 v.toNat)
  rw [appendTableSize,appendVarInt_append]
  simpa [appendTableSize] using flagged

theorem flushTableSize_announced (e : Encoder) : e.flushTableSize.2 = e.announced.flatMap (appendTableSize []) := by
  rw [flushTableSize,announced]
  split
  · split
    · simp [appendTableSize_append (appendTableSize [] e.minSize)]
    · simp
  · rfl

namespace Decoder

theorem writeLoop_update (allowed : v ≤ d.dynTab.allowedMaxSize) (buf : d.buf = appendTableSize [] v ++ rest) (written rounds : Nat) :
    writeLoop written (rounds+1) d =
      if d.firstField = false ∧ d.dynTab.size > 0 then
        ({d with firstField := false},written,some (.lateSizeUpdate d.dynTab.size.toNat))
      else writeLoop written rounds {d with dynTab := d.dynTab.setMaxSize v, buf := rest, firstField := false} := by
  have small := v.toNat_lt
  obtain ⟨b,tail,front,high,read⟩ := readVarInt_appendVarInt rest (by lia) (by lia : v.toNat-(2^5-1) < 2^63)
    (by decide : (0x20 : UInt8).toNat%2^5 = 0)
  obtain ⟨indexed,add,without,never,update,_⟩ := firstByte b
  have bit : b.toNat/2^5 = 1 := high
  have flagless : b &&& 0x80 = 0 := indexed.mpr (by lia)
  have within : ¬v.toNat > d.dynTab.allowedMaxSize.toNat := by
    have := UInt32.le_iff_toNat_le.mp allowed
    lia
  have dispatch : d.parseHeaderFieldRepr b = d.parseDynamicTableSizeUpdate := by
    rw [parseHeaderFieldRepr,if_neg (not_not.mpr flagless),if_neg (fun is => absurd (add.mp is) (by lia)),
      if_neg (fun is => absurd (without.mp is) (by lia)),if_neg (fun is => absurd (never.mp is) (by lia)),if_pos (update.mpr bit)]
  rw [appendTableSize,List.length_nil,front,List.cons_append] at buf
  rw [List.cons_append,←buf] at read
  rw [parseDynamicTableSizeUpdate,read] at dispatch
  split
  · rename_i late
    rw [if_pos (by simpa using late)] at dispatch
    exact writeLoop_failed buf (fun both => both.1 flagless) dispatch (fun same => by cases same) written rounds
  · rename_i early
    rw [if_neg (by simpa using early)] at dispatch
    simp only [if_neg within,UInt32.ofNat_toNat] at dispatch
    exact writeLoop_parsed buf (fun both => both.1 flagless) dispatch written rounds

theorem appendTableSize_length (v : UInt32) : 0 < (appendTableSize [] v).length := by
  rw [appendTableSize,orAt,List.length_modify]
  exact List.length_pos_iff.mpr (appendVarInt_ne_nil 5 v.toNat)

section
variable {d : Decoder} (ready : d.saveBuf = []) (start : d.firstField = true) (allowed : v ≤ d.dynTab.allowedMaxSize)
include ready start allowed

theorem write_update :
    d.write (appendTableSize [] v) =
      ({d with dynTab := d.dynTab.setMaxSize v, buf := [], firstField := false},(appendTableSize [] v).length,none) := by
  have some := appendTableSize_length v
  obtain ⟨rounds,length⟩ := Nat.exists_eq_add_of_lt some
  have first := writeLoop_update (d := {d with buf := appendTableSize [] v}) allowed (List.append_nil _).symm (0+rounds+1) (0+rounds)
  rw [write_plain ready (List.length_pos_iff.mp some),length,first,if_neg (by simp [start]),writeLoop_done rfl]

theorem write_updates (allowed' : w ≤ d.dynTab.allowedMaxSize) :
    d.write (appendTableSize [] v ++ appendTableSize [] w) =
      if (d.dynTab.setMaxSize v).size > 0 then
        ({d with dynTab := d.dynTab.setMaxSize v, buf := appendTableSize [] w, firstField := false},
          (appendTableSize [] v ++ appendTableSize [] w).length,some (.lateSizeUpdate (d.dynTab.setMaxSize v).size.toNat))
      else
        ({d with dynTab := (d.dynTab.setMaxSize v).setMaxSize w, buf := [], firstField := false},
          (appendTableSize [] v ++ appendTableSize [] w).length,none) := by
  have some := appendTableSize_length v
  have some' := appendTableSize_length w
  obtain ⟨rounds,length⟩ : ∃ rounds, (appendTableSize [] v ++ appendTableSize [] w).length = rounds+1+1 :=
    ⟨(appendTableSize [] v ++ appendTableSize [] w).length-2,by rw [List.length_append]; lia⟩
  have first := writeLoop_update (d := {d with buf := appendTableSize [] v ++ appendTableSize [] w}) allowed rfl
    (rounds+1+1) (rounds+1)
  have second := writeLoop_update (d := {d with dynTab := d.dynTab.setMaxSize v, buf := appendTableSize [] w, firstField := false})
    allowed' (List.append_nil _).symm (rounds+1+1) rounds
  rw [if_neg (by simp [start])] at first
  rw [write_plain ready (List.length_pos_iff.mp (by lia)),length]
  refine (first.trans second).trans ?_
  simp only [true_and]
  split
  · rfl
  · rw [writeLoop_done rfl]
end
end Decoder

def Accepted (e : Encoder) (d : Decoder) : Prop :=
  ∃ d', d.write e.flushTableSize.2 = (d',e.flushTableSize.2.length,none) ∧ d'.saveBuf = [] ∧ Same e.dynTab d'.dynTab

-- Two sizes are announced when the least one set is below the last, and the decoder takes the second if the first left
-- nothing in its table.  One size is announced otherwise, and it must drop as much as the least size in force did.
def Understood (dt : DynamicTable) (s : Sizes) : Prop :=
  if s.leastSet < s.now then (dt.setMaxSize s.leastSet).size = 0 else Alike (dt.setMaxSize s.least) (dt.setMaxSize s.now)

theorem alike_kept : Alike a b ↔ (a.table.ents,a.size) = (b.table.ents,b.size) := by
  rw [Prod.mk.injEq]
  exact ⟨fun alike => ⟨alike.ents,alike.size⟩,fun both => ⟨both.1,both.2⟩⟩

section
variable {e : Encoder} {d : Decoder} {dt : DynamicTable} {s : Sizes}
variable (tracks : Tracks dt e s) (same : Same dt d.dynTab) (ready : d.saveBuf = []) (start : d.firstField = true)
include tracks same

theorem Tracks.alike (v : UInt32) : Alike e.dynTab (d.dynTab.setMaxSize v) ↔ Alike (dt.setMaxSize s.least) (dt.setMaxSize v) := by
  rw [alike_kept,alike_kept,tracks.table,setMaxSize_kept,setMaxSize_kept,setMaxSize_kept,same.ents,same.size]

include ready

theorem accepted_idle (settled : e.tableSizeUpdate = false) : Accepted e d ∧ Understood dt s := by
  obtain ⟨now,least⟩ := tracks.idle settled
  have bytes : e.flushTableSize.2 = [] := by rw [flushTableSize,if_neg (by rw [settled]; exact Bool.false_ne_true)]
  constructor
  · refine ⟨d,by rw [bytes]; rfl,ready,⟨⟨?_,?_⟩,?_⟩⟩
    · have table := (Prod.mk.inj tracks.table).1
      rw [table,least,kept_fits dt.fits]
      exact same.ents
    · have table := (Prod.mk.inj tracks.table).2
      rw [table,least,kept_fits dt.fits]
      exact same.size
    · rw [tracks.now,now,same.maxSize]
  · have none : ¬s.leastSet < s.now := by
      rw [←tracks.minSize,e.quiet settled]
      exact UInt32.not_lt.mpr (le_uint32Max _)
    rw [Understood,if_neg none,now,least]
    exact .refl _

include start

theorem accepted_one (pending : e.tableSizeUpdate = true) (one : ¬s.leastSet < s.now) (allowed : s.now ≤ d.dynTab.allowedMaxSize) :
    Accepted e d ↔ Alike (dt.setMaxSize s.least) (dt.setMaxSize s.now) := by
  have bytes : e.flushTableSize.2 = appendTableSize [] s.now := by
    rw [flushTableSize_announced,announced,if_pos pending,tracks.minSize,tracks.now,if_neg one]
    simp
  rw [Accepted,bytes,Decoder.write_update ready start allowed,←tracks.alike same]
  constructor
  · rintro ⟨d',step,_,same'⟩
    cases step
    exact same'.toAlike
  · intro alike
    exact ⟨_,rfl,ready,alike,tracks.now⟩

theorem accepted_two (pending : e.tableSizeUpdate = true) (two : s.leastSet < s.now) (allowed : s.now ≤ d.dynTab.allowedMaxSize) :
    Accepted e d ↔ (dt.setMaxSize s.leastSet).size = 0 := by
  have bytes : e.flushTableSize.2 = appendTableSize [] s.leastSet ++ appendTableSize [] s.now := by
    rw [flushTableSize_announced,announced,if_pos pending,tracks.minSize,tracks.now,if_pos two]
    simp
  have size : (d.dynTab.setMaxSize s.leastSet).size = (dt.setMaxSize s.leastSet).size := (same.toAlike.symm.setMaxSize _).size
  rw [Accepted,bytes,Decoder.write_updates ready start (UInt32.le_trans (UInt32.le_of_lt two) allowed) allowed,size]
  constructor
  · rintro ⟨d',step,_⟩
    by_contra left
    rw [if_pos (UInt32.pos_iff_ne_zero.mpr left)] at step
    cases step
  · intro none
    have cut := setMaxSize_kept dt s.leastSet
    rw [none] at cut
    have zero : (kept s.leastSet dt.size dt.table.ents).2 = 0 := (congrArg Prod.snd cut).symm
    rw [none,if_neg (UInt32.lt_irrefl 0)]
    refine ⟨_,rfl,ready,alike_kept.mpr ?_,tracks.now⟩
    -- The least size in force is no more than the least one set, and that left nothing to drop.
    have stays : ∀ v, kept v (kept s.leastSet dt.size dt.table.ents).2 (kept s.leastSet dt.size dt.table.ents).1 =
        kept s.leastSet dt.size dt.table.ents := by
      intro v
      exact kept_fits (.inl (zero ▸ UInt32.zero_le))
    have decoder := Prod.mk.inj (setMaxSize_kept d.dynTab s.leastSet)
    rw [tracks.table,setMaxSize_kept,decoder.1,decoder.2,←same.ents,←same.size,stays,←kept_less tracks.leastSet,stays]
end

instance (a b : DynamicTable) : Decidable (Alike a b) := decidable_of_iff _ alike_kept.symm

instance (dt : DynamicTable) (s : Sizes) : Decidable (Understood dt s) :=
  inferInstanceAs (Decidable (if s.leastSet < s.now then (dt.setMaxSize s.leastSet).size = 0 else
    Alike (dt.setMaxSize s.least) (dt.setMaxSize s.now)))

theorem resize_accepted_iff (e : Encoder) (d : Decoder) (calls : List Resize) (same : Same e.dynTab d.dynTab)
    (ready : d.saveBuf = []) (start : d.firstField = true)
    (allowed : ∀ v ∈ (e.resizes calls).announced, v ≤ d.dynTab.allowedMaxSize) :
    Accepted (e.resizes calls) d ↔ Understood e.dynTab (e.sizes calls) := by
  have tracks := tracks_resizes e calls
  cases pending : (e.resizes calls).tableSizeUpdate with
  | false =>
    obtain ⟨accepted,understood⟩ := accepted_idle tracks same ready pending
    exact ⟨fun _ => understood,fun _ => accepted⟩
  | true =>
    have last : (e.sizes calls).now ≤ d.dynTab.allowedMaxSize := by
      apply allowed
      rw [announced,if_pos pending,tracks.now]
      exact List.mem_append_right _ (List.mem_singleton_self _)
    rw [Understood]
    split
    · rename_i two
      exact accepted_two tracks same ready start pending two last
    · rename_i one
      exact accepted_one tracks same ready start pending one last

def afterOneField : Encoder := ({} : Encoder).addEntry rfl ⟨ascii "x-request",ascii "7",false⟩

def afterOneBlock : Decoder :=
  {dynTab := (DynamicTable.setMaxSize {allowedMaxSize := 4096} 4096).add ⟨ascii "x-request",ascii "7",false⟩}

theorem same_after_one : Same afterOneField.dynTab afterOneBlock.dynTab :=
  ⟨⟨by decide,by decide⟩,by decide⟩

theorem single_shrink_accepted : Accepted (afterOneField.resizes [.maxSize 100]) afterOneBlock ∧
    Understood afterOneField.dynTab (afterOneField.sizes [.maxSize 100]) := by
  have understood : Understood afterOneField.dynTab (afterOneField.sizes [.maxSize 100]) := by decide
  have allowed : ∀ v ∈ (afterOneField.resizes [.maxSize 100]).announced, v ≤ afterOneBlock.dynTab.allowedMaxSize := by
    have one : (afterOneField.resizes [.maxSize 100]).announced = [100] := by decide
    intro v mem
    rw [one,List.mem_singleton] at mem
    rw [mem]
    decide
  exact ⟨(resize_accepted_iff afterOneField afterOneBlock [.maxSize 100] same_after_one rfl rfl allowed).mpr understood,understood⟩

-- Two sizes with an entry left between them: the decoder refuses the second.  A limit lowered and raised again: the
-- encoder drops its entry and announces nothing that would make the decoder drop it.
theorem resize_lost : Same afterOneField.dynTab afterOneBlock.dynTab ∧ afterOneBlock.firstField = true ∧
    (afterOneField.resizes [.maxSize 100,.maxSize 200]).announced = [100,200] ∧
    ¬Accepted (afterOneField.resizes [.maxSize 100,.maxSize 200]) afterOneBlock ∧
    (afterOneField.resizes [.limit 0,.limit 4096,.maxSize 4096]).announced = [4096] ∧
    ¬Accepted (afterOneField.resizes [.limit 0,.limit 4096,.maxSize 4096]) afterOneBlock := by
  refine ⟨same_after_one,rfl,by decide,?_,by decide,?_⟩
  · rw [accepted_two (tracks_resizes afterOneField _) same_after_one rfl rfl (by decide) (by decide) (by decide)]
    decide
  · rw [accepted_one (tracks_resizes afterOneField _) same_after_one rfl rfl (by decide) (by decide) (by decide)]
    decide
end FhServer

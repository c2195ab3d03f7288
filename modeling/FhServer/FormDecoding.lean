import FhServer.FormTree

namespace FhServer
open GoBytes FormNode List

-- A rewriting of a tree keeps all leaves where it is whole, and has fewer where it is not.
structure Shrinks (before after : List Bytes) (whole : Prop) : Prop where
  keeps : whole → after.Perm before
  loses : ¬ whole → after.length < before.length

namespace Shrinks
variable {before after middle before' after' : List Bytes} {whole whole' : Prop}

theorem length_le (shrinks : Shrinks before after whole) : after.length ≤ before.length := by
  by_cases is : whole
  · exact (shrinks.keeps is).length_eq.le
  · exact (shrinks.loses is).le

theorem same (leaves : List Bytes) (is : whole) : Shrinks leaves leaves whole := ⟨fun _ => .refl _,fun other => absurd is other⟩

theorem congr (shrinks : Shrinks before after whole) (same : whole ↔ whole') : Shrinks before after whole' :=
  ⟨fun is => shrinks.keeps (same.mpr is),fun other => shrinks.loses fun is => other (same.mp is)⟩

theorem perm_iff (shrinks : Shrinks before after whole) : after.Perm before ↔ whole := by
  refine ⟨?_,shrinks.keeps⟩
  intro same
  by_contra other
  exact absurd same.length_eq (shrinks.loses other).ne

theorem append (first : Shrinks before after whole) (second : Shrinks before' after' whole') :
    Shrinks (before ++ before') (after ++ after') (whole ∧ whole') := by
  refine ⟨fun ⟨is,also⟩ => (first.keeps is).append (second.keeps also),?_⟩
  intro other
  rw [length_append,length_append]
  rcases Classical.not_and_iff_not_or_not.mp other with other | other
  · exact Nat.add_lt_add_of_lt_of_le (first.loses other) second.length_le
  · exact Nat.add_lt_add_of_le_of_lt first.length_le (second.loses other)

theorem trans (first : Shrinks before middle whole) (second : Shrinks middle after whole') : Shrinks before after (whole ∧ whole') := by
  refine ⟨fun ⟨is,also⟩ => (second.keeps also).trans (first.keeps is),?_⟩
  intro other
  rcases Classical.not_and_iff_not_or_not.mp other with other | other
  · exact second.length_le.trans_lt (first.loses other)
  · exact (second.loses other).trans_le first.length_le
end Shrinks

mutual

def Full : FormNode → Prop
  | .map entries => entries ≠ [] ∧ EntriesFull entries
  | .text _ => True
  | .texts list => list ≠ []
  | .items list => listLeaves list ≠ []
  | .hole => False

def EntriesFull : FormEntries → Prop
  | [] => True
  | (_,node) :: entries => Full node ∧ EntriesFull entries
end
section
variable {entries dest : FormEntries} {key val : Bytes} {node : FormNode}

theorem entriesFull_iff : EntriesFull entries ↔ ∀ entry ∈ entries, Full entry.2 := by
  induction entries with
  | nil => simp [EntriesFull]
  | cons entry entries ih => rw [EntriesFull,ih,forall_mem_cons]

theorem entryLeaves_ne_nil (some : entries ≠ []) (full : ∀ entry ∈ entries, entry.2.leaves ≠ []) : entryLeaves entries ≠ [] := by
  cases entries with
  | nil => exact absurd rfl some
  | cons entry entries =>
    exact append_ne_nil_of_left_ne_nil (full entry mem_cons_self) _

mutual

theorem Full.leaves_ne_nil : {node : FormNode} → Full node → node.leaves ≠ []
  | .map [],full => by
    rw [Full] at full
    exact absurd rfl full.1
  | .map ((_,child) :: _),full => by
    rw [Full,EntriesFull] at full
    rw [leaves,entryLeaves]
    exact append_ne_nil_of_left_ne_nil (Full.leaves_ne_nil full.2.1) _
  | .text _,_ => by
    rw [leaves]
    exact cons_ne_nil _ _
  | .texts _,full | .items _,full => by
    rw [Full] at full
    rwa [leaves]
  | .hole,full => by
    rw [Full] at full
    exact full.elim
end

theorem EntriesFull.get (full : EntriesFull entries) (found : FormNode.get entries key = some node) : Full node :=
  entriesFull_iff.mp full _ (get_mem found)

theorem put_ne_nil (key : Bytes) (node : FormNode) (entries : FormEntries) : put key node entries ≠ [] := by
  cases entries with
  | nil => exact cons_ne_nil _ _
  | cons entry entries =>
    rw [put]
    split
    · exact cons_ne_nil _ _
    · exact cons_ne_nil _ _

theorem EntriesFull.put (full : EntriesFull entries) (new : Full node) : EntriesFull (put key node entries) := by
  induction entries with
  | nil => rw [FormNode.put,EntriesFull]; exact ⟨new,full⟩
  | cons entry entries ih =>
    rw [FormNode.put]
    split
    · rw [EntriesFull]
      exact ⟨new,full.2⟩
    · rw [EntriesFull]
      exact ⟨full.1,ih full.2⟩

theorem EntriesFull.insertFlat (full : EntriesFull dest) (key val : Bytes) : EntriesFull (insertFlat dest key val) := by
  have wraps : ∀ node, Full (.items [node,.text val]) := by
    intro node
    exact append_ne_nil_of_right_ne_nil _ (cons_ne_nil _ _)
  rw [FhServer.insertFlat]
  split
  · refine full.put ?_
    exact append_ne_nil_of_right_ne_nil _ (cons_ne_nil _ _)
  · refine full.put ?_
    exact cons_ne_nil _ _
  · exact full.put (wraps _)
  · refine full.put ?_
    trivial

theorem insertNested_ne_nil (steps : path ≠ []) (dest : FormEntries) (val : Bytes) : insertNested dest path val ≠ [] := by
  match path with
  | [] => exact absurd rfl steps
  | [last] =>
    rw [insertNested,insertFlat]
    split
    · exact put_ne_nil _ _ _
    · exact put_ne_nil _ _ _
    · exact put_ne_nil _ _ _
    · exact put_ne_nil _ _ _
  | k :: next :: path =>
    by_cases map : ∃ inner, get dest (indexedKey dest k) = some (.map inner)
    · obtain ⟨inner,found⟩ := map
      rw [insertNested_map found]
      exact put_ne_nil _ _ _
    · rw [insertNested_other fun inner is => map ⟨inner,is⟩]
      exact put_ne_nil _ _ _

theorem EntriesFull.insertNested (steps : path ≠ []) (full : EntriesFull dest) (val : Bytes) : EntriesFull (insertNested dest path val) := by
  induction path generalizing dest with
  | nil => exact absurd rfl steps
  | cons k path ih =>
    cases path with
    | nil => exact full.insertFlat (indexedKey dest k) val
    | cons next path =>
      have more : next :: path ≠ [] := cons_ne_nil _ _
      have child : ∀ inner, EntriesFull inner → Full (.map (FhServer.insertNested inner (next :: path) val)) := by
        intro inner full
        exact ⟨insertNested_ne_nil more inner val,ih more full⟩
      by_cases map : ∃ inner, FormNode.get dest (indexedKey dest k) = some (.map inner)
      · obtain ⟨inner,found⟩ := map
        rw [insertNested_map found]
        have before := full.get found
        exact full.put (child inner before.2)
      · rw [insertNested_other fun inner is => map ⟨inner,is⟩]
        refine full.put (child [] ?_)
        trivial

theorem insertNested_blocked (full : EntriesFull dest) (blocked : ¬ Opens dest path) (val : Bytes) :
    (entryLeaves (insertNested dest path val)).length ≤ (entryLeaves dest).length := by
  induction path generalizing dest with
  | nil => exact absurd trivial blocked
  | cons k path ih =>
    cases path with
    | nil => exact absurd trivial blocked
    | cons next path =>
      cases found : get dest (indexedKey dest k) with
      | none => exact absurd (opens_none found) blocked
      | some old =>
        by_cases map : ∃ inner, old = .map inner
        · obtain ⟨inner,rfl⟩ := map
          have before := full.get found
          have deeper := ih before.2 fun opens => blocked ((opens_map found).mpr opens)
          have changed := (put_leaves (.map (insertNested inner (next :: path) val)) found).length_eq
          rw [insertNested_map found]
          rw [leaves_map,leaves_map,length_append,length_append] at changed
          lia
        · have other : ∀ inner, get dest (indexedKey dest k) ≠ some (.map inner) := by
            intro inner is
            rw [found] at is
            exact map ⟨inner,Option.some.inj is⟩
          have changed := (put_leaves (.map (insertNested [] (next :: path) val)) found).length_eq
          have one := (insertNested_leaves (cons_ne_nil next path) (opens_empty (next :: path)) val).length_eq
          have lost := length_pos_iff.mpr (full.get found).leaves_ne_nil
          rw [insertNested_other other]
          rw [leaves_map,length_append,length_append] at changed
          rw [length_cons,entryLeaves,length_nil] at one
          lia
end
section
theorem parseBracketPath_ne_nil (key : Bytes) : parseBracketPath key ≠ [] := by
  rw [parseBracketPath]
  split
  · exact cons_ne_nil _ _
  · assumption

variable {tree : FormEntries} {key : Bytes}

theorem EntriesFull.insertPair (full : EntriesFull tree) (key val : Bytes) : EntriesFull (insertPair tree key val) := by
  rw [FhServer.insertPair]
  split
  · exact full.insertNested (parseBracketPath_ne_nil key) val
  · exact full.insertFlat key val

theorem insertPair_leaves (opens : OpensPair tree key) (val : Bytes) : (entryLeaves (insertPair tree key val)).Perm (val :: entryLeaves tree) := by
  rw [insertPair]
  split
  · exact insertNested_leaves (parseBracketPath_ne_nil key) (opens (by assumption)) val
  · exact insertFlat_leaves tree key val

theorem insertPair_blocked (full : EntriesFull tree) (blocked : ¬ OpensPair tree key) (val : Bytes) :
    (entryLeaves (insertPair tree key val)).length ≤ (entryLeaves tree).length := by
  rw [OpensPair,Classical.not_imp] at blocked
  rw [insertPair,if_pos blocked.1]
  exact insertNested_blocked full blocked.2 val

def insertPairs (tree : FormEntries) (pairs : List (Bytes × Bytes)) : FormEntries := pairs.foldl (fun tree pair => insertPair tree pair.1 pair.2) tree

theorem insertPairs_cons (tree : FormEntries) (pair : Bytes × Bytes) (pairs : List (Bytes × Bytes)) :
    insertPairs tree (pair :: pairs) = insertPairs (insertPair tree pair.1 pair.2) pairs := rfl

theorem insertPair_length (full : EntriesFull tree) (key val : Bytes) :
    (entryLeaves (insertPair tree key val)).length ≤ (entryLeaves tree).length+1 := by
  by_cases opens : OpensPair tree key
  · exact ((insertPair_leaves opens val).length_eq.trans (length_cons ..)).le
  · exact (insertPair_blocked full opens val).trans (Nat.le_succ _)

theorem insertPairs_length (pairs : List (Bytes × Bytes)) (full : EntriesFull tree) :
    (entryLeaves (insertPairs tree pairs)).length ≤ pairs.length+(entryLeaves tree).length := by
  induction pairs generalizing tree with
  | nil => exact (Nat.zero_add _).ge
  | cons pair pairs ih =>
    have one := insertPair_length full pair.1 pair.2
    have rest := ih (full.insertPair pair.1 pair.2)
    rw [insertPairs_cons,length_cons]
    lia

theorem insertPairs_full (pairs : List (Bytes × Bytes)) (full : EntriesFull tree) : EntriesFull (insertPairs tree pairs) := by
  induction pairs generalizing tree with
  | nil => exact full
  | cons pair pairs ih => exact ih (full.insertPair pair.1 pair.2)
end
section
variable {arr out : List FormNode} {i length : Nat} {es : FormEntries}

theorem set_leaves (v : FormNode) (there : arr[i]? = some old) :
    (listLeaves (arr.set i v) ++ old.leaves).Perm (v.leaves ++ listLeaves arr) := by
  induction arr generalizing i with
  | nil => cases there
  | cons node arr ih =>
    cases i with
    | zero =>
      cases there
      rw [set_cons_zero,listLeaves,listLeaves,append_assoc]
      exact perm_append_comm.append_left _
    | succ i =>
      rw [set_cons_succ,listLeaves,listLeaves,append_assoc]
      refine ((ih there).append_left node.leaves).trans ?_
      rw [← append_assoc,← append_assoc]
      exact perm_append_comm.append_right _

def Clear (length : Nat) (es : FormEntries) (arr : List FormNode) : Prop :=
  (es.map fun entry => arrayIndex length entry.1).Nodup ∧
    ∀ entry ∈ es, ∀ i node, arrayIndex length entry.1 = some i → arr[i]? = some node → node.leaves = []

theorem arrayIndex_lt (index : arrayIndex length key = some i) : i < length := by
  rw [arrayIndex,Option.bind_eq_some_iff] at index
  obtain ⟨n,-,index⟩ := index
  split at index
  · cases index
  · cases index
    lia

theorem Clear.rest (index : arrayIndex length k = some i) (clear : Clear length ((k,v) :: es) arr) :
    Clear length es (arr.set i v) := by
  obtain ⟨spread,free⟩ := clear
  rw [map_cons,nodup_cons] at spread
  refine ⟨spread.2,?_⟩
  intro entry mem j node at_j there
  have other : i ≠ j := by
    intro same
    refine spread.1 (mem_map.mpr ⟨entry,mem,?_⟩)
    rw [at_j,index,same]
  rw [List.getElem?_set_ne other] at there
  exact free entry (mem_cons_of_mem _ mem) j node at_j there

theorem Clear.of_rest (index : arrayIndex length k = some i) (there : arr[i]? = some old) (some : v.leaves ≠ [])
    (empty : old.leaves = []) (clear : Clear length es (arr.set i v)) : Clear length ((k,v) :: es) arr := by
  obtain ⟨spread,free⟩ := clear
  obtain ⟨within,-⟩ := List.getElem?_eq_some_iff.mp there
  have other : ∀ entry ∈ es, arrayIndex length entry.1 ≠ arrayIndex length k := by
    intro entry mem same
    exact some (free entry mem i v (same.trans index) (List.getElem?_set_self within))
  refine ⟨?_,?_⟩
  · rw [map_cons,nodup_cons]
    refine ⟨?_,spread⟩
    intro mem
    obtain ⟨entry,inside,same⟩ := mem_map.mp mem
    exact other entry inside same
  · intro entry mem j node at_j here
    rcases mem_cons.mp mem with rfl | mem
    · rw [index] at at_j
      cases at_j
      rw [there] at here
      cases here
      exact empty
    · refine free entry mem j node at_j ?_
      rw [List.getElem?_set_ne]
      · exact here
      · intro same
        exact other entry mem (by rw [at_j,index,same])

theorem denseLoop_cons (fits : arr.length = length) (done : denseLoop length ((k,v) :: es) arr = some out) : ∃ i old,
    arrayIndex length k = some i ∧ arr[i]? = some old ∧ (arr.set i v).length = length ∧ denseLoop length es (arr.set i v) = some out := by
  rw [denseLoop] at done
  split at done
  · rename_i i index
    exact ⟨i,_,index,List.getElem?_eq_getElem (fits ▸ arrayIndex_lt index),by rw [length_set,fits],done⟩
  · cases done

theorem listLeaves_ne_nil (mem : v ∈ arr) (some : v.leaves ≠ []) : listLeaves arr ≠ [] := by
  rw [listLeaves_eq]
  intro none
  exact some (flatMap_eq_nil_iff.mp none v mem)

section
variable (fits : arr.length = length) (done : denseLoop length es arr = some out)
include fits done

theorem denseLoop_leaves (clear : Clear length es arr) :
    (listLeaves out).Perm (entryLeaves es ++ listLeaves arr) := by
  induction es generalizing arr with
  | nil =>
    cases done
    exact .refl _
  | cons entry es ih =>
    obtain ⟨i,old,index,there,still,rest⟩ := denseLoop_cons fits done
    have moved := set_leaves entry.2 there
    rw [clear.2 _ mem_cons_self i _ index there,append_nil] at moved
    refine (ih still rest (clear.rest index)).trans ?_
    rw [entryLeaves,append_assoc]
    refine (moved.append_left _).trans ?_
    rw [← append_assoc,← append_assoc]
    exact perm_append_comm.append_right _

theorem denseLoop_length :
    (listLeaves out).length ≤ (entryLeaves es).length+(listLeaves arr).length := by
  induction es generalizing arr with
  | nil =>
    cases done
    exact Nat.le_add_left _ _
  | cons entry es ih =>
    obtain ⟨i,old,-,there,still,rest⟩ := denseLoop_cons fits done
    have moved := (set_leaves entry.2 there).length_eq
    have less := ih still rest
    rw [length_append,length_append] at moved
    rw [entryLeaves,length_append]
    lia

theorem denseLoop_loses (full : ∀ entry ∈ es, entry.2.leaves ≠ [])
    (taken : ¬ Clear length es arr) : (listLeaves out).length < (entryLeaves es).length+(listLeaves arr).length := by
  induction es generalizing arr with
  | nil => exact absurd ⟨nodup_nil,nofun⟩ taken
  | cons entry es ih =>
    obtain ⟨i,old,index,there,still,rest⟩ := denseLoop_cons fits done
    have moved := (set_leaves entry.2 there).length_eq
    rw [length_append,length_append] at moved
    rw [entryLeaves,length_append]
    by_cases empty : old.leaves = []
    · have less := ih still rest (fun entry mem => full entry (mem_cons_of_mem _ mem))
        fun clear => taken (clear.of_rest index there (full _ mem_cons_self) empty)
      lia
    · have lost := length_pos_iff.mpr empty
      have less := denseLoop_length still rest
      lia

theorem denseLoop_ne_nil (full : ∀ entry ∈ es, entry.2.leaves ≠ [])
    (some : es ≠ [] ∨ listLeaves arr ≠ []) : listLeaves out ≠ [] := by
  induction es generalizing arr with
  | nil =>
    cases done
    exact some.resolve_left fun other => other rfl
  | cons entry es ih =>
    obtain ⟨i,old,-,there,still,rest⟩ := denseLoop_cons fits done
    refine ih still rest (fun entry mem => full entry (mem_cons_of_mem _ mem)) (.inr ?_)
    exact listLeaves_ne_nil (mem_set (List.getElem?_eq_some_iff.mp there).1 entry.2) (full _ mem_cons_self)
end

theorem denseLoop_isSome (arr : List FormNode) : (denseLoop length es arr).isSome = true ↔ ∀ entry ∈ es, (arrayIndex length entry.1).isSome = true := by
  induction es generalizing arr with
  | nil => exact ⟨nofun,fun _ => rfl⟩
  | cons entry es ih =>
    rw [denseLoop,forall_mem_cons]
    split
    · rename_i i index
      rw [ih,index]
      exact ⟨fun rest => ⟨rfl,rest⟩,fun both => both.2⟩
    · rename_i index
      rw [index]
      exact ⟨nofun,fun both => (nomatch both.1)⟩
end
section
variable {order : FormEntries → FormEntries} (fair : ∀ m, (order m).Perm m) {m es : FormEntries} {arr : List FormNode}
include fair

theorem mapAsDenseArray_isSome : (mapAsDenseArray order m).isSome = true ↔ Dense m := by
  rw [mapAsDenseArray,Dense]
  by_cases none : m = []
  · rw [if_pos none]
    exact ⟨nofun,fun dense => absurd none dense.1⟩
  · rw [if_neg none,denseLoop_isSome]
    refine ⟨fun all => ⟨none,fun entry mem => all entry ((fair m).mem_iff.mpr mem)⟩,?_⟩
    exact fun dense entry mem => dense.2 entry ((fair m).mem_iff.mp mem)

theorem clear_replicate : Clear m.length (order m) (replicate m.length .hole) ↔ Spread m := by
  have same := ((fair m).map fun entry => arrayIndex m.length entry.1).nodup_iff
  refine ⟨fun clear => same.mp clear.1,fun spread => ⟨same.mpr spread,?_⟩⟩
  intro entry mem i node index there
  cases (mem_replicate.mp (mem_of_getElem? there)).2
  rw [leaves]

theorem mapAsDenseArray_shrinks (full : ∀ entry ∈ m, entry.2.leaves ≠ []) (done : mapAsDenseArray order m = some arr) :
    Shrinks (entryLeaves m) (listLeaves arr) (Spread m) ∧ listLeaves arr ≠ [] := by
  have holes : listLeaves (replicate m.length .hole) = [] := by
    rw [listLeaves_eq,flatMap_eq_nil_iff]
    intro node mem
    cases (mem_replicate.mp mem).2
    rw [leaves]
  have sameLeaves : (entryLeaves (order m)).Perm (entryLeaves m) := by
    rw [entryLeaves_eq,entryLeaves_eq]
    exact (fair m).flatMap_right _
  have stillFull : ∀ entry ∈ order m, entry.2.leaves ≠ [] := fun entry mem => full entry ((fair m).mem_iff.mp mem)
  have fits := length_replicate (n := m.length) (a := FormNode.hole)
  rw [mapAsDenseArray] at done
  split at done
  · cases done
  rename_i some
  refine ⟨⟨?_,?_⟩,?_⟩
  · intro spread
    have placed := denseLoop_leaves fits done ((clear_replicate fair).mpr spread)
    rw [holes,append_nil] at placed
    exact placed.trans sameLeaves
  · intro shared
    have placed := denseLoop_loses fits done stillFull fun clear => shared ((clear_replicate fair).mp clear)
    rwa [holes,length_nil,Nat.add_zero,sameLeaves.length_eq] at placed
  · refine denseLoop_ne_nil fits done stillFull (.inl ?_)
    intro none
    exact some (List.Perm.nil_eq (none ▸ fair m)).symm

omit fair in
theorem collapseEntries_keys (order : FormEntries → FormEntries) (es : FormEntries) : (collapseEntries order es).map Prod.fst = es.map Prod.fst := by
  induction es with
  | nil => rw [collapseEntries]
  | cons entry es ih => rw [collapseEntries,map_cons,map_cons,ih]

omit fair in
theorem dense_keys (same : m.map Prod.fst = m'.map Prod.fst) : (Dense m ↔ Dense m') ∧ (Spread m ↔ Spread m') := by
  have length : m.length = m'.length := by rw [← length_map (f := Prod.fst),same,length_map]
  have nonempty : m = [] ↔ m' = [] := by rw [← length_eq_zero_iff,length,length_eq_zero_iff]
  have keys : ∀ (es : FormEntries) (P : Bytes → Prop), (∀ entry ∈ es, P entry.1) ↔ ∀ key ∈ es.map Prod.fst, P key := by
    intro es P
    rw [forall_mem_map]
  have indexes : ∀ es : FormEntries, (es.map fun entry => arrayIndex m'.length entry.1) = (es.map Prod.fst).map (arrayIndex m'.length) := by
    intro es
    rw [map_map]
    rfl
  refine ⟨?_,?_⟩
  · rw [Dense,Dense,length,keys m fun key => (arrayIndex m'.length key).isSome = true,keys m' fun key => (arrayIndex m'.length key).isSome = true,same,
      Ne,nonempty]
  · rw [Spread,Spread,length,indexes,indexes,same]
end
section
variable {order : FormEntries → FormEntries}

mutual

theorem collapseArrays_shrinks (fair : ∀ m, (order m).Perm m) : (node : FormNode) → Full node →
    Shrinks node.leaves (collapseArrays order node).leaves (Collapses node) ∧ (collapseArrays order node).leaves ≠ []
  | .map entries,full => by
    obtain ⟨children,childrenFull⟩ := collapseEntries_shrinks fair entries full.2
    obtain ⟨sameDense,sameSpread⟩ := dense_keys (collapseEntries_keys order entries)
    rw [collapseArrays,Collapses]
    cases done : mapAsDenseArray order (collapseEntries order entries) with
    | none =>
      have flat : ¬ Dense entries := by
        rw [← sameDense,← mapAsDenseArray_isSome fair,done]
        exact nofun
      refine ⟨children.congr ⟨fun is => ⟨is,fun dense => absurd dense flat⟩,fun both => both.1⟩,?_⟩
      refine entryLeaves_ne_nil ?_ childrenFull
      intro none
      have noKeys := collapseEntries_keys order entries
      rw [none] at noKeys
      exact full.1 (map_eq_nil_iff.mp noKeys.symm)
    | some arr =>
      have dense : Dense entries := by
        rw [← sameDense,← mapAsDenseArray_isSome fair,done]
        rfl
      obtain ⟨array,arrayFull⟩ := mapAsDenseArray_shrinks fair childrenFull done
      refine ⟨(children.trans array).congr ?_,arrayFull⟩
      rw [sameSpread]
      exact ⟨fun both => ⟨both.1,fun _ => both.2⟩,fun both => ⟨both.1,both.2 dense⟩⟩
  | .text s,full | .texts list,full | .items list,full | .hole,full => by
    exact ⟨.same _ (by rw [Collapses]; trivial),full.leaves_ne_nil⟩

theorem collapseEntries_shrinks (fair : ∀ m, (order m).Perm m) : (entries : FormEntries) → EntriesFull entries →
    Shrinks (entryLeaves entries) (entryLeaves (collapseEntries order entries)) (EntriesCollapse entries) ∧
      ∀ entry ∈ collapseEntries order entries, entry.2.leaves ≠ []
  | [],_ => by
    rw [collapseEntries,EntriesCollapse]
    exact ⟨.same _ trivial,nofun⟩
  | (k,child) :: entries,full => by
    rw [EntriesFull] at full
    obtain ⟨first,firstFull⟩ := collapseArrays_shrinks fair child full.1
    obtain ⟨rest,restFull⟩ := collapseEntries_shrinks fair entries full.2
    rw [collapseEntries,EntriesCollapse,entryLeaves,entryLeaves]
    exact ⟨first.append rest,forall_mem_cons.mpr ⟨firstFull,restFull⟩⟩
end

theorem collapseArrays_map (fair : ∀ m, (order m).Perm m) :
    collapseArrays order (.map tree) = .map t ↔ ¬ Dense tree ∧ t = collapseEntries order tree := by
  have dense := (mapAsDenseArray_isSome fair).trans (dense_keys (collapseEntries_keys order tree)).1
  rw [collapseArrays]
  cases done : mapAsDenseArray order (collapseEntries order tree) with
  | none =>
    rw [done] at dense
    refine ⟨fun is => ⟨fun is => (nomatch dense.mpr is),?_⟩,fun both => congrArg FormNode.map both.2.symm⟩
    cases is
    rfl
  | some arr =>
    rw [done] at dense
    exact ⟨nofun,fun both => absurd (dense.mp rfl) both.1⟩

theorem keepsPairs_iff (fair : ∀ m, (order m).Perm m) (full : EntriesFull tree) :
    (∃ t, collapseArrays order (.map (insertPairs tree pairs)) = .map t ∧ (entryLeaves t).Perm (pairs.map Prod.snd ++ entryLeaves tree)) ↔
      KeepsPairs tree pairs := by
  induction pairs generalizing tree with
  | nil =>
    obtain ⟨shrinks,-⟩ := collapseEntries_shrinks fair tree full
    rw [KeepsPairs,← shrinks.perm_iff]
    refine ⟨?_,fun both => ⟨_,(collapseArrays_map fair).mpr ⟨both.1,rfl⟩,both.2⟩⟩
    rintro ⟨t,is,same⟩
    obtain ⟨flat,rfl⟩ := (collapseArrays_map fair).mp is
    exact ⟨flat,same⟩
  | cons pair pairs ih =>
    obtain ⟨key,val⟩ := pair
    rw [KeepsPairs,← ih (full.insertPair key val),insertPairs_cons]
    by_cases opens : OpensPair tree key
    · have same : (pairs.map Prod.snd ++ entryLeaves (insertPair tree key val)).Perm (((key,val) :: pairs).map Prod.snd ++ entryLeaves tree) :=
        ((insertPair_leaves opens val).append_left _).trans perm_middle
      refine ⟨?_,?_⟩
      · rintro ⟨t,is,leaves⟩
        exact ⟨opens,t,is,leaves.trans same.symm⟩
      · rintro ⟨-,t,is,leaves⟩
        exact ⟨t,is,leaves.trans same⟩
    · refine ⟨?_,fun both => absurd both.1 opens⟩
      rintro ⟨t,is,leaves⟩
      -- The blocked pair's leaf is missing, and nothing later makes up for it.
      obtain ⟨-,rfl⟩ := (collapseArrays_map fair).mp is
      have after := full.insertPair key val
      have count : (entryLeaves (collapseEntries order (insertPairs (insertPair tree key val) pairs))).length = _ := leaves.length_eq
      have collapsed := (collapseEntries_shrinks fair _ (insertPairs_full pairs after)).1.length_le
      have inserted := insertPairs_length pairs after
      have blocked := insertPair_blocked full opens val
      rw [length_append,length_map,length_cons] at count
      lia
end
section
variable {opt : CodecOptions}

def PairWithin (opt : CodecOptions) (segment : Bytes) : Prop :=
  (rawPair segment).1.length ≤ opt.maxFormKeyBytes ∧ (rawPair segment).2.length ≤ opt.maxFormValueBytes ∧
    (hasBracket (decodedPair segment).1 = true → (parseBracketPath (decodedPair segment).1).length ≤ opt.maxFormDepth)

def WithinLimits (opt : CodecOptions) (data : Bytes) : Prop :=
  (data.splitOn 38).length ≤ opt.maxFormPairs ∧ ∀ segment ∈ segments data, PairWithin opt segment

def Form.add (f : Form) (pair : Bytes × Bytes) : Form :=
  ⟨f.values.set pair.1 (f.values.get pair.1 ++ [pair.2]),insertPair f.tree pair.1 pair.2⟩

theorem formStep_within {segment : Bytes} (within : PairWithin opt segment) (f : Form) :
    formStep opt f segment = .ok (if (decodedPair segment).1 = [] then f else f.add (decodedPair segment)) := by
  obtain ⟨key,value,depth⟩ := within
  have shallow : (hasBracket (decodedPair segment).1 && decide (opt.maxFormDepth < (parseBracketPath (decodedPair segment).1).length)) = false := by
    rw [Bool.and_eq_false_imp]
    intro nested
    exact decide_eq_false (Nat.not_lt.mpr (depth nested))
  simp only [formStep]
  rw [if_neg (Nat.not_lt.mpr key),if_neg (Nat.not_lt.mpr value)]
  by_cases none : (decodedPair segment).1 = []
  · rw [if_pos none]
    exact if_pos none
  rw [if_neg none]
  refine (if_neg none).trans ?_
  refine if_neg ?_
  rw [← Bool.not_eq_true] at shallow
  exact shallow

theorem formSteps_within {list : List Bytes} (within : ∀ segment ∈ list, PairWithin opt segment) (f : Form) :
    list.foldlM (formStep opt) f = .ok (((list.map decodedPair).filter fun pair => pair.1 ≠ []).foldl Form.add f) := by
  induction list generalizing f with
  | nil => rfl
  | cons segment list ih =>
    have rest := ih fun segment mem => within segment (mem_cons_of_mem _ mem)
    rw [foldlM_cons,formStep_within (within segment mem_cons_self),map_cons]
    by_cases none : (decodedPair segment).1 = []
    · rw [if_pos none,filter_cons_of_neg (by simpa using none)]
      exact rest f
    · rw [if_neg none,filter_cons_of_pos (by simpa using none)]
      exact rest (f.add (decodedPair segment))

theorem foldl_add_tree (pairs : List (Bytes × Bytes)) (f : Form) : (pairs.foldl Form.add f).tree = insertPairs f.tree pairs := by
  induction pairs generalizing f with
  | nil => rfl
  | cons pair pairs ih => exact ih (f.add pair)

theorem foldl_add_values (pairs : List (Bytes × Bytes)) (f : Form) (key : Bytes) :
    (pairs.foldl Form.add f).values.get key = f.values.get key ++ (pairs.filter fun pair => pair.1 = key).map Prod.snd := by
  induction pairs generalizing f with
  | nil => exact (append_nil _).symm
  | cons pair pairs ih =>
    refine (ih (f.add pair)).trans ?_
    rw [Form.add,Table.get_set]
    by_cases same : pair.1 = key
    · rw [if_pos same.symm,filter_cons_of_pos (by simpa using same),map_cons,same,append_assoc]
      rfl
    · rw [if_neg (Ne.symm same),filter_cons_of_neg (by simpa using same)]

theorem parseFormBytes_within (within : WithinLimits opt data) :
    parseFormBytes opt order data =
      match collapseArrays order (.map (insertPairs [] (formPairs data))) with
      | .map tree => .form ⟨((formPairs data).foldl Form.add {}).values,tree⟩
      | _ => .panics := by
  obtain ⟨few,each⟩ := within
  by_cases none : data = []
  · subst none
    rfl
  rw [parseFormBytes,if_neg none,if_neg (Nat.not_lt.mpr few),formSteps_within each]
  have tree := foldl_add_tree (formPairs data) {}
  exact congrArg (fun node => match node with
    | .map tree => FormOutcome.form ⟨((formPairs data).foldl Form.add {}).values,tree⟩
    | _ => .panics) (congrArg (fun tree => collapseArrays order (.map tree)) tree)

def Form.Lists (f : Form) (pairs : List (Bytes × Bytes)) : Prop :=
  ∀ key, key ≠ [] → f.values.get key = (pairs.filter fun pair => pair.1 = key).map Prod.snd

-- The form has each value once, under its key and as a leaf of the tree.
theorem form_decoding_iff {order : FormEntries → FormEntries} (fair : ∀ m, (order m).Perm m) {data : Bytes} (within : WithinLimits opt data) :
    (∃ f, parseFormBytes opt order data = .form f ∧ f.Lists (formPairs data) ∧ (entryLeaves f.tree).Perm ((formPairs data).map Prod.snd)) ↔
      KeepsPairs [] (formPairs data) := by
  have empty : EntriesFull [] := by rw [EntriesFull]; trivial
  rw [parseFormBytes_within within,← keepsPairs_iff fair empty]
  have nothing : entryLeaves [] = [] := by rw [entryLeaves]
  rw [nothing,append_nil]
  refine ⟨?_,?_⟩
  · rintro ⟨f,is,-,leaves⟩
    split at is
    · rename_i t collapsed
      cases is
      exact ⟨t,collapsed,leaves⟩
    · cases is
  · rintro ⟨t,is,leaves⟩
    rw [is]
    refine ⟨_,rfl,?_,leaves⟩
    intro key _
    rw [foldl_add_values]
    rfl
end

instance (opt : CodecOptions) (segment : Bytes) : Decidable (PairWithin opt segment) := by
  unfold PairWithin
  infer_instance

instance (opt : CodecOptions) (data : Bytes) : Decidable (WithinLimits opt data) := by
  unfold WithinLimits
  infer_instance

instance (entries : FormEntries) : Decidable (Dense entries) := by
  unfold Dense
  exact decidable_of_iff ((entries.isEmpty = false) ∧ ∀ entry ∈ entries, (arrayIndex entries.length entry.1).isSome = true) (by rw [isEmpty_eq_false_iff])

-- 0=a: a form whose only key is an index has an array for its root. a=1&a[b]=2: the map for the second key takes the place of the first value.
theorem index_key_panics :
    (WithinLimits {} [48,61,97] ∧ parseFormBytes {} id [48,61,97] = .panics) ∧
      WithinLimits {} [97,61,49,38,97,91,98,93,61,50] ∧ ∃ f, parseFormBytes {} id [97,61,49,38,97,91,98,93,61,50] = .form f ∧ entryLeaves f.tree = [[50]] := by
  exact ⟨⟨by decide,rfl⟩,by decide,_,rfl,by decide⟩

-- a=1&b[x]=2
theorem nested_form_kept : ∃ f, parseFormBytes {} id [97,61,49,38,98,91,120,93,61,50] = .form f ∧
    f.Lists (formPairs [97,61,49,38,98,91,120,93,61,50]) ∧ (entryLeaves f.tree).Perm ((formPairs [97,61,49,38,98,91,120,93,61,50]).map Prod.snd) := by
  refine (form_decoding_iff (fun _ => .refl _) (by decide)).mpr ?_
  have pairs : formPairs [97,61,49,38,98,91,120,93,61,50] = [([97],[49]),([98,91,120,93],[50])] := by decide
  have tree : insertPair (insertPair [] [97] [49]) [98,91,120,93] [50] = [([97],.text [49]),([98],.map [([120],.text [50])])] := rfl
  rw [pairs,KeepsPairs,KeepsPairs,KeepsPairs,tree]
  refine ⟨fun nested => absurd nested (by decide),fun _ => ?_,by decide,?_⟩
  · exact opens_none rfl
  · simp only [EntriesCollapse,Collapses,and_true,true_and]
    exact fun dense => absurd dense (by decide)
end FhServer

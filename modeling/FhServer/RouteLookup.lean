import FhServer.RouteSearch

namespace FhServer
open GoBytes List

def segmentsFrom (fresh : Bool) : Bytes → List LookupSegment
  | [] => []
  | c :: rest =>
    if c = slash then segmentsFrom true rest
    else if fresh then ⟨(c :: rest).takeWhile (· != slash),c :: rest⟩ :: segmentsFrom false rest
    else segmentsFrom false rest

def pathSegments (path : Bytes) : List LookupSegment := segmentsFrom true path

example : (pathSegments (ascii "//a/bc//")).map (·.text) = [ascii "a",ascii "bc"] := by decide

def trailingSlash (path : Bytes) : Bool := !(pathSegments path).isEmpty && path.getLast? == some slash

section
open List
variable {path behind : Bytes}

theorem pathSegments_slash (rest : Bytes) : pathSegments (slash :: rest) = pathSegments rest := by
  rw [pathSegments,segmentsFrom,if_pos rfl,pathSegments]

theorem pathSegments_slashes (path : Bytes) : pathSegments (path.dropWhile (· == slash)) = pathSegments path := by
  induction path with
  | nil => rfl
  | cons c rest ih =>
    by_cases here : c = slash
    · rw [dropWhile_cons_of_pos (by simp [here]),ih,pathSegments,pathSegments,segmentsFrom,if_pos here]
    · rw [dropWhile_cons_of_neg (by simp [here])]

theorem segmentsFrom_inside (path : Bytes) : segmentsFrom false path = pathSegments (path.dropWhile (· != slash)) := by
  induction path with
  | nil => rfl
  | cons c rest ih =>
    rw [segmentsFrom]
    by_cases here : c = slash
    · rw [if_pos here,dropWhile_cons_of_neg (by simp [here]),pathSegments,segmentsFrom,if_pos here]
    · rw [if_neg here,dropWhile_cons_of_pos (by simp [here]),ih]
      rfl

theorem pathSegments_first (rest : Bytes) (first : c ≠ slash) :
    pathSegments (c :: rest) = ⟨(c :: rest).takeWhile (· != slash),c :: rest⟩ :: pathSegments (rest.dropWhile (· != slash)) := by
  rw [pathSegments,segmentsFrom,if_neg first,if_pos rfl,segmentsFrom_inside]

section
variable (free : queryMark ∉ path) (tail : behind = [] ∨ behind.head? = some queryMark)
include free tail

theorem takeWhile_free :
    (path ++ behind).takeWhile (fun c => c != queryMark && c != slash) = path.takeWhile (· != slash) := by
  induction path with
  | nil =>
    cases behind with
    | nil => rfl
    | cons c rest =>
      have query : c = queryMark := by simpa using tail
      rw [nil_append,takeWhile_cons_of_neg (by simp [query])]
      rfl
  | cons c rest ih =>
    rw [mem_cons,not_or] at free
    obtain ⟨other,later⟩ := free
    by_cases here : c = slash
    · rw [cons_append,takeWhile_cons_of_neg (by simp [here]),takeWhile_cons_of_neg (by simp [here])]
    · rw [cons_append,takeWhile_cons_of_pos (by simp [here,Ne.symm other]),takeWhile_cons_of_pos (by simp [here]),ih later]

theorem routeLookupPath_free : routeLookupPath (path ++ behind) = path := by
  rw [routeLookupPath,before]
  cases behind with
  | nil => rw [append_nil,indexByte_none.mpr free]
  | cons c rest =>
    have query : c = queryMark := by simpa using tail
    rw [query,indexByte_first free]
    exact take_left

theorem nextSegment_free :
    nextSegment (path ++ behind) = (path.takeWhile (· != slash),
      match path.dropWhile (· != slash) with
      | [] => []
      | _ :: rest => (rest ++ behind).dropWhile (· == slash)) := by
  have text := takeWhile_free free tail
  have drop : (path ++ behind).drop (path.takeWhile (· != slash)).length = path.dropWhile (· != slash) ++ behind := by
    have cut : ∀ {first rest : Bytes}, first ++ rest = path → (path ++ behind).drop first.length = rest ++ behind := by
      rintro first rest rfl
      rw [append_assoc,drop_left]
    exact cut takeWhile_append_dropWhile
  rw [nextSegment,text,drop]
  cases left : path.dropWhile (· != slash) with
  | nil =>
    rcases tail with rfl | query
    · rfl
    cases behind with
    | nil => rfl
    | cons c rest =>
      obtain rfl : c = queryMark := by simpa using query
      rfl
  | cons c rest =>
    have stop := head?_dropWhile_not (· != slash) path
    rw [left] at stop
    obtain rfl : c = slash := by simpa using stop
    rfl
end

theorem dropWhile_behind (tail : behind = [] ∨ behind.head? = some queryMark) :
    (path ++ behind).dropWhile (· == slash) = path.dropWhile (· == slash) ++ behind := by
  rw [dropWhile_append]
  split
  · rename_i all
    rw [List.isEmpty_iff] at all
    rw [all,nil_append]
    cases behind with
    | nil => rfl
    | cons c rest =>
      obtain rfl : c = queryMark := by simpa using tail
      rfl
  · rfl

theorem dropWhile_clean (path : Bytes) : (path.dropWhile (· == slash)).head? ≠ some slash := by
  intro first
  have kept := head?_dropWhile_not (· == slash) path
  rw [first] at kept
  cases kept

theorem last_slashes (path : Bytes) : (slash :: path).getLast?.any (· != slash) = (path.dropWhile (· == slash)).getLast?.any (· != slash) := by
  induction path with
  | nil => rfl
  | cons c rest ih =>
    rw [getLast?_cons_cons]
    by_cases here : c = slash
    · rw [here,dropWhile_cons_of_pos (by simp),ih]
    · rw [dropWhile_cons_of_neg (by simp [here])]

theorem readLookupLoop_split (behind : Bytes) (fuel : Nat) : ∀ {path : Bytes}, queryMark ∉ path → path.head? ≠ some slash → (path ++ behind).length < fuel →
    behind = [] ∨ behind.head? = some queryMark →
    readLookupLoop fuel (path ++ behind) = ⟨pathSegments path,behind.isEmpty || path.getLast?.any (· != slash)⟩ := by
  induction fuel with
  | zero =>
    intro path _ _ enough
    exact absurd enough (Nat.not_lt_zero _)
  | succ fuel ih =>
    intro path free clean enough tail
    rw [readLookupLoop,nextSegment_free free tail,routeLookupPath_free free tail]
    cases path with
    | nil =>
      cases behind with
      | nil => rfl
      | cons c rest => rfl
    | cons c rest =>
      have first : c ≠ slash := fun same => clean (congrArg some same)
      rw [if_neg (by simp)]
      dsimp only
      rw [pathSegments_first rest first,takeWhile_cons_of_pos (by simp [first]),if_neg (by simp),dropWhile_cons_of_pos (by simp [first])]
      have whole : rest = rest.takeWhile (· != slash) ++ rest.dropWhile (· != slash) := takeWhile_append_dropWhile.symm
      cases left : rest.dropWhile (· != slash) with
      | nil =>
        have last : (c :: rest).getLast?.any (· != slash) = true := by
          obtain ⟨last,there⟩ : ∃ last, (c :: rest).getLast? = some last := ⟨_,getLast?_eq_some_getLast (cons_ne_nil c rest)⟩
          rw [there]
          have solid := dropWhile_eq_nil_iff.mp left
          rcases mem_cons.mp (mem_of_getLast? there) with rfl | inside
          · simp [first]
          · exact solid last inside
        rw [last,Bool.or_true]
        cases fuel <;> rfl
      | cons d later =>
        have stop := head?_dropWhile_not (· != slash) rest
        rw [left] at stop whole
        obtain rfl : d = slash := by simpa using stop
        have inside : later ⊆ c :: rest := by
          rw [whole]
          exact fun x mem => mem_cons_of_mem _ (mem_append_right _ (mem_cons_of_mem _ mem))
        have size : (later.dropWhile (· == slash)).length ≤ later.length := length_dropWhile_le _ _
        have sizes : later.length+2 ≤ (c :: rest).length := by
          have lengths := congrArg length whole
          rw [length_append,length_cons] at lengths
          rw [length_cons]
          lia
        dsimp only
        rw [dropWhile_behind tail,ih (fun mem => free (inside (dropWhile_subset _ mem))) ?_ ?_ tail]
        · have last : (c :: rest).getLast? = (slash :: later).getLast? := by
            rw [whole,← cons_append]
            exact getLast?_append_of_ne_nil _ (cons_ne_nil slash later)
          rw [last,last_slashes,pathSegments_slashes,pathSegments_slash]
        · exact dropWhile_clean later
        · rw [length_append] at enough ⊢
          lia

theorem segments_empty (path : Bytes) : pathSegments path = [] ↔ path.dropWhile (· == slash) = [] := by
  rw [← pathSegments_slashes]
  cases left : path.dropWhile (· == slash) with
  | nil => simp [pathSegments,segmentsFrom]
  | cons c rest =>
    have first : c ≠ slash := fun same => dropWhile_clean path (by rw [left,same]; rfl)
    simp [pathSegments_first rest first]

theorem cleanLookupPath_first (stripped : path.dropWhile (· == slash) = c :: rest) (first : c ≠ queryMark) :
    cleanLookupPath path = c :: rest := by
  unfold cleanLookupPath
  rw [stripped]
  split
  · rename_i same
    cases same
    exact absurd rfl first
  · rfl

theorem readLookup_path (free : queryMark ∉ path) : readLookup (cleanLookupPath path) = ⟨pathSegments path,true⟩ := by
  have clean : cleanLookupPath path = path.dropWhile (· == slash) := by
    cases left : path.dropWhile (· == slash) with
    | nil => rw [cleanLookupPath,left]
    | cons c rest =>
      refine cleanLookupPath_first left fun same => free (dropWhile_subset (· == slash) ?_)
      rw [left,same]
      exact mem_cons_self ..
  have whole := readLookupLoop_split [] ((path.dropWhile (· == slash)).length+1)
    (fun mem => free (dropWhile_subset _ mem)) (dropWhile_clean path) (by simp) (.inl rfl)
  rw [append_nil,pathSegments_slashes] at whole
  rw [clean]
  exact whole

theorem readLookup_query (free : queryMark ∉ path) (query : Bytes) :
    readLookup (cleanLookupPath (path ++ queryMark :: query)) = ⟨pathSegments path,!trailingSlash path⟩ := by
  have stripped : (path ++ queryMark :: query).dropWhile (· == slash) = path.dropWhile (· == slash) ++ queryMark :: query :=
    dropWhile_behind (.inr rfl)
  cases left : path.dropWhile (· == slash) with
  | nil =>
    have clean : cleanLookupPath (path ++ queryMark :: query) = [] := by
      rw [cleanLookupPath,stripped,left]
      rfl
    have nothing := (segments_empty path).mpr left
    rw [clean,nothing,trailingSlash,nothing]
    rfl
  | cons c rest =>
    have inside : ∀ x ∈ c :: rest, x ∈ path := fun x mem => dropWhile_subset (· == slash) (left ▸ mem)
    have clean : cleanLookupPath (path ++ queryMark :: query) = (c :: rest) ++ queryMark :: query := by
      rw [left] at stripped
      exact cleanLookupPath_first stripped fun same => free (same ▸ inside c (mem_cons_self ..))
    have whole := readLookupLoop_split (queryMark :: query) (((c :: rest) ++ queryMark :: query).length+1) (fun mem => free (inside _ mem))
      (left ▸ dropWhile_clean path) (Nat.lt_succ_self _) (.inr rfl)
    have segments : pathSegments (c :: rest) = pathSegments path := by rw [← left,pathSegments_slashes]
    have last : path.getLast? = (c :: rest).getLast? := by
      rw [← left]
      nth_rewrite 1 [← takeWhile_append_dropWhile (p := (· == slash)) (l := path)]
      exact getLast?_append_of_ne_nil _ (by rw [left]; exact cons_ne_nil c rest)
    rw [clean,readLookup,whole,segments,trailingSlash,last]
    have full : (pathSegments path).isEmpty = false := by
      rw [← segments,pathSegments_first rest fun same => dropWhile_clean path (by rw [left,same]; rfl)]
      rfl
    obtain ⟨final,there⟩ : ∃ final, (c :: rest).getLast? = some final := ⟨_,getLast?_eq_some_getLast (cons_ne_nil c rest)⟩
    rw [full,there]
    rfl

theorem routeLookupPath_split (path : Bytes) : queryMark ∉ routeLookupPath path ∧
    (queryMark ∉ path ∧ routeLookupPath path = path ∨ ∃ query, path = routeLookupPath path ++ queryMark :: query) := by
  rw [routeLookupPath,before]
  cases there : indexByte path queryMark with
  | none =>
    have free := indexByte_none.mp there
    exact ⟨free,.inl ⟨free,rfl⟩⟩
  | some i =>
    obtain ⟨text,query,rfl,free,rfl⟩ := indexByte_split there
    dsimp only
    rw [take_left]
    exact ⟨free,.inr ⟨query,rfl⟩⟩

-- What a search sees of a path, and of a target: its path, in which nothing ends when the query stands behind a slash.
def pathLookup (path : Bytes) : LookupPath := ⟨pathSegments path,true⟩

def targetLookup (target : Bytes) : LookupPath :=
  ⟨pathSegments (routeLookupPath target),!(decide (queryMark ∈ target) && trailingSlash (routeLookupPath target))⟩

theorem targetLookup_free (free : queryMark ∉ path) : targetLookup path = pathLookup path := by
  have same : routeLookupPath path = path := by
    have cut := routeLookupPath_free free (.inl rfl)
    rw [append_nil] at cut
    exact cut
  rw [targetLookup,same,decide_eq_false free]
  rfl

theorem readLookup_target (target : Bytes) : readLookup (cleanLookupPath target) = targetLookup target := by
  obtain ⟨free,⟨bare,same⟩ | ⟨query,whole⟩⟩ := routeLookupPath_split target
  · rw [readLookup_path bare,targetLookup_free bare]
    rfl
  have marked : queryMark ∈ target := by
    rw [whole]
    exact mem_append_right _ (mem_cons_self ..)
  rw [targetLookup,decide_eq_true marked,Bool.true_and]
  nth_rewrite 1 [whole]
  exact readLookup_query free query

def joinSegments (segments : List Bytes) : Bytes := segments.flatMap (slash :: ·)

def joinedSegments (tail : Bytes) : List Bytes → List LookupSegment
  | [] => pathSegments tail
  | seg :: later => ⟨seg,seg ++ (joinSegments later ++ tail)⟩ :: joinedSegments tail later

theorem joinSegments_cut {tail : Bytes} (cut : tail = [] ∨ tail.head? = some slash) (segments : List Bytes) :
    joinSegments segments ++ tail = [] ∨ (joinSegments segments ++ tail).head? = some slash := by
  cases segments with
  | nil => exact cut
  | cons seg later => exact .inr rfl

theorem cut_segment {tail : Bytes} (solid : slash ∉ seg) (cut : tail = [] ∨ tail.head? = some slash) :
    (seg ++ tail).takeWhile (· != slash) = seg ∧ (seg ++ tail).dropWhile (· != slash) = tail := by
  have inside : ∀ c ∈ seg, (c != slash) = true := fun c mem => bne_iff_ne.mpr fun same => solid (same ▸ mem)
  have outside : tail.takeWhile (· != slash) = [] ∧ tail.dropWhile (· != slash) = tail := by
    cases tail with
    | nil => exact ⟨rfl,rfl⟩
    | cons c rest =>
      obtain rfl : c = slash := by simpa using cut
      exact ⟨rfl,rfl⟩
  rw [takeWhile_append_of_pos inside,dropWhile_append_of_pos inside,outside.1,outside.2,append_nil]
  exact ⟨rfl,rfl⟩

theorem pathSegments_join {tail : Bytes} (cut : tail = [] ∨ tail.head? = some slash) {segments : List Bytes}
    (solid : ∀ seg ∈ segments, seg ≠ [] ∧ slash ∉ seg) : pathSegments (joinSegments segments ++ tail) = joinedSegments tail segments := by
  induction segments with
  | nil => rfl
  | cons seg later ih =>
    obtain ⟨⟨nonempty,whole⟩,solid⟩ := forall_mem_cons.mp solid
    obtain ⟨taken,left⟩ := cut_segment whole (joinSegments_cut cut later)
    have text : joinSegments (seg :: later) ++ tail = slash :: (seg ++ (joinSegments later ++ tail)) := by
      rw [joinSegments,flatMap_cons,← joinSegments,append_assoc,cons_append]
    rw [text,pathSegments_slash,joinedSegments,← ih solid]
    cases seg with
    | nil => exact absurd rfl nonempty
    | cons c rest =>
      have first : c ≠ slash := fun same => whole (same ▸ mem_cons_self ..)
      rw [cons_append] at taken left ⊢
      rw [dropWhile_cons_of_pos (by simp [first])] at left
      rw [pathSegments_first _ first,taken,left]

theorem splitSlash_cons (c : UInt8) (rest : Bytes) : splitSlash (c :: rest) =
    if c = slash then [] :: splitSlash rest else (splitSlash rest).modifyHead (c :: ·) := by
  rw [splitSlash,splitOn,splitOnP_cons_eq_if_modifyHead]
  exact if_congr beq_iff_eq rfl rfl

theorem splitSlash_join (rest : Bytes) : joinSegments (splitSlash rest) = slash :: rest ∧ ∀ seg ∈ splitSlash rest, slash ∉ seg := by
  induction rest with
  | nil => exact ⟨rfl,by simp [splitSlash]⟩
  | cons c rest ih =>
    obtain ⟨joined,solid⟩ := ih
    rw [splitSlash_cons]
    split
    · rename_i here
      subst here
      rw [joinSegments,flatMap_cons,← joinSegments,joined]
      exact ⟨rfl,forall_mem_cons.mpr ⟨not_mem_nil,solid⟩⟩
    · rename_i other
      cases pieces : splitSlash rest with
      | nil =>
        rw [pieces] at joined
        cases joined
      | cons piece pieces' =>
        rw [pieces] at joined solid
        rw [joinSegments,flatMap_cons,← joinSegments,cons_append,cons.injEq] at joined
        obtain ⟨first,later⟩ := forall_mem_cons.mp solid
        refine ⟨?_,forall_mem_cons.mpr ⟨fun mem => ?_,later⟩⟩
        · rw [modifyHead_cons,joinSegments,flatMap_cons,← joinSegments,cons_append,cons_append,joined.2]
        · rcases mem_cons.mp mem with same | mem
          · exact other same.symm
          · exact first mem
end
end FhServer

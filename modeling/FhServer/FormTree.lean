import FhServer.GoNumbers
import FhServer.RoutePattern
import FhServer.Table

namespace FhServer
open GoBytes List

-- What stands in a Form's tree: a string, a []string, a []any or a map. A hole is the nil of a []any that was made too long.
inductive FormNode where
  | text (s : Bytes)
  | texts (list : List Bytes)
  | items (list : List FormNode)
  | map (entries : List (Bytes × FormNode))
  | hole

abbrev FormEntries := List (Bytes × FormNode)

namespace FormNode

mutual

def leaves : FormNode → List Bytes
  | .text s => [s]
  | .texts list => list
  | .items list => listLeaves list
  | .map entries => entryLeaves entries
  | .hole => []

def listLeaves : List FormNode → List Bytes
  | [] => []
  | node :: list => node.leaves ++ listLeaves list

def entryLeaves : FormEntries → List Bytes
  | [] => []
  | (_,node) :: entries => node.leaves ++ entryLeaves entries
end

def get (entries : FormEntries) (key : Bytes) : Option FormNode := entries.lookup key

def put (key : Bytes) (node : FormNode) : FormEntries → FormEntries
  | [] => [(key,node)]
  | entry :: entries => if entry.1 = key then (key,node) :: entries else entry :: put key node entries
end FormNode
open FormNode

def parseBracketPathLoop (key : Bytes) : Nat → Nat → List Bytes → Bytes → List Bytes
  | start,_,parts,[] => if start < key.length then parts ++ [key.drop start] else parts
  | start,i,parts,c :: rest =>
    if c = 91 then parseBracketPathLoop key (i+1) (i+1) (if start < i then parts ++ [(key.take i).drop start] else parts) rest
    else if c = 93 then parseBracketPathLoop key (i+1) (i+1) (parts ++ [(key.take i).drop start]) rest
    else parseBracketPathLoop key start (i+1) parts rest

def parseBracketPath (key : Bytes) : List Bytes :=
  let parts := parseBracketPathLoop key 0 0 [] key
  if parts = [] then [key] else parts

def insertFlat (dest : FormEntries) (key val : Bytes) : FormEntries :=
  match get dest key with
  | some (.texts list) => put key (.texts (list ++ [val])) dest
  | some (.text s) => put key (.texts [s,val]) dest
  | some node => put key (.items [node,.text val]) dest
  | none => put key (.text val) dest

def nextArrayIndexLoop (m : FormEntries) : Nat → Nat → Nat
  | 0,i => i
  | rounds+1,i => if (get m (itoa i)).isSome then nextArrayIndexLoop m rounds (i+1) else i

def nextArrayIndex (m : FormEntries) : Nat := nextArrayIndexLoop m (m.length+1) 0

def indexedKey (m : FormEntries) (key : Bytes) : Bytes := if key = [] then itoa (nextArrayIndex m) else key

def insertNested (dest : FormEntries) : List Bytes → Bytes → FormEntries
  | [],_ => dest
  | [last],val => insertFlat dest (indexedKey dest last) val
  | k :: path,val =>
    let k := indexedKey dest k
    match get dest k with
    | some (.map inner) => put k (.map (insertNested inner path val)) dest
    | _ => put k (.map (insertNested [] path val)) dest

def atoi : Bytes → Option Int
  | 45 :: digits => (GoText.decimal digits).bind fun n => if n ≤ 2^63 then some (-n) else none
  | 43 :: digits => (GoText.decimal digits).bind fun n => if n < 2^63 then some n else none
  | digits => (GoText.decimal digits).bind fun n => if n < 2^63 then some n else none

def arrayIndex (length : Nat) (key : Bytes) : Option Nat :=
  (atoi key).bind fun i => if i < 0 ∨ length ≤ i then none else some i.toNat

def denseLoop (length : Nat) : FormEntries → List FormNode → Option (List FormNode)
  | [],arr => some arr
  | (k,v) :: rest,arr =>
    match arrayIndex length k with
    | some i => denseLoop length rest (arr.set i v)
    | none => none

section
-- The order in which range goes over a map.
variable (order : FormEntries → FormEntries)

def mapAsDenseArray (m : FormEntries) : Option (List FormNode) :=
  if m = [] then none else denseLoop m.length (order m) (replicate m.length .hole)

mutual

def collapseArrays : FormNode → FormNode
  | .map entries =>
    match mapAsDenseArray order (collapseEntries entries) with
    | some arr => .items arr
    | none => .map (collapseEntries entries)
  | .text s => .text s
  | .texts list => .texts list
  | .items list => .items list
  | .hole => .hole

def collapseEntries : FormEntries → FormEntries
  | [] => []
  | (k,child) :: entries => (k,collapseArrays child) :: collapseEntries entries
end
end

def urlDecodeLoop : Nat → Bytes → Bytes
  | 0,_ => []
  | rounds+1,b =>
    match b with
    | [] => []
    | 43 :: rest => 32 :: urlDecodeLoop rounds rest
    | 37 :: h :: l :: rest =>
      match hexDigit h,hexDigit l with
      | some a,some b => UInt8.ofNat (16*a+b) :: urlDecodeLoop rounds rest
      | _,_ => 37 :: urlDecodeLoop rounds (h :: l :: rest)
    | c :: rest => c :: urlDecodeLoop rounds rest

def urlDecode (b : Bytes) : Bytes := urlDecodeLoop b.length b

structure CodecOptions where
  maxFormPairs : Nat := 10000
  maxFormKeyBytes : Nat := 4*1024
  maxFormValueBytes : Nat := 4*1024*1024
  maxFormDepth : Nat := 32

inductive FormError where
  | tooManyPairs
  | keyTooLarge
  | valueTooLarge
  | tooDeep

structure Form where
  values : Table Bytes (List Bytes) [] := .empty
  tree : FormEntries := []

inductive FormOutcome where
  | form (f : Form)
  | error (e : FormError)
  | panics

def hasBracket (key : Bytes) : Bool := key.contains 91 || key.contains 93

def insertPair (tree : FormEntries) (key val : Bytes) : FormEntries :=
  if hasBracket key then insertNested tree (parseBracketPath key) val else insertFlat tree key val

def rawPair (segment : Bytes) : Bytes × Bytes := (segment.takeWhile (· != 61),(segment.dropWhile (· != 61)).drop 1)

def decodedPair (segment : Bytes) : Bytes × Bytes := (urlDecode (rawPair segment).1,urlDecode (rawPair segment).2)

def formStep (opt : CodecOptions) (f : Form) (segment : Bytes) : Except FormError Form :=
  let (rawK,rawV) := rawPair segment
  if opt.maxFormKeyBytes < rawK.length then .error .keyTooLarge
  else if opt.maxFormValueBytes < rawV.length then .error .valueTooLarge
  else
    let key := urlDecode rawK
    let val := urlDecode rawV
    if key = [] then .ok f
    else if hasBracket key && decide (opt.maxFormDepth < (parseBracketPath key).length) then .error .tooDeep
    else .ok ⟨f.values.set key (f.values.get key ++ [val]),insertPair f.tree key val⟩

def segments (data : Bytes) : List Bytes := (data.splitOn 38).filter (· ≠ [])

def parseFormBytes (opt : CodecOptions) (order : FormEntries → FormEntries) (data : Bytes) : FormOutcome :=
  if data = [] then .form {}
  else if opt.maxFormPairs < (data.splitOn 38).length then .error .tooManyPairs
  else
    match (segments data).foldlM (formStep opt) {} with
    | .error e => .error e
    | .ok f =>
      match collapseArrays order (.map f.tree) with
      | .map tree => .form ⟨f.values,tree⟩
      | _ => .panics

def formPairs (data : Bytes) : List (Bytes × Bytes) :=
  ((segments data).map fun segment => (urlDecode (rawPair segment).1,urlDecode (rawPair segment).2)).filter fun pair => pair.1 ≠ []

def Opens (dest : FormEntries) : List Bytes → Prop
  | [] | [_] => True
  | k :: path =>
    match get dest (indexedKey dest k) with
    | none => True
    | some (.map inner) => Opens inner path
    | some _ => False

def OpensPair (tree : FormEntries) (key : Bytes) : Prop := hasBracket key = true → Opens tree (parseBracketPath key)

def Dense (entries : FormEntries) : Prop := entries ≠ [] ∧ ∀ entry ∈ entries, (arrayIndex entries.length entry.1).isSome = true

def Spread (entries : FormEntries) : Prop := (entries.map fun entry => arrayIndex entries.length entry.1).Nodup

mutual

def Collapses : FormNode → Prop
  | .map entries => EntriesCollapse entries ∧ (Dense entries → Spread entries)
  | .text _ | .texts _ | .items _ | .hole => True

def EntriesCollapse : FormEntries → Prop
  | [] => True
  | (_,child) :: entries => Collapses child ∧ EntriesCollapse entries
end

def KeepsPairs (tree : FormEntries) : List (Bytes × Bytes) → Prop
  | [] => ¬ Dense tree ∧ EntriesCollapse tree
  | (key,val) :: pairs => OpensPair tree key ∧ KeepsPairs (insertPair tree key val) pairs

section
variable {entries : FormEntries} {key val : Bytes} {node old : FormNode}

theorem listLeaves_eq (list : List FormNode) : listLeaves list = list.flatMap leaves := by
  induction list with
  | nil => rw [listLeaves]; rfl
  | cons node list ih => rw [listLeaves,ih,flatMap_cons]

theorem entryLeaves_eq (entries : FormEntries) : entryLeaves entries = entries.flatMap fun entry => entry.2.leaves := by
  induction entries with
  | nil => rw [entryLeaves]; rfl
  | cons entry entries ih => rw [entryLeaves,ih,flatMap_cons]

theorem leaves_map : (FormNode.map entries).leaves = entryLeaves entries := by rw [leaves]

theorem leaves_text : (FormNode.text val).leaves = [val] := by rw [leaves]

theorem get_cons (entry : Bytes × FormNode) (entries : FormEntries) (key : Bytes) :
    get (entry :: entries) key = if entry.1 = key then some entry.2 else get entries key := by
  rw [FormNode.get,lookup_cons]
  by_cases same : entry.1 = key
  · rw [if_pos same,same,beq_self_eq_true]
  · rw [if_neg same,beq_eq_false_iff_ne.mpr (Ne.symm same)]
    rfl

theorem get_mem (found : get entries key = some node) : (key,node) ∈ entries := by
  induction entries with
  | nil => cases found
  | cons entry entries ih =>
    rw [get_cons] at found
    split at found
    · rename_i same
      cases found
      rw [← same]
      exact mem_cons_self
    · exact mem_cons_of_mem _ (ih found)

theorem put_leaves (node : FormNode) (found : get entries key = some old) :
    (entryLeaves (put key node entries) ++ old.leaves).Perm (node.leaves ++ entryLeaves entries) := by
  induction entries with
  | nil => cases found
  | cons entry entries ih =>
    rw [get_cons] at found
    rw [put]
    split
    · rename_i same
      rw [if_pos same] at found
      cases found
      rw [entryLeaves,entryLeaves,append_assoc]
      exact perm_append_comm.append_left _
    · rename_i other
      rw [if_neg other] at found
      rw [entryLeaves,entryLeaves,append_assoc]
      refine ((ih found).append_left entry.2.leaves).trans ?_
      rw [← append_assoc,← append_assoc]
      exact perm_append_comm.append_right _

theorem put_new (node : FormNode) (free : get entries key = none) : (entryLeaves (put key node entries)).Perm (node.leaves ++ entryLeaves entries) := by
  induction entries with
  | nil => simp [put,entryLeaves]
  | cons entry entries ih =>
    rw [get_cons] at free
    split at free
    · cases free
    rename_i other
    rw [put,if_neg other,entryLeaves,entryLeaves]
    refine ((ih free).append_left entry.2.leaves).trans ?_
    rw [← append_assoc,← append_assoc]
    exact perm_append_comm.append_right _

theorem insertFlat_leaves (dest : FormEntries) (key val : Bytes) : (entryLeaves (insertFlat dest key val)).Perm (val :: entryLeaves dest) := by
  have replaces : ∀ {old new : FormNode}, get dest key = some old → new.leaves = old.leaves ++ [val] →
      (entryLeaves (put key new dest)).Perm (val :: entryLeaves dest) := by
    intro old new found more
    have changed := put_leaves new found
    rw [more,append_assoc] at changed
    have cancelled : (entryLeaves (put key new dest)).Perm ([val] ++ entryLeaves dest) := by
      refine (perm_append_left_iff old.leaves).mp (List.Perm.trans ?_ changed)
      exact perm_append_comm
    exact cancelled
  rw [insertFlat]
  cases found : get dest key with
  | none =>
    have new := put_new (.text val) found
    rwa [leaves_text] at new
  | some old =>
    cases old with
    | texts list =>
      refine replaces found ?_
      rw [leaves,leaves]
    | text s =>
      refine replaces found ?_
      rfl
    | items list | map inner | hole =>
      refine replaces found ?_
      rw [leaves,listLeaves,listLeaves,listLeaves,leaves_text,append_nil]

theorem opens_empty (path : List Bytes) : Opens [] path := by
  match path with
  | [] => trivial
  | [_] => trivial
  | _ :: _ :: _ =>
    rw [Opens]
    · trivial
    · exact nofun

section
variable {dest inner : FormEntries} {k next : Bytes} {path : List Bytes}

theorem insertNested_map (found : get dest (indexedKey dest k) = some (.map inner)) (val : Bytes) :
    insertNested dest (k :: next :: path) val = put (indexedKey dest k) (.map (insertNested inner (next :: path) val)) dest := by
  simp [insertNested,found]

theorem insertNested_other (other : ∀ inner, get dest (indexedKey dest k) ≠ some (.map inner)) (val : Bytes) :
    insertNested dest (k :: next :: path) val = put (indexedKey dest k) (.map (insertNested [] (next :: path) val)) dest := by
  simp [insertNested]

theorem opens_map (found : get dest (indexedKey dest k) = some (.map inner)) : Opens dest (k :: next :: path) ↔ Opens inner (next :: path) := by
  simp [Opens,found]

theorem opens_none (found : get dest (indexedKey dest k) = none) : Opens dest (k :: next :: path) := by
  simp [Opens,found]

theorem opens_blocked (found : get dest (indexedKey dest k) = some node) (other : ∀ inner, node ≠ .map inner) : ¬ Opens dest (k :: next :: path) := by
  simp only [Opens,found]
  cases node with
  | map inner => exact absurd rfl (other inner)
  | text s => exact id
  | texts list => exact id
  | items list => exact id
  | hole => exact id
end

theorem insertNested_leaves (some : path ≠ []) (opens : Opens dest path) (val : Bytes) :
    (entryLeaves (insertNested dest path val)).Perm (val :: entryLeaves dest) := by
  induction path generalizing dest with
  | nil => exact absurd rfl some
  | cons k path ih =>
    cases path with
    | nil => exact insertFlat_leaves dest (indexedKey dest k) val
    | cons next path =>
      have more : next :: path ≠ [] := cons_ne_nil _ _
      cases found : get dest (indexedKey dest k) with
      | none =>
        rw [insertNested_other (fun inner is => by rw [found] at is; cases is)]
        refine (put_new _ found).trans ?_
        have one := ih more (opens_empty (next :: path))
        exact one.append_right (entryLeaves dest)
      | some node =>
        by_cases map : ∃ inner, node = .map inner
        · obtain ⟨inner,rfl⟩ := map
          rw [insertNested_map found]
          have changed := put_leaves (.map (insertNested inner (next :: path) val)) found
          have deeper := ih more ((opens_map found).mp opens)
          refine (perm_append_right_iff (entryLeaves inner)).mp (changed.trans ?_)
          refine (deeper.append_right (entryLeaves dest)).trans ?_
          exact perm_append_comm.cons val
        · exact absurd opens (opens_blocked found fun inner is => map ⟨inner,is⟩)
end
end FhServer

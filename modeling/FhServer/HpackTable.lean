import FhServer.HpackWire

namespace FhServer
open List Function

@[ext] structure HeaderField where
  name : Bytes
  value : Bytes
  sensitive : Bool := false
deriving DecidableEq

namespace HeaderField

def listSize (f : HeaderField) : Nat := f.name.length+f.value.length+32
def size (f : HeaderField) : UInt32 := UInt32.ofNat f.listSize
def pair (f : HeaderField) : Bytes × Bytes := (f.name,f.value)
end HeaderField

-- byName and byNameValue are maps from a key to the id of the newest entry with that key; 0 is an absent key.
-- Entry k has id evictCount+k+1.
def Indexes (key : HeaderField → κ) (evictCount : Nat) (ents : List HeaderField) (ids : κ → Nat) : Prop :=
  ∀ x, ids x ≠ 0 → ∃ k f, ids x = evictCount+k+1 ∧ ents[k]? = some f ∧ key f = x

def forget [DecidableEq κ] (key : HeaderField → κ) : Nat → Nat → List HeaderField → (κ → Nat) → κ → Nat
  | _,0,_,ids => ids
  | _,_,[],ids => ids
  | id,n+1,f :: rest,ids => forget key (id+1) n rest (if ids (key f) = id then update ids (key f) 0 else ids)

theorem Indexes.add [DecidableEq κ] {key : HeaderField → κ} (indexes : Indexes key evictCount ents ids) (f : HeaderField) :
    Indexes key evictCount (ents ++ [f]) (update ids (key f) (evictCount+ents.length+1)) := by
  intro x present
  by_cases here : x = key f
  · subst here
    rw [update_self]
    exact ⟨ents.length,f,rfl,by simp,rfl⟩
  · rw [update_of_ne here] at present ⊢
    obtain ⟨k,old,id,found,same⟩ := indexes x present
    have below := (List.getElem?_eq_some_iff.mp found).1
    exact ⟨k,old,id,by rw [List.getElem?_append_left below,found],same⟩

theorem Indexes.drop_first [DecidableEq κ] {key : HeaderField → κ} (indexes : Indexes key evictCount (f :: ents) ids) :
    Indexes key (evictCount+1) ents (if ids (key f) = evictCount+1 then update ids (key f) 0 else ids) := by
  intro x present
  have kept : (if ids (key f) = evictCount+1 then update ids (key f) 0 else ids) x = ids x ∧
      ¬(x = key f ∧ ids x = evictCount+1) := by
    by_cases oldest : ids (key f) = evictCount+1
    · rw [if_pos oldest] at present ⊢
      have other : x ≠ key f := by
        intro here
        rw [here,update_self] at present
        exact present rfl
      exact ⟨update_of_ne other _ _,fun both => other both.1⟩
    · rw [if_neg oldest]
      exact ⟨rfl,fun both => oldest (both.1 ▸ both.2)⟩
  rw [kept.1] at present ⊢
  obtain ⟨k,old,id,found,same⟩ := indexes x present
  cases k with
  | zero =>
    rw [List.getElem?_cons_zero,Option.some.injEq] at found
    exact absurd ⟨(found ▸ same).symm,id⟩ kept.2
  | succ k =>
    exact ⟨k,old,by lia,found,same⟩

theorem Indexes.forget [DecidableEq κ] {key : HeaderField → κ} : ∀ {ents : List HeaderField} {n evictCount : Nat} {ids : κ → Nat}, n ≤ ents.length →
    Indexes key evictCount ents ids → Indexes key (evictCount+n) (ents.drop n) (forget key (evictCount+1) n ents ids) := by
  intro ents
  induction ents with
  | nil =>
    intro n evictCount ids within indexes
    obtain rfl : n = 0 := by simpa using within
    exact indexes
  | cons f ents ih =>
    intro n evictCount ids within indexes
    cases n with
    | zero => exact indexes
    | succ n =>
      have rest := ih (by simpa using within) indexes.drop_first
      rw [Nat.add_assoc,Nat.add_comm 1 n] at rest
      exact rest

theorem no_names : Indexes HeaderField.name 0 [] fun _ => 0 := fun _ present => absurd rfl present

theorem no_pairs : Indexes HeaderField.pair 0 [] fun _ => 0 := fun _ present => absurd rfl present

structure HeaderFieldTable where
  ents : List HeaderField := []
  evictCount : Nat := 0
  byName : Bytes → Nat := fun _ => 0
  byNameValue : Bytes × Bytes → Nat := fun _ => 0
  names : Indexes HeaderField.name evictCount ents byName := by exact no_names
  pairs : Indexes HeaderField.pair evictCount ents byNameValue := by exact no_pairs

namespace HeaderFieldTable

def len (t : HeaderFieldTable) : Nat := t.ents.length

def addEntry (t : HeaderFieldTable) (f : HeaderField) : HeaderFieldTable :=
  let id := t.evictCount+t.ents.length+1
  {
    ents := t.ents ++ [f]
    evictCount := t.evictCount
    byName := update t.byName f.name id
    byNameValue := update t.byNameValue f.pair id
    names := t.names.add f
    pairs := t.pairs.add f
  }

def evictOldest (t : HeaderFieldTable) (n : Nat) (within : n ≤ t.ents.length) : HeaderFieldTable where
  ents := t.ents.drop n
  evictCount := t.evictCount+n
  byName := forget HeaderField.name (t.evictCount+1) n t.ents t.byName
  byNameValue := forget HeaderField.pair (t.evictCount+1) n t.ents t.byNameValue
  names := t.names.forget within
  pairs := t.pairs.forget within

-- The source asks whether t is the static table; there the oldest entry has index 1, in a dynamic table the newest.
def idToIndex (isStatic : Bool) (t : HeaderFieldTable) (id : Nat) : Nat :=
  let k := id-t.evictCount-1
  if isStatic then k+1 else t.len-k

def search (isStatic : Bool) (t : HeaderFieldTable) (f : HeaderField) : Nat × Bool :=
  let pairId := t.byNameValue f.pair
  let nameId := t.byName f.name
  if ¬f.sensitive ∧ pairId ≠ 0 then (t.idToIndex isStatic pairId,true)
  else if nameId ≠ 0 then (t.idToIndex isStatic nameId,false)
  else (0,false)

def lookup (isStatic : Bool) (t : HeaderFieldTable) (i : Nat) : Option HeaderField :=
  if i = 0 ∨ t.len < i then none else if isStatic then t.ents[i-1]? else t.ents[t.len-i]?

-- What a search may answer: nothing, the index of an entry of that name, or (for a field that is not sensitive) of one
-- with that name and value.
def Found (lookup : Nat → Option HeaderField) (bound : Nat) (f : HeaderField) (answer : Nat × Bool) : Prop :=
  answer = (0,false) ∨ ∃ found, lookup answer.1 = some found ∧ 0 < answer.1 ∧ answer.1 ≤ bound ∧ found.name = f.name ∧
    (answer.2 = true → f.sensitive = false ∧ found.value = f.value)

theorem lookup_idToIndex {t : HeaderFieldTable} (isStatic : Bool) (id : x = t.evictCount+k+1) (found : t.ents[k]? = some f) :
    0 < t.idToIndex isStatic x ∧ t.idToIndex isStatic x ≤ t.len ∧ t.lookup isStatic (t.idToIndex isStatic x) = some f := by
  have below := (List.getElem?_eq_some_iff.mp found).1
  have position : x-t.evictCount-1 = k := by lia
  cases isStatic with
  | true =>
    simp only [idToIndex,lookup,position,if_true]
    refine ⟨by lia,below,?_⟩
    rw [if_neg (by rw [len]; lia),Nat.add_sub_cancel,found]
  | false =>
    simp only [idToIndex,lookup,position,len,Bool.false_eq_true,if_false]
    refine ⟨by lia,by lia,?_⟩
    rw [if_neg (by lia),Nat.sub_sub_self (by lia),found]

theorem search_found (isStatic : Bool) (t : HeaderFieldTable) (f : HeaderField) :
    Found (t.lookup isStatic) t.len f (t.search isStatic f) := by
  rw [search]
  split
  · rename_i both
    obtain ⟨k,old,id,found,same⟩ := t.pairs f.pair both.2
    obtain ⟨positive,within,entry⟩ := lookup_idToIndex isStatic id found
    rw [HeaderField.pair,HeaderField.pair,Prod.mk.injEq] at same
    exact .inr ⟨old,entry,positive,within,same.1,fun _ => ⟨by simpa using both.1,same.2⟩⟩
  · split
    · rename_i present
      obtain ⟨k,old,id,found,same⟩ := t.names f.name present
      obtain ⟨positive,within,entry⟩ := lookup_idToIndex isStatic id found
      exact .inr ⟨old,entry,positive,within,same,fun whole => absurd whole Bool.false_ne_true⟩
    · exact .inl rfl
end HeaderFieldTable

def staticTableEntries : List HeaderField :=
  let entry (name value : String) : HeaderField := ⟨ascii name,ascii value,false⟩
  [entry ":authority" "",
   entry ":method" "GET",
   entry ":method" "POST",
   entry ":path" "/",
   entry ":path" "/index.html",
   entry ":scheme" "http",
   entry ":scheme" "https",
   entry ":status" "200",
   entry ":status" "204",
   entry ":status" "206",
   entry ":status" "304",
   entry ":status" "400",
   entry ":status" "404",
   entry ":status" "500",
   entry "accept-charset" "",
   entry "accept-encoding" "gzip, deflate",
   entry "accept-language" "",
   entry "accept-ranges" "",
   entry "accept" "",
   entry "access-control-allow-origin" "",
   entry "age" "",
   entry "allow" "",
   entry "authorization" "",
   entry "cache-control" "",
   entry "content-disposition" "",
   entry "content-encoding" "",
   entry "content-language" "",
   entry "content-length" "",
   entry "content-location" "",
   entry "content-range" "",
   entry "content-type" "",
   entry "cookie" "",
   entry "date" "",
   entry "etag" "",
   entry "expect" "",
   entry "expires" "",
   entry "from" "",
   entry "host" "",
   entry "if-match" "",
   entry "if-modified-since" "",
   entry "if-none-match" "",
   entry "if-range" "",
   entry "if-unmodified-since" "",
   entry "last-modified" "",
   entry "link" "",
   entry "location" "",
   entry "max-forwards" "",
   entry "proxy-authenticate" "",
   entry "proxy-authorization" "",
   entry "range" "",
   entry "referer" "",
   entry "refresh" "",
   entry "retry-after" "",
   entry "server" "",
   entry "set-cookie" "",
   entry "strict-transport-security" "",
   entry "transfer-encoding" "",
   entry "user-agent" "",
   entry "vary" "",
   entry "via" "",
   entry "www-authenticate" ""]

def staticTable : HeaderFieldTable := staticTableEntries.foldl HeaderFieldTable.addEntry {}

theorem staticTable_ents : staticTable.ents = staticTableEntries := by
  rfl

theorem staticTable_len : staticTable.len = 61 := by
  rfl

def excess (maxSize : UInt32) : UInt32 → List HeaderField → Nat × UInt32
  | size,[] => (0,size)
  | size,f :: rest =>
    if size > maxSize then
      let (n,left) := excess maxSize (size-f.size) rest
      (n+1,left)
    else (0,size)

theorem excess_le (maxSize : UInt32) : ∀ ents size, (excess maxSize size ents).1 ≤ ents.length := by
  intro ents
  induction ents with
  | nil => intro size; exact le_refl 0
  | cons f ents ih =>
    intro size
    rw [excess]
    split
    · exact Nat.succ_le_succ (ih _)
    · exact Nat.zero_le _

theorem excess_fits (maxSize : UInt32) : ∀ ents size, (excess maxSize size ents).2 ≤ maxSize ∨
    ents.drop (excess maxSize size ents).1 = [] := by
  intro ents
  induction ents with
  | nil => intro size; exact .inr rfl
  | cons f ents ih =>
    intro size
    rw [excess]
    split
    · exact ih _
    · rename_i within
      exact .inl (UInt32.not_lt.mp within)

theorem empty_fits : (0 : UInt32) ≤ 0 ∨ ({} : HeaderFieldTable).ents = [] := .inr rfl

structure DynamicTable where
  table : HeaderFieldTable := {}
  size : UInt32 := 0
  maxSize : UInt32 := 0
  allowedMaxSize : UInt32 := 0
  fits : size ≤ maxSize ∨ table.ents = [] := by exact empty_fits

namespace DynamicTable

def evict (table : HeaderFieldTable) (size maxSize allowedMaxSize : UInt32) : DynamicTable where
  table := table.evictOldest (excess maxSize size table.ents).1 (excess_le _ _ _)
  size := (excess maxSize size table.ents).2
  maxSize := maxSize
  allowedMaxSize := allowedMaxSize
  fits := excess_fits _ _ _

def setMaxSize (dt : DynamicTable) (v : UInt32) : DynamicTable := evict dt.table dt.size v dt.allowedMaxSize

def add (dt : DynamicTable) (f : HeaderField) : DynamicTable :=
  evict (dt.table.addEntry f) (dt.size+f.size) dt.maxSize dt.allowedMaxSize

theorem setMaxSize_below (dt : DynamicTable) (v : UInt32) (below : dt.size ≤ w ∨ dt.table.ents = []) :
    (dt.setMaxSize v).size ≤ w ∨ (dt.setMaxSize v).table.ents = [] := by
  rcases (dt.setMaxSize v).fits with small | none
  · rcases below with low | none
    · by_cases more : dt.size > v
      · exact .inl (UInt32.le_trans small (UInt32.le_trans (UInt32.le_of_lt more) low))
      have same : (dt.setMaxSize v).size = dt.size := by
        simp only [setMaxSize,evict]
        cases dt.table.ents with
        | nil => rfl
        | cons f ents => rw [excess,if_neg more]
      exact .inl (same ▸ low)
    · right
      simp [setMaxSize,evict,HeaderFieldTable.evictOldest,none]
  · exact .inr none

structure Alike (a b : DynamicTable) : Prop where
  ents : a.table.ents = b.table.ents
  size : a.size = b.size

structure Same (a b : DynamicTable) : Prop extends Alike a b where
  maxSize : a.maxSize = b.maxSize

theorem Alike.refl (a : DynamicTable) : Alike a a := ⟨rfl,rfl⟩

theorem Alike.symm (alike : Alike a b) : Alike b a := ⟨alike.ents.symm,alike.size.symm⟩

theorem Alike.setMaxSize (alike : Alike a b) (v : UInt32) : Same (a.setMaxSize v) (b.setMaxSize v) where
  ents := by simp [DynamicTable.setMaxSize,evict,HeaderFieldTable.evictOldest,alike.ents,alike.size]
  size := by simp [DynamicTable.setMaxSize,evict,alike.ents,alike.size]
  maxSize := rfl

theorem Same.add (same : Same a b) (f : HeaderField) : Same (a.add f) (b.add f) where
  ents := by simp [DynamicTable.add,evict,HeaderFieldTable.evictOldest,HeaderFieldTable.addEntry,same.ents,same.size,same.maxSize]
  size := by simp [DynamicTable.add,evict,HeaderFieldTable.addEntry,same.ents,same.size,same.maxSize]
  maxSize := same.maxSize

theorem add_len (dt : DynamicTable) (f : HeaderField) : (dt.add f).table.len ≤ dt.table.len+1 := by
  simp only [add,evict,HeaderFieldTable.evictOldest,HeaderFieldTable.addEntry,HeaderFieldTable.len,length_drop,
    length_append,length_cons,length_nil]
  lia
end DynamicTable
end FhServer

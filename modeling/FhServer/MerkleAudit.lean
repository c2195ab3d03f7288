import FhServer.AuditEvents
import FhServer.HashTree

namespace FhServer.Audit
open GoBytes HashTree List

structure AuditLeaf where
  eventHash : Bytes
  data : Bytes

structure MerkleCheckpoint where
  sequence : UInt64
  rootHash : Bytes
  eventCount : Nat
  prevCheckpointHash : Bytes

section
-- The hexadecimal text of the SHA-256 sum.
variable (hash : Bytes → Bytes)

def emptyRootHash : Bytes := hash []

def combine (left right : Bytes) : Bytes := hash (left ++ right)

def buildMerkleRoot (hashes : List Bytes) : Bytes :=
  if hashes = [] then emptyRootHash hash else (climb (combine hash) hashes.length hashes).getD []

def auditLeaf (e : AuditEvent) : Option AuditLeaf := e.marshal.map fun b => ⟨hash b,b⟩

def checkpoint (leaves : List AuditLeaf) (sequence : UInt64) (prevRoot : Bytes) : MerkleCheckpoint :=
  ⟨sequence,buildMerkleRoot hash (leaves.map AuditLeaf.eventHash),leaves.length,prevRoot⟩

def verifyCheckpoint (cp : MerkleCheckpoint) (eventHashes : List Bytes) : Bool :=
  if eventHashes = [] then cp.rootHash == emptyRootHash hash else buildMerkleRoot hash eventHashes == cp.rootHash
end

def IsHash (text : Bytes) : Prop := text.length = 64 ∧ ∀ c ∈ text, (48 ≤ c ∧ c ≤ 57) ∨ (97 ≤ c ∧ c ≤ 102)

instance (text : Bytes) : Decidable (IsHash text) := by unfold IsHash; infer_instance

section
open AuditLeaf
variable (hash : Bytes → Bytes)

def hashed (hashes : List Bytes) : List Bytes := ((build [] hashes).pairs (combine hash)).map fun p => p.1 ++ p.2

def CollisionFree (inputs : List Bytes) : Prop := ∀ a ∈ inputs, ∀ b ∈ inputs, hash a = hash b → a = b

instance (inputs : List Bytes) : Decidable (CollisionFree hash inputs) := by unfold CollisionFree; infer_instance

def inputs (leaves : List AuditLeaf) : List Bytes := [] :: leaves.map data ++ hashed hash (leaves.map eventHash)

variable {hash}

theorem buildMerkleRoot_value (some : hashes ≠ []) : buildMerkleRoot hash hashes = (build [] hashes).value (combine hash) := by
  rw [buildMerkleRoot,if_neg some,value_build (combine hash) some,Option.getD_some]

theorem auditLeaf_facts {events : List AuditEvent} {leaves : List AuditLeaf} (marshalled : events.mapM (auditLeaf hash) = some leaves) :
    leaves.length = events.length ∧ ∀ leaf ∈ leaves, leaf.eventHash = hash leaf.data ∧ leaf.data.head? = some 123 := by
  induction events generalizing leaves with
  | nil =>
    cases marshalled
    simp
  | cons e events ih =>
    simp only [mapM_cons,Option.bind_eq_bind,Option.bind_eq_some_iff,Option.pure_def,Option.some.injEq] at marshalled
    obtain ⟨leaf,made,rest,others,rfl⟩ := marshalled
    obtain ⟨long,each⟩ := ih others
    obtain ⟨text,marshal,rfl⟩ := Option.map_eq_some_iff.mp made
    exact ⟨by simp [long],forall_mem_cons.mpr ⟨⟨rfl,AuditEvent.marshal_head marshal⟩,each⟩⟩

theorem combine_inj {q : Bytes × Bytes} (long : p.1.length = q.1.length) (texts : hash (p.1 ++ p.2) = hash (q.1 ++ q.2) → p.1 ++ p.2 = q.1 ++ q.2)
    (same : combine hash p.1 p.2 = combine hash q.1 q.2) : p = q := by
  obtain ⟨first,second⟩ := append_inj (texts same) long
  exact Prod.ext first second

theorem pair_hashes (digest : ∀ b, IsHash (hash b)) (some : hashes ≠ []) (each : ∀ y ∈ hashes, IsHash y) :
    ∀ p ∈ (build [] hashes).pairs (combine hash), IsHash p.1 ∧ IsHash p.2 := by
  apply pairs_keep
  · intro a b _ _
    exact digest _
  · rw [leaves_build some]
    exact each

structure Recorded (hash : Bytes → Bytes) (leaves : List AuditLeaf) : Prop where
  digest : ∀ b, IsHash (hash b)
  some : leaves ≠ []
  event : ∀ leaf ∈ leaves, leaf.eventHash = hash leaf.data ∧ leaf.data.head? = .some 123

variable {leaves : List AuditLeaf}
section
variable (r : Recorded hash leaves)
include r

theorem Recorded.hashes : leaves.map eventHash ≠ [] ∧ ∀ y ∈ leaves.map eventHash, IsHash y := by
  refine ⟨by simpa using r.some,?_⟩
  intro y mem
  obtain ⟨leaf,there,rfl⟩ := mem_map.mp mem
  rw [(r.event leaf there).1]
  exact r.digest _

theorem Recorded.root (sequence : UInt64) (prevRoot : Bytes) :
    (checkpoint hash leaves sequence prevRoot).rootHash = (build [] (leaves.map eventHash)).value (combine hash) :=
  buildMerkleRoot_value r.hashes.1

theorem Recorded.root_input : ∃ text ∈ inputs hash leaves, text ≠ [] ∧
    (build [] (leaves.map eventHash)).value (combine hash) = hash text := by
  have under : (build [] (leaves.map eventHash)).leaves = _ := leaves_build r.hashes.1
  have lengths := pair_hashes r.digest r.hashes.1 r.hashes.2
  cases tree : build [] (leaves.map eventHash) with
  | leaf a =>
    rw [tree] at under
    have mem : a ∈ leaves.map eventHash := by simp [← under,HashTree.leaves]
    obtain ⟨leaf,there,rfl⟩ := mem_map.mp mem
    obtain ⟨made,head⟩ := r.event leaf there
    refine ⟨leaf.data,?_,?_,made⟩
    · exact mem_append_left _ (mem_cons_of_mem _ (mem_map_of_mem there))
    · intro empty
      simp [empty] at head
  | node left right =>
    have pair : (left.value (combine hash),right.value (combine hash)) ∈ (build [] (leaves.map eventHash)).pairs (combine hash) := by
      simp [tree,pairs]
    refine ⟨left.value (combine hash) ++ right.value (combine hash),?_,?_,rfl⟩
    · exact mem_append_right _ (mem_map_of_mem pair)
    · intro empty
      have long := (lengths _ pair).1.1
      simp [(append_eq_nil_iff.mp empty).1] at long

theorem Recorded.refuses_none (free : CollisionFree hash (inputs hash leaves)) (sequence : UInt64) (prevRoot : Bytes) :
    verifyCheckpoint hash (checkpoint hash leaves sequence prevRoot) [] = false := by
  obtain ⟨text,mem,letters,root⟩ := r.root_input
  rw [verifyCheckpoint,if_pos rfl,r.root,root]
  apply beq_eq_false_iff_ne.mpr
  intro same
  exact letters (free text mem [] (by simp [inputs]) same)

theorem Recorded.accepted {sequence : UInt64} (each : ∀ y ∈ ys, IsHash y) (some : ys ≠ [])
    (free : CollisionFree hash (inputs hash leaves ++ hashed hash ys)) (accepts : verifyCheckpoint hash (checkpoint hash leaves sequence prevRoot) ys = true) :
    Pruned (combine hash) (build [] (leaves.map eventHash)) (build [] ys) := by
  have left := pair_hashes r.digest r.hashes.1 r.hashes.2
  have right := pair_hashes r.digest some each
  apply pruned_of_value
  · intro p first q second same
    apply combine_inj ((left p first).1.1.trans (right q second).1.1.symm) ?_ same
    apply free
    · exact mem_append_left _ (mem_append_right _ (mem_map_of_mem first))
    · exact mem_append_right _ (mem_map_of_mem second)
  · intro a mem q second same
    rw [leaves_build r.hashes.1] at mem
    obtain ⟨leaf,there,rfl⟩ := mem_map.mp mem
    obtain ⟨made,head⟩ := r.event leaf there
    -- The text of an event starts with a brace, that of a pair with a hexadecimal digit.
    have text : leaf.data = q.1 ++ q.2 := by
      apply free
      · exact mem_append_left _ (mem_append_left _ (mem_cons_of_mem _ (mem_map_of_mem there)))
      · exact mem_append_right _ (mem_map_of_mem second)
      · exact made.symm.trans same
    obtain ⟨long,digits⟩ := (right q second).1
    cases start : q.1 with
    | nil => simp [start] at long
    | cons c rest =>
      rw [text,start] at head
      cases head
      have digit := digits 123 (by simp [start])
      revert digit
      decide
  · rw [verifyCheckpoint,if_neg some,beq_iff_eq,r.root,buildMerkleRoot_value some] at accepts
    exact accepts

theorem Recorded.forged (n : Nat) (positive : n ≠ 0) (shapes : prunes (shapeOf leaves.length) (shapeOf n) = true) (sequence : UInt64) (prevRoot : Bytes) :
    ∃ ys, ys.length = n ∧ (∀ y ∈ ys, IsHash y) ∧ hashed hash ys ⊆ hashed hash (leaves.map eventHash) ∧
      verifyCheckpoint hash (checkpoint hash leaves sequence prevRoot) ys = true := by
  have same : (build [] (leaves.map eventHash)).shape = shapeOf leaves.length := by rw [shape_build r.hashes.1,length_map]
  obtain ⟨t,pruned,shaped⟩ := exists_pruned (combine hash) (build [] (leaves.map eventHash)) (shapeOf n) (same ▸ shapes)
  have units : replicate n () ≠ [] := by simpa using positive
  have long : t.leaves.length = n := by rw [leaves_length,shaped,shapeOf,leaves_build units,length_replicate]
  have some : t.leaves ≠ [] := by
    intro empty
    simp [empty] at long
    exact positive long.symm
  have rebuilt : build [] t.leaves = t := by
    apply ext_shape
    · rw [shape_build some,long,shaped]
    · exact leaves_build some
  refine ⟨t.leaves,long,?_,?_,?_⟩
  · apply pruned.leaves_keep (P := IsHash)
    · intro a b _ _
      exact r.digest _
    · rw [leaves_build r.hashes.1]
      exact r.hashes.2
  · unfold hashed
    rw [rebuilt]
    exact map_subset _ pruned.pairs_subset
  · rw [verifyCheckpoint,if_neg some,beq_iff_eq,r.root,buildMerkleRoot_value some,rebuilt]
    exact pruned.value
end
end

-- The checkpoint commits to its events against lists of n hashes exactly where the tree over n leaves is not
-- the tree over the events with subtrees cut off.
theorem checkpoint_commits_iff {hash : Bytes → Bytes} (digest : ∀ b, IsHash (hash b)) {events : List AuditEvent} {leaves : List AuditLeaf}
    (marshalled : events.mapM (auditLeaf hash) = some leaves) (recorded : events ≠ []) (free : CollisionFree hash (inputs hash leaves))
    (sequence : UInt64) (prevRoot : Bytes) (n : Nat) :
    (∀ ys, ys.length = n → (∀ y ∈ ys, IsHash y) → CollisionFree hash (inputs hash leaves ++ hashed hash ys) →
      verifyCheckpoint hash (checkpoint hash leaves sequence prevRoot) ys = true → ys = leaves.map AuditLeaf.eventHash) ↔
    n = 0 ∨ n = events.length ∨ prunes (shapeOf events.length) (shapeOf n) = false := by
  obtain ⟨long,event⟩ := auditLeaf_facts marshalled
  have r : Recorded hash leaves := by
    refine ⟨digest,?_,event⟩
    intro empty
    simp [empty] at long
    exact recorded (length_eq_zero_iff.mp long.symm)
  rw [← long]
  constructor
  · intro commits
    by_cases positive : n = 0
    · exact .inl positive
    apply Or.inr
    cases shapes : prunes (shapeOf leaves.length) (shapeOf n) with
    | false => exact .inr rfl
    | true =>
      obtain ⟨ys,count,each,subset,accepts⟩ := r.forged n positive shapes sequence prevRoot
      have still : CollisionFree hash (inputs hash leaves ++ hashed hash ys) := by
        have back : ∀ a ∈ inputs hash leaves ++ hashed hash ys, a ∈ inputs hash leaves := by
          intro a mem
          rcases mem_append.mp mem with there | there
          · exact there
          · exact mem_append_right _ (subset there)
        intro a first b second
        exact free a (back a first) b (back b second)
      have same := commits ys count each still accepts
      rw [same,length_map] at count
      exact .inl count.symm
  · intro condition ys count each still accepts
    have some : ys ≠ [] := by
      rintro rfl
      rw [r.refuses_none free] at accepts
      cases accepts
    have pruned := r.accepted each some still accepts
    have shapes := pruned.prunes
    rw [shape_build r.hashes.1,shape_build some,length_map,count] at shapes
    have equal : n = leaves.length := by
      rcases condition with zero | equal | apart
      · exact absurd (length_eq_zero_iff.mp (count.trans zero)) some
      · exact equal
      · rw [shapes] at apart
        cases apart
    have trees := pruned.eq_of_shape (by rw [shape_build r.hashes.1,shape_build some,length_map,count,equal])
    have same := congrArg HashTree.leaves trees
    rw [leaves_build r.hashes.1,leaves_build some] at same
    exact same.symm

def login : AuditEvent := { id := ascii "1", time := noon, action := ascii "login" }
def logout : AuditEvent := { id := ascii "2", time := noon, action := ascii "logout" }

def lengthHash (b : Bytes) : Bytes := replicate 62 48 ++ [digitByte (b.length/16%16),digitByte (b.length%16)]

theorem lengthHash_digest (b : Bytes) : IsHash (lengthHash b) := by
  have digit : ∀ d < 16, (48 ≤ digitByte d ∧ digitByte d ≤ 57) ∨ (97 ≤ digitByte d ∧ digitByte d ≤ 102) := by decide
  refine ⟨by simp [lengthHash],?_⟩
  intro c mem
  simp only [lengthHash,mem_append,mem_replicate,mem_cons,not_mem_nil,or_false] at mem
  rcases mem with ⟨-,rfl⟩ | rfl | rfl
  · decide
  · exact digit _ (Nat.mod_lt _ (by decide))
  · exact digit _ (Nat.mod_lt _ (by decide))

theorem two_leaves : ∃ leaves, [login,logout].mapM (auditLeaf lengthHash) = some leaves ∧ CollisionFree lengthHash (inputs lengthHash leaves) := by
  have made : ([login,logout].mapM (auditLeaf lengthHash)).any (fun leaves => decide (CollisionFree lengthHash (inputs lengthHash leaves))) = true := by
    decide +kernel
  rw [Option.any_eq_true] at made
  obtain ⟨leaves,marshalled,free⟩ := made
  exact ⟨leaves,marshalled,of_decide_eq_true free⟩

theorem two_hashes_commit : ∃ leaves, [login,logout].mapM (auditLeaf lengthHash) = some leaves ∧
    ∀ ys, ys.length = 2 → (∀ y ∈ ys, IsHash y) → CollisionFree lengthHash (inputs lengthHash leaves ++ hashed lengthHash ys) →
      verifyCheckpoint lengthHash (checkpoint lengthHash leaves 1 []) ys = true → ys = leaves.map AuditLeaf.eventHash := by
  obtain ⟨leaves,marshalled,free⟩ := two_leaves
  exact ⟨leaves,marshalled,(checkpoint_commits_iff lengthHash_digest marshalled (by simp) free 1 [] 2).mpr (.inr (.inl rfl))⟩

-- The root alone is accepted in place of the two hashes it was made from.
theorem root_accepted_as_event : ∃ leaves, [login,logout].mapM (auditLeaf lengthHash) = some leaves ∧
    ∃ root, IsHash root ∧ CollisionFree lengthHash (inputs lengthHash leaves ++ hashed lengthHash [root]) ∧
      verifyCheckpoint lengthHash (checkpoint lengthHash leaves 1 []) [root] = true ∧ [root] ≠ leaves.map AuditLeaf.eventHash := by
  obtain ⟨leaves,marshalled,free⟩ := two_leaves
  obtain ⟨first,second,rfl⟩ := length_eq_two.mp (auditLeaf_facts marshalled).1
  refine ⟨_,marshalled,combine lengthHash first.eventHash second.eventHash,lengthHash_digest _,?_,?_,by simp⟩
  · simpa [hashed,build,climb,pairs] using free
  · simp [verifyCheckpoint,checkpoint,buildMerkleRoot,climb,pairUp]
end FhServer.Audit

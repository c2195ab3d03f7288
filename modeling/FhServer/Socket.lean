import FhServer.GoBytes

namespace FhServer

inductive ReadError where
  | eof
  | timeout
  | reset
deriving DecidableEq

-- A net.Conn as its future reads: what one Read returns never spans two
-- segments, so the list is an arbitrary fragmentation of the bytes still to
-- come. A Read may report the closing error together with the last bytes.
structure Conn where
  segments : List {segment : Bytes // segment ≠ []}
  closing : ReadError
  errorWithLast : Bool
deriving DecidableEq

namespace Conn

def bytes (c : Conn) : Bytes := c.segments.flatMap Subtype.val

def read (c : Conn) (n : Nat) : Bytes × Option ReadError × Conn :=
  match c.segments with
  | [] => ([],some c.closing,c)
  | segment :: rest =>
    if kept : segment.val.drop n ≠ [] then
      (segment.val.take n,none,{c with segments:=⟨segment.val.drop n,kept⟩ :: rest})
    else
      (segment.val,if rest.isEmpty && c.errorWithLast then some c.closing else none,{c with segments:=rest})

-- The connection after k bytes were taken off it. Every sequence of reads that
-- returns k bytes leaves this state, however the k bytes were split.
def drop (c : Conn) (k : Nat) : Conn :=
  {c with segments:=go c.segments k}
where
  go : List {segment : Bytes // segment ≠ []} → Nat → List {segment : Bytes // segment ≠ []}
    | [],_ => []
    | segment :: rest,k =>
      if kept : segment.val.drop k ≠ [] then ⟨segment.val.drop k,kept⟩ :: rest
      else go rest (k - segment.val.length)

@[simp] theorem bytes_cons (segment : {segment : Bytes // segment ≠ []}) (rest closing flag) :
    (Conn.mk (segment :: rest) closing flag).bytes = segment.val ++ (Conn.mk rest closing flag).bytes := by
  simp [bytes]

@[simp] theorem bytes_nil (closing flag) : (Conn.mk [] closing flag).bytes = [] := rfl

theorem drop_zero (c : Conn) : c.drop 0 = c := by
  obtain ⟨segments,closing,flag⟩ := c
  cases segments with
  | nil => simp [drop,drop.go]
  | cons segment rest =>
    simp [drop,drop.go,segment.property]

theorem drop_bytes (c : Conn) (k : Nat) : (c.drop k).bytes = c.bytes.drop k := by
  obtain ⟨segments,closing,flag⟩ := c
  induction segments generalizing k with
  | nil => simp [drop,drop.go]
  | cons segment rest ih =>
    by_cases kept : segment.val.drop k ≠ []
    · have short : k ≤ segment.val.length := by
        by_contra beyond
        exact kept (List.drop_eq_nil_of_le (by lia))
      simp only [drop,drop.go,dif_pos kept,bytes_cons]
      rw [List.drop_append_of_le_length short]
    · have long : segment.val.length ≤ k := by simpa using kept
      have tail := ih (k - segment.val.length)
      simp only [drop] at tail
      simp only [drop,drop.go,dif_neg kept,bytes_cons,tail]
      rw [List.drop_append,List.drop_eq_nil_of_le long,List.nil_append]

theorem drop_drop (c : Conn) (j k : Nat) : (c.drop j).drop k = c.drop (j+k) := by
  obtain ⟨segments,closing,flag⟩ := c
  induction segments generalizing j with
  | nil => simp [drop,drop.go]
  | cons segment rest ih =>
    by_cases kept : segment.val.drop j ≠ []
    · have short : j < segment.val.length := by
        by_contra beyond
        exact kept (List.drop_eq_nil_of_le (by lia))
      simp only [drop,drop.go,dif_pos kept,List.drop_drop]
      by_cases more : segment.val.drop (j+k) ≠ []
      · simp [more]
      have len : (segment.val.drop j).length = segment.val.length - j := by simp
      simp only [more,not_false_eq_true,dif_neg,len]
      congr 2
      lia
    · have long : segment.val.length ≤ j := by simpa using kept
      have gone : ¬ segment.val.drop (j+k) ≠ [] := by
        simp only [ne_eq,not_not]
        exact List.drop_eq_nil_of_le (by lia)
      have tail := ih (j - segment.val.length)
      simp only [drop] at tail
      simp only [drop,drop.go,dif_neg kept,dif_neg gone]
      rw [tail]
      congr 2
      lia

theorem read_spec (c : Conn) (positive : 0 < n) :
    ∃ k error, c.read n = (c.bytes.take k,error,c.drop k) ∧ k ≤ n ∧ k ≤ c.bytes.length ∧
      (k = 0 → c.bytes = [] ∧ error = some c.closing) ∧ (error ≠ none → c.bytes.length = k) := by
  obtain ⟨segments,closing,flag⟩ := c
  cases segments with
  | nil => exact ⟨0,some closing,by simp [read,drop,drop.go],by lia,by simp,by simp,by simp⟩
  | cons segment rest =>
    have nonempty : 0 < segment.val.length := List.length_pos_iff.mpr segment.property
    by_cases kept : segment.val.drop n ≠ []
    · have short : n < segment.val.length := by
        by_contra beyond
        exact kept (List.drop_eq_nil_of_le (by lia))
      refine ⟨n,none,?_,Nat.le_refl _,?_,by lia,by simp⟩
      · simp only [read,dif_pos kept,drop,drop.go,bytes_cons]
        rw [List.take_append_of_le_length (by lia)]
      · simp; lia
    · have long : segment.val.length ≤ n := by simpa using kept
      have gone : ¬ segment.val.drop segment.val.length ≠ [] := by simp
      have left : (Conn.mk rest closing flag).drop 0 = Conn.mk rest closing flag := drop_zero _
      simp only [drop] at left
      refine ⟨segment.val.length,if rest.isEmpty && flag then some closing else none,?_,long,by simp,by lia,?_⟩
      · simp only [read,dif_neg kept,drop,drop.go,dif_neg gone,Nat.sub_self,bytes_cons,
          List.take_left]
        rw [left]
      · intro reported
        cases rest with
        | nil => simp
        | cons => simp at reported

theorem read_empty {c : Conn} (none_left : c.bytes = []) (n : Nat) : c.read n = ([],some c.closing,c) := by
  obtain ⟨segments,closing,flag⟩ := c
  cases segments with
  | nil => rfl
  | cons segment rest =>
    simp only [bytes_cons,List.append_eq_nil_iff] at none_left
    exact absurd none_left.1 segment.property

theorem read_calm {c : Conn} (calm : c.errorWithLast = false) (more : c.bytes ≠ []) (positive : 0 < n) :
    ∃ k, 0 < k ∧ k ≤ n ∧ k ≤ c.bytes.length ∧ c.read n = (c.bytes.take k,none,c.drop k) := by
  obtain ⟨k,error,eq,small,within,zero,-⟩ := c.read_spec positive
  have some_read : 0 < k := Nat.pos_of_ne_zero fun none_read => more (zero none_read).1
  obtain rfl : error = none := by
    obtain ⟨segments,closing,flag⟩ := c
    cases segments with
    | nil => exact absurd rfl more
    | cons segment rest =>
      unfold read at eq
      simp only at eq
      split at eq <;> simp_all
  exact ⟨k,some_read,small,within,eq⟩
end Conn
end FhServer

import FhServer.FormTree
import FhServer.Transitions

namespace FhServer.SharedTarget
open GoBytes GoText Transitions List

structure Request where
  uri : Bytes := []
  headers : List (Bytes × Bytes) := []
  host : Bytes := []
  contentType : Bytes := []
  skip : Bool := false
  -- The order in which range goes over the maps of its form.
  order : FormEntries → FormEntries := id

-- In the order of the traversal. Setting fails, leaves a field of another kind or a nested struct alone, or writes.
structure Field (ι ν : Type) where
  path : List Bytes
  index : ι
  set : FormNode → Option (Option ν)

inductive Source where
  | query | headers

-- ν is a field's value and ι the fields of the target that can be set, those of nested structs among them. valid stands for
-- ValidateStruct and the target's own Validate, and given is the target at registration.
structure Middleware (ι ν : Type) where
  source : Source
  opt : CodecOptions := {}
  lower : Lowering
  fields : List (Field ι ν)
  valid : (ι → ν) → Bool
  given : ι → ν

def formField (tree : FormEntries) : List Bytes → Option FormNode
  | [] => none
  | [name] => FormNode.get tree name
  | name :: path =>
    match FormNode.get tree name with
    | some (.map inner) => formField inner path
    | _ => none

section
variable {ι ν : Type} [DecidableEq ι] {m : Middleware ι ν} {found : List Bytes → Option FormNode} {fields : List (Field ι ν)}

namespace Middleware

def queryParser (m : Middleware ι ν) (r : Request) : Option (List Bytes → Option FormNode) :=
  match indexByte r.uri 63 with
  | none => some fun _ => none
  | some i =>
    if (r.uri.drop (i+1)).length > 32*1024 then none
    else match parseFormBytes m.opt r.order (r.uri.drop (i+1)) with
      | .form f => some (formField f.tree)
      | .error _ | .panics => none

def headerLookup (m : Middleware ι ν) (r : Request) (path : List Bytes) : Option FormNode :=
  let known := r.headers.map (fun h => (m.lower.lower h.1,h.2)) ++ (if r.host ≠ [] then [(ascii "host",r.host)] else []) ++
    if r.contentType ≠ [] then [(ascii "content-type",r.contentType)] else []
  (known.find? fun h => path.map m.lower.lower == [h.1]).map fun h => .text h.2

def finds (m : Middleware ι ν) (r : Request) : Option (List Bytes → Option FormNode) :=
  match m.source with
  | .query => m.queryParser r
  | .headers => some (m.headerLookup r)
end Middleware

def decodeStruct (found : List Bytes → Option FormNode) : List (Field ι ν) → (ι → ν) → (ι → ν) × Bool
  | [], t => (t,true)
  | f :: fields, t =>
    match (found f.path).map f.set with
    | none | some (some none) => decodeStruct found fields t
    | some none => (t,false)
    | some (some (some v)) => decodeStruct found fields (Function.update t f.index v)

-- The one target is filled by every request.
def Middleware.handle (m : Middleware ι ν) (t : ι → ν) (r : Request) : (ι → ν) × Bool :=
  if r.skip then (t,true)
  else match m.finds r with
    | none => (t,false)
    | some found =>
      let (t',decoded) := decodeStruct found m.fields t
      (t',decoded && m.valid t')

def Field.sets (found : List Bytes → Option FormNode) (f : Field ι ν) : Bool := (found f.path).any fun raw => (f.set raw).all Option.isSome

structure State (ι ν : Type) where
  target : ι → ν
  -- The fields that a request has written. A query's strings are views of the connection's buffer, so that they may read
  -- otherwise when the next request is handled.
  written : ι → Bool := fun _ => false
  passed : List (Request × Bool) := []

def State.read (s : State ι ν) (views : ι → ν) (i : ι) : ν := if s.written i then views i else s.target i

def Middleware.writes (m : Middleware ι ν) (r : Request) (i : ι) : Bool :=
  match m.finds r with
  | none => false
  | some found => m.fields.any fun f => f.index == i && f.sets found

-- A request comes with what the fields written before it read when it is handled.
def Middleware.step (m : Middleware ι ν) (s : State ι ν) : Request × (ι → ν) → Option (State ι ν)
  | (r,views) =>
    let (t,verdict) := m.handle (s.read views) r
    some ⟨t,fun i => s.written i || !r.skip && m.writes r i,(r,verdict) :: s.passed⟩

-- The request sets every field that an earlier one has written.
def Middleware.Resets (m : Middleware ι ν) (s : State ι ν) (e : Request × (ι → ν)) : Prop :=
  e.1.skip = true ∨ m.finds e.1 = none ∨ ∀ i, s.written i = true → m.writes e.1 i = true

theorem decodeStruct_frame (t : ι → ν) (unset : ∀ f ∈ fields, f.index = i → f.sets found = false) :
    (decodeStruct found fields t).1 i = t i := by
  induction fields generalizing t with
  | nil => rfl
  | cons f fields ih =>
    have later : ∀ t : ι → ν, (decodeStruct found fields t).1 i = t i := fun t => ih t fun g mem => unset g (mem_cons_of_mem f mem)
    rw [decodeStruct]
    split
    · exact later t
    · exact later t
    · rfl
    · rename_i v does
      rw [later,Function.update_of_ne]
      rintro rfl
      obtain ⟨raw,named,set⟩ := Option.map_eq_some_iff.mp does
      have sets := unset f mem_cons_self rfl
      rw [Field.sets,named,Option.any_some,set] at sets
      cases sets

theorem decodeStruct_agree (agree : ∀ i, t i = t' i ∨ ∃ f ∈ fields, f.index = i ∧ f.sets found = true) :
    (decodeStruct found fields t).2 = (decodeStruct found fields t').2 ∧
      ((decodeStruct found fields t).2 = true → (decodeStruct found fields t).1 = (decodeStruct found fields t').1) := by
  induction fields generalizing t t' with
  | nil => exact ⟨rfl,fun _ => funext fun i => (agree i).resolve_right (by rintro ⟨_,⟨⟩,_⟩)⟩
  | cons f fields ih =>
    have skips : f.sets found = false → ∀ i, t i = t' i ∨ ∃ g ∈ fields, g.index = i ∧ g.sets found = true := by
      refine fun unset i => (agree i).imp_right ?_
      rintro ⟨g,mem,here,sets⟩
      rcases mem_cons.mp mem with rfl | later
      · exact nomatch unset.symm.trans sets
      · exact ⟨g,later,here,sets⟩
    rw [decodeStruct,decodeStruct]
    cases at_ : (found f.path).map f.set with
    | none => exact ih (skips (by simp_all [Field.sets]))
    | some result =>
      obtain ⟨raw,named,rfl⟩ := Option.map_eq_some_iff.mp at_
      cases does : f.set raw with
      | none => exact ⟨rfl,nofun⟩
      | some written =>
        cases written with
        | none => exact ih (skips (by simp [Field.sets,named,does]))
        | some v =>
          refine ih fun i => ?_
          by_cases here : i = f.index
          · exact .inl (by rw [here,Function.update_self,Function.update_self])
          rw [Function.update_of_ne here,Function.update_of_ne here]
          refine (agree i).imp_right ?_
          rintro ⟨g,mem,same,sets⟩
          exact ⟨g,(mem_cons.mp mem).resolve_left fun first => here (first ▸ same.symm),same,sets⟩

-- Fields that no request has written are as they were given.
def Kept (m : Middleware ι ν) (s : State ι ν) : Prop := ∀ i, s.written i = false → s.target i = m.given i

theorem handle_agree (kept : Kept m s) (resets : m.Resets s (r,views)) : (m.handle (s.read views) r).2 = (m.handle m.given r).2 := by
  unfold Middleware.handle
  split
  · rfl
  rename_i skip
  split
  · rfl
  rename_i found finds
  have agree (i : ι) : s.read views i = m.given i ∨ ∃ f ∈ m.fields, f.index = i ∧ f.sets found = true := by
    cases written : s.written i with
    | false =>
      rw [State.read,written]
      exact .inl (kept i written)
    | true =>
      have sets := (resets.resolve_left skip).resolve_left (by rw [finds]; rintro ⟨⟩) i written
      rw [Middleware.writes,finds,any_eq_true] at sets
      obtain ⟨f,mem,both⟩ := sets
      obtain ⟨here,sets⟩ := Bool.and_eq_true_iff.mp both
      exact .inr ⟨f,mem,beq_iff_eq.mp here,sets⟩
  obtain ⟨decodes,target⟩ := decodeStruct_agree agree
  dsimp only
  rw [← decodes]
  cases decoded : (decodeStruct found m.fields (s.read views)).2
  · rfl
  · rw [target decoded]

theorem Kept.step (kept : Kept m s) (does : m.step s e = some t) : Kept m t := by
  obtain ⟨r,views⟩ := e
  cases does
  intro i unwritten
  obtain ⟨before,unset⟩ := Bool.or_eq_false_iff.mp unwritten
  have same : s.read views i = m.given i := by
    rw [State.read,before]
    exact kept i before
  rw [← same]
  show (m.handle (s.read views) r).1 i = _
  unfold Middleware.handle
  split
  · rfl
  rename_i skip
  rw [Bool.eq_false_iff.mpr skip,Middleware.writes] at unset
  split
  · rfl
  rename_i found finds
  rw [finds] at unset
  refine decodeStruct_frame _ fun f mem here => ?_
  have each := any_eq_false.mp unset f mem
  rw [here,beq_self_eq_true,Bool.true_and] at each
  exact Bool.eq_false_iff.mpr each

theorem verdict_own {s : State ι ν} (run : Reached m.step m.Resets ⟨m.given,fun _ => false,[]⟩ s) :
    ∀ r verdict, (r,verdict) ∈ s.passed → verdict = (m.handle m.given r).2 := by
  have both : Kept m s ∧ ∀ r verdict, (r,verdict) ∈ s.passed → verdict = (m.handle m.given r).2 := by
    refine run.keeps (fun s => Kept m s ∧ ∀ r verdict, (r,verdict) ∈ s.passed → verdict = (m.handle m.given r).2) ⟨fun _ _ => rfl,by simp⟩ ?_
    rintro s ⟨r,views⟩ t ⟨kept,good⟩ resets does
    refine ⟨kept.step does,?_⟩
    cases does
    intro r' verdict mem
    rcases mem_cons.mp mem with same | earlier
    · cases same
      exact handle_agree kept resets
    · exact good r' verdict earlier
  exact both.2
end

-- ParseInt fails on what Sprint makes of a list, a map or nil.
def setInt : FormNode → Option (Option Int)
  | .text s | .texts (s :: _) => (atoi s).map some
  | _ => none

-- A struct whose one field a is an int with the rule min=1.
def atLeastOne : Middleware Unit Int where
  source := .query
  lower := lowering
  fields := [⟨[ascii "a"],(),setInt⟩]
  valid := fun t => 1 ≤ t ()
  given := fun _ => 0

def named : Request := {uri := ascii "/?a=1"}

theorem first_query_own : atLeastOne.Resets ⟨atLeastOne.given,fun _ => false,[]⟩ (named,atLeastOne.given) ∧
    true = (atLeastOne.handle atLeastOne.given named).2 := by
  have resets : atLeastOne.Resets ⟨atLeastOne.given,fun _ => false,[]⟩ (named,atLeastOne.given) := .inr (.inr fun _ written => by cases written)
  exact ⟨resets,verdict_own (.step .start resets rfl) named true mem_cons_self⟩

-- The number that the first request has left is still there.
theorem earlier_query_passes : ∃ s, Reached atLeastOne.step (fun _ _ => True) ⟨atLeastOne.given,fun _ => false,[]⟩ s ∧
    ∃ r, (r,true) ∈ s.passed ∧ (atLeastOne.handle atLeastOne.given r).2 = false :=
  ⟨_,.step (.step .start trivial (e := (named,atLeastOne.given)) rfl) trivial (e := ({uri := ascii "/"},fun _ => 1)) rfl,_,mem_cons_self,rfl⟩
end FhServer.SharedTarget

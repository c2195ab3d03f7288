import FhServer.Router

namespace FhServer
open List RouteNode

-- The trie as a map: what a pattern names at each of its segments, with the parameter names left out, leads to the one place
-- where the trie keeps the pattern's endpoint.
inductive RouteLabel where
  | static (seg : Bytes)
  | constrained (c : ParamConstraint)
  | param
  | wild
deriving DecidableEq

namespace RouteNode

def slot (n : RouteNode) (labels : List RouteLabel) : Option RouteEndpoint :=
  match labels with
  | [] => n.handler
  | .static seg :: later => (n.static seg).bind fun child => child.slot later
  | .constrained c :: later => (findConstraint c n.paramConstraints).bind fun child => child.slot later
  | .param :: later => n.param.bind fun child => child.slot later
  | .wild :: later => if later = [] then n.wild.map (·.2) else none
termination_by structural labels

@[simp] theorem slot_empty (labels : List RouteLabel) : empty.slot labels = none := by
  cases labels with
  | nil => rfl
  | cons label later =>
    cases label with
    | wild =>
      rw [slot]
      split <;> rfl
    | _ => rfl

theorem slot_getD (child : Option RouteNode) (labels : List RouteLabel) :
    (child.getD empty).slot labels = child.bind fun child => child.slot labels := by
  cases child with
  | none => exact slot_empty labels
  | some child => rfl

theorem findConstraint_set (c c' : ParamConstraint) (child : RouteNode) (list : List (ParamConstraint × RouteNode)) :
    findConstraint c' (setConstraint c child list) = if c' = c then some child else findConstraint c' list := by
  induction list with
  | nil =>
    exact if_congr eq_comm rfl rfl
  | cons first later ih =>
    simp only [setConstraint]
    split
    · rename_i here
      subst here
      simp only [findConstraint]
      split_ifs with same same'
      · rfl
      · exact absurd same.symm same'
      · rename_i other
        exact absurd other.symm same
      · rfl
    · rename_i other
      simp only [findConstraint,ih]
      split_ifs with same same'
      · exact absurd (same.trans same') other
      · rfl
      · rfl
      · rfl

def child (n : RouteNode) : RouteLabel → Option RouteNode
  | .static seg => n.static seg
  | .constrained c => findConstraint c n.paramConstraints
  | .param => n.param
  | .wild => none

def setChild (n : RouteNode) (label : RouteLabel) (child : RouteNode) : RouteNode :=
  match label with
  | .static seg => n.setStatic seg child
  | .constrained c => {n with paramConstraints := setConstraint c child n.paramConstraints}
  | .param => {n with param := some child}
  | .wild => n

theorem slot_cons (n : RouteNode) (inner : label ≠ .wild) (later : List RouteLabel) :
    n.slot (label :: later) = (n.child label).bind fun child => child.slot later := by
  cases label with
  | wild => exact absurd rfl inner
  | _ => rfl

theorem child_setChild (n child : RouteNode) (inner : label ≠ .wild) (label' : RouteLabel) :
    (n.setChild label child).child label' = if label' = label then some child else n.child label' := by
  cases label with
  | static seg =>
    cases label' with
    | static seg' => simp [setChild,RouteNode.child,setStatic,Function.update_apply]
    | _ => simp [setChild,RouteNode.child,setStatic]
  | constrained c =>
    cases label' with
    | constrained c' => simp [setChild,RouteNode.child,findConstraint_set]
    | _ => simp [setChild,RouteNode.child]
  | param => cases label' <;> simp [setChild,RouteNode.child]
  | wild => exact absurd rfl inner

@[simp] theorem setChild_handler (n child : RouteNode) (label : RouteLabel) : (n.setChild label child).handler = n.handler := by
  cases label <;> rfl

@[simp] theorem setChild_wild (n child : RouteNode) (label : RouteLabel) : (n.setChild label child).wild = n.wild := by
  cases label <;> rfl

theorem slot_setChild (n child : RouteNode) (inner : label ≠ .wild) (labels : List RouteLabel) :
    (n.setChild label child).slot labels =
      match labels with
      | [] => n.handler
      | label' :: later => if label' = label then child.slot later else n.slot (label' :: later) := by
  cases labels with
  | nil => simp [slot]
  | cons label' later =>
    by_cases last : label' = .wild
    · subst last
      simp [slot,Ne.symm inner]
    rw [slot_cons _ last,child_setChild n child inner]
    dsimp only
    split
    · rfl
    · rw [slot_cons n last]
end RouteNode
section
variable (re : GoRegexp)

def segmentLabel : Bytes → RouteLabel
  | 58 :: name =>
    let parsed := parseParamConstraint re name
    if parsed.constraint.kind = .none then .param else .constrained parsed.constraint
  | 42 :: _ => .wild
  | seg => .static seg

def segmentKey : Bytes → Option Bytes
  | 58 :: name => some (parseParamConstraint re name).cleanName
  | 42 :: name => some (wildKey name)
  | _ => none

def validName (name : Bytes) : Bool := !name.isEmpty && name.all nameByte

def segmentValid : Bytes → Bool
  | [] => false
  | 58 :: name => validName (parseParamConstraint re name).cleanName
  | 42 :: name => name.isEmpty || validName name
  | seg => !seg.any fun c => c == colon || c == star

def segmentOptional : Bytes → Bool
  | 58 :: name => (parseParamConstraint re name).isOptional
  | _ => false

def segmentsValid : List Bytes → Bool
  | [] => true
  | seg :: later => segmentValid re seg && (segmentLabel re seg != .wild || later.isEmpty) && segmentsValid later

def routeLabels (segments : List Bytes) : List RouteLabel := segments.map (segmentLabel re)
def routeKeys (segments : List Bytes) : List Bytes := segments.filterMap (segmentKey re)

def optionalLast (segments : List Bytes) : Bool := segments.getLast?.any (segmentOptional re)
end
section
variable {re : GoRegexp} {method fullPath : Bytes} {h : HandlerFunc}
variable (method fullPath) in
theorem validateParamName_ok (name : Bytes) : validateParamName method fullPath name = .ok () ↔ validName name = true := by
  rw [validateParamName,validName]
  split_ifs with empty valid
  · simp [empty]
  · simp [empty,valid]
  · simp [valid]

variable (method fullPath) in
theorem validateParamName_error (bad : validName name = false) : ∃ e, validateParamName method fullPath name = .error e := by
  cases result : validateParamName method fullPath name with
  | error e => exact ⟨e,rfl⟩
  | ok u => exact absurd ((validateParamName_ok method fullPath name).mp result) (Bool.eq_false_iff.mp bad)

variable (method fullPath) in
theorem validateStaticSegment_ok (notColon : c ≠ colon) (notStar : c ≠ star) :
    validateStaticSegment method fullPath (c :: rest) = .ok () ↔ (c :: rest).any (fun c => c == colon || c == star) = false := by
  rw [validateStaticSegment,if_neg (cons_ne_nil _ _),if_neg (by simp [notColon,notStar])]
  split_ifs with marked <;> simp [marked]

variable (method fullPath) in
theorem validateStaticSegment_error (notColon : c ≠ colon) (notStar : c ≠ star)
    (marked : (c :: rest).any (fun c => c == colon || c == star) = true) : ∃ e, validateStaticSegment method fullPath (c :: rest) = .error e := by
  cases result : validateStaticSegment method fullPath (c :: rest) with
  | error e => exact ⟨e,rfl⟩
  | ok u => exact absurd ((validateStaticSegment_ok method fullPath notColon notStar).mp result) (Bool.not_eq_false _ ▸ marked)

theorem segment_plain (re : GoRegexp) (rest : Bytes) (notColon : c ≠ colon) (notStar : c ≠ star) :
    segmentLabel re (c :: rest) = .static (c :: rest) ∧ segmentKey re (c :: rest) = none ∧ segmentOptional re (c :: rest) = false ∧
      segmentValid re (c :: rest) = !(c :: rest).any fun c => c == colon || c == star := by
  have first : ∀ {c' name}, c :: rest = c' :: name → c' ≠ colon ∧ c' ≠ star := by
    intro c' name same
    cases same
    exact ⟨notColon,notStar⟩
  refine ⟨?_,?_,?_,?_⟩
  · unfold segmentLabel
    split
    · exact absurd rfl (first ‹_›).1
    · exact absurd rfl (first ‹_›).2
    · rfl
  · unfold segmentKey
    split
    · exact absurd rfl (first ‹_›).1
    · exact absurd rfl (first ‹_›).2
    · rfl
  · unfold segmentOptional
    split
    · exact absurd rfl (first ‹_›).1
    · rfl
  · unfold segmentValid
    split
    · contradiction
    · exact absurd rfl (first ‹_›).1
    · exact absurd rfl (first ‹_›).2
    · rfl

-- The node that insertRoute goes on with: an optional last parameter puts its handler there, over one that is already there.
def withOptional (re : GoRegexp) (fullPath : Bytes) (h : HandlerFunc) (n : RouteNode) (seg : Bytes) (later paramKeys : List Bytes) : RouteNode :=
  if segmentOptional re seg = true ∧ later = [] then {n with handler := some ⟨h,paramKeys,fullPath⟩} else n

theorem withOptional_child (re : GoRegexp) (fullPath : Bytes) (h : HandlerFunc) (n : RouteNode) (seg : Bytes) (later paramKeys : List Bytes)
    (label : RouteLabel) : (withOptional re fullPath h n seg later paramKeys).child label = n.child label := by
  rw [withOptional]
  split
  · cases label <;> rfl
  · rfl

theorem insertRoute_inner (n : RouteNode) (inner : segmentLabel re seg ≠ .wild) (later paramKeys : List Bytes) :
    (∃ e, segmentValid re seg = false ∧ insertRoute re method fullPath h n (seg :: later) paramKeys = .error e) ∨
    segmentValid re seg = true ∧ insertRoute re method fullPath h n (seg :: later) paramKeys =
      (insertRoute re method fullPath h ((n.child (segmentLabel re seg)).getD .empty) later (paramKeys ++ (segmentKey re seg).toList)).map
        fun child => (withOptional re fullPath h n seg later paramKeys).setChild (segmentLabel re seg) child := by
  match seg with
  | [] => exact .inl ⟨_,rfl,rfl⟩
  | c :: rest =>
    rw [insertRoute]
    by_cases isParam : c = colon
    · subst isParam
      dsimp only
      cases valid : validName (parseParamConstraint re rest).cleanName with
      | false =>
        obtain ⟨e,refused⟩ := validateParamName_error method fullPath valid
        rw [refused]
        exact .inl ⟨e,valid,rfl⟩
      | true =>
        refine .inr ⟨valid,?_⟩
        rw [(validateParamName_ok method fullPath _).mpr valid]
        have same := withOptional_child re fullPath h n (58 :: rest) later paramKeys
        by_cases plain : (parseParamConstraint re rest).constraint.kind = .none
        · have label : segmentLabel re (colon :: rest) = .param := if_pos plain
          rw [label,← same .param]
          exact if_pos plain
        · have label : segmentLabel re (colon :: rest) = .constrained (parseParamConstraint re rest).constraint := if_neg plain
          rw [label,← same (.constrained _)]
          exact if_neg plain
    · rw [if_neg isParam]
      by_cases isWild : c = star
      · subst isWild
        exact absurd rfl inner
      rw [if_neg isWild]
      obtain ⟨label,key,needed,valid⟩ := segment_plain re rest isParam isWild
      have kept : withOptional re fullPath h n (c :: rest) later paramKeys = n := by simp [withOptional,needed]
      rw [label,key,kept,valid,Option.toList_none,append_nil]
      cases marked : (c :: rest).any (fun c => c == colon || c == star) with
      | true =>
        obtain ⟨e,refused⟩ := validateStaticSegment_error method fullPath isParam isWild marked
        rw [refused]
        exact .inl ⟨e,rfl,rfl⟩
      | false =>
        rw [(validateStaticSegment_ok method fullPath isParam isWild).mpr marked]
        exact .inr ⟨rfl,rfl⟩

variable (re) in
theorem insertWild_cases (n : RouteNode) (rest : Bytes) (later paramKeys : List Bytes) :
    (∃ e, (segmentValid re (42 :: rest) = false ∨ later ≠ [] ∨ n.wild ≠ none) ∧ insertWild method fullPath h n rest later paramKeys = .error e) ∨
    segmentValid re (42 :: rest) = true ∧ later = [] ∧ n.wild = none ∧ insertWild method fullPath h n rest later paramKeys =
      .ok {n with wild := some (wildKey rest,⟨h,paramKeys ++ [wildKey rest],fullPath⟩)} := by
  have valid : segmentValid re (42 :: rest) = (rest.isEmpty || validName rest) := rfl
  rw [valid,insertWild]
  have checked : (∃ e, (rest.isEmpty || validName rest) = false ∧
      (if rest = [] then .ok () else validateParamName method fullPath (wildKey rest)) = Except.error e) ∨
      (rest.isEmpty || validName rest) = true ∧ (if rest = [] then .ok () else validateParamName method fullPath (wildKey rest)) = .ok () := by
    by_cases bare : rest = []
    · exact .inr ⟨by simp [bare],if_pos bare⟩
    rw [if_neg bare,wildKey,if_neg bare]
    cases named : validName rest with
    | false =>
      obtain ⟨e,refused⟩ := validateParamName_error method fullPath named
      exact .inl ⟨e,by simp [bare],refused⟩
    | true => exact .inr ⟨by simp,(validateParamName_ok method fullPath rest).mpr named⟩
  rcases checked with ⟨e,bad,refused⟩ | ⟨good,accepted⟩
  · rw [refused]
    exact .inl ⟨e,.inl bad,rfl⟩
  rw [accepted,Except.bind]
  split_ifs with final
  · exact .inl ⟨_,.inr (.inl final),rfl⟩
  split
  · rename_i free
    exact .inr ⟨good,Decidable.not_not.mp final,free,rfl⟩
  · rename_i taken
    split_ifs <;> exact .inl ⟨_,.inr (.inr (by rw [taken]; exact nofun)),rfl⟩

section
variable (re fullPath h)

def newSlot (segments paramKeys : List Bytes) (labels : List RouteLabel) : Option RouteEndpoint :=
  if labels = routeLabels re segments then some ⟨h,paramKeys ++ routeKeys re segments,fullPath⟩
  else if optionalLast re segments = true ∧ labels = (routeLabels re segments).dropLast then
    some ⟨h,paramKeys ++ (routeKeys re segments).dropLast,fullPath⟩
  else none

theorem segmentKey_optional (needed : segmentOptional re seg = true) : ∃ key, segmentKey re seg = some key := by
  unfold segmentOptional at needed
  split at needed
  · exact ⟨_,rfl⟩
  · cases needed

theorem routeKeys_optional {segments : List Bytes} (needed : optionalLast re segments = true) : routeKeys re segments ≠ [] := by
  obtain ⟨seg,last,optional⟩ := (Option.any_eq_true ..).mp needed
  obtain ⟨key,named⟩ := segmentKey_optional re optional
  exact ne_nil_of_mem (mem_filterMap.mpr ⟨seg,mem_of_getLast? last,named⟩)

theorem newSlot_nil (seg : Bytes) (later paramKeys : List Bytes) :
    newSlot re fullPath h (seg :: later) paramKeys [] = if segmentOptional re seg = true ∧ later = [] then some ⟨h,paramKeys,fullPath⟩ else none := by
  rw [newSlot,if_neg nofun]
  cases later with
  | nil =>
    refine if_ctx_congr (by simp [optionalLast,routeLabels]) (fun ⟨needed,_⟩ => ?_) fun _ => rfl
    obtain ⟨key,named⟩ := segmentKey_optional re needed
    simp [routeKeys,named]
  | cons next later => rw [if_neg (by simp [routeLabels]),if_neg (by simp)]

theorem routeKeys_cons (seg : Bytes) (later : List Bytes) : routeKeys re (seg :: later) = (segmentKey re seg).toList ++ routeKeys re later := by
  rw [routeKeys,filterMap_cons]
  cases segmentKey re seg <;> rfl

theorem newSlot_cons (seg : Bytes) (later paramKeys : List Bytes) (label : RouteLabel) (labels : List RouteLabel) :
    newSlot re fullPath h (seg :: later) paramKeys (label :: labels) =
      if label = segmentLabel re seg then newSlot re fullPath h later (paramKeys ++ (segmentKey re seg).toList) labels else none := by
  have own : label :: labels = routeLabels re (seg :: later) ↔ label = segmentLabel re seg ∧ labels = routeLabels re later := cons_eq_cons
  have short : optionalLast re (seg :: later) = true ∧ label :: labels = (routeLabels re (seg :: later)).dropLast ↔
      label = segmentLabel re seg ∧ optionalLast re later = true ∧ labels = (routeLabels re later).dropLast := by
    cases later with
    | nil => simp [routeLabels,optionalLast]
    | cons next later =>
      simp only [optionalLast,List.getLast?_cons_cons,routeLabels,map_cons,dropLast_cons_cons,cons_eq_cons]
      exact and_left_comm
  rw [newSlot,newSlot,routeKeys_cons,← append_assoc]
  by_cases here : label = segmentLabel re seg
  · rw [if_pos here]
    refine if_congr (own.trans (and_iff_right here)) rfl ?_
    refine if_ctx_congr (short.trans (and_iff_right here)) (fun ⟨needed,_⟩ => ?_) fun _ => rfl
    rw [dropLast_append_of_ne_nil (routeKeys_optional re needed),append_assoc]
  · rw [if_neg here,if_neg fun same => here (own.mp same).1,if_neg fun same => here (short.mp same).1]
end
variable (re) in
theorem segmentLabel_wild (last : segmentLabel re seg = .wild) : ∃ rest, seg = 42 :: rest := by
  unfold segmentLabel at last
  split at last
  · dsimp only at last
    split at last <;> cases last
  · exact ⟨_,rfl⟩
  · cases last

theorem slot_withOptional (n : RouteNode) (seg : Bytes) (later paramKeys : List Bytes) (labels : List RouteLabel) :
    (withOptional re fullPath h n seg later paramKeys).slot labels =
      if labels = [] ∧ segmentOptional re seg = true ∧ later = [] then some ⟨h,paramKeys,fullPath⟩ else n.slot labels := by
  rw [withOptional]
  split_ifs with needed both both
  · rw [both.1]
    rfl
  · cases labels with
    | nil => exact absurd ⟨rfl,needed⟩ both
    | cons label labels => cases label <;> rfl
  · exact absurd both.2 needed
  · rfl

variable (re method fullPath h) in
-- insertRoute refuses a route exactly when a segment is malformed or the route's own place is taken; otherwise it fills the
-- places that the route takes and leaves the others as they were.
theorem insertRoute_cases (segments : List Bytes) : ∀ (n : RouteNode) (paramKeys : List Bytes),
    (∃ e, insertRoute re method fullPath h n segments paramKeys = .error e ∧
      (segmentsValid re segments = false ∨ n.slot (routeLabels re segments) ≠ none)) ∨
    ∃ n', insertRoute re method fullPath h n segments paramKeys = .ok n' ∧ segmentsValid re segments = true ∧
      n.slot (routeLabels re segments) = none ∧ ∀ labels, n'.slot labels = (newSlot re fullPath h segments paramKeys labels).or (n.slot labels) := by
  induction segments with
  | nil =>
    intro n paramKeys
    rw [insertRoute]
    split
    · rename_i taken
      exact .inl ⟨_,rfl,.inr fun free => by rw [show n.handler = none from free] at taken; cases taken⟩
    rename_i free
    have absent : n.handler = none := by simpa using free
    refine .inr ⟨_,rfl,rfl,absent,fun labels => ?_⟩
    cases labels with
    | nil => simp [newSlot,routeLabels,routeKeys,slot]
    | cons label labels => cases label <;> simp [newSlot,routeLabels,slot]
  | cons seg later ih =>
    intro n paramKeys
    by_cases last : segmentLabel re seg = .wild
    · obtain ⟨rest,rfl⟩ := segmentLabel_wild re last
      rcases insertWild_cases re n rest later paramKeys with ⟨e,bad,refused⟩ | ⟨valid,rfl,free,done⟩
      · refine .inl ⟨e,refused,?_⟩
        by_cases final : later = []
        · rcases bad with invalid | more | taken
          · exact .inl (by simp [segmentsValid,invalid])
          · exact absurd final more
          · subst final
            exact .inr fun absent => taken (Option.map_eq_none_iff.mp absent)
        · exact .inl (by simp [segmentsValid,last,final])
      · refine .inr ⟨_,done,by simp [segmentsValid,valid],Option.map_eq_none_iff.mpr free,fun labels => ?_⟩
        cases labels with
        | nil => simp [newSlot_nil,segmentOptional,slot]
        | cons label labels =>
          rw [newSlot_cons]
          cases label with
          | wild => cases labels <;> simp [last,newSlot,routeLabels,optionalLast,routeKeys,segmentKey,slot]
          | _ => simp [last,slot]
    · rcases insertRoute_inner n last later paramKeys with ⟨e,invalid,refused⟩ | ⟨valid,goes⟩
      · exact .inl ⟨e,refused,.inl (by simp [segmentsValid,invalid])⟩
      rw [goes]
      have below : n.slot (routeLabels re (seg :: later)) = ((n.child (segmentLabel re seg)).getD .empty).slot (routeLabels re later) := by
        rw [slot_getD]
        exact slot_cons n last _
      have rest : segmentsValid re (seg :: later) = segmentsValid re later := by simp [segmentsValid,valid,last]
      rw [below,rest]
      rcases ih ((n.child (segmentLabel re seg)).getD .empty) (paramKeys ++ (segmentKey re seg).toList) with ⟨e,refused,why⟩ | ⟨child,done,validLater,free,slots⟩
      · exact .inl ⟨e,by rw [refused]; rfl,why⟩
      refine .inr ⟨_,by rw [done]; rfl,validLater,free,fun labels => ?_⟩
      rw [slot_setChild _ _ last]
      cases labels with
      | nil =>
        change (withOptional re fullPath h n seg later paramKeys).slot [] = _
        rw [slot_withOptional,newSlot_nil]
        split_ifs with both needed needed
        · rfl
        · exact absurd both.2 needed
        · exact absurd ⟨rfl,needed⟩ both
        · rfl
      | cons label labels =>
        dsimp only
        rw [newSlot_cons]
        split_ifs with here
        · rw [slots,here,slot_getD,slot_cons n last]
        · rw [slot_withOptional,if_neg (by simp)]
          rfl
end

def RouteNode.order (n : RouteNode) (labels : List RouteLabel) : List ParamConstraint :=
  match labels with
  | [] => n.paramConstraints.map (·.1)
  | label :: later => ((n.child label).map fun child => child.order later).getD []
termination_by structural labels

theorem RouteNode.order_cons (n : RouteNode) (label : RouteLabel) (place : List RouteLabel) :
    n.order (label :: place) = ((n.child label).map fun child => child.order place).getD [] := rfl

def appendNew (c : ParamConstraint) (list : List ParamConstraint) : List ParamConstraint := if c ∈ list then list else list ++ [c]

def constraintAt : List RouteLabel → List RouteLabel → Option ParamConstraint
  | [], .constrained c :: _ => some c
  | label :: place, label' :: labels => if label = label' then constraintAt place labels else none
  | _, _ => none

def newOrder (place labels : List RouteLabel) (list : List ParamConstraint) : List ParamConstraint :=
  match constraintAt place labels with
  | some c => appendNew c list
  | none => list

section
variable {re : GoRegexp} {method fullPath : Bytes} {h : HandlerFunc}

theorem appendNew_nodup (distinct : list.Nodup) (c : ParamConstraint) : (appendNew c list).Nodup := by
  rw [appendNew]
  split
  · exact distinct
  rename_i new
  refine nodup_append.mpr ⟨distinct,nodup_singleton c,?_⟩
  intro a mem b last same
  rw [mem_singleton] at last
  exact new (last ▸ same ▸ mem)

theorem keys_setConstraint (c : ParamConstraint) (child : RouteNode) (list : List (ParamConstraint × RouteNode)) :
    (setConstraint c child list).map (·.1) = appendNew c (list.map (·.1)) := by
  induction list with
  | nil => simp [setConstraint,appendNew]
  | cons first later ih =>
    rw [setConstraint]
    split
    · rename_i here
      simp [appendNew,here]
    rename_i other
    rw [map_cons,ih,map_cons,appendNew,appendNew]
    simp only [mem_cons,Ne.symm other,false_or]
    split <;> rfl

theorem order_empty (place : List RouteLabel) : empty.order place = [] := by
  cases place with
  | nil => rfl
  | cons label place => cases label <;> rfl

theorem order_getD (child : Option RouteNode) (place : List RouteLabel) :
    (child.getD .empty).order place = (child.map fun child => child.order place).getD [] := by
  cases child with
  | none => exact order_empty place
  | some child => rfl

theorem order_withOptional (n : RouteNode) (seg : Bytes) (later paramKeys : List Bytes) (place : List RouteLabel) :
    (withOptional re fullPath h n seg later paramKeys).order place = n.order place := by
  cases place with
  | nil =>
    rw [withOptional]
    split <;> rfl
  | cons label place => rw [order_cons,withOptional_child,order_cons]

theorem order_setChild (n child : RouteNode) (inner : label ≠ .wild) (place : List RouteLabel) :
    (n.setChild label child).order place =
      match place with
      | [] => newOrder [] [label] (n.order [])
      | label' :: place => if label' = label then child.order place else n.order (label' :: place) := by
  cases place with
  | nil =>
    cases label with
    | constrained c => exact keys_setConstraint c child n.paramConstraints
    | _ => rfl
  | cons label' place =>
    rw [order_cons,child_setChild n child inner]
    dsimp only
    split
    · rfl
    · rfl

theorem insertRoute_order (segments : List Bytes) : ∀ {n n' : RouteNode} {paramKeys : List Bytes},
    insertRoute re method fullPath h n segments paramKeys = .ok n' → ∀ place, n'.order place = newOrder place (routeLabels re segments) (n.order place) := by
  induction segments with
  | nil =>
    intro n n' paramKeys done place
    rw [insertRoute] at done
    split at done <;> cases done
    cases place with
    | nil => rfl
    | cons label place => cases label <;> rfl
  | cons seg later ih =>
    intro n n' paramKeys done place
    by_cases last : segmentLabel re seg = .wild
    · obtain ⟨rest,rfl⟩ := segmentLabel_wild re last
      have wildcard : insertWild method fullPath h n rest later paramKeys = .ok n' := done
      rcases insertWild_cases re n rest later paramKeys with ⟨e,-,refused⟩ | ⟨-,rfl,-,accepted⟩
      · rw [refused] at wildcard
        cases wildcard
      rw [accepted] at wildcard
      cases wildcard
      cases place with
      | nil => rfl
      | cons label place => cases label <;> simp [newOrder,constraintAt,routeLabels,order,child]
    · rcases insertRoute_inner n last later paramKeys with ⟨e,-,refused⟩ | ⟨-,goes⟩
      · rw [refused] at done
        cases done
      rw [goes] at done
      cases below : insertRoute re method fullPath h ((n.child (segmentLabel re seg)).getD .empty) later (paramKeys ++ (segmentKey re seg).toList) with
      | error e =>
        rw [below] at done
        cases done
      | ok child =>
        rw [below] at done
        cases done
        rw [order_setChild _ _ last]
        cases place with
        | nil =>
          rw [order_withOptional,routeLabels,map_cons]
          cases segmentLabel re seg <;> rfl
        | cons label place =>
          dsimp only
          split_ifs with here
          · subst here
            rw [ih below place,order_getD,← order_cons]
            simp [newOrder,constraintAt,routeLabels]
          · rw [order_withOptional]
            simp [newOrder,constraintAt,routeLabels,here]
end
end FhServer

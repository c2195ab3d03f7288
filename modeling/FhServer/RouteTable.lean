import FhServer.RouteLookup

namespace FhServer
open GoBytes GoText List Router Option Function

structure RouteEntry where
  method : Bytes
  path : Bytes
  handler : HandlerFunc
deriving DecidableEq

def routeText (path : Bytes) : Bytes := if trimSpace path = [] then [slash] else trimSpace path

def registered (method path : Bytes) (h : HandlerFunc) : RouteEntry := ⟨toUpper (trimSpace method),routeText path,h⟩

def RouteEntry.segments (e : RouteEntry) : List Bytes := splitRouteSegments e.path

section
variable (re : GoRegexp)

def RouteEntry.labels (e : RouteEntry) : List RouteLabel := routeLabels re e.segments

def pathAccepted (method path : Bytes) : Prop :=
  method = ascii "OPTIONS" ∧ path = [star] ∨ path.head? = some slash ∧ index [slash,slash] path = none

structure RouteEntry.Valid (e : RouteEntry) : Prop where
  token : validTokenString e.method = true
  text : pathAccepted e.method e.path
  printable : e.path.any controlCharacter = false
  segments : segmentsValid re e.segments = true

-- The forms of a pattern: with an optional last parameter also the one without it.
structure RouteForm where
  labels : List RouteLabel
  endpoint : RouteEndpoint

def RouteEntry.forms (e : RouteEntry) : List RouteForm :=
  ⟨e.labels re,⟨e.handler,routeKeys re e.segments,e.path⟩⟩ ::
    if optionalLast re e.segments = true then [⟨(e.labels re).dropLast,⟨e.handler,(routeKeys re e.segments).dropLast,e.path⟩⟩] else []

def formsIn (routes : List RouteEntry) (method : Bytes) : List RouteForm := (routes.filter fun e => e.method = method).flatMap (·.forms re)

def RouteEntry.slot (e : RouteEntry) (method : Bytes) (labels : List RouteLabel) : Option RouteEndpoint :=
  if e.method = method then newSlot re e.path e.handler e.segments [] labels else none

def slotIn (routes : List RouteEntry) (method : Bytes) (labels : List RouteLabel) : Option RouteEndpoint :=
  routes.foldl (fun old e => (e.slot re method labels).or old) none

def orderIn (routes : List RouteEntry) (method : Bytes) (place : List RouteLabel) : List ParamConstraint :=
  routes.foldl (fun old e => if e.method = method then newOrder place (e.labels re) old else old) []

inductive Built : Router → List RouteEntry → Prop
  | empty : Built {} []
  | add {r r' : Router} {routes : List RouteEntry} {method path : Bytes} {h : HandlerFunc} (before : Built r routes)
      (added : r.add re method path h = .ok r') : Built r' (routes ++ [registered method path h])

def Router.addAll (r : Router) : List RouteEntry → Except RouteError Router
  | [] => .ok r
  | e :: later => (r.add re e.method e.path e.handler).bind fun r => r.addAll later

def routerOf (calls : List RouteEntry) : Router := ((addAll re {} calls).toOption).getD {}

def RouteEntry.normal (e : RouteEntry) : RouteEntry := registered e.method e.path e.handler
end
section
variable {re : GoRegexp} {r r' : Router} {method path : Bytes} {h : HandlerFunc}

theorem normalizeRoutePath_ok (method path : Bytes) : normalizeRoutePath method path = .ok (routeText path) ∧ pathAccepted method (routeText path) ∨
    (∃ e, normalizeRoutePath method path = .error e) ∧ ¬pathAccepted method (routeText path) := by
  have unfolded : normalizeRoutePath method path = if method = ascii "OPTIONS" ∧ routeText path = [star] then .ok [star]
      else if (routeText path).head? ≠ some slash then .error .pathStart
      else if (index [slash,slash] (routeText path)).isSome = true then .error .duplicateSlashes
      else .ok (routeText path) := rfl
  rw [unfolded]
  by_cases whole : method = ascii "OPTIONS" ∧ routeText path = [star]
  · rw [if_pos whole]
    exact .inl ⟨by rw [whole.2],.inl whole⟩
  split_ifs with start double
  · exact .inr ⟨⟨_,rfl⟩,fun accepted => (accepted.resolve_left whole).1 |> start⟩
  · refine .inr ⟨⟨_,rfl⟩,fun accepted => ?_⟩
    rw [(accepted.resolve_left whole).2] at double
    cases double
  · exact .inl ⟨rfl,.inr ⟨Decidable.not_not.mp start,by simpa using double⟩⟩

theorem add_cases (entry : registered method path h = e) (unfrozen : r.frozen = false) :
    (∃ error, r.add re method path h = .error error ∧ (¬e.Valid re ∨ (r.tree e.method).slot (e.labels re) ≠ none)) ∨
    ∃ root, r.add re method path h = .ok (r.registers re e.method e.path e.handler root) ∧ e.Valid re ∧
      (r.tree e.method).slot (e.labels re) = none ∧ insertRoute re e.method e.path e.handler (r.tree e.method) e.segments [] = .ok root := by
  subst entry
  generalize named : registered method path h = e
  have isMethod : e.method = toUpper (trimSpace method) := by rw [← named]; rfl
  have isPath : e.path = routeText path := by rw [← named]; rfl
  have isHandler : e.handler = h := by rw [← named]; rfl
  rw [add,← isMethod,← isHandler]
  cases token : validTokenString e.method with
  | false => exact .inl ⟨_,rfl,.inl fun valid => by rw [valid.token] at token; cases token⟩
  | true =>
    rw [if_neg (by simp)]
    rcases normalizeRoutePath_ok e.method path with ⟨accepted,text⟩ | ⟨⟨error,refused⟩,text⟩
    · rw [← isPath] at accepted text
      rw [accepted,Except.bind]
      cases printable : e.path.any controlCharacter with
      | true => exact .inl ⟨_,rfl,.inl fun valid => by rw [valid.printable] at printable; cases printable⟩
      | false =>
        rw [if_neg (by simp),if_neg (by simp [unfrozen])]
        have taken : insertRoute re e.method e.path e.handler (r.tree e.method) (splitRouteSegments e.path) [] =
            insertRoute re e.method e.path e.handler (r.tree e.method) e.segments [] := rfl
        rw [taken]
        rcases insertRoute_cases re e.method e.path e.handler e.segments (r.tree e.method) [] with ⟨error,refused,why⟩ | ⟨root,done,valid,free,-⟩
        · rw [refused]
          refine .inl ⟨error,rfl,why.imp_left fun invalid valid => ?_⟩
          rw [valid.segments] at invalid
          cases invalid
        · rw [done]
          exact .inr ⟨root,rfl,⟨token,text,printable,valid⟩,free,rfl⟩
    · rw [refused]
      exact .inl ⟨error,rfl,.inl fun valid => text (by rw [← isPath]; exact valid.text)⟩
end
section
open RouteEntry
variable {re : GoRegexp} {r : Router} {routes : List RouteEntry}

theorem Built.unfrozen (built : Built re r routes) : r.frozen = false := by
  induction built with
  | empty => rfl
  | add _ added ih =>
    rcases add_cases rfl ih with ⟨e,refused,-⟩ | ⟨root,done,-⟩
    · rw [refused] at added
      cases added
    · rw [done] at added
      cases added
      exact ih

theorem Built.keeps {P : Router → List RouteEntry → Prop} (built : Built re r routes) (first : P {} [])
    (each : ∀ {r routes e root}, Built re r routes → P r routes → e.Valid re → (r.tree e.method).slot (e.labels re) = none →
      insertRoute re e.method e.path e.handler (r.tree e.method) e.segments [] = .ok root →
      P (r.registers re e.method e.path e.handler root) (routes ++ [e])) : P r routes := by
  induction built with
  | empty => exact first
  | add before added ih =>
    rcases add_cases rfl before.unfrozen with ⟨e,refused,-⟩ | ⟨root,done,valid,free,inserted⟩
    · rw [refused] at added
      cases added
    · rw [done] at added
      cases added
      exact each before ih valid free inserted

theorem Built.addAll (built : Built re r routes) (done : r.addAll re calls = .ok r') :
    Built re r' (routes ++ calls.map (·.normal)) := by
  induction calls generalizing r routes with
  | nil =>
    cases done
    rw [map_nil,append_nil]
    exact built
  | cons e later ih =>
    rw [addAll] at done
    cases added : r.add re e.method e.path e.handler with
    | error error =>
      rw [added] at done
      cases done
    | ok next =>
      rw [added] at done
      rw [map_cons,append_cons]
      exact ih (.add built added) done

theorem routerOf_built (done : (addAll re {} calls).isOk = true) : Built re (routerOf re calls) (calls.map (·.normal)) := by
  rw [routerOf]
  cases result : addAll re {} calls with
  | error error =>
    rw [result] at done
    cases done
  | ok r => exact Built.empty.addAll result

theorem tree_registers (e : RouteEntry) (root : RouteNode) (method : Bytes) :
    (r.registers re e.method e.path e.handler root).tree method = if e.method = method then root else r.tree method := by
  rw [tree,registers]
  simp only [Table.get_set]
  by_cases here : method = e.method
  · rw [if_pos here,if_pos here.symm]
    rfl
  · rw [if_neg here,if_neg (Ne.symm here)]
    rfl

theorem Built.valid (built : Built re r routes) : ∀ e ∈ routes, e.Valid re :=
  built.keeps (P := fun _ routes => ∀ e ∈ routes, e.Valid re) nofun
    fun _ before valid _ _ => forall_mem_append.mpr ⟨before,forall_mem_singleton.mpr valid⟩

theorem Built.slots (built : Built re r routes) (method : Bytes) (labels : List RouteLabel) :
    (r.tree method).slot labels = slotIn re routes method labels := by
  refine built.keeps (P := fun r routes => (r.tree method).slot labels = slotIn re routes method labels) (RouteNode.slot_empty labels) ?_
  intro r routes e root _ before _ _ inserted
  rw [tree_registers,slotIn,foldl_concat,← slotIn,slot]
  split_ifs with here
  · rcases insertRoute_cases re e.method e.path e.handler e.segments (r.tree e.method) [] with ⟨error,refused,-⟩ | ⟨root',done,-,-,slots⟩
    · rw [refused] at inserted
      cases inserted
    · rw [done] at inserted
      cases inserted
      rw [slots,here,before]
  · rw [before,none_or]

theorem Built.order (built : Built re r routes) (method : Bytes) (place : List RouteLabel) :
    (r.tree method).order place = orderIn re routes method place := by
  refine built.keeps (P := fun r routes => (r.tree method).order place = orderIn re routes method place) (order_empty place) ?_
  intro r routes e root _ before _ _ inserted
  rw [tree_registers,orderIn,foldl_concat,← orderIn]
  split_ifs with here
  · rw [insertRoute_order e.segments inserted place,here,before]
    rfl
  · exact before

def staticIn (routes : List RouteEntry) (method path : Bytes) : Option HandlerFunc :=
  routes.foldl (fun old e => if e.method = method ∧ e.path = path ∧ routeIsStatic e.segments = true then some e.handler else old) none

theorem Built.static (built : Built re r routes) (method path : Bytes) : r.static method path = staticIn routes method path := by
  refine built.keeps (P := fun r routes => r.static method path = staticIn routes method path) rfl ?_
  intro r routes e root _ before _ _ _
  rw [staticIn,foldl_concat,← staticIn,← before,registers]
  dsimp only
  split_ifs with static both both
  · rw [both.1,both.2.1,update_self,update_self]
  · by_cases here : method = e.method
    · subst here
      rw [update_self,update_of_ne fun same => both ⟨rfl,same.symm,static⟩]
    · rw [update_of_ne here]
  · exact absurd both.2.2 static
  · rfl

theorem segmentKey_collects (seg : Bytes) : (segmentKey re seg).isSome = (segmentLabel re seg).collects := by
  unfold segmentKey segmentLabel
  split
  · dsimp only
    split <;> rfl
  · rfl
  · rfl

theorem routeLabels_cons (seg : Bytes) (later : List Bytes) : routeLabels re (seg :: later) = segmentLabel re seg :: routeLabels re later := rfl

theorem routeKeys_length (segments : List Bytes) : (routeKeys re segments).length = (routeLabels re segments).countP RouteLabel.collects := by
  induction segments with
  | nil => rfl
  | cons seg later ih =>
    rw [routeKeys_cons,length_append,ih,routeLabels_cons,countP_cons,← segmentKey_collects,Nat.add_comm]
    cases segmentKey re seg <;> rfl

theorem segmentsValid_mem {segments : List Bytes} (valid : segmentsValid re segments = true) : ∀ seg ∈ segments, segmentValid re seg = true := by
  induction segments with
  | nil => exact nofun
  | cons first later ih =>
    rw [segmentsValid,Bool.and_eq_true,Bool.and_eq_true] at valid
    exact forall_mem_cons.mpr ⟨valid.1.1,ih valid.2⟩

theorem static_nonempty {segments : List Bytes} (valid : segmentsValid re segments = true) : .static [] ∉ routeLabels re segments := by
  intro inside
  obtain ⟨seg,mem,label⟩ := mem_map.mp inside
  have bad : segmentLabel re seg = .static [] → seg = [] := by
    unfold segmentLabel
    split
    · dsimp only
      split <;> exact nofun
    · exact nofun
    · exact fun same => RouteLabel.static.inj same
  have nonempty := segmentsValid_mem valid seg mem
  rw [bad label] at nonempty
  cases nonempty

theorem slotIn_mem {method : Bytes} {labels : List RouteLabel} : ∀ {routes : List RouteEntry},
    slotIn re routes method labels = some endpoint → ∃ e ∈ routes, e.slot re method labels = some endpoint := by
  intro routes
  induction routes using List.reverseRecOn with
  | nil => exact nofun
  | append_singleton routes e ih =>
    intro there
    rw [slotIn,foldl_concat,← slotIn] at there
    rcases or_eq_some_iff.mp there with here | ⟨-,before⟩
    · exact ⟨e,mem_append_right _ (mem_singleton_self e),here⟩
    · obtain ⟨e',mem,slot⟩ := ih before
      exact ⟨e',mem_append_left _ mem,slot⟩

theorem mem_forms {e : RouteEntry} {labels : List RouteLabel} : ⟨labels,endpoint⟩ ∈ e.forms re ↔
    labels = e.labels re ∧ endpoint = ⟨e.handler,routeKeys re e.segments,e.path⟩ ∨
    optionalLast re e.segments = true ∧ labels = (e.labels re).dropLast ∧ endpoint = ⟨e.handler,(routeKeys re e.segments).dropLast,e.path⟩ := by
  rw [forms,mem_cons,RouteForm.mk.injEq]
  split
  · rename_i needed
    simp [needed]
  · rename_i needed
    simp [needed]

section
variable {segments : List Bytes} (needed : optionalLast re segments = true)
include needed

theorem optionalLast_init :
    ∃ init seg, segments = init ++ [seg] ∧ (routeLabels re segments).dropLast = routeLabels re init ∧
      (routeKeys re segments).dropLast = routeKeys re init := by
  obtain ⟨seg,last,optional⟩ := (Option.any_eq_true ..).mp needed
  obtain ⟨init,rfl⟩ := List.getLast?_eq_some_iff.mp last
  obtain ⟨key,named⟩ := segmentKey_optional re optional
  refine ⟨init,seg,rfl,?_,?_⟩
  · rw [routeLabels,map_append,map_singleton,dropLast_concat]
    rfl
  · rw [routeKeys,filterMap_append,filterMap_cons_some named,filterMap_nil,dropLast_concat]
    rfl

theorem optionalLast_keeps (mem : label ∈ routeLabels re segments)
    (other : label = .wild ∨ ∃ text, label = .static text) : label ∈ (routeLabels re segments).dropLast := by
  obtain ⟨seg,last,optional⟩ := (Option.any_eq_true ..).mp needed
  obtain ⟨init,rfl⟩ := List.getLast?_eq_some_iff.mp last
  have collected : segmentLabel re seg = .param ∨ ∃ c, segmentLabel re seg = .constrained c := by
    unfold segmentOptional at optional
    split at optional
    · rw [segmentLabel]
      split
      · exact .inl rfl
      · exact .inr ⟨_,rfl⟩
    · cases optional
  rw [routeLabels,map_append,map_singleton] at mem ⊢
  rw [dropLast_concat]
  rcases mem_append.mp mem with before | final
  · exact before
  · rw [mem_singleton.mp final] at other
    rcases collected with label | ⟨c,label⟩ <;> rw [label] at other <;> rcases other with same | ⟨text,same⟩ <;> cases same

theorem optionalLast_shorter :
    (routeLabels re segments).dropLast ≠ routeLabels re segments := by
  intro same
  obtain ⟨init,seg,rfl,-⟩ := optionalLast_init needed
  have sizes := congrArg List.length same
  rw [length_dropLast,routeLabels,length_map,length_append,length_singleton] at sizes
  lia
end

theorem RouteEntry.slot_sound {e : RouteEntry} (valid : e.Valid re) {method : Bytes} {labels : List RouteLabel}
    (there : e.slot re method labels = some endpoint) : .static [] ∉ labels ∧ endpoint.paramKeys.length = labels.countP RouteLabel.collects := by
  rw [slot] at there
  split at there
  · have whole := static_nonempty valid.segments
    rw [newSlot] at there
    split at there
    · rename_i own
      cases there
      subst own
      exact ⟨whole,routeKeys_length _⟩
    · split at there
      · rename_i short
        obtain ⟨init,seg,split,labelsInit,keysInit⟩ := optionalLast_init short.1
        cases there
        rw [short.2,keysInit,labelsInit]
        refine ⟨fun mem => whole ?_,routeKeys_length _⟩
        rw [split,routeLabels,map_append]
        exact mem_append_left _ mem
      · cases there
  · cases there

theorem RouteEntry.slot_iff {e : RouteEntry} {method : Bytes} {labels : List RouteLabel} :
    e.slot re method labels = some endpoint ↔ e.method = method ∧ ⟨labels,endpoint⟩ ∈ e.forms re := by
  rw [slot,mem_forms]
  by_cases here : e.method = method
  · rw [if_pos here,newSlot,nil_append,nil_append,← RouteEntry.labels,and_iff_right here]
    by_cases own : labels = e.labels re
    · have short : ¬(optionalLast re e.segments = true ∧ labels = (e.labels re).dropLast) :=
        fun both => optionalLast_shorter both.1 (both.2.symm.trans own)
      rw [if_pos own,and_iff_right own,← and_assoc,or_iff_left fun both => short both.1,some.injEq,eq_comm]
    · rw [if_neg own,or_iff_right fun both => own both.1,← and_assoc]
      split
      · rename_i needed
        rw [and_iff_right needed,some.injEq,eq_comm]
      · rename_i needed
        exact ⟨by rintro ⟨⟩,fun both => absurd both.1 needed⟩
  · rw [if_neg here]
    exact ⟨by rintro ⟨⟩,fun both => absurd both.1 here⟩

theorem mem_formsIn {form : RouteForm} {method : Bytes} : form ∈ formsIn re routes method ↔ ∃ e ∈ routes, e.slot re method form.labels = some form.endpoint := by
  rw [formsIn,mem_flatMap]
  refine exists_congr fun e => ?_
  rw [mem_filter,decide_eq_true_iff,slot_iff,and_assoc]

theorem slotIn_form {method : Bytes} {labels : List RouteLabel}
    (different : ((formsIn re routes method).map (·.labels)).Nodup) :
    slotIn re routes method labels = some endpoint ↔ ⟨labels,endpoint⟩ ∈ formsIn re routes method := by
  refine ⟨fun there => mem_formsIn.mpr (slotIn_mem there),?_⟩
  induction routes using List.reverseRecOn with
  | nil => exact nofun
  | append_singleton routes e ih =>
    rw [formsIn,filter_append,flatMap_append,← formsIn,map_append] at different
    obtain ⟨before,-,across⟩ := nodup_append.mp different
    intro form
    rw [slotIn,foldl_concat,← slotIn]
    obtain ⟨e',mem,taken⟩ := mem_formsIn.mp form
    rcases mem_append.mp mem with earlier | last
    · have older := mem_formsIn.mpr ⟨e',earlier,taken⟩
      have free : e.slot re method labels = none := by
        cases new : e.slot re method labels with
        | none => rfl
        | some other =>
          have newer : (⟨labels,other⟩ : RouteForm) ∈ ([e].filter fun e => e.method = method).flatMap (·.forms re) :=
            mem_formsIn.mpr ⟨e,mem_singleton_self e,new⟩
          exact (across _ (mem_map.mpr ⟨_,older,rfl⟩) _ (mem_map.mpr ⟨_,newer,rfl⟩) rfl).elim
      rw [free,none_or]
      exact ih before older
    · rw [mem_singleton.mp last] at taken
      rw [taken,some_or]

theorem newOrder_nodup {labels : List RouteLabel} (distinct : list.Nodup) : (newOrder place labels list).Nodup := by
  rw [newOrder]
  split
  · exact appendNew_nodup distinct _
  · exact distinct

theorem orderIn_nodup (routes : List RouteEntry) (method : Bytes) (place : List RouteLabel) : (orderIn re routes method place).Nodup := by
  induction routes using List.reverseRecOn with
  | nil => exact nodup_nil
  | append_singleton routes e ih =>
    rw [orderIn,foldl_concat,← orderIn]
    split
    · exact newOrder_nodup ih
    · exact ih

theorem Built.sound (built : Built re r routes) (method : Bytes) : (r.tree method).Sound 0 where
  distinct place := by
    rw [built.order]
    exact orderIn_nodup routes method place
  named labels e there := by
    rw [built.slots] at there
    obtain ⟨entry,mem,slot⟩ := slotIn_mem there
    exact (slot_sound (built.valid entry mem) slot).1
  keyed labels e there := by
    rw [built.slots] at there
    obtain ⟨entry,mem,slot⟩ := slotIn_mem there
    rw [Nat.zero_add]
    exact (slot_sound (built.valid entry mem) slot).2

theorem splitRouteSegments_slash (more : rest ≠ []) : splitRouteSegments (slash :: rest) = splitSlash rest := by
  unfold splitRouteSegments
  rw [if_neg (by simp [more]),if_neg (by simp [slash,star])]
  simp [slash]

theorem RouteEntry.Valid.path_join {e : RouteEntry} (valid : e.Valid re) : e.path = [slash] ∧ e.segments = [] ∨ e.path = [star] ∧ e.segments = [[star]] ∨
    joinSegments e.segments = e.path ∧ ∀ seg ∈ e.segments, seg ≠ [] ∧ slash ∉ seg := by
  rcases valid.text with ⟨-,whole⟩ | ⟨first,-⟩
  · exact .inr (.inl ⟨whole,by rw [RouteEntry.segments,whole]; rfl⟩)
  obtain ⟨rest,text⟩ := List.head?_eq_some_iff.mp first
  by_cases root : rest = []
  · exact .inl ⟨by rw [text,root],by rw [RouteEntry.segments,text,root]; rfl⟩
  have pieces : e.segments = splitSlash rest := by rw [RouteEntry.segments,text,splitRouteSegments_slash root]
  obtain ⟨joined,solid⟩ := splitSlash_join rest
  rw [← pieces] at joined solid
  refine .inr (.inr ⟨joined.trans text.symm,fun seg mem => ⟨fun bare => ?_,solid seg mem⟩⟩)
  have named := segmentsValid_mem valid.segments seg mem
  rw [bare] at named
  cases named

theorem routeIsStatic_label {segments : List Bytes} (static : routeIsStatic segments = true) (mem : seg ∈ segments) :
    segmentLabel re seg = .static seg ∧ segmentKey re seg = none ∧ segmentOptional re seg = false := by
  have plain := all_eq_true.mp static seg mem
  cases seg with
  | nil => cases plain
  | cons c rest =>
    have marks : c ≠ colon ∧ c ≠ star := by simpa using plain
    obtain ⟨label,key,needed,-⟩ := segment_plain re rest marks.1 marks.2
    exact ⟨label,key,needed⟩

def Router.hits (re : GoRegexp) (r : Router) (method path : Bytes) : List Hit := (r.tree method).hitsOn re (readLookup (cleanLookupPath path))

theorem hits_empty (segments : List LookupSegment) (ends : Bool) : RouteNode.empty.hits re segments ends = [] := by
  cases segments with
  | nil => cases ends <;> rfl
  | cons seg later => rfl

theorem Built.matchTree_eq (built : Built re r routes) (method path : Bytes) : r.matchTree re method path = answer (r.hits re method path) [] := by
  have found := matchNode_eq re (built.sound method) (cleanLookupPath_clean path)
  rw [matchTree,hits]
  rw [tree] at found ⊢
  cases there : r.trees.get method with
  | none =>
    dsimp only [getD_none]
    rw [RouteNode.hitsOn,hits_empty]
    rfl
  | some root =>
    rw [there] at found
    exact found
end
end FhServer

import FhServer.RouteSpecificity

namespace FhServer
open GoBytes GoText List Router RouteEntry
section
variable {re : GoRegexp} {routes : List RouteEntry}

-- The places where a route is in another's way are that route's own and, for an optional last parameter, the one before it.
def RouteEntry.Blocks (re : GoRegexp) (e f : RouteEntry) : Prop :=
  e.method = f.method ∧ (f.labels re = e.labels re ∨ optionalLast re e.segments = true ∧ f.labels re = (e.labels re).dropLast)

theorem slot_isSome {e : RouteEntry} {method : Bytes} {labels : List RouteLabel} : (e.slot re method labels).isSome = true ↔
    e.method = method ∧ (labels = e.labels re ∨ optionalLast re e.segments = true ∧ labels = (e.labels re).dropLast) := by
  rw [Option.isSome_iff_exists]
  simp only [slot_iff,mem_forms]
  constructor
  · rintro ⟨endpoint,here,⟨own,-⟩ | ⟨needed,short,-⟩⟩
    · exact ⟨here,.inl own⟩
    · exact ⟨here,.inr ⟨needed,short⟩⟩
  · rintro ⟨here,own | ⟨needed,short⟩⟩
    · exact ⟨_,here,.inl ⟨own,rfl⟩⟩
    · exact ⟨_,here,.inr ⟨needed,short,rfl⟩⟩

theorem slot_free {e : RouteEntry} : e.slot re f.method (f.labels re) = none ↔ ¬e.Blocks re f := by
  rw [RouteEntry.Blocks,← slot_isSome,Bool.not_eq_true,Option.isSome_eq_false_iff,Option.isNone_iff_eq_none]

theorem slotIn_none {method : Bytes} {labels : List RouteLabel} : slotIn re routes method labels = none ↔ ∀ e ∈ routes, e.slot re method labels = none := by
  induction routes using List.reverseRecOn with
  | nil => exact ⟨nofun,fun _ => rfl⟩
  | append_singleton routes e ih =>
    rw [slotIn,foldl_concat,← slotIn,Option.or_eq_none_iff,forall_mem_append,forall_mem_singleton,ih,and_comm]

theorem addAll_isOk (calls : List RouteEntry) : ∀ {r : Router} {routes : List RouteEntry}, Built re r routes → ((r.addAll re calls).isOk = true ↔
    (∀ e ∈ calls.map (·.normal), e.Valid re) ∧ (∀ e ∈ routes, ∀ f ∈ calls.map (·.normal), ¬e.Blocks re f) ∧
      (calls.map (·.normal)).Pairwise fun e f => ¬e.Blocks re f) := by
  induction calls with
  | nil =>
    intro r routes _
    exact ⟨fun _ => ⟨by rintro _ ⟨⟩,by rintro _ _ _ ⟨⟩,.nil⟩,fun _ => rfl⟩
  | cons e later ih =>
    intro r routes built
    have free : (r.tree e.normal.method).slot (e.normal.labels re) = none ↔ ∀ d ∈ routes, ¬d.Blocks re e.normal := by
      rw [built.slots,slotIn_none]
      exact forall₂_congr fun d _ => slot_free
    rw [addAll,map_cons,forall_mem_cons,pairwise_cons]
    simp only [forall_mem_cons]
    rcases add_cases (e := e.normal) rfl built.unfrozen with ⟨error,refused,why⟩ | ⟨root,done,valid,vacant,-⟩
    · rw [refused]
      refine ⟨by rintro ⟨⟩,?_⟩
      rintro ⟨⟨valid,-⟩,unblocked,-⟩
      rcases why with invalid | taken
      · exact absurd valid invalid
      · exact absurd (free.mpr fun d mem => (unblocked d mem).1) taken
    · rw [done]
      have next := ih (.add built done)
      rw [forall_mem_append,forall_mem_singleton] at next
      refine next.trans ⟨?_,?_⟩
      · rintro ⟨each,⟨before,own⟩,rest⟩
        exact ⟨⟨valid,each⟩,fun d mem => ⟨free.mp vacant d mem,before d mem⟩,own,rest⟩
      · rintro ⟨⟨-,each⟩,before,own,rest⟩
        exact ⟨each,⟨fun d mem => (before d mem).2,own⟩,rest⟩

theorem Built.unblocked (built : Built re r routes) : routes.Pairwise fun e f => ¬e.Blocks re f := by
  refine built.keeps (P := fun _ routes => routes.Pairwise fun e f => ¬e.Blocks re f) .nil ?_
  intro r routes e root built before _ free _
  rw [built.slots,slotIn_none] at free
  exact pairwise_append.mpr ⟨before,pairwise_singleton _ _,fun d mem f last => mem_singleton.mp last ▸ slot_free.mp (free d mem)⟩

theorem hits_determined {n n' : RouteNode} (distinct : n.Distinct) (distinct' : n'.Distinct) (slots : ∀ labels, n.slot labels = n'.slot labels)
    (orders : n.order = n'.order) (segments : List LookupSegment) (ends : Bool) : n.hits re segments ends = n'.hits re segments ends := by
  have sooner : Hit.sooner n' = Hit.sooner n := by
    funext a b
    rw [Hit.sooner,Hit.sooner,orders]
  have sorted : (n.hits re segments ends).Pairwise (Hit.sooner n) := hits_sorted segments ends distinct
  have sorted' : (n'.hits re segments ends).Pairwise (Hit.sooner n') := hits_sorted segments ends distinct'
  rw [sooner] at sorted'
  have single : ∀ {hits : List Hit}, hits.Pairwise (Hit.sooner n) → hits.Nodup := by
    intro hits sorted
    refine List.Pairwise.imp ?_ sorted
    rintro a _ before rfl
    exact precedes_asymm before before
  refine List.Perm.eq_of_pairwise (fun a b _ _ before after => (precedes_asymm before after).elim) sorted sorted' ?_
  refine (perm_ext_iff_of_nodup (single sorted) (single sorted')).mpr fun hit => ?_
  rw [mem_hits _ distinct,mem_hits _ distinct',slots]

theorem Built.find_determined (built : Built re r routes) (built' : Built re r' routes')
    (slots : ∀ method labels, slotIn re routes method labels = slotIn re routes' method labels)
    (orders : ∀ method, orderIn re routes method = orderIn re routes' method)
    (static : ∀ method path, staticIn routes method path = staticIn routes' method path) (method path : Bytes) : r.find re method path = r'.find re method path := by
  have trees : ∀ method, r.matchTree re method path = r'.matchTree re method path := by
    intro method
    have same : (r.tree method).slot = (r'.tree method).slot := by
      funext labels
      rw [built.slots,built'.slots,slots]
    have order : (r.tree method).order = (r'.tree method).order := by
      funext place
      rw [built.order,built'.order,orders]
    rw [built.matchTree_eq,built'.matchTree_eq,hits,hits,RouteNode.hitsOn,RouteNode.hitsOn,
      hits_determined (built.sound method).distinct (built'.sound method).distinct (congrFun same) order]
  rw [find,find,findNoLockCanonical,findNoLockCanonical,findStatic,findStatic,findStatic,findStatic,
    built.static,built.static,built'.static,built'.static,trees,trees,static,static]
end
section
variable {re : GoRegexp} {routes routes' : List RouteEntry}

def RouteLabel.isConstrained : RouteLabel → Bool
  | .constrained _ => true
  | _ => false

def RouteEntry.Unconstrained (re : GoRegexp) (e : RouteEntry) : Prop := ∀ label ∈ e.labels re, label.isConstrained = false

def RouteEntry.place (re : GoRegexp) (e : RouteEntry) : Bytes × List RouteLabel := (e.method,e.labels re)

def Unobstructed (re : GoRegexp) (routes : List RouteEntry) : Prop :=
  ∀ e ∈ routes, ∀ f ∈ routes, e.method = f.method → optionalLast re e.segments = true → f.labels re ≠ (e.labels re).dropLast

theorem constraintAt_mem (place : List RouteLabel) : ∀ {labels : List RouteLabel}, constraintAt place labels = some c → .constrained c ∈ labels := by
  induction place with
  | nil =>
    intro labels there
    unfold constraintAt at there
    split at there
    · cases there
      exact mem_cons_self ..
    · cases ‹[] = _ :: _›
    · cases there
  | cons label place ih =>
    intro labels there
    cases labels with
    | nil => cases there
    | cons label' labels =>
      rw [constraintAt] at there
      split at there
      · exact mem_cons_of_mem _ (ih there)
      · cases there

theorem orderIn_nil (plain : ∀ e ∈ routes, e.Unconstrained re) (method : Bytes) (place : List RouteLabel) : orderIn re routes method place = [] := by
  induction routes using List.reverseRecOn with
  | nil => rfl
  | append_singleton routes e ih =>
    obtain ⟨before,own⟩ := forall_mem_append.mp plain
    rw [orderIn,foldl_concat,← orderIn,ih before]
    split
    · rw [newOrder]
      split
      · rename_i c there
        cases own e (mem_singleton_self e) _ (constraintAt_mem place there)
      · rfl
    · rfl

theorem optionalLast_param {e : RouteEntry} (plain : e.Unconstrained re) (needed : optionalLast re e.segments = true) : e.labels re = (e.labels re).dropLast ++ [.param] := by
  obtain ⟨seg,last,optional⟩ := (Option.any_eq_true ..).mp needed
  have label : (e.labels re).getLast? = some (segmentLabel re seg) := by
    rw [labels,routeLabels,List.getLast?_map,last]
    rfl
  have isParam : segmentLabel re seg = .param := by
    have free := plain _ (mem_of_getLast? label)
    unfold segmentOptional at optional
    split at optional
    · rename_i name
      rw [segmentLabel] at free ⊢
      split
      · rfl
      · rename_i kind
        rw [if_neg kind] at free
        cases free
    · cases optional
  rw [isParam] at label
  exact (dropLast_append_getLast? _ label).symm

theorem staticIn_iff (different : (routes.map (·.place re)).Nodup) {method path : Bytes} : staticIn routes method path = some h ↔
    ∃ e ∈ routes, e.method = method ∧ e.path = path ∧ routeIsStatic e.segments = true ∧ e.handler = h := by
  refine ⟨staticIn_mem,?_⟩
  rintro ⟨e,mem,own,text,static,handler⟩
  obtain ⟨h',there⟩ := Option.isSome_iff_exists.mp (staticIn_isSome mem own text static)
  obtain ⟨f,inside',own',text',-,handler'⟩ := staticIn_mem there
  have same : e.place re = f.place re := by
    rw [place,place,labels,labels,RouteEntry.segments,RouteEntry.segments,own,own',text,text']
  rw [there,← handler',← inj_on_of_nodup_map different mem inside' same,handler]

theorem accepted_iff (calls : List RouteEntry) : (addAll re {} calls).isOk = true ↔
    (∀ e ∈ calls.map (·.normal), e.Valid re) ∧ (calls.map (·.normal)).Pairwise fun e f => ¬e.Blocks re f := by
  rw [addAll_isOk calls Built.empty]
  exact and_congr_right fun _ => and_iff_right nofun

theorem unblocked_places (unblocked : routes.Pairwise fun e f => ¬e.Blocks re f) : (routes.map (·.place re)).Nodup := by
  refine pairwise_map.mpr (unblocked.imp fun {e f} apart same => apart ?_)
  obtain ⟨method,labels⟩ := Prod.mk.inj same
  exact ⟨method,.inl labels.symm⟩

theorem Unobstructed.unblocked (clear : Unobstructed re routes) (different : (routes.map (·.place re)).Nodup) : routes.Pairwise fun e f => ¬e.Blocks re f := by
  refine (pairwise_map.mp different).imp_of_mem fun {e f} mem inside' apart blocked => ?_
  rcases blocked with ⟨method,same | ⟨needed,short⟩⟩
  · exact apart (Prod.ext method same.symm)
  · exact clear e mem f inside' method needed short

theorem shorter_first_unblocked (different : (routes.map (·.place re)).Nodup) (sorted : routes.Pairwise fun e f => (e.labels re).length ≤ (f.labels re).length) :
    routes.Pairwise fun e f => ¬e.Blocks re f := by
  refine ((pairwise_map.mp different).and sorted).imp fun {e f} both blocked => ?_
  obtain ⟨apart,shorter⟩ := both
  rcases blocked with ⟨method,same | ⟨needed,short⟩⟩
  · exact apart (Prod.ext method same.symm)
  have longer : e.labels re ≠ [] := fun bare => optionalLast_shorter needed (by rw [← labels,bare]; rfl)
  rw [short,length_dropLast] at shorter
  have := length_pos_of_ne_nil longer
  lia

def OrderIrrelevant (re : GoRegexp) (calls : List RouteEntry) : Prop :=
  ∀ first second : List RouteEntry, first.Perm calls → second.Perm calls →
    (addAll re {} first).isOk = (addAll re {} second).isOk ∧
    ∀ r r', addAll re {} first = .ok r → addAll re {} second = .ok r' → ∀ method path, r.find re method path = r'.find re method path

-- A route that is invalid by itself or two routes for one place fail in every order; otherwise no optional last parameter may
-- take the place of another route.
def OrderFree (re : GoRegexp) (routes : List RouteEntry) : Prop :=
  (∃ e ∈ routes, ¬e.Valid re) ∨ ¬(routes.map (·.place re)).Nodup ∨ Unobstructed re routes

theorem OrderFree.accepted {calls first second : List RouteEntry} (free : OrderFree re (calls.map (·.normal))) (one : first.Perm calls) (two : second.Perm calls)
    (ok : (addAll re {} first).isOk = true) : Unobstructed re (calls.map (·.normal)) ∧ ((calls.map (·.normal)).map (·.place re)).Nodup ∧
      (addAll re {} second).isOk = true := by
  obtain ⟨valid,unblocked⟩ := (accepted_iff first).mp ok
  have same : (first.map (·.normal)).Perm (calls.map (·.normal)) := one.map _
  have same' : (second.map (·.normal)).Perm (calls.map (·.normal)) := two.map _
  have different := (same.map (·.place re)).nodup_iff.mp (unblocked_places unblocked)
  have clear : Unobstructed re (calls.map (·.normal)) := by
    rcases free with ⟨e,mem,invalid⟩ | twice | clear
    · exact absurd (valid e (same.mem_iff.mpr mem)) invalid
    · exact absurd different twice
    · exact clear
  refine ⟨clear,different,(accepted_iff second).mpr ⟨fun e mem => valid e (same.mem_iff.mpr (same'.mem_iff.mp mem)),?_⟩⟩
  have clear' : Unobstructed re (second.map (·.normal)) :=
    fun e mem f inside' => clear e (same'.mem_iff.mp mem) f (same'.mem_iff.mp inside')
  exact clear'.unblocked ((same'.map (·.place re)).nodup_iff.mpr different)

section
variable (clear : Unobstructed re routes) (plain : ∀ e ∈ routes, e.Unconstrained re) (different : (routes.map (·.place re)).Nodup)
include clear plain different

theorem Unobstructed.single {method : Bytes} {labels : List RouteLabel} (mem : e ∈ routes) (inside' : f ∈ routes)
    (taken : (e.slot re method labels).isSome = true) (taken' : (f.slot re method labels).isSome = true) : e = f := by
  obtain ⟨here,own⟩ := slot_isSome.mp taken
  obtain ⟨here',own'⟩ := slot_isSome.mp taken'
  have same : e.labels re = f.labels re := by
    rcases own with own | ⟨needed,short⟩
    · rcases own' with own' | ⟨needed',short'⟩
      · exact own.symm.trans own'
      · exact absurd (own.symm.trans short') (clear f inside' e mem (here'.trans here.symm) needed')
    · rcases own' with own' | ⟨needed',short'⟩
      · exact absurd (own'.symm.trans short) (clear e mem f inside' (here.trans here'.symm) needed)
      · rw [optionalLast_param (plain e mem) needed,optionalLast_param (plain f inside') needed',← short,← short']
  exact inj_on_of_nodup_map different mem inside' (Prod.ext (here.trans here'.symm) same)

theorem Unobstructed.slotIn_iff {method : Bytes} {labels : List RouteLabel} :
    slotIn re routes method labels = some endpoint ↔ ∃ e ∈ routes, e.slot re method labels = some endpoint := by
  refine ⟨slotIn_mem,fun ⟨e,mem,taken⟩ => ?_⟩
  cases there : slotIn re routes method labels with
  | none =>
    rw [slotIn_none.mp there e mem] at taken
    cases taken
  | some endpoint' =>
    obtain ⟨f,inside',taken'⟩ := slotIn_mem there
    obtain rfl := clear.single plain different mem inside' (by rw [taken]; rfl) (by rw [taken']; rfl)
    exact taken'.symm.trans taken

theorem Unobstructed.slotIn_perm (same : routes'.Perm routes) (method : Bytes) (labels : List RouteLabel) : slotIn re routes' method labels = slotIn re routes method labels := by
  have clear' : Unobstructed re routes' := fun e mem f inside' => clear e (same.mem_iff.mp mem) f (same.mem_iff.mp inside')
  have plain' : ∀ e ∈ routes', e.Unconstrained re := fun e mem => plain e (same.mem_iff.mp mem)
  refine Option.ext fun endpoint => ?_
  rw [clear.slotIn_iff plain different,clear'.slotIn_iff plain' ((same.map (·.place re)).nodup_iff.mpr different)]
  exact exists_congr fun e => and_congr_left fun _ => same.mem_iff
end

theorem staticIn_perm (different : (routes.map (·.place re)).Nodup) (same : routes'.Perm routes) (method path : Bytes) :
    staticIn routes' method path = staticIn routes method path := by
  refine Option.ext fun h => ?_
  rw [staticIn_iff different,staticIn_iff ((same.map (·.place re)).nodup_iff.mpr different)]
  exact exists_congr fun e => and_congr_left fun _ => same.mem_iff

theorem OrderFree.irrelevant (plain : ∀ e ∈ calls, e.normal.Unconstrained re) (free : OrderFree re (calls.map (·.normal))) :
    OrderIrrelevant re calls := by
  intro first second one two
  refine ⟨Bool.eq_iff_iff.mpr ⟨fun ok => (free.accepted one two ok).2.2,fun ok => (free.accepted two one ok).2.2⟩,fun r r' done done' => ?_⟩
  obtain ⟨clear,different,-⟩ := free.accepted one two (by rw [done]; rfl)
  have built := Built.empty.addAll done
  have built' := Built.empty.addAll done'
  rw [nil_append] at built built'
  have plain' : ∀ e ∈ calls.map (·.normal), e.Unconstrained re := forall_mem_map.mpr plain
  have empty : ∀ {list : List RouteEntry}, list.Perm calls → ∀ method, orderIn re (list.map (·.normal)) method = fun _ => [] :=
    fun same method => funext (orderIn_nil (fun e mem => plain' e ((same.map _).mem_iff.mp mem)) method)
  refine built.find_determined built' (fun method labels => ?_) (fun method => ?_) fun method path => ?_
  · rw [clear.slotIn_perm plain' different (one.map _),clear.slotIn_perm plain' different (two.map _)]
  · rw [empty one,empty two]
  · rw [staticIn_perm different (one.map _),staticIn_perm different (two.map _)]

theorem order_matters (valid : ∀ e ∈ calls.map (·.normal), e.Valid re) (different : ((calls.map (·.normal)).map (·.place re)).Nodup)
    (inside : e ∈ calls) (inside' : f ∈ calls) (method : e.normal.method = f.normal.method) (needed : optionalLast re e.normal.segments = true)
    (short : f.normal.labels re = (e.normal.labels re).dropLast) : ¬OrderIrrelevant re calls := by
  intro irrelevant
  have apart : f ≠ e := fun same => optionalLast_shorter needed (by rw [← labels,← short,same])
  have later : f ∈ calls.erase e := (mem_erase_of_ne apart).mpr inside'
  have failing : calls.Perm (e :: f :: (calls.erase e).erase f) := (perm_cons_erase inside).trans ((perm_cons_erase later).cons e)
  let shorter (a b : RouteEntry) : Bool := decide ((a.normal.labels re).length ≤ (b.normal.labels re).length)
  have sorted : (calls.mergeSort shorter).Perm calls := mergeSort_perm calls shorter
  have works : (addAll re {} (calls.mergeSort shorter)).isOk = true := by
    refine (accepted_iff _).mpr ⟨fun g mem => valid g ((sorted.map _).mem_iff.mp mem),shorter_first_unblocked ?_ ?_⟩
    · exact ((sorted.map normal).map (place re)).nodup_iff.mpr different
    · refine pairwise_map.mpr ((pairwise_mergeSort (fun a b c => ?_) (fun a b => ?_) calls).imp fun before => of_decide_eq_true before)
      · simpa using Nat.le_trans
      · simpa using Nat.le_total _ _
  rw [(irrelevant _ _ sorted failing.symm).1] at works
  obtain ⟨-,unblocked⟩ := (accepted_iff _).mp works
  exact (pairwise_cons.mp unblocked).1 f.normal (mem_cons_self ..) ⟨method,.inr ⟨needed,short⟩⟩

theorem order_irrelevant_iff {calls : List RouteEntry} (plain : ∀ e ∈ calls, e.normal.Unconstrained re) :
    OrderIrrelevant re calls ↔ OrderFree re (calls.map (·.normal)) := by
  refine ⟨fun irrelevant => ?_,fun free => free.irrelevant plain⟩
  by_contra bound
  obtain ⟨valid,different,obstructed⟩ : (∀ e ∈ calls.map (·.normal), e.Valid re) ∧ ((calls.map (·.normal)).map (·.place re)).Nodup ∧
      ¬Unobstructed re (calls.map (·.normal)) := by
    rw [OrderFree,not_or,not_or,not_not] at bound
    exact ⟨fun e mem => by_contra fun invalid => bound.1 ⟨e,mem,invalid⟩,bound.2⟩
  refine obstructed (forall_mem_map.mpr fun e mem => forall_mem_map.mpr fun f inside' => ?_)
  exact fun method needed short => order_matters valid different mem inside' method needed short irrelevant

def optionalRoutes : List RouteEntry := [⟨GET,ascii "/a",1⟩,⟨GET,ascii "/a/:x?",2⟩]

theorem optional_after_only : (∀ e ∈ optionalRoutes, e.normal.Unconstrained plainRegexp) ∧ (optionalRoutes.map (·.handler)).Nodup ∧
    (addAll plainRegexp {} optionalRoutes).isOk = true ∧
    addAll plainRegexp {} optionalRoutes.reverse = .error (.duplicateRoute GET (ascii "/a")) := by
  refine ⟨?_,by decide,by decide,rfl⟩
  unfold RouteEntry.Unconstrained
  decide

def unrelatedRoutes : List RouteEntry := [⟨GET,ascii "/a",1⟩,⟨GET,ascii "/b/:x?",2⟩,⟨HEAD,ascii "/b",3⟩]

theorem unrelated_any_order : OrderIrrelevant plainRegexp unrelatedRoutes := by
  have plain : ∀ e ∈ unrelatedRoutes, e.normal.Unconstrained plainRegexp := by
    unfold RouteEntry.Unconstrained
    decide
  have clear : Unobstructed plainRegexp (unrelatedRoutes.map (·.normal)) := by
    unfold Unobstructed
    decide
  exact (order_irrelevant_iff plain).mpr (.inr (.inr clear))
end
end FhServer

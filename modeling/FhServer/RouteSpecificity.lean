import FhServer.RouteTable

namespace FhServer
open GoBytes GoText List RouteNode

-- Which of two labels at the same place is tried first, where the constraints are tried in the given order.
def RouteLabel.prior (order : List ParamConstraint) : RouteLabel → RouteLabel → Prop
  | .static _, .constrained _ | .static _, .param | .static _, .wild => True
  | .constrained c, .constrained c' => order.idxOf c < order.idxOf c'
  | .constrained _, .param | .constrained _, .wild => True
  | .param, .wild => True
  | _, _ => False

-- The more specific of two patterns, segment by segment from the left; a wildcard loses to the end of the path.
def Precedes (order : List RouteLabel → List ParamConstraint) : List RouteLabel → List RouteLabel → Prop
  | [], [.wild] => True
  | label :: later, label' :: later' => label.prior (order []) label' ∨ label = label' ∧ Precedes (fun place => order (label :: place)) later later'
  | _, _ => False

theorem prior_asymm {order : List ParamConstraint} {y : RouteLabel} (before : x.prior order y) : ¬y.prior order x := by
  cases x <;> cases y <;> first | exact before.elim | exact fun after => after | exact Nat.lt_asymm before

theorem precedes_asymm : ∀ {labels' : List RouteLabel} {order : List RouteLabel → List ParamConstraint},
    Precedes order labels labels' → ¬Precedes order labels' labels := by
  induction labels with
  | nil =>
    intro labels' order _ after
    cases labels' <;> exact after
  | cons x xs ih =>
    intro labels' order before after
    cases labels' with
    | nil => exact before
    | cons y ys =>
      rcases before with prior | ⟨rfl,before⟩
      · rcases after with prior' | ⟨rfl,-⟩
        · exact prior_asymm prior prior'
        · exact prior_asymm prior prior
      · rcases after with prior' | ⟨-,after⟩
        · exact prior_asymm prior' prior'
        · exact ih before after

section
variable {re : GoRegexp}

theorem idxOf_pairwise {list : List ParamConstraint} (distinct : list.Nodup) : list.Pairwise fun c c' => list.idxOf c < list.idxOf c' := by
  induction list with
  | nil => exact .nil
  | cons first later ih =>
    obtain ⟨new,rest⟩ := nodup_cons.mp distinct
    refine .cons (fun c mem => ?_) ((ih rest).imp_of_mem fun {c c'} mem member' before => ?_)
    · have other : first ≠ c := fun same => new (same ▸ mem)
      rw [idxOf_cons_self,idxOf_cons_ne _ other]
      exact Nat.succ_pos _
    · have other : first ≠ c := fun same => new (same ▸ mem)
      have other' : first ≠ c' := fun same => new (same ▸ member')
      rw [idxOf_cons_ne _ other,idxOf_cons_ne _ other']
      exact Nat.succ_lt_succ before

def Hit.sooner (n : RouteNode) (a b : Hit) : Prop := Precedes n.order a.labels b.labels

theorem sooner_prior {a : Hit} (left : ∃ labels, a.labels = x :: labels) (right : ∃ labels, b.labels = y :: labels)
    (prior : x.prior (n.order []) y) : a.sooner n b := by
  obtain ⟨labels,left⟩ := left
  obtain ⟨labels',right⟩ := right
  rw [Hit.sooner,left,right]
  exact .inl prior

theorem under_label {hits : List Hit} {hit : Hit} (mem : hit ∈ hits.map (.under label values)) :
    ∃ labels, hit.labels = label :: labels := by
  obtain ⟨below,-,labels,-⟩ := (mem_under label values hits).mp mem
  exact ⟨below.labels,labels⟩

theorem sorted_below {child : RouteNode} {hits : List Hit} (found : n.child label = some child) (below : hits.Pairwise (Hit.sooner child))
    (values : List Bytes) : (hits.map (.under label values)).Pairwise (Hit.sooner n) := by
  refine pairwise_map.mpr (below.imp fun {a b} before => .inr ⟨rfl,?_⟩)
  have same : child.order = fun place => n.order (label :: place) := by
    funext place
    rw [order_cons,found]
    rfl
  exact same ▸ before

def throughChild (n : RouteNode) (down : RouteNode → List Hit) (label : RouteLabel) (values : List Bytes) : List Hit :=
  (n.child label).toList.flatMap fun child => (down child).map (.under label values)

def throughConstrained (re : GoRegexp) (n : RouteNode) (down : RouteNode → List Hit) (text : Bytes) : List Hit :=
  n.paramConstraints.flatMap fun entry => if entry.1.matches re text then (down entry.2).map (.under (.constrained entry.1) [text]) else []

theorem sorted_through {n : RouteNode} (label : RouteLabel) (below : ∀ {child}, n.child label = some child → (down child).Pairwise (Hit.sooner child))
    (values : List Bytes) : (throughChild n down label values).Pairwise (Hit.sooner n) ∧
      ∀ hit ∈ throughChild n down label values, ∃ labels, hit.labels = label :: labels := by
  rw [throughChild]
  cases found : n.child label with
  | none => exact ⟨List.Pairwise.nil,nofun⟩
  | some child =>
    rw [Option.toList_some,flatMap_singleton]
    exact ⟨sorted_below found (below found) values,fun _ mem => under_label mem⟩

variable (re) in

theorem sorted_constrained {n : RouteNode} (distinct : n.Distinct)
    (below : ∀ {c child}, n.child (.constrained c) = some child → (down child).Pairwise (Hit.sooner child)) (text : Bytes) :
    (throughConstrained re n down text).Pairwise (Hit.sooner n) ∧
      ∀ hit ∈ throughConstrained re n down text, ∃ c labels, hit.labels = .constrained c :: labels := by
  have label : ∀ (entry : ParamConstraint × RouteNode) (hit : Hit),
      hit ∈ (if entry.1.matches re text then (down entry.2).map (.under (.constrained entry.1) [text]) else []) →
      ∃ labels, hit.labels = .constrained entry.1 :: labels := by
    intro entry hit mem
    split at mem
    · exact under_label mem
    · cases mem
  refine ⟨pairwise_flatMap.mpr ⟨fun entry mem => ?_,?_⟩,fun hit mem => ?_⟩
  · split
    · exact sorted_below (mem_child_constrained distinct mem) (below (mem_child_constrained distinct mem)) [text]
    · exact .nil
  · refine (pairwise_map.mp (idxOf_pairwise (distinct []))).imp fun {one two} before a inOne b inTwo => ?_
    exact sooner_prior (label one a inOne) (label two b inTwo) before
  · obtain ⟨entry,-,inside⟩ := mem_flatMap.mp mem
    obtain ⟨labels,named⟩ := label entry hit inside
    exact ⟨entry.1,labels,named⟩

theorem sorted_wild (n : RouteNode) (value : Bytes) : (n.wildHits value).Pairwise (Hit.sooner n) ∧ ∀ hit ∈ n.wildHits value, ∃ labels, hit.labels = .wild :: labels := by
  refine ⟨?_,fun hit mem => ⟨[],((mem_wildHits value).mp mem).1⟩⟩
  rw [wildHits]
  cases n.wild <;> simp

theorem hits_sorted (segments : List LookupSegment) (ends : Bool) : ∀ {n : RouteNode}, n.Distinct → (n.hits re segments ends).Pairwise (Hit.sooner n) := by
  induction segments with
  | nil =>
    intro n _
    rw [hits,wildHits]
    cases ends <;> cases n.handler <;> cases n.wild <;> simp [Hit.sooner,Precedes]
  | cons seg later ih =>
    intro n distinct
    have down : ∀ {label child}, n.child label = some child → (child.hits re later ends).Pairwise (Hit.sooner child) :=
      fun found => ih (distinct.below _ found)
    obtain ⟨static,isStatic⟩ := sorted_through (.static seg.text) down []
    obtain ⟨constrained,isConstrained⟩ := sorted_constrained re distinct down seg.text
    obtain ⟨param,isParam⟩ := sorted_through .param down [seg.text]
    obtain ⟨wild,isWild⟩ := sorted_wild n seg.remainder
    refine pairwise_append.mpr ⟨static,pairwise_append.mpr ⟨constrained,pairwise_append.mpr ⟨param,wild,?_⟩,?_⟩,?_⟩
    · exact fun a inParam b inWild => sooner_prior (isParam a inParam) (isWild b inWild) trivial
    · intro a inConstrained b inRest
      obtain ⟨c,first⟩ := isConstrained a inConstrained
      rcases mem_append.mp inRest with inParam | inWild
      · exact sooner_prior first (isParam b inParam) trivial
      · exact sooner_prior first (isWild b inWild) trivial
    · intro a inStatic b inRest
      have first := isStatic a inStatic
      rcases mem_append.mp inRest with inConstrained | inRest
      · obtain ⟨c,second⟩ := isConstrained b inConstrained
        exact sooner_prior first second trivial
      · rcases mem_append.mp inRest with inParam | inWild
        · exact sooner_prior first (isParam b inParam) trivial
        · exact sooner_prior first (isWild b inWild) trivial

variable (re) in

theorem precedes_static (labels : List RouteLabel) : ∀ {labels' : List RouteLabel} {segments : List LookupSegment} {values values' : List Bytes}
    (order : List RouteLabel → List ParamConstraint), (∀ label ∈ labels, ∃ seg, label = .static seg) →
    capture re true labels segments = some values → capture re true labels' segments = some values' → labels ≠ labels' →
    Precedes order labels labels' := by
  induction labels with
  | nil =>
    intro labels' segments values values' order _ here there other
    cases segments with
    | cons seg later => cases here
    | nil =>
      cases labels' with
      | nil => exact absurd rfl other
      | cons label later =>
        cases label with
        | wild =>
          rw [capture] at there
          split at there
          · rename_i last
            rw [last]
            trivial
          · cases there
        | _ => cases there
  | cons label later ih =>
    intro labels' segments values values' order plain here there other
    obtain ⟨⟨text,rfl⟩,below⟩ := forall_mem_cons.mp plain
    cases segments with
    | nil => cases here
    | cons seg segments =>
      rw [capture] at here
      split at here
      · rename_i same
        cases labels' with
        | nil => cases there
        | cons label' later' =>
          cases label' with
          | static text' =>
            rw [capture] at there
            split at there
            · rename_i same'
              obtain rfl : text = text' := same.trans same'.symm
              exact .inr ⟨rfl,ih _ below here there fun equal => other (equal ▸ rfl)⟩
            · cases there
          | _ => exact .inl trivial
      · cases here
end
section
open Router
variable {re : GoRegexp} {r : Router} {routes : List RouteEntry}

theorem capture_static {segments : List Bytes} (static : routeIsStatic segments = true) :
    capture re true (routeLabels re segments) (joinedSegments [] segments) = some [] := by
  induction segments with
  | nil => rfl
  | cons seg later ih =>
    obtain ⟨label,-⟩ := routeIsStatic_label static (mem_cons_self ..)
    rw [routeIsStatic,all_cons,Bool.and_eq_true] at static
    rw [routeLabels_cons,label,joinedSegments,capture,if_pos rfl]
    exact ih static.2

theorem RouteEntry.Valid.capture_own {e : RouteEntry} (valid : e.Valid re) (static : routeIsStatic e.segments = true) :
    capture re true (e.labels re) (pathSegments e.path) = some [] ∧ routeKeys re e.segments = [] := by
  refine ⟨?_,filterMap_eq_nil_iff.mpr fun seg mem => (routeIsStatic_label static mem).2.1⟩
  rcases valid.path_join with ⟨text,pieces⟩ | ⟨-,pieces⟩ | ⟨joined,solid⟩
  · rw [RouteEntry.labels,pieces,text]
    rfl
  · rw [pieces] at static
    cases static
  have read := pathSegments_join (.inl rfl) solid
  rw [append_nil,joined] at read
  rw [read]
  exact capture_static static

theorem staticIn_mem : ∀ {routes : List RouteEntry}, staticIn routes method path = some h →
    ∃ e ∈ routes, e.method = method ∧ e.path = path ∧ routeIsStatic e.segments = true ∧ e.handler = h := by
  intro routes
  induction routes using List.reverseRecOn with
  | nil => exact nofun
  | append_singleton routes e ih =>
    intro there
    rw [staticIn,foldl_concat,← staticIn] at there
    split at there
    · rename_i own
      exact ⟨e,mem_append_right _ (mem_singleton_self e),own.1,own.2.1,own.2.2,Option.some.inj there⟩
    · obtain ⟨e',mem,facts⟩ := ih there
      exact ⟨e',mem_append_left _ mem,facts⟩

theorem staticIn_isSome (mem : e ∈ routes) (own : e.method = method) (text : e.path = path)
    (static : routeIsStatic e.segments = true) : (staticIn routes method path).isSome = true := by
  induction routes using List.reverseRecOn with
  | nil => cases mem
  | append_singleton routes f ih =>
    rw [staticIn,foldl_concat,← staticIn]
    split
    · rfl
    rename_i other
    rcases mem_append.mp mem with before | last
    · exact ih before
    · rw [mem_singleton.mp last] at own text static
      exact absurd ⟨own,text,static⟩ other

theorem answer_cons (hit : Hit) (hits : List Hit) : answer (hit :: hits) [] = (some hit.endpoint.fn,List.zipWith Param.mk hit.endpoint.paramKeys hit.values) := by
  rw [answer,nil_append,zipWith_map_left,zipWith_comm]

theorem Router.hits_eq (method target : Bytes) : r.hits re method target = (r.tree method).hitsOn re (targetLookup target) := by
  rw [hits,readLookup_target]

-- The pattern that a request path is matched with among those of a method: it takes the given values from the path, and it is
-- more specific than every other that matches.
structure MostSpecific (re : GoRegexp) (routes : List RouteEntry) (method path : Bytes) (form : RouteForm) (values : List Bytes) : Prop where
  registered : form ∈ formsIn re routes method
  captures : capture re true form.labels (pathSegments path) = some values
  first : ∀ other ∈ formsIn re routes method, other ≠ form → (capture re true other.labels (pathSegments path)).isSome = true →
    Precedes (orderIn re routes method) form.labels other.labels

theorem orFound_answer (hits : List Hit) : orFound (answer hits []) (none,[]) = answer hits [] := by
  cases hits <;> rfl

-- The endpoint that the trie of a method answers a lookup with: the lookup leads to it, and it is at a more specific place than
-- every other that the lookup leads to.
structure Leading (re : GoRegexp) (routes : List RouteEntry) (method : Bytes) (look : LookupPath) (hit : Hit) : Prop where
  there : slotIn re routes method hit.labels = some hit.endpoint
  captures : capture re look.ends hit.labels look.segments = some hit.values
  first : ∀ labels, (slotIn re routes method labels).isSome = true → (capture re look.ends labels look.segments).isSome = true → labels ≠ hit.labels →
    Precedes (orderIn re routes method) hit.labels labels

def Unmatched (re : GoRegexp) (routes : List RouteEntry) (method : Bytes) (look : LookupPath) : Prop :=
  ∀ labels, (slotIn re routes method labels).isSome = true → capture re look.ends labels look.segments = none

theorem Leading.unique (one : Leading re routes method look hit) (two : Leading re routes method look hit') :
    hit = hit' := by
  have labels : hit.labels = hit'.labels := by
    by_contra other
    have before := one.first hit'.labels (by rw [two.there]; rfl) (by rw [two.captures]; rfl) (Ne.symm other)
    have after := two.first hit.labels (by rw [one.there]; rfl) (by rw [one.captures]; rfl) other
    exact precedes_asymm before after
  have endpoint := one.there
  have values := one.captures
  rw [labels,two.there] at endpoint
  rw [labels,two.captures] at values
  cases hit
  cases labels
  cases endpoint
  cases values
  rfl

theorem Leading.most_specific (different : ((formsIn re routes method).map (·.labels)).Nodup)
    (leading : Leading re routes method (pathLookup path) hit) : MostSpecific re routes method path ⟨hit.labels,hit.endpoint⟩ hit.values where
  registered := (slotIn_form different).mp leading.there
  captures := leading.captures
  first other registered different' taken := by
    have there := (slotIn_form different).mpr registered
    refine leading.first other.labels (by rw [there]; rfl) taken fun same => different' ?_
    exact inj_on_of_nodup_map different registered ((slotIn_form different).mp leading.there) same

section
variable (built : Built re r routes)
include built

theorem Built.mem_hits : hit ∈ r.hits re method target ↔
    slotIn re routes method hit.labels = some hit.endpoint ∧ capture re (targetLookup target).ends hit.labels (targetLookup target).segments = some hit.values := by
  rw [hits_eq,hitsOn,FhServer.mem_hits _ (built.sound method).distinct,built.slots]

theorem Built.find_other (other : method ≠ HEAD) :
    r.findNoLockCanonical re method path = orFound (r.static method path,[]) (answer (r.hits re method path) []) := by
  rw [findNoLockCanonical,if_neg other,if_neg other,built.matchTree_eq,orFound_answer]
  rfl

theorem Built.static_specific (different : ((formsIn re routes method).map (·.labels)).Nodup)
    (there : r.static method path = some h) :
    ∃ form, MostSpecific re routes method path form [] ∧ form.endpoint.fn = h ∧ form.endpoint.paramKeys = [] := by
  rw [built.static] at there
  obtain ⟨e,mem,rfl,rfl,static,rfl⟩ := staticIn_mem there
  obtain ⟨captured,keyless⟩ := (built.valid e mem).capture_own static
  have registered : (⟨e.labels re,⟨e.handler,routeKeys re e.segments,e.path⟩⟩ : RouteForm) ∈ formsIn re routes e.method :=
    mem_formsIn.mpr ⟨e,mem,RouteEntry.slot_iff.mpr ⟨rfl,mem_forms.mpr (.inl ⟨rfl,rfl⟩)⟩⟩
  refine ⟨_,⟨registered,captured,fun other registered' different' taken => ?_⟩,rfl,keyless⟩
  obtain ⟨values,taken⟩ := Option.isSome_iff_exists.mp taken
  refine precedes_static re _ _ (fun label inside => ?_) captured taken ?_
  · obtain ⟨seg,piece,rfl⟩ := mem_map.mp inside
    exact ⟨seg,(routeIsStatic_label static piece).1⟩
  · exact fun same => different' (inj_on_of_nodup_map different registered' registered same.symm)

theorem Built.hits_leading {hits : List Hit} (found : r.hits re method target = hit :: hits) :
    Leading re routes method (targetLookup target) hit := by
  have sorted : (r.hits re method target).Pairwise (Hit.sooner (r.tree method)) := hits_sorted _ _ (built.sound method).distinct
  have mem : ∀ {hit}, hit ∈ r.hits re method target ↔ slotIn re routes method hit.labels = some hit.endpoint ∧
      capture re (targetLookup target).ends hit.labels (targetLookup target).segments = some hit.values := built.mem_hits
  rw [found] at mem sorted
  obtain ⟨there,captures⟩ := mem.mp (mem_cons_self ..)
  refine ⟨there,captures,fun labels taken captured other => ?_⟩
  obtain ⟨endpoint,taken⟩ := Option.isSome_iff_exists.mp taken
  obtain ⟨values,captured⟩ := Option.isSome_iff_exists.mp captured
  have inside : (⟨labels,endpoint,values⟩ : Hit) ∈ hit :: hits := mem.mpr ⟨taken,captured⟩
  have order : (r.tree method).order = orderIn re routes method := funext (built.order method)
  rcases mem_cons.mp inside with same | later
  · exact absurd (by rw [← same]) other
  · rw [← order]
    exact (pairwise_cons.mp sorted).1 _ later

theorem Built.hits_unmatched :
    r.hits re method target = [] ↔ Unmatched re routes method (targetLookup target) := by
  constructor
  · intro empty labels taken
    obtain ⟨endpoint,taken⟩ := Option.isSome_iff_exists.mp taken
    cases captured : capture re (targetLookup target).ends labels (targetLookup target).segments with
    | none => rfl
    | some values =>
      have mem : (⟨labels,endpoint,values⟩ : Hit) ∈ r.hits re method target := built.mem_hits.mpr ⟨taken,captured⟩
      rw [empty] at mem
      cases mem
  · intro unmatched
    refine eq_nil_iff_forall_not_mem.mpr fun hit mem => ?_
    obtain ⟨taken,captured⟩ := built.mem_hits.mp mem
    rw [unmatched hit.labels (by rw [taken]; rfl)] at captured
    cases captured

theorem Built.found_cases (other : method ≠ HEAD)
    (different : ((formsIn re routes method).map (·.labels)).Nodup) (free : queryMark ∉ path) :
    r.findNoLockCanonical re method path = (none,[]) ∧ (∀ form ∈ formsIn re routes method, capture re true form.labels (pathSegments path) = none) ∨
    ∃ form values, MostSpecific re routes method path form values ∧
      r.findNoLockCanonical re method path = (some form.endpoint.fn,List.zipWith Param.mk form.endpoint.paramKeys values) ∧
      form.endpoint.paramKeys.length = values.length := by
  rw [built.find_other other]
  cases there : r.static method path with
  | some h =>
    obtain ⟨form,best,named,keyless⟩ := built.static_specific different there
    refine .inr ⟨form,[],best,?_,by rw [keyless]⟩
    rw [named,keyless]
    rfl
  | none =>
    cases found : r.hits re method path with
    | nil =>
      have unmatched := built.hits_unmatched.mp found
      rw [targetLookup_free free] at unmatched
      refine .inl ⟨rfl,fun form registered => unmatched form.labels ?_⟩
      rw [(slotIn_form different).mpr registered]
      rfl
    | cons hit hits =>
      have leading := built.hits_leading found
      rw [targetLookup_free free] at leading
      refine .inr ⟨_,_,leading.most_specific different,answer_cons hit hits,?_⟩
      have fit := (built.sound method).keysFit (readLookup (cleanLookupPath path)).segments (readLookup (cleanLookupPath path)).ends hit
        (by rw [← hitsOn,← Router.hits,found]; exact mem_cons_self ..)
      rw [fit,Nat.zero_add]
end

-- A lookup without a query in routes of different patterns: no handler when no pattern matches, and otherwise the handler of
-- the most specific one, with its keys and the values it takes.
theorem find_most_specific (built : Built re r routes) {method called path : Bytes} (upper : toUpper called = method) (other : method ≠ HEAD)
    (different : ((formsIn re routes method).map (·.labels)).Nodup) (free : queryMark ∉ path) :
    ((r.find re called path).1 = none ↔ ∀ form ∈ formsIn re routes method, capture re true form.labels (pathSegments path) = none) ∧
    ((r.find re called path).1 ≠ none → ∃ form values, MostSpecific re routes method path form values ∧
      r.find re called path = (some form.endpoint.fn,List.zipWith Param.mk form.endpoint.paramKeys values) ∧
      form.endpoint.paramKeys.length = values.length) := by
  subst upper
  rw [find]
  rcases built.found_cases other different free with ⟨nothing,empty⟩ | ⟨form,values,best,found,sizes⟩
  · rw [nothing]
    exact ⟨⟨fun _ => empty,fun _ => rfl⟩,fun some => absurd rfl some⟩
  rw [found]
  refine ⟨⟨nofun,fun empty => ?_⟩,fun _ => ⟨form,values,best,rfl,sizes⟩⟩
  have taken := best.captures
  rw [empty form best.registered] at taken
  cases taken

def directoryRoutes : List RouteEntry :=
  [⟨GET,ascii "/a/:id<int>",1⟩,⟨GET,ascii "/a/:name?",2⟩,⟨GET,ascii "/a/:name/*",3⟩]

def plainRegexp : GoRegexp := ⟨fun _ => false,fun _ _ => false⟩

theorem directory_built : Built plainRegexp (routerOf plainRegexp directoryRoutes) directoryRoutes := by
  have built : Built plainRegexp (routerOf plainRegexp directoryRoutes) (directoryRoutes.map (·.normal)) := routerOf_built (by decide)
  have normal : directoryRoutes.map (·.normal) = directoryRoutes := by decide
  exact normal ▸ built

theorem find_most_specific_directory :
    (routerOf plainRegexp directoryRoutes).find plainRegexp (ascii "get") (ascii "//a/7/") = (some 1,[⟨ascii "id",ascii "7"⟩]) ∧
    ∃ form values, MostSpecific plainRegexp directoryRoutes GET (ascii "//a/7/") form values ∧
      (routerOf plainRegexp directoryRoutes).find plainRegexp (ascii "get") (ascii "//a/7/") =
        (some form.endpoint.fn,List.zipWith Param.mk form.endpoint.paramKeys values) ∧ form.endpoint.paramKeys.length = values.length :=
  have upper : toUpper (ascii "get") = GET := by decide
  have different : ((formsIn plainRegexp directoryRoutes GET).map (·.labels)).Nodup := by decide
  have free : queryMark ∉ ascii "//a/7/" := by decide
  ⟨by decide,(find_most_specific directory_built upper (by decide) different free).2 (by decide)⟩
end
end FhServer

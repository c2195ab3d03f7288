import FhServer.RouteSpecificity

namespace FhServer
open GoBytes GoText List Router RouteLabel

-- A HEAD request is looked up among the GET routes too, where no HEAD route matches.
def lookupMethods (method : Bytes) : List Bytes := if method = HEAD then [HEAD,GET] else [method]

def Router.allHits (re : GoRegexp) (r : Router) (method path : Bytes) : List Hit := (lookupMethods method).flatMap fun m => r.hits re m path

def staticFor (routes : List RouteEntry) (method path : Bytes) : Option HandlerFunc :=
  (staticIn routes method path).or (if method = HEAD then staticIn routes GET path else none)

def Leads (re : GoRegexp) (routes : List RouteEntry) (method : Bytes) (look : LookupPath) (hit : Hit) : Prop :=
  Leading re routes method look hit ∨ method = HEAD ∧ Unmatched re routes HEAD look ∧ Leading re routes GET look hit

section
variable {re : GoRegexp} {r : Router} {routes : List RouteEntry} {path : Bytes}

theorem orFound_append (hits hits' : List Hit) : orFound (answer hits []) (answer hits' []) = answer (hits ++ hits') [] := by
  cases hits <;> rfl

theorem hits_wild (segments : List LookupSegment) : ∀ n : RouteNode, n.hits re segments false = (n.hits re segments true).filter (wild ∈ ·.labels) := by
  have kept : ∀ (n : RouteNode) (value : Bytes), (n.wildHits value).filter (wild ∈ ·.labels) = n.wildHits value := by
    intro n value
    refine filter_eq_self.mpr fun hit mem => ?_
    rw [((mem_wildHits value).mp mem).1]
    rfl
  have inner : ∀ {label : RouteLabel} (values : List Bytes) (hits : List Hit), label ≠ .wild →
      (hits.map (Hit.under label values)).filter (wild ∈ ·.labels) = (hits.filter (wild ∈ ·.labels)).map (Hit.under label values) := by
    intro label values hits other
    rw [filter_map]
    congr 1
    refine filter_congr fun hit _ => ?_
    simp [Hit.under,Ne.symm other]
  induction segments with
  | nil =>
    intro n
    rw [RouteNode.hits,RouteNode.hits,if_neg Bool.false_ne_true,if_pos rfl,filter_append,kept]
    cases n.handler <;> rfl
  | cons seg later ih =>
    intro n
    rw [RouteNode.hits,RouteNode.hits]
    simp only [filter_append,filter_flatMap,kept,ih]
    refine congrArg₂ _ ?_ (congrArg₂ _ ?_ (congrArg₂ _ ?_ rfl))
    · exact flatMap_congr fun child _ => (inner _ _ (by simp)).symm
    · refine flatMap_congr fun entry _ => ?_
      split
      · exact (inner _ _ (by simp)).symm
      · rfl
    · exact flatMap_congr fun child _ => (inner _ _ (by simp)).symm

theorem allHits_query (free : queryMark ∉ path) (method query : Bytes) : r.allHits re method (path ++ queryMark :: query) =
    if trailingSlash path = true then (r.allHits re method path).filter (wild ∈ ·.labels) else r.allHits re method path := by
  have each : ∀ m, r.hits re m (path ++ queryMark :: query) = (r.tree m).hits re (pathSegments path) (!trailingSlash path) := by
    intro m
    rw [hits,readLookup_query free]
    rfl
  have plain : ∀ m, r.hits re m path = (r.tree m).hits re (pathSegments path) true := by
    intro m
    rw [hits,readLookup_path free]
    rfl
  rw [allHits,allHits]
  simp only [each,plain]
  split
  · rename_i slashed
    rw [slashed,filter_flatMap]
    exact flatMap_congr fun m _ => hits_wild _ _
  · rename_i bare
    rw [Bool.eq_false_iff.mpr bare]
    rfl

theorem pathSegments_solid (path : Bytes) : ∀ seg ∈ pathSegments path,
    seg.text ≠ [] ∧ slash ∉ seg.text ∧ seg.remainder <:+ path ∧ seg.remainder ≠ [] ∧ seg.text ⊆ path := by
  have each : ∀ (path : Bytes) (fresh : Bool), ∀ seg ∈ segmentsFrom fresh path,
      seg.text ≠ [] ∧ slash ∉ seg.text ∧ seg.remainder <:+ path ∧ seg.remainder ≠ [] ∧ seg.text ⊆ path := by
    intro path
    induction path with
    | nil => exact nofun
    | cons c rest ih =>
      intro fresh seg inside
      have later : ∀ {fresh}, seg ∈ segmentsFrom fresh rest →
          seg.text ≠ [] ∧ slash ∉ seg.text ∧ seg.remainder <:+ c :: rest ∧ seg.remainder ≠ [] ∧ seg.text ⊆ c :: rest := by
        intro fresh inside
        obtain ⟨full,whole,tail,left,bytes⟩ := ih fresh seg inside
        exact ⟨full,whole,tail.trans (suffix_cons c rest),left,fun b mem => mem_cons_of_mem c (bytes mem)⟩
      rw [segmentsFrom] at inside
      split_ifs at inside with here start
      · exact later inside
      · rcases mem_cons.mp inside with rfl | inside
        · refine ⟨?_,fun mem => ?_,suffix_refl _,cons_ne_nil c rest,( takeWhile_prefix _).subset⟩
          · rw [takeWhile_cons_of_pos (by simp [here])]
            exact cons_ne_nil _ _
          · simpa using mem_takeWhile_imp mem
        · exact later inside
      · exact later inside
  exact each path true

theorem capture_inner {ends : Bool} {label : RouteLabel} {labels : List RouteLabel} {segments : List LookupSegment} {values : List Bytes} (inner : label ≠ .wild)
    (captured : capture re ends (label :: labels) segments = some values) : ∃ seg later taken rest, segments = seg :: later ∧
      capture re ends labels later = some rest ∧ values = taken ++ rest ∧ (taken = [] ∨ taken = [seg.text]) := by
  cases segments with
  | nil => cases label <;> first | exact absurd rfl inner | cases captured
  | cons seg later =>
    refine ⟨seg,later,?_⟩
    have collected : ∀ {values}, (capture re ends labels later).map (seg.text :: ·) = some values → ∃ taken rest, seg :: later = seg :: later ∧
        capture re ends labels later = some rest ∧ values = taken ++ rest ∧ (taken = [] ∨ taken = [seg.text]) := by
      intro values mapped
      obtain ⟨rest,below,same⟩ := Option.map_eq_some_iff.mp mapped
      exact ⟨[seg.text],rest,rfl,below,same.symm,.inr rfl⟩
    cases label with
    | wild => exact absurd rfl inner
    | param => exact collected captured
    | static text =>
      rw [capture] at captured
      split at captured
      · exact ⟨[],values,rfl,captured,rfl,.inl rfl⟩
      · cases captured
    | constrained c =>
      rw [capture] at captured
      split at captured
      · exact collected captured
      · cases captured

theorem capture_values (labels : List RouteLabel) : ∀ {segments : List LookupSegment} {values : List Bytes}, capture re ends labels segments = some values →
    (.wild ∉ labels → ∀ value ∈ values, ∃ seg ∈ segments, value = seg.text) ∧
    (.wild ∈ labels → ∃ value ∈ values, value = [] ∨ ∃ seg ∈ segments, value = seg.remainder) := by
  induction labels with
  | nil =>
    intro segments values captured
    refine ⟨fun _ => ?_,by simp⟩
    cases segments with
    | nil =>
      cases ends <;> cases captured
      simp
    | cons seg later => cases captured
  | cons label labels ih =>
    intro segments values captured
    by_cases last : label = .wild
    · subst last
      refine ⟨fun exact => absurd (mem_cons_self ..) exact,fun _ => ?_⟩
      rw [capture] at captured
      split at captured
      · cases captured
        refine ⟨_,mem_singleton_self _,?_⟩
        cases segments with
        | nil => exact .inl rfl
        | cons seg later => exact .inr ⟨seg,mem_cons_self ..,rfl⟩
      · cases captured
    · obtain ⟨seg,later,taken,rest,rfl,below,rfl,text⟩ := capture_inner last captured
      obtain ⟨texts,wild⟩ := ih below
      constructor
      · intro exact value mem
        rcases mem_append.mp mem with first | after
        · refine ⟨seg,mem_cons_self ..,?_⟩
          rcases text with rfl | rfl
          · cases first
          · exact mem_singleton.mp first
        · obtain ⟨seg',there,same⟩ := texts (fun mem => exact (mem_cons_of_mem _ mem)) value after
          exact ⟨seg',mem_cons_of_mem _ there,same⟩
      · intro mem
        obtain ⟨value,there,odd⟩ := wild ((mem_cons.mp mem).resolve_left (Ne.symm last))
        refine ⟨value,mem_append_right _ there,odd.imp_right ?_⟩
        rintro ⟨seg',there,same⟩
        exact ⟨seg',mem_cons_of_mem _ there,same⟩

theorem zipWith_values {keys values : List Bytes} (size : keys.length = values.length) : (List.zipWith Param.mk keys values).map (·.value) = values := by
  rw [map_zipWith]
  induction keys generalizing values with
  | nil =>
    rw [length_nil,eq_comm,length_eq_zero_iff] at size
    rw [size]
    rfl
  | cons key keys ih =>
    cases values with
    | nil => cases size
    | cons value values => rw [zipWith_cons_cons,ih (Nat.succ.inj size)]

section
variable (built : Built re r routes)
include built

theorem Built.find_eq (method path : Bytes) :
    r.findNoLockCanonical re method path = orFound (staticFor routes method path,[]) (answer (r.allHits re method path) []) := by
  rw [findNoLockCanonical,findStatic,findStatic,built.static,built.static,built.matchTree_eq,built.matchTree_eq,
    staticFor,allHits,lookupMethods]
  by_cases head : method = HEAD
  · subst head
    rw [if_pos rfl,if_pos rfl,if_pos rfl,if_pos rfl,orFound_append,flatMap_cons,flatMap_singleton]
    cases staticIn routes HEAD path <;> rfl
  · rw [if_neg head,if_neg head,if_neg head,if_neg head,orFound_answer,flatMap_singleton,Option.or_none]
    rfl

theorem Built.head_leading :
    (r.hits re method target).head? = some hit ↔ Leading re routes method (targetLookup target) hit := by
  constructor
  · intro first
    obtain ⟨hits,found⟩ := List.head?_eq_some_iff.mp first
    exact built.hits_leading found
  · intro leading
    have mem : hit ∈ r.hits re method target := built.mem_hits.mpr ⟨leading.there,leading.captures⟩
    cases found : r.hits re method target with
    | nil =>
      rw [found] at mem
      cases mem
    | cons other hits => rw [(built.hits_leading found).unique leading,List.head?_cons]

theorem Built.leads_iff :
    (r.allHits re method target).head? = some hit ↔ Leads re routes method (targetLookup target) hit := by
  rw [allHits,lookupMethods,Leads,← built.head_leading]
  by_cases head : method = HEAD
  · subst head
    rw [if_pos rfl,flatMap_cons,flatMap_singleton,List.head?_append,Option.or_eq_some_iff,List.head?_eq_none_iff,
      built.hits_unmatched,built.head_leading,built.head_leading,and_iff_right rfl]
  · rw [if_neg head,flatMap_singleton,or_iff_left fun both => head both.1]

theorem Built.leads_path (free : queryMark ∉ path) :
    (r.allHits re method path).head? = some hit ↔ Leads re routes method (pathLookup path) hit := by
  rw [built.leads_iff,targetLookup_free free]

theorem Built.mem_allHits (mem : hit ∈ r.allHits re method target) :
    capture re (targetLookup target).ends hit.labels (targetLookup target).segments = some hit.values ∧ hit.endpoint.paramKeys.length = hit.values.length := by
  obtain ⟨m,-,mem⟩ := mem_flatMap.mp mem
  obtain ⟨-,captured⟩ := built.mem_hits.mp mem
  have fit := (built.sound m).keysFit _ _ hit mem
  exact ⟨captured,by rw [fit,Nat.zero_add]⟩

theorem Built.wild_answer (free : queryMark ∉ path) (slashed : trailingSlash path = true) {method : Bytes} :
    answer ((r.allHits re method path).filter (wild ∈ ·.labels)) [] = answer (r.allHits re method path) [] ↔
      ∀ hit, Leads re routes method (pathLookup path) hit → .wild ∈ hit.labels := by
  rw [trailingSlash,Bool.and_eq_true,beq_iff_eq] at slashed
  have mem : ∀ {hit}, hit ∈ r.allHits re method path → capture re true hit.labels (pathSegments path) = some hit.values ∧
      hit.endpoint.paramKeys.length = hit.values.length := by
    intro hit inside
    have facts := built.mem_allHits inside
    rw [targetLookup_free free] at facts
    exact facts
  have remainders : ∀ seg ∈ pathSegments path, slash ∈ seg.remainder := by
    intro seg inside
    obtain ⟨-,-,tail,full,-⟩ := pathSegments_solid path seg inside
    obtain ⟨front,rfl⟩ := tail
    rw [List.getLast?_append_of_ne_nil front full] at slashed
    exact mem_of_getLast? slashed.2
  simp only [← built.leads_path free]
  cases found : r.allHits re method path with
  | nil => exact ⟨by simp,fun _ => rfl⟩
  | cons hit hits =>
    rw [found] at mem
    have first : (∀ hit', (hit :: hits).head? = some hit' → .wild ∈ hit'.labels) ↔ .wild ∈ hit.labels :=
      ⟨fun all => all hit rfl,fun wild _ same => Option.some.inj same ▸ wild⟩
    rw [first]
    constructor
    · intro same
      by_contra exact
      rw [filter_cons_of_neg (by simpa using exact)] at same
      obtain ⟨captured,size⟩ := mem (mem_cons_self ..)
      cases rest : hits.filter (wild ∈ ·.labels) with
      | nil =>
        rw [rest,answer_cons] at same
        cases same
      | cons other others =>
        have inside : other ∈ hits.filter (wild ∈ ·.labels) := rest ▸ mem_cons_self ..
        obtain ⟨inside,wild⟩ := mem_filter.mp inside
        obtain ⟨captured',size'⟩ := mem (mem_cons_of_mem _ inside)
        rw [rest,answer_cons,answer_cons,Prod.mk.injEq] at same
        have values := congrArg (List.map (·.value)) same.2
        rw [zipWith_values size,zipWith_values size'] at values
        obtain ⟨value,taken,odd⟩ := (capture_values _ captured').2 (by simpa using wild)
        obtain ⟨seg,there,rfl⟩ := (capture_values _ captured).1 exact value (values ▸ taken)
        obtain ⟨full,whole,-⟩ := pathSegments_solid path seg there
        rcases odd with bare | ⟨seg',there',same⟩
        · exact full bare
        · exact whole (same ▸ remainders seg' there')
    · intro wild
      rw [filter_cons_of_pos (by simpa using wild),answer_cons,answer_cons]
end

def OptionalMarks (routes : List RouteEntry) : Prop :=
  ∀ e ∈ routes, ∀ seg ∈ e.segments, queryMark ∈ seg → seg.head? = some colon ∧ queryMark ∉ seg.dropLast

theorem joinSegments_last {segments : List Bytes} (solid : ∀ seg ∈ segments, seg ≠ [] ∧ slash ∉ seg) : (joinSegments segments).getLast? ≠ some slash := by
  intro last
  rcases eq_nil_or_concat segments with rfl | ⟨init,seg,rfl⟩
  · cases last
  obtain ⟨full,whole⟩ := solid seg (by simp)
  rw [concat_eq_append,joinSegments,flatMap_append,flatMap_singleton,List.getLast?_append_of_ne_nil _ (cons_ne_nil _ _),
    ← singleton_append,List.getLast?_append_of_ne_nil _ full] at last
  exact whole (mem_of_getLast? last)

theorem RouteEntry.Valid.static_text {e : RouteEntry} (valid : e.Valid re) (static : routeIsStatic e.segments = true) :
    trailingSlash e.path = false ∧ ((∀ seg ∈ e.segments, queryMark ∉ seg) → queryMark ∉ e.path) := by
  rcases valid.path_join with ⟨text,-⟩ | ⟨-,pieces⟩ | ⟨joined,solid⟩
  · rw [text]
    exact ⟨rfl,fun _ => by decide⟩
  · rw [pieces] at static
    cases static
  rw [← joined]
  refine ⟨?_,fun free inside => ?_⟩
  · rw [trailingSlash,beq_eq_false_iff_ne.mpr (joinSegments_last solid),Bool.and_false]
  obtain ⟨seg,mem,inside⟩ := mem_flatMap.mp inside
  rcases mem_cons.mp inside with same | inside
  · cases same
  · exact free seg mem inside

theorem OptionalMarks.static_free {e : RouteEntry} (marks : OptionalMarks routes) (mem : e ∈ routes) (valid : e.Valid re) (static : routeIsStatic e.segments = true) :
    queryMark ∉ e.path := by
  refine (valid.static_text static).2 fun seg piece inside => ?_
  have plain := all_eq_true.mp static seg piece
  rw [(marks e mem seg piece inside).1] at plain
  simp at plain

theorem staticFor_mem (there : staticFor routes method path = some h) :
    ∃ e ∈ routes, e.path = path ∧ routeIsStatic e.segments = true ∧ e.handler = h := by
  have named : ∀ {m}, staticIn routes m path = some h → ∃ e ∈ routes, e.path = path ∧ routeIsStatic e.segments = true ∧ e.handler = h := by
    intro m there
    obtain ⟨e,mem,-,facts⟩ := staticIn_mem there
    exact ⟨e,mem,facts⟩
  rcases Option.or_eq_some_iff.mp there with own | ⟨-,other⟩
  · exact named own
  · split at other
    · exact named other
    · cases other

-- The paths that a query behind them changes nothing for: where a static route has the path, the tries answer with its
-- handler too, and where the path ends in a slash, they answer with a wildcard or not at all.
structure QueryNeutral (re : GoRegexp) (routes : List RouteEntry) (method path : Bytes) : Prop where
  static : ∀ h, staticFor routes method path = some h → ∃ hit, Leads re routes method (pathLookup path) hit ∧ hit.endpoint.fn = h ∧ hit.endpoint.paramKeys = []
  trailing : trailingSlash path = true → ∀ hit, Leads re routes method (pathLookup path) hit → .wild ∈ hit.labels

theorem answer_static {hits : List Hit} (sizes : ∀ hit ∈ hits, hit.endpoint.paramKeys.length = hit.values.length) :
    answer hits [] = (some h,[]) ↔ ∃ hit, hits.head? = some hit ∧ hit.endpoint.fn = h ∧ hit.endpoint.paramKeys = [] := by
  cases hits with
  | nil => exact ⟨nofun,fun ⟨_,first,_⟩ => (nomatch first)⟩
  | cons hit hits =>
    rw [answer_cons,Prod.mk.injEq,Option.some.injEq]
    constructor
    · rintro ⟨named,keyless⟩
      refine ⟨hit,rfl,named,length_eq_zero_iff.mp ?_⟩
      have size := congrArg List.length keyless
      rw [length_zipWith,← sizes hit (mem_cons_self ..),Nat.min_self] at size
      exact size
    · rintro ⟨hit',first,named,keyless⟩
      cases first
      rw [keyless]
      exact ⟨named,rfl⟩

theorem find_query_iff (built : Built re r routes) (marks : OptionalMarks routes) (free : queryMark ∉ path) (method query : Bytes) :
    r.find re method (path ++ queryMark :: query) = r.find re method path ↔ QueryNeutral re routes (toUpper method) path := by
  rw [find,find]
  generalize toUpper method = method
  have unlisted : staticFor routes method (path ++ queryMark :: query) = none := by
    cases there : staticFor routes method (path ++ queryMark :: query) with
    | none => rfl
    | some h =>
      obtain ⟨e,mem,text,static,-⟩ := staticFor_mem there
      exact absurd (by rw [text]; simp) (marks.static_free mem (built.valid e mem) static)
  have sizes : ∀ hit ∈ r.allHits re method path, hit.endpoint.paramKeys.length = hit.values.length := fun hit inside => (built.mem_allHits inside).2
  rw [built.find_eq,built.find_eq,unlisted,allHits_query free]
  cases there : staticFor routes method path with
  | some h =>
    obtain ⟨e,mem,text,static,-⟩ := staticFor_mem there
    have bare : trailingSlash path = false := text ▸ ((built.valid e mem).static_text static).1
    rw [if_neg (by rw [bare]; exact Bool.false_ne_true)]
    constructor
    · intro same
      refine ⟨fun h' there' => ?_,fun slashed => by rw [bare] at slashed; cases slashed⟩
      obtain rfl : h = h' := Option.some.inj (there.symm.trans there')
      obtain ⟨hit,first,facts⟩ := (answer_static sizes).mp same
      exact ⟨hit,(built.leads_path free).mp first,facts⟩
    · intro neutral
      obtain ⟨hit,leads,facts⟩ := neutral.static h there
      exact (answer_static sizes).mpr ⟨hit,(built.leads_path free).mpr leads,facts⟩
  | none =>
    have nowhere : ∀ h, staticFor routes method path = some h → ∃ hit, Leads re routes method (pathLookup path) hit ∧ hit.endpoint.fn = h ∧ hit.endpoint.paramKeys = [] :=
      fun h there' => by cases there.symm.trans there'
    rw [orFound,orFound]
    split
    · rename_i slashed
      rw [built.wild_answer free slashed]
      exact ⟨fun wild => ⟨nowhere,fun _ => wild⟩,fun neutral => neutral.trailing slashed⟩
    · rename_i bare
      exact ⟨fun _ => ⟨nowhere,fun slashed => absurd slashed bare⟩,fun _ => rfl⟩

theorem directory_marks : OptionalMarks directoryRoutes := by
  unfold OptionalMarks
  decide

theorem query_reroutes : Built plainRegexp (routerOf plainRegexp directoryRoutes) directoryRoutes ∧ OptionalMarks directoryRoutes ∧
    (routerOf plainRegexp directoryRoutes).find plainRegexp GET (ascii "/a/7/") = (some 1,[⟨ascii "id",ascii "7"⟩]) ∧
    (routerOf plainRegexp directoryRoutes).find plainRegexp GET (ascii "/a/7/" ++ queryMark :: ascii "q=1") =
      (some 3,[⟨ascii "name",ascii "7"⟩,⟨ascii "*",[]⟩]) :=
  ⟨directory_built,directory_marks,by decide,by decide⟩

theorem find_query_iff_directory : QueryNeutral plainRegexp directoryRoutes GET (ascii "/a/7") ∧ ¬QueryNeutral plainRegexp directoryRoutes GET (ascii "/a/7/") :=
  have upper : toUpper GET = GET := by decide
  ⟨upper ▸ (find_query_iff directory_built directory_marks (by decide) GET (ascii "q=1")).mp (by decide),
    fun neutral => absurd ((find_query_iff directory_built directory_marks (by decide) GET (ascii "q=1")).mpr (upper.symm ▸ neutral)) (by decide)⟩
end
end FhServer

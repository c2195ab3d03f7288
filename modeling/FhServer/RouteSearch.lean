import FhServer.RouteSlots

namespace FhServer
open Search GoBytes List RouteNode

-- A lookup path segment by segment, each with what a wildcard there would take. Behind a slash a query is one more step,
-- without a segment, in which only a wildcard ends.
structure LookupSegment where
  text : Bytes
  remainder : Bytes

structure LookupPath where
  segments : List LookupSegment := []
  ends : Bool := true

def readLookupLoop : Nat → Bytes → LookupPath
  | 0, _ => {}
  | fuel + 1, path =>
    if path = [] then {}
    else
      let (seg,rest) := nextSegment path
      if seg = [] then {ends := false}
      else
        let later := readLookupLoop fuel rest
        {later with segments := ⟨seg,routeLookupPath path⟩ :: later.segments}

def readLookup (path : Bytes) : LookupPath := readLookupLoop (path.length+1) path

-- An endpoint that a lookup path leads to, with its place in the trie and the values collected on the way.
structure Hit where
  labels : List RouteLabel
  endpoint : RouteEndpoint
  values : List Bytes

def Hit.under (label : RouteLabel) (values : List Bytes) (hit : Hit) : Hit := ⟨label :: hit.labels,hit.endpoint,values ++ hit.values⟩

section
variable (re : GoRegexp)

def RouteNode.wildHits (n : RouteNode) (value : Bytes) : List Hit := n.wild.toList.map fun w => ⟨[.wild],w.2,[value]⟩

def RouteNode.hits (n : RouteNode) (segments : List LookupSegment) (ends : Bool) : List Hit :=
  match segments with
  | [] => (if ends then n.handler.toList.map fun e => ⟨[],e,[]⟩ else []) ++ n.wildHits []
  | seg :: later =>
    ((n.static seg.text).toList.flatMap fun child => (child.hits later ends).map (.under (.static seg.text) [])) ++
    ((n.paramConstraints.flatMap fun entry =>
      if entry.1.matches re seg.text then (entry.2.hits later ends).map (.under (.constrained entry.1) [seg.text]) else []) ++
    ((n.param.toList.flatMap fun child => (child.hits later ends).map (.under .param [seg.text])) ++
    n.wildHits seg.remainder))
termination_by structural segments

def RouteNode.hitsOn (n : RouteNode) (path : LookupPath) : List Hit := n.hits re path.segments path.ends

def capture (ends : Bool) : List RouteLabel → List LookupSegment → Option (List Bytes)
  | [], [] => if ends then some [] else none
  | .wild :: later, segments => if later = [] then some [(segments.head?.map (·.remainder)).getD []] else none
  | .static text :: later, seg :: segments => if text = seg.text then capture ends later segments else none
  | .constrained c :: later, seg :: segments => if c.matches re seg.text then (capture ends later segments).map (seg.text :: ·) else none
  | .param :: later, seg :: segments => (capture ends later segments).map (seg.text :: ·)
  | _, _ => none
end

def answer (hits : List Hit) (params : List Param) : Option HandlerFunc × List Param :=
  match hits with
  | [] => (none,params)
  | hit :: _ => (some hit.endpoint.fn,List.zipWith (fun p key => {p with key := key}) (params ++ hit.values.map fun v => {value := v}) hit.endpoint.paramKeys)

def KeysFit (hits : List Hit) (count : Nat) : Prop := ∀ hit ∈ hits, hit.endpoint.paramKeys.length = count+hit.values.length

-- A search that answers with the first of the given endpoints; when there is none it keeps the parameters it was given, and
-- may leave others behind them.
def Finds (search : Search) (hits : List Hit) : Prop := ∀ params, KeysFit hits params.length →
  (hits = [] → (search params).1 = none ∧ params <+: (search params).2) ∧ (hits ≠ [] → search params = answer hits params)

def Answers (search : Search) (hits : List Hit) : Prop := ∀ params, KeysFit hits params.length → search params = answer hits params

section
variable {first second : Search} {hits hits' : List Hit}

theorem Answers.finds (one : Answers first hits) : Finds first hits := by
  intro params fit
  refine ⟨fun nothing => ?_,fun _ => one params fit⟩
  rw [one params fit,nothing]
  exact ⟨rfl,prefix_refl _⟩

theorem answers_fail : Answers fail [] := fun _ _ => rfl

theorem answers_endpoint (labels : List RouteLabel) (endpoint : Option RouteEndpoint) :
    Answers (endpointHandler endpoint) (endpoint.toList.map fun e => ⟨labels,e,[]⟩) := by
  intro params fit
  cases endpoint with
  | none => rfl
  | some e =>
    have size : e.paramKeys.length = params.length := fit ⟨labels,e,[]⟩ (mem_singleton_self _)
    simp [endpointHandler,answer,size]

theorem Finds.orElse (one : Finds first hits) (two : Answers second hits') : Answers (first.orElse second) (hits ++ hits') := by
  intro params fit
  obtain ⟨fitHere,fitThere⟩ := forall_mem_append.mp fit
  obtain ⟨failing,found⟩ := one params fitHere
  rw [Search.orElse]
  cases hits with
  | nil =>
    obtain ⟨failed,more,left⟩ := failing rfl
    have result : first params = (none,params ++ more) := Prod.ext failed left.symm
    rw [result]
    dsimp only
    rw [take_left]
    exact two params fitThere
  | cons hit hits =>
    rw [found (cons_ne_nil _ _)]
    rfl

theorem answer_under (hits : List Hit) (label : RouteLabel) (values : List Bytes) (nonempty : hits ≠ []) (params : List Param) :
    answer (hits.map (.under label values)) params = answer hits (params ++ values.map fun v => {value := v}) := by
  cases hits with
  | nil => exact absurd rfl nonempty
  | cons hit hits => simp [answer,Hit.under]

theorem KeysFit.inner {count : Nat} (fit : KeysFit (hits.map (.under label values)) count) :
    KeysFit hits (count+values.length) := by
  intro hit mem
  have sizes := fit (hit.under label values) (mem_map.mpr ⟨hit,mem,rfl⟩)
  simp only [Hit.under,length_append] at sizes
  lia

theorem Finds.push (one : Finds first hits) (label : RouteLabel) (value : Bytes) :
    Finds (Search.push value first) (hits.map (.under label [value])) := by
  intro params fit
  have inner : KeysFit hits (params ++ [({value := value} : Param)]).length := by
    rw [length_append]
    exact fit.inner
  obtain ⟨failing,found⟩ := one _ inner
  refine ⟨fun nothing => ?_,fun some => ?_⟩
  · obtain ⟨failed,left⟩ := failing (map_eq_nil_iff.mp nothing)
    exact ⟨failed,(prefix_append ..).trans left⟩
  · have nonempty : hits ≠ [] := fun nothing => some (map_eq_nil_iff.mpr nothing)
    rw [answer_under hits label [value] nonempty]
    exact found nonempty

theorem Finds.under (one : Finds first hits) (label : RouteLabel) : Finds first (hits.map (.under label [])) := by
  intro params fit
  obtain ⟨failing,found⟩ := one params fit.inner
  refine ⟨fun nothing => failing (map_eq_nil_iff.mp nothing),fun some => ?_⟩
  have nonempty : hits ≠ [] := fun nothing => some (map_eq_nil_iff.mpr nothing)
  rw [answer_under hits label [] nonempty,map_nil,append_nil]
  exact found nonempty
end

def RouteNode.Distinct (n : RouteNode) : Prop := ∀ place, (n.order place).Nodup

section
variable {re : GoRegexp} {n child : RouteNode} {hit : Hit} {ends : Bool} {label : RouteLabel} {values : List Bytes}

theorem RouteNode.Distinct.below (distinct : n.Distinct) (label : RouteLabel) (found : n.child label = some child) : child.Distinct := by
  intro place
  have here := distinct (label :: place)
  rw [order_cons,found] at here
  exact here

theorem mem_findConstraint (distinct : (list.map (·.1)).Nodup) :
    (c,child) ∈ list ↔ findConstraint c list = some child := by
  induction list with
  | nil => simp [findConstraint]
  | cons first later ih =>
    obtain ⟨c',old⟩ := first
    rw [map_cons,nodup_cons] at distinct
    obtain ⟨new,rest⟩ := distinct
    rw [mem_cons,ih rest,findConstraint]
    by_cases here : c' = c
    · subst here
      have gone : findConstraint c' later ≠ some child := fun found => new (mem_map.mpr ⟨_,(ih rest).mpr found,rfl⟩)
      simp [gone,eq_comm]
    · simp [here,Ne.symm here]

theorem mem_under (label : RouteLabel) (values : List Bytes) (hits : List Hit) :
    hit ∈ hits.map (.under label values) ↔ ∃ below ∈ hits, hit.labels = label :: below.labels ∧ hit.endpoint = below.endpoint ∧
      hit.values = values ++ below.values := by
  rw [mem_map]
  refine exists_congr fun below => and_congr_right fun _ => ⟨?_,?_⟩
  · rintro rfl
    exact ⟨rfl,rfl,rfl⟩
  rintro ⟨labels,endpoint,taken⟩
  cases hit
  cases labels
  cases endpoint
  cases taken
  rfl

theorem mem_wildHits (value : Bytes) : hit ∈ n.wildHits value ↔ hit.labels = [.wild] ∧ n.wild.map (·.2) = some hit.endpoint ∧ hit.values = [value] := by
  rw [wildHits,mem_map]
  constructor
  · rintro ⟨w,mem,rfl⟩
    exact ⟨rfl,by rw [Option.mem_toList.mp mem]; rfl,rfl⟩
  rintro ⟨labels,found,taken⟩
  obtain ⟨w,there,same⟩ := Option.map_eq_some_iff.mp found
  refine ⟨w,Option.mem_toList.mpr there,?_⟩
  cases hit
  cases labels
  cases same
  cases taken
  rfl

theorem mem_through {down : Option RouteNode} {segments : List LookupSegment} (below : ∀ {child hit}, down = some child →
      (hit ∈ child.hits re segments ends ↔ child.slot hit.labels = some hit.endpoint ∧ capture re ends hit.labels segments = some hit.values))
    (label : RouteLabel) (values : List Bytes) :
    hit ∈ (down.toList.flatMap fun child => (child.hits re segments ends).map (.under label values)) ↔
      ∃ labels, hit.labels = label :: labels ∧ (down.bind fun child => child.slot labels) = some hit.endpoint ∧
        ((capture re ends labels segments).map fun taken => values ++ taken) = some hit.values := by
  cases down with
  | none => simp
  | some child =>
    rw [Option.toList_some,flatMap_singleton,mem_under]
    constructor
    · rintro ⟨found,mem,labels,endpoint,taken⟩
      obtain ⟨there,captured⟩ := (below rfl).mp mem
      exact ⟨found.labels,labels,by rw [endpoint]; exact there,by rw [captured,taken]; rfl⟩
    · rintro ⟨labels,named,there,captured⟩
      obtain ⟨taken,capturedBelow,same⟩ := Option.map_eq_some_iff.mp captured
      exact ⟨⟨labels,hit.endpoint,taken⟩,(below rfl).mpr ⟨there,capturedBelow⟩,named,rfl,same.symm⟩

variable (hit) in
theorem mem_constrained (text : Bytes) {segments : List LookupSegment} (distinct : (n.paramConstraints.map (·.1)).Nodup)
    (below : ∀ {c child hit}, findConstraint c n.paramConstraints = some child →
      (hit ∈ child.hits re segments ends ↔ child.slot hit.labels = some hit.endpoint ∧ capture re ends hit.labels segments = some hit.values)) :
    hit ∈ (n.paramConstraints.flatMap fun entry =>
        if entry.1.matches re text then (entry.2.hits re segments ends).map (.under (.constrained entry.1) [text]) else []) ↔
      ∃ c labels, hit.labels = .constrained c :: labels ∧ c.matches re text = true ∧
        ((findConstraint c n.paramConstraints).bind fun child => child.slot labels) = some hit.endpoint ∧
        ((capture re ends labels segments).map fun taken => [text] ++ taken) = some hit.values := by
  rw [mem_flatMap]
  constructor
  · rintro ⟨⟨c,child⟩,entry,mem⟩
    have found := (mem_findConstraint distinct).mp entry
    split at mem
    · rename_i passes
      have through := (mem_through (fun same => below (found.trans same)) (.constrained c) [text]).mp
        (by rw [Option.toList_some,flatMap_singleton]; exact mem)
      obtain ⟨labels,named,there,captured⟩ := through
      exact ⟨c,labels,named,passes,by rw [found]; exact there,captured⟩
    · cases mem
  · rintro ⟨c,labels,named,passes,there,captured⟩
    obtain ⟨child,found,_⟩ := Option.bind_eq_some_iff.mp there
    refine ⟨(c,child),(mem_findConstraint distinct).mpr found,?_⟩
    rw [if_pos passes]
    have through := (mem_through (fun same => below same) (.constrained c) [text]).mpr ⟨labels,named,there,captured⟩
    rwa [found,Option.toList_some,flatMap_singleton] at through

theorem mem_hits_nil : hit ∈ n.hits re [] ends ↔ n.slot hit.labels = some hit.endpoint ∧ capture re ends hit.labels [] = some hit.values := by
  rw [hits,mem_append,mem_wildHits]
  obtain ⟨labels,endpoint,values⟩ := hit
  cases labels with
  | nil => cases ends <;> cases handler : n.handler <;> simp [slot,capture,handler,eq_comm]
  | cons label labels =>
    cases label with
    | wild => cases labels <;> simp [slot,capture,eq_comm]
    | _ => simp [capture]

theorem mem_hits (segments : List LookupSegment) : ∀ {n : RouteNode} {hit : Hit}, n.Distinct →
    (hit ∈ n.hits re segments ends ↔ n.slot hit.labels = some hit.endpoint ∧ capture re ends hit.labels segments = some hit.values) := by
  induction segments with
  | nil => exact fun _ => mem_hits_nil
  | cons seg later ih =>
    intro n hit distinct
    have static : hit ∈ ((n.static seg.text).toList.flatMap fun child => (child.hits re later ends).map (.under (.static seg.text) [])) ↔ _ :=
      mem_through (fun found => ih (distinct.below (.static seg.text) found)) (.static seg.text) []
    have param : hit ∈ (n.param.toList.flatMap fun child => (child.hits re later ends).map (.under .param [seg.text])) ↔ _ :=
      mem_through (fun found => ih (distinct.below .param found)) .param [seg.text]
    have constrained := mem_constrained hit seg.text (distinct []) fun found => ih (distinct.below (.constrained _) found)
    rw [hits,mem_append,mem_append,mem_append,mem_wildHits,static,param,constrained]
    obtain ⟨labels,endpoint,values⟩ := hit
    cases labels with
    | nil => simp [capture]
    | cons label labels =>
      cases label with
      | static text =>
        by_cases here : text = seg.text
        · subst here
          simp [slot,child,capture]
        · simp [capture,here]
      | constrained c => cases passes : c.matches re seg.text <;> simp [slot,capture,passes]
      | param => simp [slot,child,capture]
      | wild =>
        have taken : capture re ends (.wild :: labels) (seg :: later) = if labels = [] then some [seg.remainder] else none := rfl
        rw [taken]
        cases labels with
        | nil => simp [slot,eq_comm (a := values)]
        | cons label labels => simp
end

def RouteLabel.collects : RouteLabel → Bool
  | .static _ => false
  | _ => true

structure RouteNode.Tidy (n : RouteNode) : Prop where
  distinct : n.Distinct
  named : ∀ labels e, n.slot labels = some e → .static [] ∉ labels

structure RouteNode.Sound (n : RouteNode) (count : Nat) : Prop extends n.Tidy where
  keyed : ∀ labels e, n.slot labels = some e → e.paramKeys.length = count+labels.countP RouteLabel.collects

section
variable {re : GoRegexp} {n child : RouteNode} {count : Nat}

theorem capture_length (ends : Bool) (labels : List RouteLabel) : ∀ {segments : List LookupSegment} {values : List Bytes},
    capture re ends labels segments = some values → values.length = labels.countP RouteLabel.collects := by
  induction labels with
  | nil =>
    intro segments values taken
    cases segments with
    | nil => cases ends <;> cases taken; rfl
    | cons seg later => cases taken
  | cons label labels ih =>
    intro segments values taken
    cases label with
    | wild =>
      rw [capture] at taken
      split at taken
      · rename_i last
        cases taken
        subst last
        rfl
      · cases taken
    | static text =>
      cases segments with
      | nil => cases taken
      | cons seg later =>
        rw [capture] at taken
        split at taken
        · exact ih taken
        · cases taken
    | constrained c =>
      cases segments with
      | nil => cases taken
      | cons seg later =>
        rw [capture] at taken
        split at taken
        · obtain ⟨rest,there,rfl⟩ := Option.map_eq_some_iff.mp taken
          rw [length_cons,ih there,countP_cons_of_pos rfl]
        · cases taken
    | param =>
      cases segments with
      | nil => cases taken
      | cons seg later =>
        obtain ⟨rest,there,rfl⟩ := Option.map_eq_some_iff.mp taken
        rw [length_cons,ih there,countP_cons_of_pos rfl]

theorem RouteNode.Sound.keysFit (sound : n.Sound count) (segments : List LookupSegment) (ends : Bool) : KeysFit (n.hits re segments ends) count := by
  intro hit mem
  obtain ⟨there,taken⟩ := (mem_hits segments sound.distinct).mp mem
  rw [sound.keyed hit.labels hit.endpoint there,capture_length ends hit.labels taken]

theorem RouteNode.child_inner (found : n.child label = some child) : label ≠ .wild := by
  rintro rfl
  cases found

theorem RouteNode.slot_below (found : n.child label = some child) (labels : List RouteLabel) :
    n.slot (label :: labels) = child.slot labels := by
  rw [n.slot_cons (child_inner found),found]
  rfl

theorem RouteNode.Tidy.below (tidy : n.Tidy) (label : RouteLabel) (found : n.child label = some child) : child.Tidy where
  distinct := tidy.distinct.below label found
  named labels e there mem := tidy.named (label :: labels) e (by rw [slot_below found]; exact there) (mem_cons_of_mem _ mem)

theorem RouteNode.Tidy.hits_empty (tidy : n.Tidy) (found : n.static [] = some child) (segments : List LookupSegment) (ends : Bool) :
    child.hits re segments ends = [] := by
  refine eq_nil_iff_forall_not_mem.mpr fun hit mem => ?_
  have below : n.child (.static []) = some child := found
  obtain ⟨there,-⟩ := (mem_hits segments (tidy.below _ below).distinct).mp mem
  exact tidy.named (.static [] :: hit.labels) hit.endpoint (by rw [slot_below below]; exact there) (mem_cons_self ..)

theorem nextSegment_clean (path : Bytes) : (nextSegment path).2.head? ≠ some slash := by
  unfold nextSegment
  dsimp only
  split
  · rename_i rest _
    intro first
    have kept := List.head?_dropWhile_not (fun c => c == slash) rest
    rw [first] at kept
    cases kept
  · exact nofun

theorem nextSegment_shorter (nonempty : path ≠ []) : (nextSegment path).2.length < path.length := by
  unfold nextSegment
  dsimp only
  split
  · rename_i rest behind
    have size := congrArg List.length behind
    rw [length_drop,length_cons] at size
    have shorter := length_dropWhile_le (· == slash) rest
    lia
  · exact length_pos_iff.mpr nonempty

theorem nextSegment_text (path : Bytes) : (nextSegment path).1 = path.takeWhile fun c => c != queryMark && c != slash := by
  unfold nextSegment
  dsimp only
  split <;> rfl

theorem nextSegment_query (clean : path.head? ≠ some slash) (nonempty : path ≠ []) (bare : (nextSegment path).1 = []) :
    (nextSegment path).2 = [] ∧ routeLookupPath path = [] := by
  rw [nextSegment_text] at bare
  cases path with
  | nil => exact absurd rfl nonempty
  | cons c rest =>
    have notSlash : c ≠ slash := fun same => clean (congrArg some same)
    have query : c = queryMark := by
      by_contra other
      simp [other,notSlash] at bare
    subst query
    exact ⟨rfl,rfl⟩

theorem finds_wild (n : RouteNode) (value : Bytes) :
    Finds (match n.wild with | some (_,endpoint) => push value (endpointHandler (some endpoint)) | none => fail) (n.wildHits value) := by
  rw [wildHits]
  cases n.wild with
  | none => exact answers_fail.finds
  | some w => exact (answers_endpoint [] (some w.2)).finds.push .wild value

theorem answers_constrained {list : List (ParamConstraint × RouteNode)}
    (each : ∀ entry ∈ list, Finds (search entry) (found entry)) :
    Answers ((list.map search).foldr Search.orElse fail) (list.flatMap found) := by
  induction list with
  | nil => exact answers_fail
  | cons entry later ih =>
    exact (each entry (mem_cons_self ..)).orElse (ih fun entry mem => each entry (mem_cons_of_mem _ mem))

theorem mem_child_constrained (distinct : n.Distinct) (mem : (c,child) ∈ n.paramConstraints) :
    n.child (.constrained c) = some child :=
  (mem_findConstraint (distinct [])).mp mem

theorem matchRoute_answers (fuel : Nat) : ∀ {n : RouteNode} {path : Bytes}, n.Tidy → path.length < fuel → path.head? ≠ some slash →
    Answers (matchRoute re fuel n path) (n.hitsOn re (readLookupLoop fuel path)) := by
  induction fuel with
  | zero =>
    intro n path _ enough
    exact absurd enough (Nat.not_lt_zero _)
  | succ fuel ih =>
    intro n path tidy enough clean
    rw [matchRoute,readLookupLoop]
    split
    · have ending := (answers_endpoint [] n.handler).finds.orElse ((finds_wild n []).orElse answers_fail)
      rw [append_nil] at ending
      exact ending
    · rename_i nonempty
      have shorter := nextSegment_shorter nonempty
      have cleanRest := nextSegment_clean path
      have query := nextSegment_query clean nonempty
      generalize nextSegment path = next at shorter cleanRest query ⊢
      obtain ⟨seg,rest⟩ := next
      dsimp only at shorter cleanRest query ⊢
      have down : ∀ label {child}, n.child label = some child → Answers (matchRoute re fuel child rest) (child.hitsOn re (readLookupLoop fuel rest)) :=
        fun label _ found => ih (tidy.below label found) (by lia) cleanRest
      have wild := (finds_wild n (routeLookupPath path)).orElse answers_fail
      rw [append_nil] at wild
      by_cases named : seg = []
      · -- only the wildcard is left: a static child for the empty segment would have nothing to find
        obtain ⟨ended,nothing⟩ := query named
        subst named
        rw [nothing] at wild ⊢
        refine Finds.orElse (?_ : Finds _ []) (answers_fail.finds.orElse (Finds.orElse (?_ : Finds _ []) wild))
        · cases found : n.static [] with
          | none => exact answers_fail.finds
          | some child =>
            have below := down (.static []) found
            rw [hitsOn,tidy.hits_empty found] at below
            exact below.finds
        · cases n.param <;> exact answers_fail.finds
      · have constrained : Answers ((n.paramConstraints.map fun entry => if entry.1.matches re seg then push seg (matchRoute re fuel entry.2 rest) else fail).foldr Search.orElse fail)
            (n.paramConstraints.flatMap fun entry => if entry.1.matches re seg then (entry.2.hitsOn re (readLookupLoop fuel rest)).map (.under (.constrained entry.1) [seg]) else []) := by
          refine answers_constrained fun entry mem => ?_
          split
          · exact (down (.constrained entry.1) (mem_child_constrained tidy.distinct mem)).finds.push (.constrained entry.1) seg
          · exact answers_fail.finds
        rw [if_neg named,if_neg named]
        refine Finds.orElse (?_ : Finds _ ((n.static seg).toList.flatMap _)) (constrained.finds.orElse (Finds.orElse (?_ : Finds _ (n.param.toList.flatMap _)) wild))
        · cases found : n.static seg with
          | none => exact answers_fail.finds
          | some child =>
            rw [Option.toList_some,flatMap_singleton]
            exact (down (.static seg) found).finds.under (.static seg)
        · cases found : n.param with
          | none => exact answers_fail.finds
          | some child =>
            rw [Option.toList_some,flatMap_singleton]
            dsimp only
            rw [if_neg named]
            exact (down .param found).finds.push .param seg

variable (re) in
theorem matchNode_eq (sound : n.Sound 0) (clean : path.head? ≠ some slash) :
    matchNode re n path [] = answer (n.hitsOn re (readLookup path)) [] :=
  matchRoute_answers (path.length+1) sound.toTidy (Nat.lt_succ_self _) clean [] (sound.keysFit _ _)

theorem cleanLookupPath_clean (path : Bytes) : (cleanLookupPath path).head? ≠ some slash := by
  unfold cleanLookupPath
  split
  · exact nofun
  intro first
  have kept := List.head?_dropWhile_not (fun c => c == slash) path
  rw [first] at kept
  cases kept
end
end FhServer

import FhServer.RouteQuery
import FhServer.RouteOrder

namespace FhServer
open GoBytes GoText List Router Option

def shortcutsIn (re : GoRegexp) (routes : List RouteEntry) (method : Bytes) : List ParamShortcut :=
  (routes.filter fun e => e.method = method).filterMap fun e => buildParamShortcut re e.segments e.handler

def staticsIn (routes : List RouteEntry) (method : Bytes) : List StaticShortcut :=
  (routes.filter fun e => e.method = method).filterMap fun e => if routeIsStatic e.segments = true then some ⟨e.path,e.handler⟩ else none

section
variable {re : GoRegexp} {r : Router} {routes : List RouteEntry}

theorem appendShortcut_take (all : List α) (x : α) : appendShortcut (all.take (maxLinearRouteShortcuts+1)) x = (all ++ [x]).take (maxLinearRouteShortcuts+1) := by
  rw [appendShortcut,length_take]
  by_cases full : maxLinearRouteShortcuts < all.length
  · rw [if_pos (by lia),take_append_of_le_length full]
  have all' : all.take (maxLinearRouteShortcuts+1) = all := take_of_length_le (by lia)
  rw [if_neg (by lia),all',take_of_length_le]
  rw [length_append,length_singleton]
  lia

theorem addShortcut_take (canonical : canonicalRouteMethod method = true) (build : RouteEntry → Option α)
    (kept : shortcuts method = (((routes.filter fun e => e.method = method).filterMap build).take (maxLinearRouteShortcuts+1))) (e : RouteEntry) :
    (build e).elim shortcuts (addShortcut shortcuts e.method) method =
      ((((routes ++ [e]).filter fun e => e.method = method).filterMap build).take (maxLinearRouteShortcuts+1)) := by
  rw [filter_append,filterMap_append]
  by_cases here : e.method = method
  · subst here
    rw [filter_cons_of_pos (by simp),filter_nil]
    cases new : build e with
    | none =>
      rw [filterMap_cons_none new,filterMap_nil,append_nil]
      exact kept
    | some x =>
      rw [filterMap_cons_some new,filterMap_nil,← appendShortcut_take,← kept,elim_some,addShortcut,if_pos canonical,Function.update_self]
  · rw [filter_cons_of_neg (by simp [here]),filter_nil,filterMap_nil,append_nil,← kept]
    cases build e with
    | none => rfl
    | some x =>
      rw [elim_some,addShortcut]
      split
      · exact Function.update_of_ne (Ne.symm here) _ _
      · rfl

theorem Built.paramShortcuts (built : Built re r routes) (canonical : canonicalRouteMethod method = true) :
    r.paramShortcuts method = (shortcutsIn re routes method).take (maxLinearRouteShortcuts+1) := by
  refine built.keeps (P := fun r routes => r.paramShortcuts method = (shortcutsIn re routes method).take (maxLinearRouteShortcuts+1)) rfl ?_
  intro r routes e root _ before _ _ _
  rw [shortcutsIn,← addShortcut_take canonical (fun e => buildParamShortcut re e.segments e.handler) before e]
  rw [registers,RouteEntry.segments]
  cases buildParamShortcut re (splitRouteSegments e.path) e.handler <;> rfl

theorem Built.staticShortcuts (built : Built re r routes) (canonical : canonicalRouteMethod method = true) :
    r.staticShortcuts method = (staticsIn routes method).take (maxLinearRouteShortcuts+1) := by
  refine built.keeps (P := fun r routes => r.staticShortcuts method = (staticsIn routes method).take (maxLinearRouteShortcuts+1)) rfl ?_
  intro r routes e root _ before _ _ _
  rw [staticsIn,← addShortcut_take canonical (fun e => if routeIsStatic e.segments = true then some (⟨e.path,e.handler⟩ : StaticShortcut) else none) before e]
  change (if routeIsStatic e.segments = true then addShortcut r.staticShortcuts e.method ⟨e.path,e.handler⟩ else r.staticShortcuts) method = _
  split <;> rfl
end
section
variable {re : GoRegexp} {r : Router} {routes : List RouteEntry} {method target : Bytes}

theorem buildParamShortcut_some {segments : List Bytes} {h : HandlerFunc} {shortcut : ParamShortcut} (made : buildParamShortcut re segments h = some shortcut) :
    ∃ first name, segments = [first,58 :: name] ∧ shortcut.lead = slash :: (first ++ [slash]) ∧ shortcut.fn = h ∧
      routeLabels re segments = [.static first,.param] := by
  unfold buildParamShortcut at made
  split at made
  · rename_i first name
    dsimp only at made
    split at made
    · cases made
    rename_i plain
    split at made
    · cases made
    rename_i free
    rw [not_or,not_or,not_or] at plain
    rw [not_or,not_not] at free
    obtain rfl := (some.inj made).symm
    refine ⟨first,name,rfl,rfl,rfl,?_⟩
    cases first with
    | nil => exact absurd rfl plain.1
    | cons c rest =>
      have label := (segment_plain re rest (fun same => plain.2.1 (congrArg some same)) fun same => plain.2.2.1 (congrArg some same)).1
      have param : segmentLabel re (58 :: name) = .param := if_pos free.1
      rw [routeLabels,map_cons,map_singleton,label,param]
  · cases made

-- A shortcut answers a target of two segments, with the second as its parameter.
structure Fires (shortcut : ParamShortcut) (target value : Bytes) : Prop where
  text : target = shortcut.lead ++ value
  some : value ≠ []
  segment : slash ∉ value
  bare : queryMark ∉ value

def ParamShortcut.found (shortcut : ParamShortcut) (value : Bytes) : Found := (some shortcut.fn,[⟨shortcut.paramKey,value⟩])

theorem mem_shortcutsIn : shortcut ∈ shortcutsIn re routes method ↔
    ∃ e ∈ routes, e.method = method ∧ buildParamShortcut re e.segments e.handler = some shortcut := by
  rw [shortcutsIn,mem_filterMap]
  refine exists_congr fun e => ?_
  rw [mem_filter,decide_eq_true_iff,and_assoc]

theorem Built.shortcut_unique (built : Built re r routes) (inside : shortcut ∈ shortcutsIn re routes method)
    (inside' : shortcut' ∈ shortcutsIn re routes method) (start : shortcut.lead <+: target) (start' : shortcut'.lead <+: target) : shortcut = shortcut' := by
  obtain ⟨e,mem,own,made⟩ := mem_shortcutsIn.mp inside
  obtain ⟨e',member',own',made'⟩ := mem_shortcutsIn.mp inside'
  obtain ⟨first,name,pieces,lead,-,labels⟩ := buildParamShortcut_some made
  obtain ⟨first',name',pieces',lead',-,labels'⟩ := buildParamShortcut_some made'
  have whole : ∀ {e : RouteEntry} {first name : Bytes}, e ∈ routes → e.segments = [first,58 :: name] → slash ∉ first := by
    intro e first name mem pieces
    rcases (built.valid e mem).path_join with ⟨-,none⟩ | ⟨-,star⟩ | ⟨-,solid⟩
    · cases none.symm.trans pieces
    · cases star.symm.trans pieces
    · exact (solid first (by rw [pieces]; exact mem_cons_self ..)).2
  obtain ⟨value,text⟩ := start
  obtain ⟨value',text'⟩ := start'
  have same : first = first' := by
    have equal : first ++ (slash :: value) = first' ++ (slash :: value') := by
      rw [lead,cons_append,append_assoc] at text
      rw [lead',cons_append,append_assoc] at text'
      exact (List.cons.inj (text.trans text'.symm)).2
    rw [← (cut_segment (whole mem pieces) (.inr rfl : (slash :: value) = [] ∨ (slash :: value).head? = some slash)).1,equal,
      (cut_segment (whole member' pieces') (.inr rfl)).1]
  have place : e.place re = e'.place re := by rw [RouteEntry.place,RouteEntry.place,RouteEntry.labels,RouteEntry.labels,labels,labels',own,own',same]
  have one := inj_on_of_nodup_map (unblocked_places built.unblocked) mem member' place
  rw [one,made'] at made
  exact (some.inj made).symm

theorem matchParamShortcuts_some
    (found : matchParamShortcuts target shortcuts = (some h,params)) :
    ∃ shortcut ∈ shortcuts, ∃ value, Fires shortcut target value ∧ shortcut.found value = (some h,params) := by
  induction shortcuts with
  | nil => cases found
  | cons shortcut later ih =>
    have further : matchParamShortcuts target later = (some h,params) →
        ∃ shortcut' ∈ shortcut :: later, ∃ value, Fires shortcut' target value ∧ shortcut'.found value = (some h,params) := by
      intro found
      obtain ⟨shortcut',mem,facts⟩ := ih found
      exact ⟨shortcut',mem_cons_of_mem _ mem,facts⟩
    rw [matchParamShortcuts] at found
    split at found
    · exact further found
    rename_i start
    dsimp only at found
    rw [Bool.or_eq_true,not_or,Bool.not_eq_true',Bool.not_eq_false, isPrefixOf_iff_prefix,beq_iff_eq] at start
    obtain ⟨⟨value,text⟩,longer⟩ := start
    have left : target.drop shortcut.lead.length = value := by rw [← text,drop_left]
    rw [left] at found
    split at found
    · cases found
    rename_i bare
    split at found
    · exact further found
    · rename_i whole
      refine ⟨shortcut,mem_cons_self ..,value,⟨text.symm,fun none => longer ?_,by simpa using whole,by simpa using bare⟩,found⟩
      rw [← text,none,append_nil]

theorem matchParamShortcuts_fires (mem : shortcut ∈ shortcuts)
    (fires : Fires shortcut target value) (only : ∀ other ∈ shortcuts, other.lead <+: target → other = shortcut) :
    matchParamShortcuts target shortcuts = shortcut.found value := by
  induction shortcuts with
  | nil => cases mem
  | cons other later ih =>
    rw [matchParamShortcuts]
    obtain ⟨first,rest⟩ := forall_mem_cons.mp only
    by_cases start : other.lead <+: target
    · obtain rfl := first start
      have longer : (target.length == other.lead.length) = false := by
        rw [fires.text,length_append,beq_eq_false_iff_ne]
        have := length_pos_of_ne_nil fires.some
        lia
      have left : target.drop other.lead.length = value := by rw [fires.text,drop_left]
      rw [ isPrefixOf_iff_prefix.mpr start,longer,if_neg (by simp)]
      rw [left,if_neg (by simpa using fires.bare),if_neg (by simpa using fires.segment)]
      rfl
    · have skip : other.lead.isPrefixOf target = false := Bool.eq_false_iff.mpr fun is => start ( isPrefixOf_iff_prefix.mp is)
      rw [skip,if_pos (by simp)]
      refine ih ((mem_cons.mp mem).resolve_left fun same => start ?_) rest
      rw [← same,fires.text]
      exact prefix_append ..

theorem matchParamShortcuts_none (missing : (matchParamShortcuts target shortcuts).1 = none) :
    matchParamShortcuts target shortcuts = (none,[]) := by
  induction shortcuts with
  | nil => rfl
  | cons shortcut later ih =>
    rw [matchParamShortcuts] at missing ⊢
    dsimp only at missing ⊢
    split_ifs at missing ⊢ with start query whole
    · exact ih missing
    · rfl
    · exact ih missing
end

-- A method's shortcuts are used for the common methods, while there are at most eight of them.
def Shortcut (re : GoRegexp) (routes : List RouteEntry) (method target : Bytes) (found : Found) : Prop :=
  canonicalRouteMethod method = true ∧ (shortcutsIn re routes method).length ≤ maxLinearRouteShortcuts ∧
    ∃ shortcut ∈ shortcutsIn re routes method, ∃ value, Fires shortcut target value ∧ found = shortcut.found value

def TriesAnswer (re : GoRegexp) (routes : List RouteEntry) (method : Bytes) (look : LookupPath) (found : Found) : Prop :=
  ∃ hit, Leads re routes method look hit ∧ found = (some hit.endpoint.fn,List.zipWith Param.mk hit.endpoint.paramKeys hit.values)

section
variable {re : GoRegexp} {r : Router} {routes : List RouteEntry} {method target : Bytes} {found : Found}

def paramPart (r : Router) (method target : Bytes) : Found :=
  if (r.paramShortcuts method).length ≤ maxLinearRouteShortcuts then matchParamShortcuts target (r.paramShortcuts method) else (none,[])

theorem Shortcut.answers (fires : Shortcut re routes method target found) : ∃ h param, found = (some h,[param]) := by
  obtain ⟨-,-,shortcut,-,value,-,rfl⟩ := fires
  exact ⟨_,_,rfl⟩

theorem take_few {all : List α} (few : (all.take (maxLinearRouteShortcuts+1)).length ≤ maxLinearRouteShortcuts) :
    all.length ≤ maxLinearRouteShortcuts ∧ all.take (maxLinearRouteShortcuts+1) = all := by
  rw [length_take] at few
  have size : all.length ≤ maxLinearRouteShortcuts := by lia
  exact ⟨size,take_of_length_le (by lia)⟩

variable (target) in
theorem Built.paramPart_iff (built : Built re r routes) (canonical : canonicalRouteMethod method = true) :
    (∀ found, Shortcut re routes method target found → paramPart r method target = found) ∧
      ((∀ found, ¬Shortcut re routes method target found) → paramPart r method target = (none,[])) := by
  rw [paramPart,built.paramShortcuts canonical]
  constructor
  · rintro found ⟨-,few,shortcut,inside,value,fires,rfl⟩
    have all : (shortcutsIn re routes method).take (maxLinearRouteShortcuts+1) = shortcutsIn re routes method := take_of_length_le (by lia)
    rw [all,if_pos few]
    refine matchParamShortcuts_fires inside fires fun other mem start => built.shortcut_unique mem inside start ?_
    rw [fires.text]
    exact prefix_append ..
  · intro never
    split
    · rename_i few
      obtain ⟨size,all⟩ := take_few few
      rw [all]
      refine matchParamShortcuts_none ?_
      cases result : (matchParamShortcuts target (shortcutsIn re routes method)).1 with
      | none => rfl
      | some h =>
        obtain ⟨shortcut,inside,value,fires,same⟩ := matchParamShortcuts_some (Prod.ext result rfl : _ = (some h,_))
        exact absurd ⟨canonical,size,shortcut,inside,value,fires,rfl⟩ (never _)
    · rfl

theorem matchStaticShortcuts_some (there : matchStaticShortcuts (staticsIn routes method) target = some h) :
    ∃ e ∈ routes, e.method = method ∧ e.path = target ∧ routeIsStatic e.segments = true ∧ e.handler = h := by
  obtain ⟨shortcut,first,rfl⟩ := map_eq_some_iff.mp there
  obtain ⟨e,mem,made⟩ := mem_filterMap.mp (mem_of_find?_eq_some first)
  obtain ⟨mem,own⟩ := mem_filter.mp mem
  have text := List.find?_some first
  split at made
  · rename_i static
    cases made
    exact ⟨e,mem,of_decide_eq_true own,(beq_iff_eq.mp text).symm,static,rfl⟩
  · cases made

theorem orFound_none (found : Found) : orFound (none,[]) found = found := rfl

theorem Built.core_eq (built : Built re r routes) (canonical : canonicalRouteMethod method = true) : r.findNoLockBytesCore re method target =
    orFound (staticIn routes method target,[]) (orFound (paramPart r method target) (answer (r.hits re method target) [])) := by
  rw [findNoLockBytesCore,← paramPart,built.matchTree_eq,findStatic,built.static,built.staticShortcuts canonical]
  split
  · rename_i few
    rw [(take_few few).2]
    cases there : matchStaticShortcuts (staticsIn routes method) target with
    | none => rfl
    | some h =>
      rw [(staticIn_iff (unblocked_places built.unblocked)).mpr (matchStaticShortcuts_some there)]
      rfl
  · rfl

theorem Built.answer_iff (built : Built re r routes) :
    answer (r.allHits re method target) [] = (some h,params) ↔ TriesAnswer re routes method (targetLookup target) (some h,params) := by
  rw [TriesAnswer]
  simp only [← built.leads_iff]
  cases r.allHits re method target with
  | nil => exact ⟨nofun,fun ⟨_,first,_⟩ => (nomatch first)⟩
  | cons hit later =>
    rw [answer_cons]
    constructor
    · exact fun same => ⟨hit,rfl,same.symm⟩
    · rintro ⟨hit',first,same⟩
      cases first
      exact same.symm

-- The targets for which both lookups agree. Where no static route of the method has the target, a shortcut must give what the
-- tries give, with no static GET route for a HEAD request. Without a HEAD shortcut, a HEAD route in the trie must not differ from
-- a static GET route; and where the GET routes are asked, their shortcut must give what their trie gives.
structure FastAgrees (re : GoRegexp) (routes : List RouteEntry) (method target : Bytes) : Prop where
  own : staticIn routes method target = none → ∀ found, Shortcut re routes method target found →
    staticFor routes method target = none ∧ TriesAnswer re routes method (targetLookup target) found
  head : method = HEAD → staticIn routes HEAD target = none → (∀ found, ¬Shortcut re routes HEAD target found) →
    ∀ hit, Leading re routes HEAD (targetLookup target) hit → ∀ h, staticIn routes GET target = some h → hit.endpoint.fn = h ∧ hit.endpoint.paramKeys = []
  get : method = HEAD → staticFor routes HEAD target = none → (∀ found, ¬Shortcut re routes HEAD target found) →
    Unmatched re routes HEAD (targetLookup target) → ∀ found, Shortcut re routes GET target found → TriesAnswer re routes GET (targetLookup target) found

theorem Built.paramPart_answers (built : Built re r routes) (canonical : canonicalRouteMethod method = true) (rest : Found) :
    orFound (paramPart r method target) rest = rest ↔ ∀ found, Shortcut re routes method target found → rest = found := by
  obtain ⟨some,none⟩ := built.paramPart_iff target canonical
  by_cases fires : ∃ found, Shortcut re routes method target found
  · obtain ⟨found,fires⟩ := fires
    obtain ⟨h,param,rfl⟩ := fires.answers
    rw [some _ fires]
    exact ⟨fun same found' fires' => by rw [← some _ fires',some _ fires]; exact same.symm,fun all => (all _ fires).symm⟩
  · have never : ∀ found, ¬Shortcut re routes method target found := fun found is => fires ⟨found,is⟩
    rw [none never]
    exact ⟨fun _ found is => absurd is (never found),fun _ => rfl⟩

theorem allHits_other (other : method ≠ HEAD) : r.allHits re method target = r.hits re method target := by
  rw [allHits,lookupMethods,if_neg other,flatMap_singleton]

theorem staticFor_other (other : method ≠ HEAD) : staticFor routes method target = staticIn routes method target := by
  rw [staticFor,if_neg other,or_none]

theorem Built.shortcut_answer (built : Built re r routes) (other : method ≠ HEAD) : (∀ found, Shortcut re routes method target found →
      answer (r.hits re method target) [] = found) ↔
    ∀ found, Shortcut re routes method target found → TriesAnswer re routes method (targetLookup target) found := by
  refine forall₂_congr fun found fires => ?_
  obtain ⟨h,param,rfl⟩ := fires.answers
  rw [← built.answer_iff,allHits_other other]

theorem Built.findBytes_other (built : Built re r routes) (other : method ≠ HEAD) (canonical : canonicalRouteMethod method = true) :
    r.findBytes re method target = r.findNoLockCanonical re method target ↔ FastAgrees re routes method target := by
  rw [findBytes,if_neg other,if_pos canonical,built.core_eq canonical,built.find_eq,staticFor_other other,allHits_other other]
  cases there : staticIn routes method target with
  | some h => exact ⟨fun _ => ⟨fun none => (by cases there.symm.trans none),fun same => absurd same other,fun same => absurd same other⟩,fun _ => rfl⟩
  | none =>
    rw [orFound_none,orFound_none,built.paramPart_answers canonical,built.shortcut_answer other]
    constructor
    · exact fun all => ⟨fun none found fires => ⟨(staticFor_other other).trans none,all found fires⟩,fun same => absurd same other,fun same => absurd same other⟩
    · exact fun agrees found fires => (agrees.own there found fires).2

theorem canonical_get : canonicalRouteMethod GET = true := by decide

theorem head_methods : canonicalRouteMethod HEAD = true ∧ GET ≠ HEAD := by decide

theorem Built.head_shortcut (built : Built re r routes) (none : staticIn routes HEAD target = none) (fires : Shortcut re routes HEAD target found) :
    found = r.findNoLockCanonical re HEAD target ↔ FastAgrees re routes HEAD target := by
  obtain ⟨h,param,rfl⟩ := fires.answers
  obtain ⟨some,-⟩ := built.paramPart_iff target head_methods.1
  have only : ∀ found, Shortcut re routes HEAD target found → found = (Option.some h,[param]) := fun found is => (some _ is).symm.trans (some _ fires)
  rw [built.find_eq]
  constructor
  · intro same
    cases there : staticFor routes HEAD target with
    | some h' =>
      rw [there] at same
      cases same
    | none =>
      rw [there,orFound_none,eq_comm,built.answer_iff] at same
      exact ⟨fun _ found is => ⟨there,only found is ▸ same⟩,fun _ _ never => absurd fires (never _),fun _ _ never => absurd fires (never _)⟩
  · intro agrees
    obtain ⟨there,answer⟩ := agrees.own none _ fires
    rw [there,orFound_none]
    exact (built.answer_iff.mpr answer).symm

theorem Built.head_trie (built : Built re r routes) (none : staticIn routes HEAD target = none) (never : ∀ found, ¬Shortcut re routes HEAD target found) :
    orFound (answer (r.hits re HEAD target) []) (orFound (staticIn routes GET target,[])
      (orFound (paramPart r GET target) (answer (r.hits re GET target) []))) = r.findNoLockCanonical re HEAD target ↔
    FastAgrees re routes HEAD target := by
  have static : staticFor routes HEAD target = staticIn routes GET target := by rw [staticFor,none,none_or,if_pos rfl]
  have own : staticIn routes HEAD target = Option.none → ∀ found, Shortcut re routes HEAD target found →
      staticFor routes HEAD target = Option.none ∧ TriesAnswer re routes HEAD (targetLookup target) found := fun _ found is => absurd is (never found)
  rw [built.find_eq,static,allHits,lookupMethods,if_pos rfl,flatMap_cons,flatMap_singleton]
  cases hits : r.hits re HEAD target with
  | cons hit later =>
    have leading := built.hits_leading hits
    have matched : ¬Unmatched re routes HEAD (targetLookup target) := fun unmatched => by rw [built.hits_unmatched.mpr unmatched] at hits; cases hits
    have sizes : ∀ hit' ∈ hit :: later, hit'.endpoint.paramKeys.length = hit'.values.length := by
      intro hit' inside
      have mem : hit' ∈ r.allHits re HEAD target := mem_flatMap.mpr ⟨HEAD,mem_cons_self ..,hits ▸ inside⟩
      exact (built.mem_allHits mem).2
    have answered : orFound (answer (hit :: later) []) (orFound (staticIn routes GET target,[])
        (orFound (paramPart r GET target) (answer (r.hits re GET target) []))) = answer (hit :: later) [] := rfl
    rw [answered]
    cases there : staticIn routes GET target with
    | none => exact ⟨fun _ => ⟨own,fun _ _ _ _ _ h is => (by cases there.symm.trans is),fun _ _ _ unmatched => absurd unmatched matched⟩,fun _ => rfl⟩
    | some h =>
      have same : orFound (some h,[]) (answer (hit :: later ++ r.hits re GET target) []) = (some h,[]) := rfl
      rw [same,answer_static sizes]
      constructor
      · rintro ⟨hit',first,facts⟩
        cases first
        refine ⟨own,fun _ _ _ hit' is h' there' => ?_,fun _ _ _ unmatched => absurd unmatched matched⟩
        cases leading.unique is
        cases there.symm.trans there'
        exact facts
      · exact fun agrees => ⟨hit,rfl,agrees.head rfl none never hit leading h there⟩
  | nil =>
    have unmatched := built.hits_unmatched.mp hits
    have nowhere : ∀ hit, ¬Leading re routes HEAD (targetLookup target) hit := by
      intro hit leading
      have first := built.head_leading.mpr leading
      rw [hits] at first
      cases first
    rw [nil_append]
    have answered : ∀ rest, orFound (answer [] []) rest = rest := fun _ => rfl
    rw [answered]
    cases there : staticIn routes GET target with
    | some h =>
      refine ⟨fun _ => ⟨own,fun _ _ _ hit leading => absurd leading (nowhere hit),fun _ is => ?_⟩,fun _ => rfl⟩
      rw [static,there] at is
      cases is
    | none =>
      rw [orFound_none,orFound_none,built.paramPart_answers canonical_get,built.shortcut_answer head_methods.2]
      constructor
      · exact fun all => ⟨own,fun _ _ _ hit leading => absurd leading (nowhere hit),fun _ _ _ _ => all⟩
      · exact fun agrees => agrees.get rfl (static.trans there) never unmatched

theorem Built.findBytes_head (built : Built re r routes) : r.findBytes re HEAD target = r.findNoLockCanonical re HEAD target ↔ FastAgrees re routes HEAD target := by
  obtain ⟨some,never⟩ := built.paramPart_iff target head_methods.1
  rw [findBytes,if_pos rfl,built.core_eq head_methods.1,built.core_eq canonical_get]
  cases there : staticIn routes HEAD target with
  | some h =>
    have static : staticFor routes HEAD target = Option.some h := by rw [staticFor,there,Option.some_or]
    rw [built.find_eq,static]
    refine ⟨fun _ => ⟨fun none => (by cases there.symm.trans none),fun _ none => (by cases there.symm.trans none),fun _ none => ?_⟩,fun _ => rfl⟩
    cases static.symm.trans none
  | none =>
    by_cases fires : ∃ found, Shortcut re routes HEAD target found
    · obtain ⟨found,fires⟩ := fires
      rw [← built.head_shortcut there fires,some _ fires]
      obtain ⟨h,param,rfl⟩ := fires.answers
      rfl
    · have none : ∀ found, ¬Shortcut re routes HEAD target found := fun found is => fires ⟨found,is⟩
      rw [never none,orFound_none]
      exact built.head_trie there none

theorem findBytes_eq_iff (built : Built re r routes) (upper : toUpper method = method) (target : Bytes) :
    r.findBytes re method target = r.find re method target ↔ FastAgrees re routes method target := by
  rw [find,upper]
  by_cases head : method = HEAD
  · rw [head]
    exact built.findBytes_head
  by_cases canonical : canonicalRouteMethod method = true
  · exact built.findBytes_other head canonical
  · rw [findBytes,if_neg head,if_neg canonical]
    exact ⟨fun _ => ⟨fun _ _ fires => absurd fires.1 canonical,fun same => absurd same head,fun same => absurd same head⟩,fun _ => rfl⟩

def constrainedRoutes : List RouteEntry := [⟨GET,ascii "/a/:id<int>",1⟩,⟨GET,ascii "/a/:name",2⟩]

theorem constrained_built : Built plainRegexp (routerOf plainRegexp constrainedRoutes) constrainedRoutes := by
  have built : Built plainRegexp (routerOf plainRegexp constrainedRoutes) (constrainedRoutes.map (·.normal)) := routerOf_built (by decide)
  have normal : constrainedRoutes.map (·.normal) = constrainedRoutes := by decide
  exact normal ▸ built

theorem shortcut_overtakes : Built plainRegexp (routerOf plainRegexp constrainedRoutes) constrainedRoutes ∧
    (routerOf plainRegexp constrainedRoutes).find plainRegexp GET (ascii "/a/7") = (some 1,[⟨ascii "id",ascii "7"⟩]) ∧
    (routerOf plainRegexp constrainedRoutes).findBytes plainRegexp GET (ascii "/a/7") = (some 2,[⟨ascii "name",ascii "7"⟩]) :=
  ⟨constrained_built,by decide,by decide⟩

theorem findBytes_eq_iff_constrained : FastAgrees plainRegexp constrainedRoutes GET (ascii "/a/x") ∧ ¬FastAgrees plainRegexp constrainedRoutes GET (ascii "/a/7") :=
  have upper : toUpper GET = GET := by decide
  ⟨(findBytes_eq_iff constrained_built upper (ascii "/a/x")).mp (by decide),
    fun agrees => absurd ((findBytes_eq_iff constrained_built upper (ascii "/a/7")).mpr agrees) (by decide)⟩
end
end FhServer

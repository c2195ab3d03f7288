import FhServer.RouteQuery
import FhServer.RouteOrder

namespace FhServer
open GoBytes GoText List RouteNode RouteEntry
section
variable {re : GoRegexp} {n child : RouteNode} {path : Bytes}

theorem nextSegment_step (free : queryMark ∉ path) (clean : path.head? ≠ some slash) (more : path ≠ []) : (nextSegment path).1 ≠ [] ∧
    queryMark ∉ (nextSegment path).2 ∧ (nextSegment path).2.head? ≠ some slash ∧ (nextSegment path).2.length < path.length := by
  have cut := nextSegment_free free (.inl rfl)
  rw [append_nil] at cut
  refine ⟨?_,?_,nextSegment_clean path,nextSegment_shorter more⟩
  · cases path with
    | nil => exact absurd rfl more
    | cons c rest =>
      have first : c ≠ slash := fun same => clean (congrArg some same)
      rw [cut,takeWhile_cons_of_pos (by simp [first])]
      exact cons_ne_nil _ _
  · rw [cut]
    cases left : path.dropWhile (· != slash) with
    | nil => exact not_mem_nil
    | cons c rest =>
      dsimp only
      rw [append_nil]
      intro mem
      exact free (dropWhile_subset _ (left ▸ mem_cons_of_mem c (dropWhile_subset _ mem)))

theorem readLookupLoop_step (fuel : Nat) (more : path ≠ []) (named : (nextSegment path).1 ≠ []) : readLookupLoop (fuel+1) path =
    {readLookupLoop fuel (nextSegment path).2 with
      segments := ⟨(nextSegment path).1,routeLookupPath path⟩ :: (readLookupLoop fuel (nextSegment path).2).segments} := by
  rw [readLookupLoop,if_neg more]
  exact if_neg named

theorem matchesPathLoop_eq (fuel : Nat) : ∀ {n : RouteNode} {path : Bytes}, queryMark ∉ path → path.head? ≠ some slash → path.length < fuel →
    matchesPathLoop re fuel n path = (n.hitsOn re (readLookupLoop fuel path)).any fun _ => true := by
  induction fuel with
  | zero => exact fun _ _ enough => absurd enough (Nat.not_lt_zero _)
  | succ fuel ih =>
    intro n path free clean enough
    have wildcard : ∀ value, ((n.wildHits value).any fun _ => true) = n.wild.isSome := by
      intro value
      rw [wildHits]
      cases n.wild <;> rfl
    by_cases more : path = []
    · rw [matchesPathLoop,if_pos more,readLookupLoop,if_pos more,hitsOn,hits,any_append,wildcard]
      cases n.handler <;> rfl
    obtain ⟨named,freeRest,cleanRest,shorter⟩ := nextSegment_step free clean more
    have down : ∀ child : RouteNode, matchesPathLoop re fuel child (nextSegment path).2 =
        (child.hitsOn re (readLookupLoop fuel (nextSegment path).2)).any fun _ => true := fun child => ih freeRest cleanRest (by lia)
    rw [readLookupLoop_step fuel more named,matchesPathLoop,if_neg more]
    rw [hitsOn,hits,any_append,any_append,any_append,wildcard]
    simp only [down,bne_iff_ne.mpr named,Bool.true_and,any_flatMap,hitsOn]
    rw [Bool.or_assoc,Bool.or_assoc]
    congr 1
    · cases n.static (nextSegment path).1 with
      | none => rfl
      | some child => simp
    · congr 1
      · congr 1
        funext entry
        split <;> simp_all [any_map,Function.comp_def]
      · congr 1
        cases n.param with
        | none => rfl
        | some child => simp

def firstPattern (hits : List Hit) : Bytes := (hits.head?.map (·.endpoint.pattern)).getD []

def Patterned (hits : List Hit) : Prop := ∀ hit ∈ hits, hit.endpoint.pattern ≠ []

theorem Patterned.empty_iff {hits : List Hit} (named : Patterned hits) : firstPattern hits = [] ↔ hits = [] := by
  cases hits with
  | nil => exact ⟨fun _ => rfl,fun _ => rfl⟩
  | cons hit later => exact ⟨fun bare => absurd bare (named hit (mem_cons_self ..)),nofun⟩

theorem firstPattern_append {hits : List Hit} (named : Patterned hits) : firstPattern (hits ++ hits') = orPattern (firstPattern hits) (firstPattern hits') := by
  cases hits with
  | nil => rfl
  | cons hit later => exact (if_neg (named hit (mem_cons_self ..))).symm

theorem firstPattern_under (hits : List Hit) (label : RouteLabel) (values : List Bytes) : firstPattern (hits.map (.under label values)) = firstPattern hits := by
  cases hits <;> rfl

theorem Patterned.under {hits : List Hit} (named : Patterned hits) (label : RouteLabel) (values : List Bytes) : Patterned (hits.map (.under label values)) := by
  intro hit mem
  obtain ⟨below,there,rfl⟩ := mem_map.mp mem
  exact named below there

theorem firstPattern_flatMap {list : List α} (named : ∀ x ∈ list, Patterned (found x)) :
    firstPattern (list.flatMap found) = (list.map fun x => firstPattern (found x)).foldr orPattern [] := by
  induction list with
  | nil => rfl
  | cons x later ih =>
    obtain ⟨first,rest⟩ := forall_mem_cons.mp named
    rw [flatMap_cons,firstPattern_append first,ih rest,map_cons,foldr_cons]

def RouteNode.Named (n : RouteNode) : Prop := n.Distinct ∧ ∀ labels e, n.slot labels = some e → e.pattern ≠ []

theorem RouteNode.Named.below (named : n.Named) (label : RouteLabel) (found : n.child label = some child) : child.Named :=
  ⟨named.1.below label found,fun labels e there => named.2 (label :: labels) e (by rw [slot_below found]; exact there)⟩

theorem RouteNode.Named.hits (named : n.Named) (segments : List LookupSegment) (ends : Bool) : Patterned (n.hits re segments ends) :=
  fun hit mem => named.2 hit.labels hit.endpoint ((mem_hits segments named.1).mp mem).1

theorem pattern_through (down : RouteNode → List Hit) (walk : RouteNode → Bytes) (label : RouteLabel) (values : List Bytes)
    (below : ∀ {child}, n.child label = some child → Patterned (down child) ∧ walk child = firstPattern (down child)) :
    Patterned (throughChild n down label values) ∧ firstPattern (throughChild n down label values) = ((n.child label).map walk).getD [] := by
  rw [throughChild]
  cases found : n.child label with
  | none => exact ⟨by rintro _ ⟨⟩,rfl⟩
  | some child =>
    rw [Option.toList_some,flatMap_singleton,firstPattern_under]
    exact ⟨(below found).1.under label values,(below found).2.symm⟩

variable (re) in

theorem pattern_constrained (down : RouteNode → List Hit) (walk : RouteNode → Bytes) (text : Bytes)
    (below : ∀ entry ∈ n.paramConstraints, Patterned (down entry.2) ∧ walk entry.2 = firstPattern (down entry.2)) :
    Patterned (throughConstrained re n down text) ∧ firstPattern (throughConstrained re n down text) =
      (n.paramConstraints.map fun entry => if entry.1.matches re text then walk entry.2 else []).foldr orPattern [] := by
  have each : ∀ entry ∈ n.paramConstraints, Patterned (if entry.1.matches re text then (down entry.2).map (Hit.under (.constrained entry.1) [text]) else []) ∧
      firstPattern (if entry.1.matches re text then (down entry.2).map (Hit.under (.constrained entry.1) [text]) else []) =
        if entry.1.matches re text then walk entry.2 else [] := by
    intro entry mem
    split
    · rw [firstPattern_under]
      exact ⟨(below entry mem).1.under _ _,(below entry mem).2.symm⟩
    · exact ⟨nofun,rfl⟩
  constructor
  · intro hit inside
    obtain ⟨entry,mem,there⟩ := mem_flatMap.mp inside
    exact (each entry mem).1 hit there
  · rw [throughConstrained,firstPattern_flatMap fun entry mem => (each entry mem).1]
    congr 1
    exact map_congr_left fun entry mem => (each entry mem).2

theorem matchPatternLoop_eq (fuel : Nat) : ∀ {n : RouteNode} {path : Bytes}, n.Named → queryMark ∉ path → path.head? ≠ some slash → path.length < fuel →
    matchPatternLoop re fuel n path = firstPattern (n.hitsOn re (readLookupLoop fuel path)) := by
  induction fuel with
  | zero => exact fun _ _ _ enough => absurd enough (Nat.not_lt_zero _)
  | succ fuel ih =>
    intro n path named free clean enough
    have wildcard : ∀ value, firstPattern (n.wildHits value) = wildPattern n := by
      intro value
      rw [wildHits,wildPattern]
      cases n.wild <;> rfl
    by_cases more : path = []
    · rw [matchPatternLoop,if_pos more,readLookupLoop,if_pos more,hitsOn,hits,if_pos rfl]
      cases n.handler with
      | none =>
        rw [← wildcard []]
        rfl
      | some e => rfl
    · obtain ⟨text,freeRest,cleanRest,shorter⟩ := nextSegment_step free clean more
      rw [readLookupLoop_step fuel more text,matchPatternLoop,if_neg more]
      generalize nextSegment path = next at *
      let found (child : RouteNode) : List Hit := child.hitsOn re (readLookupLoop fuel next.2)
      let walk (child : RouteNode) : Bytes := matchPatternLoop re fuel child next.2
      have down : ∀ label {child}, n.child label = some child → Patterned (found child) ∧ walk child = firstPattern (found child) :=
        fun label _ there => ⟨(named.below label there).hits _ _,ih (named.below label there) freeRest cleanRest (by lia)⟩
      obtain ⟨static,isStatic⟩ := pattern_through found walk (.static next.1) [] (down (.static next.1))
      obtain ⟨constrained,isConstrained⟩ := pattern_constrained re found walk next.1 fun entry mem => down _ (mem_child_constrained named.1 mem)
      obtain ⟨param,isParam⟩ := pattern_through found walk .param [next.1] (down .param)
      have parts : n.hitsOn re {readLookupLoop fuel next.2 with segments := ⟨next.1,routeLookupPath path⟩ :: (readLookupLoop fuel next.2).segments} =
          throughChild n found (.static next.1) [] ++ (throughConstrained re n found next.1 ++ (throughChild n found .param [next.1] ++
            n.wildHits (routeLookupPath path))) := rfl
      rw [parts,firstPattern_append static,firstPattern_append constrained,firstPattern_append param,isStatic,isConstrained,isParam,wildcard]
      dsimp only
      rw [if_neg text,if_neg text]
      rfl
end
section
open Router Option
variable {re : GoRegexp} {r : Router} {routes : List RouteEntry}

theorem any_iff (hits : List Hit) : (hits.any fun _ => true) = true ↔ hits ≠ [] := by
  cases hits <;> simp

theorem RouteEntry.Valid.path_ne {e : RouteEntry} (valid : e.Valid re) : e.path ≠ [] := by
  intro bare
  rcases valid.text with ⟨-,whole⟩ | ⟨first,-⟩
  · rw [bare] at whole
    cases whole
  · rw [bare] at first
    cases first

theorem mem_forms_endpoint {e : RouteEntry} (mem : form ∈ e.forms re) : form.endpoint.pattern = e.path ∧ form.endpoint.fn = e.handler := by
  rcases mem_forms.mp mem with ⟨-,own⟩ | ⟨-,-,short⟩
  · rw [own]
    exact ⟨rfl,rfl⟩
  · rw [short]
    exact ⟨rfl,rfl⟩

theorem cleanLookupPath_free {path : Bytes} (free : queryMark ∉ path) : queryMark ∉ cleanLookupPath path := by
  unfold cleanLookupPath
  split
  · exact not_mem_nil
  · exact fun mem => free (dropWhile_subset _ mem)

theorem seen_iff (path method : Bytes) : r.seen re path method = true ↔ r.hits re method (routeLookupPath path) ≠ [] := by
  have free := cleanLookupPath_free (routeLookupPath_split path).1
  rw [← any_iff,Router.seen,Router.hits,Router.tree]
  cases r.trees.get method with
  | none =>
    rw [getD_none,hitsOn,hits_empty]
    rfl
  | some root =>
    rw [any_some,matchesPath,matchesPathLoop_eq _ free (cleanLookupPath_clean _) (Nat.lt_succ_self _)]
    rfl

theorem canonical_head : canonicalRouteMethod HEAD = true := by decide

theorem mem_seenMethods (path method : Bytes) : method ∈ r.seenMethods re path ↔ r.allHits re method (routeLookupPath path) ≠ [] := by
  have stored : r.seen re path method = true → method ∈ r.trees.keys := by
    intro there
    by_contra absent
    rw [seen,r.trees.outside method absent] at there
    cases there
  have all : r.allHits re method (routeLookupPath path) ≠ [] ↔ r.seen re path method = true ∨ method = HEAD ∧ r.seen re path GET = true := by
    rw [seen_iff,seen_iff,allHits,lookupMethods]
    by_cases head : method = HEAD
    · subst head
      rw [if_pos rfl,flatMap_cons,flatMap_singleton,and_iff_right rfl,Ne,append_eq_nil_iff,not_and_or]
    · rw [if_neg head,flatMap_singleton,or_iff_left fun both => head both.1]
  have listed : canonicalRouteMethod method = true ↔ method ∈ canonicalMethods := contains_iff_mem
  rw [all,seenMethods,mem_append,mem_append,mem_filter,mem_insertionSort,mem_filter,← listed]
  constructor
  · rintro ((⟨-,there⟩ | added) | ⟨-,there⟩)
    · exact .inl there
    · split at added
      · rename_i both
        rw [Bool.and_eq_true] at both
        exact .inr ⟨mem_singleton.mp added,both.1⟩
      · cases added
    · rw [Bool.and_eq_true] at there
      exact .inl there.2
  · rintro (there | ⟨rfl,there⟩)
    · cases canonical : canonicalRouteMethod method with
      | true => exact .inl (.inl ⟨rfl,there⟩)
      | false => exact .inr ⟨stored there,there⟩
    · cases own : r.seen re path HEAD with
      | true => exact .inl (.inl ⟨canonical_head,rfl⟩)
      | false =>
        rw [there]
        exact .inl (.inr (mem_singleton_self HEAD))

-- A route of the method, or for HEAD a GET route, that the lookup of a target comes to: where the target is the text of a static
-- route, that route, a HEAD route before a GET route; otherwise the route of the endpoint that the tries answer with.
inductive FindsRoute (re : GoRegexp) (r : Router) (routes : List RouteEntry) (method target : Bytes) : RouteEntry → Prop
  | static {e : RouteEntry} (mem : e ∈ routes) (text : e.path = target) (static : routeIsStatic e.segments = true) (own : e.method = method) :
      FindsRoute re r routes method target e
  | getStatic {e : RouteEntry} (head : method = HEAD) (none : staticIn routes HEAD target = none) (mem : e ∈ routes) (text : e.path = target)
      (static : routeIsStatic e.segments = true) (own : e.method = GET) : FindsRoute re r routes method target e
  | trie {e : RouteEntry} {hit : Hit} (none : staticFor routes method target = none) (first : (r.allHits re method target).head? = some hit)
      (mem : e ∈ routes) (form : ⟨hit.labels,hit.endpoint⟩ ∈ e.forms re) : FindsRoute re r routes method target e

structure ReportsAgree (re : GoRegexp) (r : Router) (routes : List RouteEntry) (method target : Bytes) : Prop where
  allowed : (method = ascii "OPTIONS" → r.addsOptions re target = false) → (method ∈ r.allowed re target ↔ (r.find re method target).1 ≠ none)
  pattern : ∀ e, FindsRoute re r routes (toUpper method) target e → r.pattern re method target = e.path
  nothing : (r.find re method target).1 = none → r.pattern re method target = []

-- The targets for which they agree: the method is in upper case or nothing is found anyway; a static route that has the target
-- as its text is also the one that the tries lead to; and where a query stands behind a slash, the tries lead to a wildcard or
-- nowhere.
structure Reported (re : GoRegexp) (routes : List RouteEntry) (method target : Bytes) : Prop where
  upper : toUpper method = method ∨ staticFor routes (toUpper method) target = none ∧
    ∀ hit, ¬Leads re routes (toUpper method) (pathLookup (routeLookupPath target)) hit
  static : (staticFor routes (toUpper method) target).isSome = true →
    ∃ hit, Leads re routes (toUpper method) (pathLookup (routeLookupPath target)) hit ∧ hit.endpoint.pattern = target
  trailing : staticFor routes (toUpper method) target = none → queryMark ∈ target → trailingSlash (routeLookupPath target) = true →
    ∀ hit, Leads re routes (toUpper method) (pathLookup (routeLookupPath target)) hit → .wild ∈ hit.labels

theorem toUpper_upper (text : Bytes) : ∀ c ∈ toUpper text, (97 ≤ c && c ≤ 122) = false := by
  fun_induction toUpper text with
  | case1 rest ih | case2 rest ih => exact forall_mem_cons.mpr ⟨by decide,ih⟩
  | case3 c rest _ _ ih =>
    refine forall_mem_cons.mpr ⟨?_,ih⟩
    split
    · rename_i lower
      rw [Bool.and_eq_true,decide_eq_true_iff,decide_eq_true_iff,UInt8.le_iff_toNat_le,UInt8.le_iff_toNat_le] at lower
      have shifted : (c - 32).toNat = c.toNat - 32 := UInt8.toNat_sub_of_le c 32 (UInt8.le_iff_toNat_le.mpr (Nat.le_trans (by decide) lower.1))
      rw [Bool.and_eq_false_iff,decide_eq_false_iff_not,UInt8.le_iff_toNat_le,shifted]
      refine .inl (Nat.not_le.mpr ?_)
      lia
    · rename_i other
      exact Bool.eq_false_iff.mpr other
  | case4 => exact nofun

theorem toUpper_token (token : text.all routeTokenByte = true) (upper : ∀ c ∈ text, (97 ≤ c && c ≤ 122) = false) : toUpper text = text := by
  fun_induction toUpper text with
  | case1 rest ih | case2 rest ih =>
    rw [all_cons,Bool.and_eq_true] at token
    exact absurd token.1 (by decide)
  | case3 c rest _ _ ih =>
    rw [all_cons,Bool.and_eq_true] at token
    obtain ⟨first,later⟩ := forall_mem_cons.mp upper
    rw [first,ih token.2 later]
    rfl
  | case4 => rfl

theorem FindsRoute.cases_static {method : Bytes} (found : FindsRoute re r routes method target e) :
    (staticFor routes method target).isSome = true ∧ e.path = target ∨
    staticFor routes method target = none ∧ ∃ hit, (r.allHits re method target).head? = some hit ∧ hit.endpoint.pattern = e.path ∧ hit.endpoint.fn = e.handler := by
  cases found with
  | static mem text static own =>
    refine .inl ⟨?_,text⟩
    rw [staticFor,isSome_or,staticIn_isSome mem own text static,Bool.true_or]
  | getStatic head none mem text static own =>
    refine .inl ⟨?_,text⟩
    rw [staticFor,if_pos head,isSome_or,staticIn_isSome mem own text static,Bool.or_true]
  | trie none first mem form => exact .inr ⟨none,_,first,mem_forms_endpoint form⟩

theorem static_route {method : Bytes} (there : (staticFor routes method target).isSome = true) :
    ∃ e, FindsRoute re r routes method target e ∧ e.path = target := by
  obtain ⟨h,there⟩ := isSome_iff_exists.mp there
  rcases or_eq_some_iff.mp there with own | ⟨none,other⟩
  · obtain ⟨e,mem,own,text,static,-⟩ := staticIn_mem own
    exact ⟨e,.static mem text static own,text⟩
  split at other
  · rename_i head
    obtain ⟨e,mem,own,text,static,-⟩ := staticIn_mem other
    exact ⟨e,.getStatic head (head ▸ none) mem text static own,text⟩
  · cases other

theorem mem_forms_wild {e f : RouteEntry} (mem : form ∈ e.forms re) (inside' : form' ∈ f.forms re) (text : e.path = f.path)
    (wild : .wild ∈ form'.labels) : .wild ∈ form.labels := by
  have same : f.labels re = e.labels re := by rw [labels,labels,RouteEntry.segments,RouteEntry.segments,text]
  have whole : .wild ∈ e.labels re := by
    rcases mem_forms.mp inside' with ⟨own,-⟩ | ⟨-,short,-⟩
    · rw [← same,← own]
      exact wild
    · rw [short] at wild
      rw [← same]
      exact dropLast_subset _ wild
  rcases mem_forms.mp mem with ⟨own,-⟩ | ⟨needed,short,-⟩
  · rw [own]
    exact whole
  · rw [short]
    exact optionalLast_keeps needed whole (.inl rfl)

theorem allHits_target (method target : Bytes) : r.allHits re method target =
    if queryMark ∈ target ∧ trailingSlash (routeLookupPath target) = true then (r.allHits re method (routeLookupPath target)).filter (RouteLabel.wild ∈ ·.labels)
    else r.allHits re method (routeLookupPath target) := by
  obtain ⟨free,⟨bare,same⟩ | ⟨query,whole⟩⟩ := routeLookupPath_split target
  · rw [if_neg fun both => bare both.1,same]
  have marked : queryMark ∈ target := by
    rw [whole]
    exact mem_append_right _ (mem_cons_self ..)
  simp only [marked,true_and]
  nth_rewrite 1 [whole]
  exact allHits_query free method query

section
variable (built : Built re r routes)
include built

theorem Built.named (method : Bytes) : (r.tree method).Named := by
  refine ⟨(built.sound method).distinct,fun labels endpoint there => ?_⟩
  rw [built.slots] at there
  obtain ⟨e,mem,slot⟩ := slotIn_mem there
  rw [(mem_forms_endpoint (slot_iff.mp slot).2).1]
  exact (built.valid e mem).path_ne

theorem Built.patternIn_eq (path method : Bytes) :
    r.patternIn re method (cleanLookupPath (routeLookupPath path)) = firstPattern (r.hits re method (routeLookupPath path)) := by
  have free := cleanLookupPath_free (routeLookupPath_split path).1
  have named := built.named method
  rw [Router.patternIn,Router.hits]
  rw [Router.tree] at named ⊢
  cases there : r.trees.get method with
  | none =>
    rw [getD_none,hitsOn,hits_empty]
    rfl
  | some root =>
    rw [there] at named
    exact matchPatternLoop_eq _ named free (cleanLookupPath_clean _) (Nat.lt_succ_self _)

theorem Built.patterned (method path : Bytes) : Patterned (r.allHits re method path) := by
  intro hit mem
  obtain ⟨m,-,mem⟩ := mem_flatMap.mp mem
  exact (built.named m).hits _ _ hit mem

theorem Built.pattern_eq (method path : Bytes) :
    r.pattern re method path = firstPattern (r.allHits re (toUpper method) (routeLookupPath path)) := by
  rw [pattern,built.patternIn_eq,built.patternIn_eq,allHits,lookupMethods]
  by_cases head : toUpper method = HEAD
  · have patterned : Patterned (r.hits re HEAD (routeLookupPath path)) := (built.named HEAD).hits _ _
    rw [head,if_pos rfl,if_pos rfl,flatMap_cons,flatMap_singleton,firstPattern_append patterned]
  rw [if_neg head,if_neg head,flatMap_singleton,orPattern]
  split
  · rename_i bare
    exact bare.symm
  · rfl

theorem Built.upper : ∀ e ∈ routes, toUpper e.method = e.method := by
  have valid := built.valid
  induction built with
  | empty => exact nofun
  | add before added ih =>
    obtain ⟨earlier,own⟩ := forall_mem_append.mp valid
    refine forall_mem_append.mpr ⟨ih earlier,forall_mem_singleton.mpr ?_⟩
    have token := (forall_mem_singleton.mp own).token
    rw [validTokenString,Bool.and_eq_true] at token
    exact toUpper_token token.2 (toUpper_upper _)

theorem Built.hit_route {method : Bytes} (inside : hit ∈ r.allHits re method target) :
    ∃ e ∈ routes, ⟨hit.labels,hit.endpoint⟩ ∈ e.forms re ∧ e.method ∈ lookupMethods method := by
  obtain ⟨m,listed,inside⟩ := mem_flatMap.mp inside
  obtain ⟨e,mem,slot⟩ := slotIn_mem (built.mem_hits.mp inside).1
  obtain ⟨own,form⟩ := slot_iff.mp slot
  exact ⟨e,mem,form,own ▸ listed⟩

theorem Built.trie_route {method : Bytes} (none : staticFor routes method target = none)
    (first : (r.allHits re method target).head? = some hit) :
    ∃ e, FindsRoute re r routes method target e ∧ hit.endpoint.pattern = e.path ∧ hit.endpoint.fn = e.handler := by
  obtain ⟨e,mem,form,-⟩ := built.hit_route (mem_of_head? first)
  exact ⟨e,.trie none first mem form,mem_forms_endpoint form⟩

theorem Built.allHits_upper {method : Bytes} (found : r.allHits re method target ≠ []) : toUpper method = method := by
  obtain ⟨hit,inside⟩ := exists_mem_of_ne_nil _ found
  obtain ⟨e,mem,-,listed⟩ := built.hit_route inside
  rw [lookupMethods] at listed
  split at listed
  · rename_i head
    rw [head]
    decide
  · rw [← mem_singleton.mp listed]
    exact built.upper e mem

theorem Built.find_none (method target : Bytes) : (r.find re method target).1 = none ↔
    staticFor routes (toUpper method) target = none ∧ r.allHits re (toUpper method) target = [] := by
  rw [find,built.find_eq]
  cases staticFor routes (toUpper method) target with
  | some h => exact ⟨by rintro ⟨⟩,by rintro ⟨⟨⟩,-⟩⟩
  | none =>
    rw [orFound,and_iff_right rfl]
    cases r.allHits re (toUpper method) target with
    | nil => exact ⟨fun _ => rfl,fun _ => rfl⟩
    | cons hit hits => exact ⟨by rintro ⟨⟩,by rintro ⟨⟩⟩
end

theorem mem_allowed {method : Bytes} (asked : method = ascii "OPTIONS" → r.addsOptions re target = false) :
    method ∈ r.allowed re target ↔ r.allHits re method (routeLookupPath target) ≠ [] := by
  rw [← mem_seenMethods,allowed]
  split
  · rename_i added
    rw [mem_append,mem_singleton]
    refine or_iff_left fun options => ?_
    rw [asked options] at added
    cases added
  · rfl

theorem firstPattern_head {hits : List Hit} (first : hits.head? = some hit) : firstPattern hits = hit.endpoint.pattern := by
  rw [firstPattern,first]
  rfl

section
variable {method target : Bytes} (reported : Reported re routes method target) (built : Built re r routes)
include reported built

theorem Reported.head_target (none : staticFor routes (toUpper method) target = none) :
    (r.allHits re (toUpper method) target).head? = (r.allHits re (toUpper method) (routeLookupPath target)).head? := by
  have free := (routeLookupPath_split target).1
  rw [allHits_target]
  split
  · rename_i both
    cases hits : r.allHits re (toUpper method) (routeLookupPath target) with
    | nil => rfl
    | cons hit later =>
      have wild := reported.trailing none both.1 both.2 hit ((built.leads_path free).mp (by rw [hits]; rfl))
      rw [filter_cons_of_pos (by simpa using wild)]
      rfl
  · rfl

theorem Reported.agree :
    ReportsAgree re r routes method target := by
  have free := (routeLookupPath_split target).1
  have same := reported.head_target built
  refine ⟨fun asked => ?_,fun e found => ?_,fun nothing => ?_⟩
  · rw [mem_allowed asked,Ne,Ne,built.find_none,not_iff_not]
    rcases reported.upper with upper | ⟨none,nowhere⟩
    · cases there : staticFor routes (toUpper method) target with
      | some h =>
        obtain ⟨hit,leads,-⟩ := reported.static (by rw [there]; rfl)
        have first := (built.leads_path free).mpr leads
        rw [upper] at first
        refine ⟨fun empty => ?_,fun both => (nomatch both.1)⟩
        rw [empty] at first
        cases first
      | none => rw [and_iff_right rfl,← List.head?_eq_none_iff,← List.head?_eq_none_iff,same there,upper]
    · have empty : (r.allHits re (toUpper method) (routeLookupPath target)).head? = Option.none := by
        cases first : (r.allHits re (toUpper method) (routeLookupPath target)).head? with
        | none => rfl
        | some hit => exact absurd ((built.leads_path free).mp first) (nowhere hit)
      refine ⟨fun _ => ⟨none,List.head?_eq_none_iff.mp ((same none).trans empty)⟩,fun _ => ?_⟩
      by_contra found
      rw [built.allHits_upper found] at empty
      exact found (List.head?_eq_none_iff.mp empty)
  · rw [built.pattern_eq]
    rcases found.cases_static with ⟨some,text⟩ | ⟨none,hit,first,named,-⟩
    · obtain ⟨hit,leads,named⟩ := reported.static some
      rw [firstPattern_head ((built.leads_path free).mpr leads),named,text]
    · rw [firstPattern_head ((same none).symm.trans first),named]
  · obtain ⟨none,empty⟩ := (built.find_none method target).mp nothing
    have first := same none
    rw [empty] at first
    rw [built.pattern_eq,List.head?_eq_none_iff.mp first.symm]
    rfl
end

theorem ReportsAgree.reported {method target : Bytes} (agree : ReportsAgree re r routes method target) (built : Built re r routes) :
    Reported re routes method target := by
  have free := (routeLookupPath_split target).1
  have patterned := built.patterned (toUpper method) (routeLookupPath target)
  have pattern := built.pattern_eq method target
  refine ⟨?_,fun some => ?_,fun none marked slashed hit leads => ?_⟩
  · by_cases upper : toUpper method = method
    · exact .inl upper
    have other : method ≠ ascii "OPTIONS" := fun same => upper (by rw [same]; decide)
    have missing : (r.find re method target).1 = none := by
      by_contra found
      have listed := (agree.allowed fun same => absurd same other).mpr found
      exact upper (built.allHits_upper ((mem_allowed fun same => absurd same other).mp listed))
    have bare := agree.nothing missing
    rw [pattern] at bare
    refine .inr ⟨((built.find_none method target).mp missing).1,fun hit leads => ?_⟩
    have first := (built.leads_path free).mpr leads
    rw [patterned.empty_iff.mp bare] at first
    cases first
  · obtain ⟨e,found,text⟩ := static_route some
    have named := agree.pattern e found
    have full : e.path ≠ [] := (built.valid e (by cases found <;> assumption)).path_ne
    rw [pattern] at named
    cases first : (r.allHits re (toUpper method) (routeLookupPath target)).head? with
    | none =>
      rw [List.head?_eq_none_iff.mp first] at named
      exact absurd named.symm full
    | some hit =>
      rw [firstPattern_head first,text] at named
      exact ⟨hit,(built.leads_path free).mp first,named⟩
  · have first := (built.leads_path free).mpr leads
    have hits : r.allHits re (toUpper method) target = (r.allHits re (toUpper method) (routeLookupPath target)).filter (RouteLabel.wild ∈ ·.labels) :=
      (allHits_target (toUpper method) target).trans (if_pos ⟨marked,slashed⟩)
    cases wild : (r.allHits re (toUpper method) target).head? with
    | none =>
      have bare := agree.nothing ((built.find_none method target).mpr ⟨none,List.head?_eq_none_iff.mp wild⟩)
      rw [pattern] at bare
      rw [patterned.empty_iff.mp bare] at first
      cases first
    | some other =>
      obtain ⟨e,found,text,-⟩ := built.trie_route none wild
      have named := agree.pattern e found
      rw [pattern,firstPattern_head first] at named
      have mem := mem_of_head? wild
      rw [hits] at mem
      obtain ⟨mem,isWild⟩ := mem_filter.mp mem
      obtain ⟨f,-,form,-⟩ := built.hit_route mem
      obtain ⟨g,-,form',-⟩ := built.hit_route (mem_of_head? first)
      have same : g.path = f.path := by
        rw [← (mem_forms_endpoint form').1,← (mem_forms_endpoint form).1]
        exact named.trans text.symm
      exact mem_forms_wild form' form same (by simpa using isWild)

theorem reports_agree_iff (built : Built re r routes) (method target : Bytes) : ReportsAgree re r routes method target ↔ Reported re routes method target :=
  ⟨fun agree => agree.reported built,fun reported => reported.agree built⟩

-- A query behind a slash: the method is allowed and the pattern known, and Find returns nothing. And the pattern of an optional
-- parameter for a request that goes to the static route.
theorem reports_disagree :
    GET ∈ (routerOf plainRegexp directoryRoutes).allowed plainRegexp (ascii "/a/?q=1") ∧
    (routerOf plainRegexp directoryRoutes).pattern plainRegexp GET (ascii "/a/?q=1") = ascii "/a/:name?" ∧
    (routerOf plainRegexp directoryRoutes).find plainRegexp GET (ascii "/a/?q=1") = (none,[]) ∧
    (routerOf plainRegexp optionalRoutes).find plainRegexp GET (ascii "/a") = (some 1,[]) ∧
    (routerOf plainRegexp optionalRoutes).pattern plainRegexp GET (ascii "/a") = ascii "/a/:x?" := by
  decide

theorem directory_reported : ReportsAgree plainRegexp (routerOf plainRegexp directoryRoutes) directoryRoutes GET (ascii "/a/7?q=1") := by
  refine (reports_agree_iff directory_built GET (ascii "/a/7?q=1")).mpr ⟨.inl (by decide),fun some => absurd some (by decide),fun _ _ slashed => ?_⟩
  exact absurd slashed (by decide)
end
end FhServer

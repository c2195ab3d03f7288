import FhServer.RouteReports
import FhServer.RouteShortcuts

namespace FhServer
open GoBytes GoText List
namespace GoText

def hexUpper (n : UInt8) : UInt8 := if n < 10 then 48+n else 55+n

def percentByte (c : UInt8) : Bytes := [37,hexUpper (c/16),hexUpper (c%16)]

def pathByte (c : UInt8) : Bool := isAlpha c || isDigit c || (ascii "-_.~$&+:=@").contains c

def escapePathByte (c : UInt8) : Bytes := if pathByte c then [c] else percentByte c

def pathEscape (s : Bytes) : Bytes := s.flatMap escapePathByte

def queryByte (c : UInt8) : Bool := isAlpha c || isDigit c || (ascii "-_.~").contains c

def queryEscape (s : Bytes) : Bytes := s.flatMap fun c => if queryByte c then [c] else if c = 32 then [43] else percentByte c

example : pathEscape (ascii "a b/c?") = ascii "a%20b%2Fc%3F" := by decide
end GoText

-- The panics of Name, with what their texts name, and the errors of URL.
inductive NameError where
  | path (error : RouteError)
  | emptyName
  | frozen
  | unregistered (key : Bytes)
  | duplicateName (name : Bytes)

inductive UrlError where
  | routeNotFound (name : Bytes)
  | paramMissing (key name : Bytes)
deriving DecidableEq

def routeKey (method path : Bytes) : Bytes := method ++ 32 :: path

def Router.name (r : Router) (method path name : Bytes) : Except NameError Router :=
  let method := toUpper (trimSpace method)
  match normalizeRoutePath method path with
  | .error error => .error (.path error)
  | .ok path =>
    let name := trimSpace name
    let key := routeKey method path
    if name = [] then .error .emptyName
    else if r.frozen then .error .frozen
    else if !(r.routes.any fun route => routeKey route.method route.path == key) then .error (.unregistered key)
    else if (r.named.get name).any fun old => old.method != method || old.path != path then .error (.duplicateName name)
    else
      -- a route that had another name gives it up
      let named := match r.routeNames.get key with
        | some oldName => if oldName ≠ name then r.named.set oldName none else r.named
        | none => r.named
      .ok {r with named := named.set name (some ⟨method,path⟩), routeNames := r.routeNames.set key (some name)}

-- The values that URL is given, as a Go map.
abbrev Values := Table Bytes (Option Bytes) none

def isMarked (segment : Bytes) : Bool := segment.head? == some colon || segment.head? == some star

def rawKey (segment : Bytes) : Bytes := wildKey segment.tail

def escapeWildcard (value : Bytes) : Bytes := [slash].intercalate ((splitSlash value).map pathEscape)

section
variable (name : Bytes) (params : Values)

def writeSegment (segment : Bytes) : Except UrlError Bytes :=
  if !isMarked segment then .ok segment
  else match params.get (rawKey segment) with
    | none => .error (.paramMissing (rawKey segment) name)
    | some value => .ok (if segment.head? = some star then escapeWildcard value else pathEscape value)

def writePathLoop : Nat → Bytes → Except UrlError Bytes
  | 0, _ | _ + 1, [] => .ok []
  | fuel + 1, c :: rest =>
    if c = slash then (writePathLoop fuel rest).map (slash :: ·)
    else (writeSegment name params ((c :: rest).takeWhile (· != slash))).bind fun text =>
      (writePathLoop fuel ((c :: rest).dropWhile (· != slash))).map (text ++ ·)

def writePath (path : Bytes) : Except UrlError Bytes :=
  if path = [star] then if (params.get [star]).isNone then .error (.paramMissing [star] name) else .ok [star]
  else writePathLoop name params path.length path
end

def routeUsesParam (path key : Bytes) : Bool := (splitSlash path).any fun segment => isMarked segment && rawKey segment == key

def queryKeys (path : Bytes) (params : Values) : List Bytes :=
  (params.keys.filter fun key => (params.get key).isSome && !routeUsesParam path key).insertionSort (· ≤ ·)

def writeQuery (params : Values) (keys : List Bytes) : Bytes :=
  if keys = [] then []
  else queryMark :: [38].intercalate (keys.map fun key => queryEscape key ++ 61 :: queryEscape ((params.get key).getD []))

def Router.url (r : Router) (name : Bytes) (params : Values) : Except UrlError Bytes :=
  match r.named.get name with
  | none => .error (.routeNotFound name)
  | some route => (writePath name params route.path).map fun path => path ++ writeQuery params (queryKeys route.path params)

section
theorem hexUpper_plain : ∀ n : UInt8, n < 16 → hexUpper n ≠ slash ∧ hexUpper n ≠ queryMark ∧ hexUpper n ≠ star := eachByte (by decide +kernel)

theorem escapePathByte_plain (c : UInt8) : escapePathByte c ≠ [] ∧ ∀ b ∈ escapePathByte c, b ≠ slash ∧ b ≠ queryMark ∧ b ≠ star := by
  unfold escapePathByte
  split
  · rename_i kept
    refine ⟨by simp,fun b mem => ?_⟩
    cases mem_singleton.mp mem
    refine ⟨?_,?_,?_⟩ <;> intro mark <;> exact absurd (mark ▸ kept) (by decide)
  · refine ⟨by simp [percentByte],?_⟩
    have high : c/16 < 16 := by simp only [UInt8.lt_iff_toNat_lt,UInt8.toNat_div]; have := c.toNat_lt; simp; lia
    have low : c%16 < 16 := by simp only [UInt8.lt_iff_toNat_lt,UInt8.toNat_mod]; simp; lia
    simp only [percentByte,forall_mem_cons,not_mem_nil,false_implies,implies_true,and_true]
    exact ⟨by decide,hexUpper_plain _ high,hexUpper_plain _ low⟩

theorem pathEscape_plain : ∀ b ∈ pathEscape s, b ≠ slash ∧ b ≠ queryMark ∧ b ≠ star := by
  intro b mem
  obtain ⟨c,-,mem⟩ := mem_flatMap.mp mem
  exact (escapePathByte_plain c).2 b mem

theorem pathEscape_ne (full : s ≠ []) : pathEscape s ≠ [] := by
  cases s with
  | nil => exact absurd rfl full
  | cons c rest =>
    exact fun none => (escapePathByte_plain c).1 (append_eq_nil_iff.mp none).1

theorem intercalate_mem (inside : b ∈ [slash].intercalate pieces) : b = slash ∨ ∃ piece ∈ pieces, b ∈ piece := by
  induction pieces with
  | nil => cases inside
  | cons piece later ih =>
    cases later with
    | nil =>
      rw [intercalate_singleton] at inside
      exact .inr ⟨piece,mem_cons_self ..,inside⟩
    | cons next rest =>
      rw [intercalate_cons_cons,mem_append,mem_append] at inside
      rcases inside with (here | middle) | after
      · exact .inr ⟨piece,mem_cons_self ..,here⟩
      · exact .inl (mem_singleton.mp middle)
      · obtain isSlash | ⟨piece',mem,there⟩ := ih after
        · exact .inl isSlash
        · exact .inr ⟨piece',mem_cons_of_mem _ mem,there⟩

theorem escapeWildcard_plain : ∀ b ∈ escapeWildcard value, b ≠ queryMark ∧ b ≠ star := by
  intro b inside
  rcases intercalate_mem inside with rfl | ⟨piece,mem,inside⟩
  · decide
  · obtain ⟨text,-,rfl⟩ := mem_map.mp mem
    exact (pathEscape_plain b inside).2

theorem escapeWildcard_first (full : value ≠ []) (start : value.head? ≠ some slash) :
    escapeWildcard value ≠ [] ∧ (escapeWildcard value).head? ≠ some slash := by
  cases value with
  | nil => exact absurd rfl full
  | cons c rest =>
    have other : c ≠ slash := fun same => start (congrArg some same)
    have pieces : ∃ piece later, splitSlash (c :: rest) = (c :: piece) :: later := by
      rw [splitSlash_cons,if_neg other]
      cases split : splitSlash rest with
      | nil =>
        have joined := (splitSlash_join rest).1
        rw [split] at joined
        cases joined
      | cons piece later => exact ⟨piece,later,rfl⟩
    obtain ⟨piece,later,pieces⟩ := pieces
    obtain ⟨some,plain⟩ := escapePathByte_plain c
    have leads : ∃ tail, escapeWildcard (c :: rest) = escapePathByte c ++ tail := by
      rw [escapeWildcard,pieces,map_cons]
      cases later.map pathEscape with
      | nil =>
        rw [intercalate_singleton]
        exact ⟨_,flatMap_cons⟩
      | cons next rest =>
        rw [intercalate_cons_cons,pathEscape,flatMap_cons,append_assoc,append_assoc]
        exact ⟨_,rfl⟩
    obtain ⟨tail,leads⟩ := leads
    rw [leads]
    cases first : escapePathByte c with
    | nil => exact absurd first some
    | cons b more =>
      rw [first] at plain
      exact ⟨cons_ne_nil _ _,fun same => (plain b (mem_cons_self ..)).1 (Option.some.inj same)⟩
end
section
variable {re : GoRegexp} {name : Bytes} {values : Values} {segments : List Bytes}
variable (re) in
theorem segment_kinds (seg : Bytes) :
    (∃ name, seg = colon :: name ∧ segmentKey re seg = some (parseParamConstraint re name).cleanName ∧
      (segmentLabel re seg = .param ∨ ∃ c, segmentLabel re seg = .constrained c)) ∨
    (∃ name, seg = star :: name ∧ segmentKey re seg = some (wildKey name) ∧ segmentLabel re seg = .wild) ∨
    isMarked seg = false ∧ segmentKey re seg = none ∧ segmentLabel re seg = .static seg := by
  cases seg with
  | nil => exact .inr (.inr ⟨rfl,rfl,rfl⟩)
  | cons c rest =>
    by_cases isParam : c = colon
    · subst isParam
      refine .inl ⟨rest,rfl,rfl,?_⟩
      rw [show segmentLabel re (colon :: rest) = if (parseParamConstraint re rest).constraint.kind = .none then .param
        else .constrained (parseParamConstraint re rest).constraint from rfl]
      split
      · exact .inl rfl
      · exact .inr ⟨_,rfl⟩
    · by_cases isWild : c = star
      · subst isWild
        exact .inr (.inl ⟨rest,rfl,rfl,rfl⟩)
      · obtain ⟨label,key,-,-⟩ := segment_plain re rest isParam isWild
        exact .inr (.inr ⟨by simp [isMarked,isParam,isWild],key,label⟩)

variable (re) in
theorem isMarked_key (seg : Bytes) : isMarked seg = (segmentKey re seg).isSome := by
  rcases segment_kinds re seg with ⟨rest,rfl,key,-⟩ | ⟨rest,rfl,key,-⟩ | ⟨plain,key,-⟩
  · rw [key]
    rfl
  · rw [key]
    rfl
  · rw [key,plain]
    rfl

def segmentText (re : GoRegexp) (values : Values) (seg : Bytes) : Bytes :=
  match segmentKey re seg with
  | none => seg
  | some key => if segmentLabel re seg = .wild then escapeWildcard ((values.get key).getD []) else pathEscape ((values.get key).getD [])

def expectedParams (re : GoRegexp) (segments : List Bytes) (values : Values) : List Param :=
  segments.filterMap fun seg => (segmentKey re seg).map fun key => ⟨key,segmentText re values seg⟩

def expectedValues (re : GoRegexp) (segments : List Bytes) (values : Values) : List Bytes :=
  segments.filterMap fun seg => (segmentKey re seg).map fun _ => segmentText re values seg

theorem expected_zip : List.zipWith Param.mk (routeKeys re segments) (expectedValues re segments values) = expectedParams re segments values := by
  induction segments with
  | nil => rfl
  | cons seg later ih =>
    rw [routeKeys,expectedValues,expectedParams,filterMap_cons,filterMap_cons,filterMap_cons]
    cases segmentKey re seg with
    | none => exact ih
    | some key => exact congrArg (List.cons _) ih

-- Values for exactly the keys of a pattern, none of them empty; where there is a constraint the written value meets it, and a
-- wildcard's value starts with a segment.
structure Fits (re : GoRegexp) (segments : List Bytes) (values : Values) : Prop where
  keys : ∀ key, (values.get key).isSome = true ↔ key ∈ routeKeys re segments
  nonempty : ∀ key value, values.get key = some value → value ≠ []
  constraint : ∀ seg ∈ segments, ∀ c key value, segmentLabel re seg = .constrained c → segmentKey re seg = some key → values.get key = some value →
    c.matches re (pathEscape value) = true
  wildcard : ∀ seg ∈ segments, ∀ key value, segmentLabel re seg = .wild → segmentKey re seg = some key → values.get key = some value →
    value.head? ≠ some slash

theorem Fits.given (fits : Fits re segments values) (mem : seg ∈ segments) (named : segmentKey re seg = some key) :
    ∃ value, values.get key = some value ∧ value ≠ [] := by
  obtain ⟨value,there⟩ := Option.isSome_iff_exists.mp ((fits.keys key).mpr (mem_filterMap.mpr ⟨seg,mem,named⟩))
  exact ⟨value,there,fits.nonempty key value there⟩

theorem segmentText_some (named : segmentKey re seg = some key) (there : values.get key = some value) :
    segmentText re values seg = if segmentLabel re seg = .wild then escapeWildcard value else pathEscape value := by
  rw [segmentText,named]
  dsimp only
  rw [there,Option.getD_some]

theorem segmentLabel_inner (label : segmentLabel re (colon :: rest) = .param ∨ ∃ c, segmentLabel re (colon :: rest) = .constrained c) :
    segmentLabel re (colon :: rest) ≠ .wild := by
  rcases label with label | ⟨c,label⟩ <;> rw [label] <;> exact nofun

theorem writeSegment_ok (fits : Fits re segments values) (mem : seg ∈ segments) (alike : ∀ key, segmentKey re seg = some key → rawKey seg = key) :
    writeSegment name values seg = .ok (segmentText re values seg) := by
  rw [writeSegment]
  rcases segment_kinds re seg with ⟨rest,rfl,named,label⟩ | ⟨rest,rfl,named,label⟩ | ⟨plain,named,-⟩
  · obtain ⟨value,there,-⟩ := fits.given mem named
    rw [segmentText_some named there,alike _ named,there,if_neg (segmentLabel_inner label)]
    rfl
  · obtain ⟨value,there,-⟩ := fits.given mem named
    rw [segmentText_some named there,alike _ named,there,if_pos label]
    rfl
  · rw [segmentText,plain,named]
    rfl

theorem writePathLoop_step (fuel : Nat) {tail : Bytes} (full : seg ≠ []) (whole : slash ∉ seg) (cut : tail = [] ∨ tail.head? = some slash) :
    writePathLoop name values (fuel+2) (slash :: (seg ++ tail)) =
      (writeSegment name values seg).bind fun text => (writePathLoop name values fuel tail).map fun rest => slash :: (text ++ rest) := by
  cases seg with
  | nil => exact absurd rfl full
  | cons c more =>
    have first : c ≠ slash := fun same => whole (same ▸ mem_cons_self ..)
    obtain ⟨taken,left⟩ := cut_segment whole cut
    rw [cons_append] at taken left
    rw [writePathLoop,if_pos rfl,cons_append,writePathLoop,if_neg first,taken,left]
    cases writeSegment name values (c :: more) with
    | error e => rfl
    | ok text => cases writePathLoop name values fuel tail <;> rfl

theorem joinSegments_cons (seg : Bytes) (later : List Bytes) : joinSegments (seg :: later) = slash :: (seg ++ joinSegments later) := by
  rw [joinSegments,flatMap_cons,← joinSegments,cons_append]

theorem joinSegments_start (segments : List Bytes) : joinSegments segments = [] ∨ (joinSegments segments).head? = some slash := by
  cases segments with
  | nil => exact .inl rfl
  | cons seg later => exact .inr rfl

theorem writePathLoop_join (text : Bytes → Bytes) (fuel : Nat) : ∀ {segments : List Bytes}, (∀ seg ∈ segments, seg ≠ [] ∧ slash ∉ seg) →
    (joinSegments segments).length ≤ fuel →
    ((∀ seg ∈ segments, writeSegment name values seg = .ok (text seg)) →
      writePathLoop name values fuel (joinSegments segments) = .ok (joinSegments (segments.map text))) ∧
    (∀ seg ∈ segments, ∀ error, writeSegment name values seg = .error error → ∃ error', writePathLoop name values fuel (joinSegments segments) = .error error') := by
  intro segments
  induction segments generalizing fuel with
  | nil =>
    intro _ _
    refine ⟨fun _ => ?_,nofun⟩
    cases fuel <;> rfl
  | cons seg later ih =>
    intro solid enough
    obtain ⟨⟨full,whole⟩,solid⟩ := forall_mem_cons.mp solid
    have size := length_pos_of_ne_nil full
    rw [joinSegments_cons,length_cons,length_append] at enough
    obtain ⟨fuel,rfl⟩ : ∃ fuel', fuel = fuel'+2 := ⟨fuel-2,by lia⟩
    obtain ⟨writes,fails⟩ := ih fuel solid (by lia)
    rw [joinSegments_cons,writePathLoop_step fuel full whole (joinSegments_start later)]
    constructor
    · intro each
      obtain ⟨first,rest⟩ := forall_mem_cons.mp each
      rw [first,Except.bind,writes rest,map_cons,joinSegments_cons]
      rfl
    · intro bad mem error refused
      cases first : writeSegment name values seg with
      | error error' => exact ⟨error',rfl⟩
      | ok text =>
        rcases mem_cons.mp mem with rfl | after
        · cases first.symm.trans refused
        · obtain ⟨error',stops⟩ := fails bad after error refused
          exact ⟨error',by rw [Except.bind,stops]; rfl⟩
end
section
variable {re : GoRegexp} {r : Router} {values : Values} {segments : List Bytes} {e : RouteEntry}

theorem pathSegments_segment {tail : Bytes} (full : seg ≠ []) (whole : slash ∉ seg) (cut : tail = [] ∨ tail.head? = some slash) :
    pathSegments (slash :: (seg ++ tail)) = ⟨seg,seg ++ tail⟩ :: pathSegments tail := by
  have read : pathSegments (joinSegments [seg] ++ tail) = joinedSegments tail [seg] := pathSegments_join cut (forall_mem_singleton.mpr ⟨full,whole⟩)
  rw [joinSegments_cons,cons_append,append_assoc] at read
  exact read

theorem capture_written (valid : segmentsValid re segments = true) (solid : ∀ seg ∈ segments, seg ≠ [] ∧ slash ∉ seg) (fits : ∀ seg ∈ segments, ∀ key,
      segmentKey re seg = some key → ∃ value, values.get key = some value ∧ value ≠ [] ∧
        (segmentLabel re seg = .wild → value.head? ≠ some slash) ∧ ∀ c, segmentLabel re seg = .constrained c → c.matches re (pathEscape value) = true) :
    capture re true (routeLabels re segments) (pathSegments (joinSegments (segments.map (segmentText re values)))) = some (expectedValues re segments values) := by
  induction segments with
  | nil => rfl
  | cons seg later ih =>
    obtain ⟨⟨full,whole⟩,solid⟩ := forall_mem_cons.mp solid
    obtain ⟨first,fits⟩ := forall_mem_cons.mp fits
    rw [segmentsValid,Bool.and_eq_true,Bool.and_eq_true,Bool.or_eq_true] at valid
    have below := ih valid.2 solid fits
    have cut := joinSegments_start (later.map (segmentText re values))
    rw [routeLabels_cons,map_cons,joinSegments_cons,expectedValues,filterMap_cons,← expectedValues]
    rcases segment_kinds re seg with ⟨rest,rfl,named,label⟩ | ⟨rest,rfl,named,label⟩ | ⟨-,named,label⟩
    · obtain ⟨value,there,some,-,meets⟩ := first _ named
      have text : segmentText re values (colon :: rest) = pathEscape value := by rw [segmentText_some named there,if_neg (segmentLabel_inner label)]
      rw [named,text,pathSegments_segment (pathEscape_ne some) (fun mem => (pathEscape_plain _ mem).1 rfl) cut]
      rcases label with label | ⟨c,label⟩
      · rw [label,capture,below]
        rfl
      · rw [label,capture,if_pos (meets c label),below]
        rfl
    · obtain ⟨value,there,some,start,-⟩ := first _ named
      have text : segmentText re values (star :: rest) = escapeWildcard value := by rw [segmentText_some named there,if_pos label]
      obtain rfl : later = [] := by simpa [label] using valid.1.2
      obtain ⟨some',start'⟩ := escapeWildcard_first some (start label)
      rw [named,text,label,map_nil,show joinSegments [] = [] from rfl,append_nil,pathSegments_slash]
      cases written : escapeWildcard value with
      | nil => exact absurd written some'
      | cons c more =>
        rw [written] at start'
        rw [pathSegments_first more fun same => start' (congrArg Option.some same)]
        rfl
    · have text : segmentText re values seg = seg := by rw [segmentText,named]
      rw [named,text,label,pathSegments_segment full whole cut,capture,if_pos rfl]
      exact below

theorem Fits.each (fits : Fits re segments values) : ∀ seg ∈ segments, ∀ key, segmentKey re seg = some key → ∃ value, values.get key = some value ∧ value ≠ [] ∧
    (segmentLabel re seg = .wild → value.head? ≠ some slash) ∧ ∀ c, segmentLabel re seg = .constrained c → c.matches re (pathEscape value) = true := by
  intro seg mem key named
  obtain ⟨value,there,full⟩ := fits.given mem named
  exact ⟨value,there,full,fun label => fits.wildcard seg mem key value label named there,
    fun c label => fits.constraint seg mem c key value label named there⟩

theorem slotIn_only (e : RouteEntry) (method : Bytes) (labels : List RouteLabel) : slotIn re [e] method labels = e.slot re method labels :=
  Option.or_none

theorem Built.find_only (alone : Built re r [e]) (dynamic : routeIsStatic e.segments = false) (needed : optionalLast re e.segments = false) {target : Bytes}
    (free : queryMark ∉ target) {taken : List Bytes} (captured : capture re true (e.labels re) (pathSegments target) = some taken) :
    r.find re e.method target = (some e.handler,List.zipWith Param.mk (routeKeys re e.segments) taken) := by
  have mem := mem_singleton_self e
  have unlisted : staticFor [e] e.method target = none := by
    cases there : staticFor [e] e.method target with
    | none => rfl
    | some h =>
      obtain ⟨e',member',-,static,-⟩ := staticFor_mem there
      rw [mem_singleton.mp member',dynamic] at static
      cases static
  have leading : Leading re [e] e.method (targetLookup target) ⟨e.labels re,⟨e.handler,routeKeys re e.segments,e.path⟩,taken⟩ := by
    rw [targetLookup_free free]
    refine ⟨?_,captured,fun labels there _ other => ?_⟩
    · rw [slotIn_only]
      exact RouteEntry.slot_iff.mpr ⟨rfl,mem_forms.mpr (.inl ⟨rfl,rfl⟩)⟩
    rw [slotIn_only] at there
    rcases (slot_isSome.mp there).2 with own | ⟨short,-⟩
    · exact absurd own other
    · rw [needed] at short
      cases short
  rw [Router.find,alone.upper e mem,alone.find_eq,unlisted,orFound_none]
  exact alone.answer_iff.mpr ⟨_,.inl leading,rfl⟩

theorem capture_text (labels : List RouteLabel) : ∀ {segments : List LookupSegment} {taken : List Bytes} {text : Bytes},
    capture re ends labels segments = some taken → .static text ∈ labels → ∃ seg ∈ segments, seg.text = text := by
  induction labels with
  | nil => exact nofun
  | cons label labels ih =>
    intro segments taken text captured mem
    by_cases last : label = .wild
    · subst last
      rw [capture] at captured
      split at captured
      · rename_i final
        rw [final] at mem
        cases mem_singleton.mp mem
      · cases captured
    · obtain ⟨seg,later,_,rest,rfl,below,-,-⟩ := capture_inner last captured
      rcases mem_cons.mp mem with rfl | after
      · rw [capture] at captured
        split at captured
        · rename_i same
          exact ⟨seg,mem_cons_self ..,same.symm⟩
        · cases captured
      · obtain ⟨seg',there,same⟩ := ih below after
        exact ⟨seg',mem_cons_of_mem _ there,same⟩

theorem Built.find_marked (alone : Built re r [e]) (dynamic : routeIsStatic e.segments = false) (mem : seg ∈ e.segments)
    (plain : isMarked seg = false) (marked : queryMark ∈ seg) (target : Bytes) : (r.find re e.method target).1 = none := by
  refine (alone.find_none e.method target).mpr ⟨?_,eq_nil_iff_forall_not_mem.mpr fun hit inside => ?_⟩
  · cases there : staticFor [e] (toUpper e.method) target with
    | none => rfl
    | some h =>
      obtain ⟨e',member',-,static,-⟩ := staticFor_mem there
      rw [mem_singleton.mp member',dynamic] at static
      cases static
  · obtain ⟨captured,-⟩ := alone.mem_allHits inside
    obtain ⟨e',member',form,-⟩ := alone.hit_route inside
    rw [mem_singleton.mp member'] at form
    have text : .static seg ∈ e.labels re := by
      rcases segment_kinds re seg with ⟨rest,rfl,-⟩ | ⟨rest,rfl,-⟩ | ⟨-,-,label⟩
      · cases plain
      · cases plain
      · exact mem_map.mpr ⟨seg,mem,label⟩
    have label : .static seg ∈ hit.labels := by
      rcases mem_forms.mp form with ⟨own,-⟩ | ⟨needed,short,-⟩
      · rw [own]
        exact text
      · rw [short]
        exact optionalLast_keeps needed text (.inr ⟨seg,rfl⟩)
    obtain ⟨piece,there,same⟩ := capture_text _ captured label
    obtain ⟨-,-,-,-,bytes⟩ := pathSegments_solid _ piece there
    exact (routeLookupPath_split target).1 (bytes (same ▸ marked))
end
section
variable {re : GoRegexp} {r alone : Router} {name : Bytes} {values : Values} {e : RouteEntry}

-- URL writes a path without a query, and where the route stands alone Find reads it back: the handler, and each parameter with
-- the escaped value.
def ReverseRoutes (re : GoRegexp) (r alone : Router) (e : RouteEntry) (name : Bytes) (values : Values) : Prop :=
  ∃ path, r.url name values = .ok path ∧ queryKeys e.path values = [] ∧ alone.find re e.method path = (some e.handler,expectedParams re e.segments values)

-- The patterns for which it does: each mark is followed by the parameter's name alone, without a constraint or an optional
-- mark; the pattern is not the asterisk; and a text holds a question mark only where the whole pattern is text.
structure Reversible (re : GoRegexp) (e : RouteEntry) : Prop where
  names : ∀ seg ∈ e.segments, ∀ key, segmentKey re seg = some key → rawKey seg = key
  path : e.path ≠ [star]
  texts : routeIsStatic e.segments = true ∨ ∀ seg ∈ e.segments, isMarked seg = false → queryMark ∉ seg

theorem parse_valid {name : Bytes} (valid : validName name = true) : parseParamConstraint re name = ⟨name,{},false⟩ := by
  rw [validName,Bool.and_eq_true] at valid
  have letters := all_eq_true.mp valid.2
  have mark : (name.getLast? == some 63) = false := beq_eq_false_iff_ne.mpr fun last => absurd (letters 63 (mem_of_getLast? last)) (by decide)
  have bracket : indexByte name 60 = none := indexByte_none.mpr fun mem => absurd (letters 60 mem) (by decide)
  rw [parseParamConstraint]
  simp [mark,bracket]

theorem routeKeys_valid {segments : List Bytes} (valid : segmentsValid re segments = true) {key : Bytes} (inside : key ∈ routeKeys re segments) :
    key = [star] ∨ validName key = true := by
  obtain ⟨seg,mem,named⟩ := mem_filterMap.mp inside
  have own := segmentsValid_mem valid seg mem
  rcases segment_kinds re seg with ⟨rest,rfl,key',-⟩ | ⟨rest,rfl,key',-⟩ | ⟨-,key',-⟩
  · rw [named,Option.some.injEq] at key'
    rw [key']
    exact .inr own
  · rw [named,Option.some.injEq] at key'
    have checked : (rest.isEmpty || validName rest) = true := own
    rw [key',wildKey]
    split
    · exact .inl rfl
    · rename_i named'
      rw [Bool.or_eq_true,List.isEmpty_iff] at checked
      exact .inr (checked.resolve_left named')
  · cases named.symm.trans key'

theorem rawKey_missing {segments : List Bytes} (valid : segmentsValid re segments = true) {seg key : Bytes} (mem : seg ∈ segments)
    (named : segmentKey re seg = some key) (other : rawKey seg ≠ key) : rawKey seg ∉ routeKeys re segments := by
  have own := segmentsValid_mem valid seg mem
  rcases segment_kinds re seg with ⟨rest,rfl,key',-⟩ | ⟨rest,rfl,key',-⟩ | ⟨-,key',-⟩
  · rw [named,Option.some.injEq] at key'
    have raw : rawKey (colon :: rest) = rest ∨ rest = [] := by
      by_cases bare : rest = []
      · exact .inr bare
      · exact .inl (if_neg bare)
    have checked : validName (parseParamConstraint re rest).cleanName = true := own
    rcases raw with raw | rfl
    · rw [raw] at other ⊢
      intro inside
      rcases routeKeys_valid valid inside with rfl | named'
      · have bare : (parseParamConstraint re [star]).cleanName = [star] := rfl
        rw [bare] at checked
        exact absurd checked (by decide)
      · rw [parse_valid named'] at key'
        exact other key'.symm
    · have bare : (parseParamConstraint re []).cleanName = [] := rfl
      rw [bare] at checked
      exact absurd checked (by decide)
  · exact absurd (Option.some.inj (key'.symm.trans named)) other
  · cases named.symm.trans key'

theorem writeSegment_missing (marked : isMarked seg = true) (missing : values.get (rawKey seg) = none) :
    writeSegment name values seg = .error (.paramMissing (rawKey seg) name) := by
  rw [writeSegment,marked,missing]
  rfl

theorem queryKeys_nil (fits : Fits re e.segments values) (names : ∀ seg ∈ e.segments, ∀ key, segmentKey re seg = some key → rawKey seg = key)
    (pieces : ∀ seg ∈ e.segments, seg ∈ splitSlash e.path) : queryKeys e.path values = [] := by
  have used : ∀ key ∈ values.keys, ((values.get key).isSome && !routeUsesParam e.path key) = false := by
    intro key _
    cases there : (values.get key).isSome with
    | false => rfl
    | true =>
      obtain ⟨seg,mem,named⟩ := mem_filterMap.mp ((fits.keys key).mp there)
      have marked : isMarked seg = true := by rw [isMarked_key re seg,named]; rfl
      have uses : routeUsesParam e.path key = true :=
        any_eq_true.mpr ⟨seg,pieces seg mem,by rw [marked,names seg mem key named,beq_self_eq_true]; rfl⟩
      rw [uses]
      rfl
  have none : (values.keys.filter fun key => (values.get key).isSome && !routeUsesParam e.path key) = [] :=
    filter_eq_nil_iff.mpr fun key mem => Bool.eq_false_iff.mp (used key mem)
  rw [queryKeys,none]
  rfl

theorem RouteEntry.Valid.pieces (valid : e.Valid re) : ∀ seg ∈ e.segments, seg ∈ splitSlash e.path := by
  intro seg mem
  rw [RouteEntry.segments] at mem
  rcases valid.text with ⟨-,whole⟩ | ⟨first,-⟩
  · rw [whole] at mem ⊢
    exact mem
  obtain ⟨rest,text⟩ := List.head?_eq_some_iff.mp first
  rw [text] at mem ⊢
  by_cases root : rest = []
  · rw [root] at mem
    cases mem
  · rw [splitRouteSegments_slash root] at mem
    exact mem_cons_of_mem _ mem

theorem url_eq (named : r.named.get name = some ⟨e.method,e.path⟩) (unused : queryKeys e.path values = []) : r.url name values = writePath name values e.path := by
  rw [Router.url,named]
  dsimp only
  rw [unused]
  cases writePath name values e.path with
  | error error => rfl
  | ok path => exact congrArg Except.ok (append_nil path)

theorem names_mandatory (valid : e.Valid re) (names : ∀ seg ∈ e.segments, ∀ key, segmentKey re seg = some key → rawKey seg = key) :
    optionalLast re e.segments = false := by
  by_contra needed
  obtain ⟨seg,last,optional⟩ := (Option.any_eq_true ..).mp (Bool.not_eq_false _ ▸ needed)
  have mem := mem_of_getLast? last
  have own := segmentsValid_mem valid.segments seg mem
  rcases segment_kinds re seg with ⟨rest,rfl,key,-⟩ | ⟨rest,rfl,-⟩ | ⟨plain,key,-⟩
  · have checked : validName (parseParamConstraint re rest).cleanName = true := own
    have marked : (parseParamConstraint re rest).isOptional = true := optional
    have raw := names _ mem _ key
    rw [← raw,rawKey,wildKey,tail_cons] at checked
    split at checked
    · exact absurd checked (by decide)
    · rw [parse_valid checked] at marked
      cases marked
  · cases optional
  · obtain ⟨key',there⟩ := segmentKey_optional re optional
    cases key.symm.trans there

theorem written_free {segments : List Bytes} (free : ∀ seg ∈ segments, isMarked seg = false → queryMark ∉ seg) :
    queryMark ∉ joinSegments (segments.map (segmentText re values)) := by
  intro inside
  obtain ⟨text,written,inside⟩ := mem_flatMap.mp inside
  obtain ⟨seg,mem,rfl⟩ := mem_map.mp written
  rcases mem_cons.mp inside with same | inside
  · cases same
  rw [segmentText] at inside
  split at inside
  · rename_i key
    refine free seg mem ?_ inside
    rw [isMarked_key re seg,key]
    rfl
  · split at inside
    · exact (escapeWildcard_plain _ inside).1 rfl
    · exact (pathEscape_plain _ inside).2.1 rfl

theorem Built.find_static (built : Built re alone [e]) (static : routeIsStatic e.segments = true) :
    alone.find re e.method e.path = (some e.handler,expectedParams re e.segments values) := by
  have listed : staticIn [e] e.method e.path = some e.handler := if_pos ⟨rfl,rfl,static⟩
  have none : expectedParams re e.segments values = [] := by
    refine filterMap_eq_nil_iff.mpr fun seg mem => ?_
    rw [(routeIsStatic_label static mem).2.1]
    rfl
  rw [Router.find,built.upper e (mem_singleton_self e),built.find_eq,staticFor,listed,none]
  rfl

variable (name) in
theorem writePath_join (valid : e.Valid re) (whole : e.path ≠ [star]) (fits : Fits re e.segments values)
    (names : ∀ seg ∈ e.segments, ∀ key, segmentKey re seg = some key → rawKey seg = key) :
    e.segments = [] ∧ writePath name values e.path = .ok e.path ∨
    (joinSegments e.segments = e.path ∧ ∀ seg ∈ e.segments, seg ≠ [] ∧ slash ∉ seg) ∧
      writePath name values e.path = .ok (joinSegments (e.segments.map (segmentText re values))) := by
  rw [writePath,if_neg whole]
  rcases valid.path_join with ⟨text,none⟩ | ⟨text,-⟩ | ⟨joined,solid⟩
  · refine .inl ⟨none,?_⟩
    rw [text]
    rfl
  · exact absurd text whole
  · refine .inr ⟨⟨joined,solid⟩,?_⟩
    rw [← joined]
    exact (writePathLoop_join _ _ solid (Nat.le_refl _)).1 fun seg mem => writeSegment_ok fits mem (names seg mem)

theorem Reversible.reverses (reversible : Reversible re e) (built : Built re alone [e]) (named : r.named.get name = some ⟨e.method,e.path⟩)
    (fits : Fits re e.segments values) : ReverseRoutes re r alone e name values := by
  have valid := built.valid e (mem_singleton_self e)
  have unused := queryKeys_nil fits reversible.names valid.pieces
  have written := writePath_join name valid reversible.path fits reversible.names
  rw [← url_eq named unused] at written
  rcases written with ⟨none,written⟩ | ⟨⟨joined,solid⟩,written⟩
  · exact ⟨e.path,written,unused,built.find_static (by rw [none]; rfl)⟩
  refine ⟨_,written,unused,?_⟩
  cases static : routeIsStatic e.segments with
  | true =>
    have each : ∀ seg ∈ e.segments, segmentText re values seg = id seg := fun seg mem => by
      rw [segmentText,(routeIsStatic_label static mem).2.1]
      rfl
    rw [map_congr_left each,map_id,joined]
    exact built.find_static static
  | false =>
    have texts := reversible.texts.resolve_left (by rw [static]; exact Bool.false_ne_true)
    have free : queryMark ∉ joinSegments (e.segments.map (segmentText re values)) := written_free texts
    rw [built.find_only static (names_mandatory valid reversible.names) free (capture_written valid.segments solid fits.each),expected_zip]

theorem ReverseRoutes.names (reverse : ReverseRoutes re r alone e name values) (valid : e.Valid re) (named : r.named.get name = some ⟨e.method,e.path⟩)
    (fits : Fits re e.segments values) : ∀ seg ∈ e.segments, ∀ key, segmentKey re seg = some key → rawKey seg = key := by
  intro seg mem key is
  by_contra other
  obtain ⟨path,written,unused,-⟩ := reverse
  rw [url_eq named unused,writePath] at written
  have missing : values.get (rawKey seg) = none := by
    cases there : values.get (rawKey seg) with
    | none => rfl
    | some value => exact absurd ((fits.keys (rawKey seg)).mp (by rw [there]; rfl)) (rawKey_missing valid.segments mem is other)
  have refused : writeSegment name values seg = .error (.paramMissing (rawKey seg) name) :=
    writeSegment_missing (by rw [isMarked_key re seg,is]; rfl) missing
  rcases valid.path_join with ⟨-,none⟩ | ⟨-,pieces⟩ | ⟨joined,solid⟩
  · rw [none] at mem
    cases mem
  · rw [pieces] at mem
    rw [mem_singleton.mp mem] at is other
    exact other (Option.some.inj is)
  · have apart : e.path ≠ [star] := by
      rw [← joined]
      intro same
      rcases joinSegments_start e.segments with none | start
      · rw [none] at same
        cases same
      · rw [same] at start
        cases start
    obtain ⟨error,stops⟩ := (writePathLoop_join id e.path.length solid (by rw [joined])).2 seg mem _ refused
    rw [joined] at stops
    rw [if_neg apart,stops] at written
    cases written

theorem reverse_routes_iff (built : Built re alone [e]) (named : r.named.get name = some ⟨e.method,e.path⟩) (fits : Fits re e.segments values) :
    ReverseRoutes re r alone e name values ↔ Reversible re e := by
  refine ⟨fun reverse => ?_,fun reversible => reversible.reverses built named fits⟩
  have valid := built.valid e (mem_singleton_self e)
  have names := reverse.names valid named fits
  obtain ⟨path,written,unused,found⟩ := reverse
  refine ⟨names,fun whole => ?_,?_⟩
  · -- the asterisk is written as itself, and a written value holds none
    have pieces : e.segments = [[star]] := by
      rw [RouteEntry.segments,whole]
      rfl
    have labels : e.labels re = [.wild] := by
      rw [RouteEntry.labels,pieces]
      rfl
    have key : segmentKey re [star] = some [star] := rfl
    obtain ⟨value,there,-⟩ := fits.given (by rw [pieces]; exact mem_singleton_self _) key
    rw [url_eq named unused,whole,writePath,if_pos rfl,there] at written
    cases written
    have captured : capture re true (e.labels re) (pathSegments [star]) = some [[star]] := by
      rw [labels]
      rfl
    have answer := built.find_only (by rw [pieces]; rfl) (by rw [pieces]; rfl) (by decide) captured
    have same : expectedParams re [[star]] values = [⟨[star],[star]⟩] := by
      rw [found,pieces] at answer
      exact (Prod.mk.inj answer).2
    have text : segmentText re values [star] = [star] := (Param.mk.inj (List.cons.inj same).1).2
    rw [segmentText_some key there,if_pos (show segmentLabel re [star] = .wild from rfl)] at text
    exact (escapeWildcard_plain star (by rw [text]; exact mem_singleton_self star)).2 rfl
  · by_contra marked
    rw [not_or] at marked
    obtain ⟨seg,mem,plain,inside⟩ : ∃ seg ∈ e.segments, isMarked seg = false ∧ queryMark ∈ seg := by
      by_contra none
      exact marked.2 fun seg mem plain inside => none ⟨seg,mem,plain,inside⟩
    have nothing := built.find_marked (Bool.eq_false_iff.mpr marked.1) mem plain inside path
    rw [found] at nothing
    cases nothing

def aloneRouter (e : RouteEntry) : Router := routerOf plainRegexp [e]

def namedRouter (e : RouteEntry) (name : Bytes) : Router := ((aloneRouter e).name e.method e.path name).toOption.getD {}

def valuesOf (given : List Param) : Values := given.foldr (fun p values => values.set p.key (some p.value)) Table.empty

theorem valuesOf_get : ((valuesOf given).get key).isSome = true ↔ key ∈ given.map (·.key) := by
  induction given with
  | nil => exact ⟨nofun,nofun⟩
  | cons p given ih =>
    rw [valuesOf,foldr_cons,Table.get_set,map_cons,mem_cons,← ih]
    by_cases same : key = p.key
    · rw [if_pos same]
      exact ⟨fun _ => .inl same,fun _ => rfl⟩
    · rw [if_neg same]
      exact ⟨.inr,fun there => there.resolve_left same⟩

theorem valuesOf_mem (there : (valuesOf given).get key = some value) : ⟨key,value⟩ ∈ given := by
  induction given with
  | nil => cases there
  | cons p given ih =>
    rw [valuesOf,foldr_cons,Table.get_set] at there
    by_cases same : key = p.key
    · rw [if_pos same] at there
      cases there
      rw [same]
      exact mem_cons_self
    · rw [if_neg same] at there
      exact mem_cons_of_mem _ (ih there)

def RouteLabel.constraint : RouteLabel → Option ParamConstraint
  | .constrained c => some c
  | _ => none

theorem fits_valuesOf {given : List Param} {segments : List Bytes} (keys : (∀ key ∈ given.map (·.key), key ∈ routeKeys re segments) ∧
    ∀ key ∈ routeKeys re segments, key ∈ given.map (·.key)) (full : ∀ p ∈ given, p.value ≠ [])
    (constraint : ∀ seg ∈ segments, ∀ p ∈ given, segmentKey re seg = some p.key → ∀ c ∈ (segmentLabel re seg).constraint, c.matches re (pathEscape p.value) = true)
    (wildcard : ∀ p ∈ given, p.value.head? ≠ some slash) : Fits re segments (valuesOf given) := by
  refine ⟨fun key => ?_,fun key value there => full _ (valuesOf_mem there),fun seg mem c key value label is there => ?_,
    fun seg mem key value _ _ there => wildcard _ (valuesOf_mem there)⟩
  · rw [valuesOf_get]
    exact ⟨keys.1 key,keys.2 key⟩
  · exact constraint seg mem _ (valuesOf_mem there) is c (by rw [label]; rfl)

def fileRoute : RouteEntry := ⟨GET,ascii "/files/:name/*",1⟩

def fileValues : Values := valuesOf [⟨ascii "name",ascii "a b"⟩,⟨[star],ascii "x/y?"⟩]

theorem reverse_routes_file : (namedRouter fileRoute (ascii "file")).url (ascii "file") fileValues = .ok (ascii "/files/a%20b/x/y%3F") ∧
    ReverseRoutes plainRegexp (namedRouter fileRoute (ascii "file")) (aloneRouter fileRoute) fileRoute (ascii "file") fileValues :=
  have built : Built plainRegexp (aloneRouter fileRoute) [fileRoute] := routerOf_built (by decide)
  have fits : Fits plainRegexp fileRoute.segments fileValues := fits_valuesOf (by decide) (by decide) (by decide) (by decide)
  ⟨by decide,(reverse_routes_iff built (by decide) fits).mpr ⟨by decide,by decide,.inr (by decide)⟩⟩

def numberRoute : RouteEntry := ⟨GET,ascii "/a/:id<int>",1⟩

def numberValues : Values := valuesOf [⟨ascii "id",ascii "7"⟩]

theorem constraint_unreversed : Built plainRegexp (aloneRouter numberRoute) [numberRoute] ∧
    (namedRouter numberRoute (ascii "number")).named.get (ascii "number") = some ⟨numberRoute.method,numberRoute.path⟩ ∧
    Fits plainRegexp numberRoute.segments numberValues ∧
    (aloneRouter numberRoute).find plainRegexp GET (ascii "/a/7") = (some 1,[⟨ascii "id",ascii "7"⟩]) ∧
    (namedRouter numberRoute (ascii "number")).url (ascii "number") numberValues = .error (.paramMissing (ascii "id<int>") (ascii "number")) :=
  ⟨routerOf_built (by decide),by decide,fits_valuesOf (by decide) (by decide) (by decide) (by decide),by decide,by decide⟩
end
end FhServer

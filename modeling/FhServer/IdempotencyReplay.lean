import FhServer.Idempotency

namespace FhServer
open GoText IdemStore List Option IdempotencyRecord

def linesOf (log : List IdempotencyRecord) (key : Bytes) : List IdempotencyRecord := log.filter fun l => l.key == key

def IdempotencyRecord.kept (l : IdempotencyRecord) (now : Int) : Bool := decide (l.expiresAt = 0 ∨ l.expiresAt > now)

theorem linesOf_append (log : List IdempotencyRecord) (l : IdempotencyRecord) (key : Bytes) :
    linesOf (log ++ [l]) key = linesOf log key ++ if l.key = key then [l] else [] := by
  by_cases here : l.key = key <;> simp [linesOf,here]

def IdemCall.text : IdemCall → Prop
  | .begin key reqHash _ _ => jsonText key = key ∧ jsonText reqHash = reqHash
  | _ => True

def unexpired (rec : Option IdempotencyRecord) (now : Int) : Option IdempotencyRecord := rec.filter fun r => !r.expired now

section
variable {cfg : IdemConfig} {rec rec' : Option IdempotencyRecord} {r r' : IdempotencyRecord} {now : Int}

theorem resolve_none (gone : unexpired rec now = none) (reqHash : Bytes) : resolveIdem cfg rec reqHash now = none := by
  cases rec with
  | none => rfl
  | some r =>
    rw [resolveIdem]
    split
    · rfl
    · rename_i valid
      simp [unexpired,valid] at gone

theorem resolve_conflict (there : unexpired rec now = some r) (other : r.requestHash ≠ reqHash) :
    resolveIdem cfg rec reqHash now = some .idemConflict := by
  obtain ⟨rfl,valid⟩ := filter_eq_some_iff.mp there
  have fresh : r.expired now = false := by simpa using valid
  rw [resolveIdem,fresh,if_neg Bool.false_ne_true,if_pos other]

variable (r r') in

theorem resolve_same (hash : r'.requestHash = r.requestHash) (state : r'.state = r.state) (updated : r'.updatedAt = r.updatedAt)
    (expires : r'.expiresAt = r.expiresAt) (reqHash : Bytes) : resolveIdem cfg (some r') reqHash now = resolveIdem cfg (some r) reqHash now := by
  rcases r with ⟨⟩
  rcases r' with ⟨⟩
  cases hash
  cases state
  cases updated
  cases expires
  rfl

variable (cfg) in

theorem resolve_apart (gone : unexpired rec now = none) (there : unexpired rec' now = some r) :
    ∃ reqHash, resolveIdem cfg rec reqHash now ≠ resolveIdem cfg rec' reqHash now := by
  have other : r.requestHash ≠ 0 :: r.requestHash := fun same => by simpa using congrArg List.length same
  refine ⟨0 :: r.requestHash,?_⟩
  rw [resolve_none gone,resolve_conflict there other]
  exact nofun
end
section
variable {cfg : IdemConfig} {log : List IdempotencyRecord} {l : IdempotencyRecord} {now : Int} {records : IdemRecords}

theorem loadIdem_append : loadIdem cfg (log ++ [l]) now = (loadIdem cfg log now).bind fun records => loadLine cfg now records l := by
  rw [loadIdem,foldlM_append]
  simp only [foldlM_cons,foldlM_nil,bind_pure]
  rfl

def IdempotencyRecord.loadable (cfg : IdemConfig) (l : IdempotencyRecord) : Prop := cfg.lineSize l < maxScannerBufSize ∧ l.key ≠ []

theorem loadLine_some (text : jsonText l.key = l.key) :
    (loadLine cfg now records l).isSome = true ↔ l.loadable cfg := by
  have key : l.readBack.key = l.key := text
  rw [loadLine,key,loadable]
  split_ifs with long empty
  · simp only [isSome_none,Bool.false_eq_true,false_iff]
    lia
  · simp [empty]
  all_goals
    simp only [isSome_some,true_iff]
    exact ⟨by lia,empty⟩

theorem loadLine_get (text : jsonText l.key = l.key) (loaded : loadLine cfg now records l = some records') (key : Bytes) :
    records'.get key = if l.key = key ∧ l.kept now = true then some l.readBack else records.get key := by
  have readKey : l.readBack.key = l.key := text
  rw [loadLine,readKey] at loaded
  split_ifs at loaded with long empty kept
  · cases loaded
    rw [Table.get_set]
    by_cases here : key = l.key
    · rw [if_pos here,if_pos ⟨here.symm,decide_eq_true kept⟩]
    · rw [if_neg here,if_neg fun both => here both.1.symm]
  · cases loaded
    rw [if_neg fun both => kept (of_decide_eq_true both.2)]

theorem loadIdem_some (text : ∀ l ∈ log, jsonText l.key = l.key) :
    (loadIdem cfg log now).isSome = true ↔ ∀ l ∈ log, l.loadable cfg := by
  induction log using List.reverseRecOn with
  | nil => simp [loadIdem]
  | append_singleton log l ih =>
    rw [forall_mem_append,forall_mem_singleton] at text
    obtain ⟨before,last⟩ := text
    rw [loadIdem_append]
    rw [forall_mem_append,forall_mem_singleton,← ih before]
    cases loaded : loadIdem cfg log now with
    | none => simp
    | some records =>
      rw [bind_some,loadLine_some last]
      simp

theorem loadIdem_get (text : ∀ l ∈ log, jsonText l.key = l.key) (loaded : loadIdem cfg log now = some records) (key : Bytes) :
    records.get key = ((linesOf log key).filter (·.kept now)).getLast?.map (·.readBack) := by
  induction log using List.reverseRecOn generalizing records with
  | nil =>
    cases loaded
    rfl
  | append_singleton log l ih =>
    rw [forall_mem_append,forall_mem_singleton] at text
    obtain ⟨before,last⟩ := text
    rw [loadIdem_append] at loaded
    obtain ⟨earlier,first,line⟩ := bind_eq_some_iff.mp loaded
    rw [loadLine_get last line key,ih before first,linesOf_append,filter_append]
    by_cases here : l.key = key
    · cases kept : l.kept now <;> simp [here,kept]
    · simp [here]
end

structure LogInv (cfg : IdemConfig) (now : Int) (s : IdemStore) : Prop where
  lines : ∀ l ∈ s.log, 0 < l.expiresAt ∧ l.expiresAt ≤ now+cfg.storeTtl
  text : ∀ l ∈ s.log, jsonText l.key = l.key ∧ jsonText l.requestHash = l.requestHash
  present : ∀ key r, s.records.get key = some r → r.key = key ∧ (linesOf s.log key).getLast? = some r ∧
    ∀ l ∈ linesOf s.log key, l.expiresAt ≤ r.expiresAt

section
variable {cfg : IdemConfig} {s : IdemStore} {now : Int} {key : Bytes} {r : IdempotencyRecord}

theorem mem_linesOf {log : List IdempotencyRecord} : l ∈ linesOf log key ↔ l ∈ log ∧ l.key = key := by
  simp [linesOf]

theorem linesOf_other {log : List IdempotencyRecord} (other : l.key ≠ key) : linesOf (log ++ [l]) key = linesOf log key := by
  rw [linesOf_append,if_neg other,append_nil]

theorem LogInv.later {next : Int} (inv : LogInv cfg now s) (order : now ≤ next) : LogInv cfg next s where
  lines l mem := ⟨(inv.lines l mem).1,(inv.lines l mem).2.trans (by lia)⟩
  text := inv.text
  present := inv.present

theorem LogInv.put (inv : LogInv cfg now s) (named : r.key = key) (text : jsonText r.key = r.key ∧ jsonText r.requestHash = r.requestHash)
    (positive : 0 < r.expiresAt) (bound : r.expiresAt ≤ now+cfg.storeTtl)
    (longest : ∀ l ∈ linesOf s.log key, l.expiresAt ≤ r.expiresAt) : LogInv cfg now (s.put key r) where
  lines := forall_mem_append.mpr ⟨inv.lines,forall_mem_singleton.mpr ⟨positive,bound⟩⟩
  text := forall_mem_append.mpr ⟨inv.text,forall_mem_singleton.mpr text⟩
  present := by
    intro key' r' found
    rw [IdemStore.put,Table.get_set] at found
    by_cases here : key' = key
    · rw [if_pos here] at found
      cases found
      subst here
      rw [IdemStore.put,linesOf_append,if_pos named]
      refine ⟨named,List.getLast?_concat,?_⟩
      exact forall_mem_append.mpr ⟨longest,forall_mem_singleton.mpr (Int.le_refl _)⟩
    · rw [if_neg here] at found
      rw [IdemStore.put,linesOf_other fun same => here (same.symm.trans named)]
      exact inv.present key' r' found

theorem LogInv.abort (inv : LogInv cfg now s) (clock : 0 < now) (found : s.records.get key = some r) :
    LogInv cfg now ⟨s.records.set key none,s.log ++ [r.abort now]⟩ := by
  obtain ⟨named,last,-⟩ := inv.present key r found
  have mem : r ∈ s.log := (mem_linesOf.mp (mem_of_getLast? last)).1
  have abortKey : (r.abort now).key = key := named
  have ttl := storeTtl_pos cfg
  refine ⟨?_,?_,?_⟩
  · exact forall_mem_append.mpr ⟨inv.lines,forall_mem_singleton.mpr ⟨clock,by change now ≤ now+cfg.storeTtl; lia⟩⟩
  · exact forall_mem_append.mpr ⟨inv.text,forall_mem_singleton.mpr (inv.text r mem)⟩
  · intro key' r' there
    rw [Table.get_set] at there
    split at there
    · cases there
    · rename_i other
      rw [linesOf_other fun same => other (same.symm.trans abortKey)]
      exact inv.present key' r' there

theorem LogInv.purge (inv : LogInv cfg now s) (asked clock : Int) : LogInv cfg now (s.purgeExpired asked clock).2 where
  lines := inv.lines
  text := inv.text
  present key r found := inv.present key r (filter_eq_some_iff.mp found).1

theorem LogInv.run {call : IdemCall} (inv : LogInv cfg now s) (clock : 0 < now) (text : call.text) : LogInv cfg now (call.run cfg now s) := by
  cases call with
  | begin key reqHash method path =>
    rw [IdemCall.run]
    rcases begin_cases cfg s key reqHash method path now with ⟨_,-,-,-,same⟩ | ⟨-,-,rec,wrote,rfl,rfl,-,expires⟩
    · exact same.symm ▸ inv
    have ttl := storeTtl_pos cfg
    rw [wrote]
    refine inv.put rfl text ?_ expires.le fun l mem => ?_
    · lia
    · rw [expires]
      exact (inv.lines l (mem_linesOf.mp mem).1).2
  | complete key reqHash status contentType headers response =>
    rw [IdemCall.run,IdemStore.completeIdem]
    split
    · exact inv
    rename_i rec found
    split
    · exact inv
    · obtain ⟨named,last,longest⟩ := inv.present key rec found
      have mem : rec ∈ s.log := (mem_linesOf.mp (mem_of_getLast? last)).1
      exact inv.put named (inv.text rec mem) (inv.lines rec mem).1 (inv.lines rec mem).2 longest
  | abort key reqHash =>
    rw [IdemCall.run,IdemStore.abortIdem]
    split
    · exact inv
    rename_i rec found
    split_ifs
    · exact inv
    · exact inv
    · exact inv.abort clock found
  | purge asked => exact inv.purge asked now

def clockFrom : Int → List (Int × IdemCall) → Int → Prop
  | now, [], reopened => now ≤ reopened
  | now, (next,_) :: later, reopened => now ≤ next ∧ clockFrom next later reopened

theorem logInv_run {reopened : Int} : ∀ (history : List (Int × IdemCall)) {now : Int} {s : IdemStore}, LogInv cfg now s → 0 < now →
    clockFrom now history reopened → (∀ c ∈ history, c.2.text) → LogInv cfg reopened (runIdem cfg s history) ∧ 0 < reopened := by
  intro history
  induction history with
  | nil =>
    intro now s inv clock order _
    have ordered : now ≤ reopened := order
    exact ⟨inv.later ordered,by lia⟩
  | cons first later ih =>
    intro now s inv clock order text
    obtain ⟨next,call⟩ := first
    obtain ⟨ordered,rest⟩ := order
    obtain ⟨here,others⟩ := forall_mem_cons.mp text
    have positive : 0 < next := by lia
    exact ih ((inv.later ordered).run positive here) positive rest others
end

-- The log can be read back, no record in memory expires at the very moment, and a key that memory has dropped, by an abort or
-- by a purge with a time ahead of the clock, has no line that is still valid.
structure Replays (cfg : IdemConfig) (s : IdemStore) (reopened : Int) : Prop where
  loadable : ∀ l ∈ s.log, l.loadable cfg
  boundary : ∀ key r, s.records.get key = some r → r.expiresAt ≠ reopened
  dropped : ∀ key, s.records.get key = none → ∀ l ∈ linesOf s.log key, l.expiresAt ≤ reopened

section
variable {cfg : IdemConfig} {s : IdemStore} {t : Int} {key : Bytes} {r : IdempotencyRecord} {records : IdemRecords}

theorem decision_eq_iff {rec : Option IdempotencyRecord} :
    (resolveIdem cfg rec reqHash t).getD .idemNew = (resolveIdem cfg rec' reqHash t).getD .idemNew ↔ resolveIdem cfg rec reqHash t = resolveIdem cfg rec' reqHash t := by
  have one := resolve_not_new cfg rec reqHash t
  have two := resolve_not_new cfg rec' reqHash t
  cases left : resolveIdem cfg rec reqHash t <;> cases right : resolveIdem cfg rec' reqHash t
  · exact ⟨fun _ => rfl,fun _ => rfl⟩
  · refine ⟨fun same => ?_,nofun⟩
    exact absurd (right.trans (congrArg some same.symm)) two
  · refine ⟨fun same => ?_,nofun⟩
    exact absurd (left.trans (congrArg some same)) one
  · exact ⟨fun same => congrArg some same,fun same => some.inj same⟩

theorem kept_iff (l : IdempotencyRecord) (positive : 0 < l.expiresAt) : l.kept t = true ↔ t < l.expiresAt := by
  rw [IdempotencyRecord.kept,decide_eq_true_eq]
  lia

theorem unexpired_valid (valid : t ≤ r.expiresAt) : unexpired (some r) t = some r := by
  have fresh : r.expired t = false := by simp [expired,valid]
  simp [unexpired,fresh]

theorem unexpired_past (positive : 0 < r.expiresAt) (past : r.expiresAt < t) : unexpired (some r) t = none := by
  have old : r.expired t = true := by
    rw [expired,Bool.and_eq_true,bne_iff_ne,decide_eq_true_eq]
    lia
  simp [unexpired,old]

theorem reload_some (inv : LogInv cfg t s) (loaded : loadIdem cfg s.log t = some records) (mem : l ∈ linesOf s.log key)
    (valid : t < l.expiresAt) : ∃ r, unexpired (records.get key) t = some r := by
  have kept : l ∈ (linesOf s.log key).filter (·.kept t) :=
    mem_filter.mpr ⟨mem,(kept_iff l (inv.lines l (mem_linesOf.mp mem).1).1).mpr valid⟩
  obtain ⟨r,last⟩ : ∃ r, ((linesOf s.log key).filter (·.kept t)).getLast? = some r :=
    ⟨_,List.getLast?_eq_some_getLast (ne_nil_of_mem kept)⟩
  obtain ⟨inside,isKept⟩ := mem_filter.mp (mem_of_getLast? last)
  have fresh := (kept_iff r (inv.lines r (mem_linesOf.mp inside).1).1).mp isKept
  refine ⟨r.readBack,?_⟩
  rw [loadIdem_get (fun l mem => (inv.text l mem).1) loaded,last]
  exact unexpired_valid (Int.le_of_lt fresh)

section
variable (inv : LogInv cfg t s) (loaded : loadIdem cfg s.log t = some records)
include inv loaded

theorem reload_none (old : ∀ l ∈ linesOf s.log key, l.expiresAt ≤ t) :
    records.get key = none := by
  have none : (linesOf s.log key).filter (·.kept t) = [] := by
    refine filter_eq_nil_iff.mpr fun l mem kept => ?_
    have valid := (kept_iff l (inv.lines l (mem_linesOf.mp mem).1).1).mp kept
    exact absurd (old l mem) (Int.not_le.mpr valid)
  rw [loadIdem_get (fun l mem => (inv.text l mem).1) loaded,none]
  rfl

theorem reload_last (last : (linesOf s.log key).getLast? = some r)
    (valid : t < r.expiresAt) : records.get key = some r.readBack := by
  obtain ⟨init,lines⟩ := List.getLast?_eq_some_iff.mp last
  have mem : r ∈ s.log := (mem_linesOf.mp (mem_of_getLast? last)).1
  have kept : r.kept t = true := (kept_iff r (inv.lines r mem).1).mpr valid
  have alone : [r].filter (·.kept t) = [r] := filter_cons_of_pos kept
  rw [loadIdem_get (fun l mem => (inv.text l mem).1) loaded,lines,filter_append,alone,List.getLast?_concat]
  rfl

theorem replays_of_agrees (agrees : ∀ key reqHash, resolveIdem cfg (records.get key) reqHash t = resolveIdem cfg (s.records.get key) reqHash t) : Replays cfg s t where
  loadable := (loadIdem_some fun l mem => (inv.text l mem).1).mp (isSome_iff_exists.mpr ⟨records,loaded⟩)
  boundary := by
    intro key r there same
    have gone : unexpired (records.get key) t = none := by
      rw [reload_none inv loaded fun l mem => ((inv.present key r there).2.2 l mem).trans same.le]
      rfl
    have valid : unexpired (s.records.get key) t = some r := by
      rw [there]
      exact unexpired_valid same.ge
    obtain ⟨reqHash,apart⟩ := resolve_apart cfg gone valid
    exact apart (agrees key reqHash)
  dropped := by
    intro key absent l mem
    by_contra valid
    obtain ⟨r,fresh⟩ := reload_some inv loaded mem (Int.not_le.mp valid)
    have gone : unexpired (s.records.get key) t = none := by
      rw [absent]
      rfl
    obtain ⟨reqHash,apart⟩ := resolve_apart cfg gone fresh
    exact apart (agrees key reqHash).symm
end

theorem reopen_agrees (inv : LogInv cfg t s) (replays : Replays cfg s t) (loaded : loadIdem cfg s.log t = some records) (key reqHash : Bytes) :
    resolveIdem cfg (records.get key) reqHash t = resolveIdem cfg (s.records.get key) reqHash t := by
  cases there : s.records.get key with
  | none => rw [reload_none inv loaded (replays.dropped key there)]
  | some r =>
    obtain ⟨named,last,longest⟩ := inv.present key r there
    have mem : r ∈ s.log := (mem_linesOf.mp (mem_of_getLast? last)).1
    have boundary := replays.boundary key r there
    by_cases valid : t < r.expiresAt
    · rw [reload_last inv loaded last valid]
      exact resolve_same r r.readBack (inv.text r mem).2 rfl rfl rfl reqHash
    · have past : r.expiresAt < t := by lia
      rw [reload_none inv loaded fun l inside => (longest l inside).trans past.le]
      exact (resolve_none (unexpired_past (inv.lines r mem).1 past) reqHash).symm

theorem logInv_start (cfg : IdemConfig) : LogInv cfg 1 {} where
  lines := by simp
  text := by simp
  present := by simp

theorem reopened_agrees_iff (cfg : IdemConfig) (history : List (Int × IdemCall)) (reopened : Int) (clock : clockFrom 1 history reopened)
    (text : ∀ c ∈ history, c.2.text) :
    (∃ records, loadIdem cfg (runIdem cfg {} history).log reopened = some records ∧
      ∀ key reqHash method path, (beginIdem cfg {records := records, log := (runIdem cfg {} history).log} key reqHash method path reopened).1 =
        (beginIdem cfg (runIdem cfg {} history) key reqHash method path reopened).1) ↔
    Replays cfg (runIdem cfg {} history) reopened := by
  obtain ⟨inv,-⟩ := logInv_run history (logInv_start cfg) Int.one_pos clock text
  constructor
  · rintro ⟨records,loaded,agrees⟩
    refine replays_of_agrees inv loaded fun key reqHash => ?_
    have same := agrees key reqHash [] []
    rw [begin_decision,begin_decision] at same
    exact decision_eq_iff.mp same
  · intro replays
    obtain ⟨records,loaded⟩ := isSome_iff_exists.mp ((loadIdem_some fun l mem => (inv.text l mem).1).mpr replays.loadable)
    refine ⟨records,loaded,fun key reqHash method path => ?_⟩
    rw [begin_decision,begin_decision]
    exact decision_eq_iff.mpr (reopen_agrees inv replays loaded key reqHash)

def completedHistory : List (Int × IdemCall) :=
  [(1*second,.begin (ascii "k") (ascii "h") (ascii "POST") (ascii "/")),(2*second,.complete (ascii "k") (ascii "h") 200 [] [] [])]

theorem completed_replayed :
    ∃ records, loadIdem {} (runIdem {} {} completedHistory).log (3*second) = some records ∧
      ∀ key reqHash method path, (beginIdem {} {records := records, log := (runIdem {} {} completedHistory).log} key reqHash method path (3*second)).1 =
        (beginIdem {} (runIdem {} {} completedHistory) key reqHash method path (3*second)).1 := by
  have clock : clockFrom 1 completedHistory (3*second) := ⟨by decide,by decide,(by decide : 2*second ≤ 3*second)⟩
  have text : ∀ c ∈ completedHistory, c.2.text :=
    forall_mem_cons.mpr ⟨⟨by decide,by decide⟩,forall_mem_singleton.mpr trivial⟩
  have lines : ∀ l ∈ (runIdem {} {} completedHistory).log, l.key = ascii "k" ∧ l.expiresAt ≠ 3*second := by decide
  obtain ⟨inv,-⟩ := logInv_run completedHistory (logInv_start {}) Int.one_pos clock text
  refine (reopened_agrees_iff {} completedHistory (3*second) clock text).mpr ⟨fun l mem => ?_,fun key r found => ?_,fun key absent l mem => ?_⟩
  · exact ⟨Nat.two_pow_pos 18,by rw [(lines l mem).1]; decide⟩
  · exact (lines r (mem_linesOf.mp (mem_of_getLast? (inv.present key r found).2.1)).1).2
  · obtain ⟨inside,rfl⟩ := mem_linesOf.mp mem
    have there : ((runIdem {} {} completedHistory).records.get (ascii "k")).isSome = true := by decide
    rw [(lines l inside).1] at absent
    rw [absent] at there
    cases there

def abortedHistory : List (Int × IdemCall) :=
  [(1*second,.begin (ascii "k") (ascii "h") (ascii "POST") (ascii "/")),(2*second,.abort (ascii "k") (ascii "h"))]

-- The aborted request is forgotten in memory, and is being processed again after the store is reopened.
theorem aborted_returns :
    (beginIdem {} (runIdem {} {} abortedHistory) (ascii "k") (ascii "h") [] [] (3*second)).1 = .idemNew ∧
    (loadIdem {} (runIdem {} {} abortedHistory).log (3*second)).any (fun records =>
      decide ((beginIdem {} {records := records, log := []} (ascii "k") (ascii "h") [] [] (3*second)).1 = .idemProcessing)) = true := by
  decide
end
end FhServer

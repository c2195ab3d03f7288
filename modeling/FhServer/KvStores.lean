import FhServer.GoBytes
import FhServer.Table
import FhServer.Transitions

namespace FhServer
open GoBytes Transitions List Option

-- Times are in nanoseconds from Go's zero time, and an entry that never expires has that time.
structure KvEntry where
  value : Bytes
  expiresAt : Int := 0

def KvEntry.expired (e : KvEntry) (now : Int) : Bool := decide (e.expiresAt ≠ 0) && decide (e.expiresAt ≤ now)

def kvExpiry (ttl now : Int) : Int := if 0 < ttl then now+ttl else 0

-- The name of a key's file has its SHA-256 sum in it. The length of a time in JSON is none where MarshalJSON refuses the year.
structure KvConfig where
  maxEntrySize : Int
  path : Bytes → Bytes := id
  timeText : Int → Option Nat := fun _ => some 20

-- The length of {"value":"…","expires_at":"…"} with the value in base 64.
def KvConfig.fileSize (cfg : KvConfig) (e : KvEntry) : Option Nat :=
  (cfg.timeText e.expiresAt).map fun time => 28 + 4*((e.value.length + 2)/3) + time

-- The sum is an int64.
def KvConfig.readable (cfg : KvConfig) (e : KvEntry) : Bool := (cfg.fileSize e).all fun size => decide ((size : Int) ≤ (cfg.maxEntrySize + 4096).bmod (2^64))

structure KvResult where
  found : Bool := false
  value : Bytes := []
  failed : Bool := false
deriving DecidableEq

def KvResult.ofShown : Option Bytes → KvResult
  | none => {}
  | some value => {found := true, value := value}

structure KvMutation where
  next : Bytes
  ttl : Int
  ok : Bool
  err : Bool
  left : Bytes

def KvEntry.live (now : Int) (e : Option KvEntry) : Option KvEntry := e.filter fun e => !e.expired now

structure MemoryStore where
  data : Table Bytes (Option KvEntry) none := .empty

namespace MemoryStore

def put (s : MemoryStore) (key : Bytes) (e : Option KvEntry) : MemoryStore := ⟨s.data.set key e⟩

def get (s : MemoryStore) (key : Bytes) (now : Int) : KvResult × MemoryStore :=
  match s.data.get key with
  | none => ({},s)
  | some e => if e.expired now then ({},s.put key none) else ({found := true, value := e.value},s)

def set (s : MemoryStore) (key value : Bytes) (ttl now : Int) : KvResult × MemoryStore := ({},s.put key (some ⟨value,kvExpiry ttl now⟩))

-- The function is given the stored slice itself.
def mutate (s : MemoryStore) (key : Bytes) (fn : Bytes → Bool → KvMutation) (now : Int) : KvResult × MemoryStore :=
  let current := KvEntry.live now (s.data.get key)
  let m := fn ((current.map KvEntry.value).getD []) current.isSome
  let s := match current with
    | some e => s.put key (some {e with value := m.left})
    | none => s
  if m.err then ({failed := true},s) else if m.ok then s.set key m.next m.ttl now else ({},s)

def delete (s : MemoryStore) (key : Bytes) : KvResult × MemoryStore := ({},s.put key none)
end MemoryStore

structure FileStore where
  files : Table Bytes (Option KvEntry) none := .empty

namespace FileStore
variable (cfg : KvConfig)

def put (s : FileStore) (key : Bytes) (e : Option KvEntry) : FileStore := ⟨s.files.set (cfg.path key) e⟩

def get (s : FileStore) (key : Bytes) (now : Int) : KvResult × FileStore :=
  match s.files.get (cfg.path key) with
  | none => ({},s)
  | some e =>
    if cfg.readable e then
      if e.expired now then ({},s.put cfg key none) else ({found := true, value := e.value},s)
    else ({},s)

def set (s : FileStore) (key value : Bytes) (ttl now : Int) : KvResult × FileStore :=
  if (value.length : Int) > cfg.maxEntrySize then ({failed := true},s)
  else if (cfg.fileSize ⟨value,kvExpiry ttl now⟩).isNone then ({failed := true},s)
  else ({},s.put cfg key (some ⟨value,kvExpiry ttl now⟩))

def mutate (s : FileStore) (key : Bytes) (fn : Bytes → Bool → KvMutation) (now : Int) : KvResult × FileStore :=
  let current := (KvEntry.live now (s.files.get (cfg.path key))).filter cfg.readable
  let m := fn ((current.map KvEntry.value).getD []) current.isSome
  if m.err then ({failed := true},s) else if m.ok then s.set cfg key m.next m.ttl now else ({},s)

def delete (s : FileStore) (key : Bytes) : KvResult × FileStore := ({},s.put cfg key none)
end FileStore

inductive KvOp where
  | get (key : Bytes)
  | set (key value : Bytes) (ttl : Int)
  | mutate (key : Bytes) (fn : Bytes → Bool → KvMutation)
  | delete (key : Bytes)

namespace KvOp

def key : KvOp → Bytes
  | .get key | .set key _ _ | .mutate key _ | .delete key => key

def onMemory (s : MemoryStore) (now : Int) : KvOp → KvResult × MemoryStore
  | .get key => s.get key now
  | .set key value ttl => s.set key value ttl now
  | .mutate key fn => s.mutate key fn now
  | .delete key => s.delete key

def onFile (cfg : KvConfig) (s : FileStore) (now : Int) : KvOp → KvResult × FileStore
  | .get key => s.get cfg key now
  | .set key value ttl => s.set cfg key value ttl now
  | .mutate key fn => s.mutate cfg key fn now
  | .delete key => s.delete cfg key

def stores (current : Option Bytes) (now : Int) : KvOp → Option KvEntry
  | .set _ value ttl => some ⟨value,kvExpiry ttl now⟩
  | .mutate _ fn =>
    let m := fn (current.getD []) current.isSome
    if m.err || !m.ok then none else some ⟨m.next,kvExpiry m.ttl now⟩
  | _ => none

def leaves (current : Option Bytes) (now : Int) : KvOp → Prop
  | .mutate key fn => (KvOp.mutate key fn).stores current now = none → ∀ value, current = some value → (fn value true).left = value
  | _ => True
end KvOp

structure KvPair where
  now : Int := 1
  memory : MemoryStore := {}
  file : FileStore := {}
  keys : List Bytes := []

inductive KvEvent where
  | passes (time : Nat)
  | op (o : KvOp)

namespace KvPair

def step (cfg : KvConfig) (s : KvPair) : KvEvent → Option KvPair
  | .passes time => some {s with now := s.now+time}
  | .op o => some {s with memory := (o.onMemory s.memory s.now).2, file := (o.onFile cfg s.file s.now).2, keys := o.key :: s.keys}
end KvPair

def MemoryStore.shown (s : MemoryStore) (key : Bytes) (t : Int) : Option Bytes := (KvEntry.live t (s.data.get key)).map KvEntry.value

def FileStore.shown (cfg : KvConfig) (s : FileStore) (key : Bytes) (t : Int) : Option Bytes :=
  ((KvEntry.live t (s.files.get (cfg.path key))).filter cfg.readable).map KvEntry.value

namespace KvPair

def Agree (cfg : KvConfig) (s : KvPair) : Prop :=
  ∀ key ∈ s.keys, ∀ t, s.now ≤ t → s.memory.shown key t = s.file.shown cfg key t

-- No other key has the file of this one, and what is stored is within the limit of the file store.
structure Accepts (cfg : KvConfig) (s : KvPair) (o : KvOp) : Prop where
  own : ∀ key ∈ s.keys, cfg.path key = cfg.path o.key → key = o.key
  limit : ∀ e, o.stores (s.memory.shown o.key s.now) s.now = some e → (e.value.length : Int) ≤ cfg.maxEntrySize ∧ (cfg.fileSize e).isSome = true

-- What is stored is read back, with base 64 and all around it.
structure Fits (cfg : KvConfig) (s : KvPair) (o : KvOp) : Prop where
  size : ∀ e, o.stores (s.memory.shown o.key s.now) s.now = some e → cfg.readable e = true
  left : o.leaves (s.memory.shown o.key s.now) s.now

def keepsAgreement (cfg : KvConfig) (s : KvPair) : KvEvent → Prop
  | .passes _ => True
  | .op o => Accepts cfg s o ∧ Fits cfg s o
end KvPair
section
open MemoryStore KvEntry
variable {cfg : KvConfig} {e : KvEntry} {key key' : Bytes} {now t ttl : Int}

theorem expired_later (order : now ≤ later) (gone : e.expired now = true) : e.expired later = true := by
  rw [expired,Bool.and_eq_true,decide_eq_true_eq,decide_eq_true_eq] at gone ⊢
  exact ⟨gone.1,gone.2.trans order⟩

theorem fresh_entry {value : Bytes} : (⟨value,kvExpiry ttl now⟩ : KvEntry).expired now = false := by
  rw [expired,Bool.and_eq_false_iff,kvExpiry]
  split
  · exact .inr (decide_eq_false (by show ¬ now+ttl ≤ now; lia))
  · exact .inl rfl

theorem live_some : live t (some e) = if e.expired t then none else some e := by
  rw [live,filter_some]
  cases e.expired t <;> rfl

theorem memory_put {s : MemoryStore} {e : Option KvEntry} :
    (s.put key e).shown key' t = if key' = key then (live t e).map value else s.shown key' t := by
  rw [shown,put,Table.get_set]
  split <;> rfl

theorem file_store_put {s : FileStore} {e : Option KvEntry} : (s.put cfg key e).shown cfg key' t =
    if cfg.path key' = cfg.path key then ((live t e).filter cfg.readable).map value else s.shown cfg key' t := by
  rw [FileStore.shown,FileStore.put,Table.get_set]
  split <;> rfl

theorem memory_get {s : MemoryStore} : (s.get key now).1 = .ofShown (s.shown key now) := by
  rw [MemoryStore.get,MemoryStore.shown]
  cases s.data.get key with
  | none => rfl
  | some e =>
    rw [live_some]
    cases gone : e.expired now <;> simp [gone,KvResult.ofShown]

theorem memory_get_shown {s : MemoryStore} (order : now ≤ t) : (s.get key now).2.shown key' t = s.shown key' t := by
  rw [MemoryStore.get]
  cases there : s.data.get key with
  | none => rfl
  | some e =>
    cases gone : e.expired now with
    | false => simp [gone]
    | true =>
      simp only [gone,if_true]
      rw [memory_put]
      split
      · rename_i here
        rw [here,MemoryStore.shown,there,live_some,expired_later order gone]
        rfl
      · rfl

theorem file_get {s : FileStore} : (s.get cfg key now).1 = .ofShown (s.shown cfg key now) := by
  rw [FileStore.get,FileStore.shown]
  cases s.files.get (cfg.path key) with
  | none => rfl
  | some e =>
    rw [live_some]
    cases read : cfg.readable e <;> cases gone : e.expired now <;> simp [read,gone,KvResult.ofShown,filter_some]

theorem file_get_shown {s : FileStore} (order : now ≤ t) : (s.get cfg key now).2.shown cfg key' t = s.shown cfg key' t := by
  rw [FileStore.get]
  cases there : s.files.get (cfg.path key) with
  | none => rfl
  | some e =>
    cases read : cfg.readable e with
    | false => simp [read]
    | true =>
      cases gone : e.expired now with
      | false => simp [read,gone]
      | true =>
        simp only [read,gone,if_true]
        rw [file_store_put]
        split
        · rename_i here
          rw [FileStore.shown,here,there,live_some,expired_later order gone]
          rfl
        · rfl

section
variable {fn : Bytes → Bool → KvMutation} {s : MemoryStore} {f : FileStore}

theorem stores_some (stores : (KvOp.mutate key fn).stores current now = some e) :
    (fn (current.getD []) current.isSome).err = false ∧ (fn (current.getD []) current.isSome).ok = true ∧
      e = ⟨(fn (current.getD []) current.isSome).next,kvExpiry (fn (current.getD []) current.isSome).ttl now⟩ := by
  simp only [KvOp.stores] at stores
  split at stores
  · cases stores
  · rename_i stored
    rw [Bool.or_eq_true,not_or,Bool.not_eq_true,Bool.not_eq_true,Bool.not_eq_false'] at stored
    exact ⟨stored.1,stored.2,(some.inj stores).symm⟩

theorem stores_none (stores : (KvOp.mutate key fn).stores current now = none) :
    (fn (current.getD []) current.isSome).err = true ∨ (fn (current.getD []) current.isSome).ok = false := by
  simp only [KvOp.stores] at stores
  split at stores
  · rename_i unstored
    rw [Bool.or_eq_true,Bool.not_eq_true'] at unstored
    exact unstored
  · cases stores

theorem memory_stored (stores : (KvOp.mutate key fn).stores (s.shown key now) now = some e) : (s.mutate key fn now).1 = {} ∧
    ∀ key' t, (s.mutate key fn now).2.shown key' t = if key' = key then (live t (some e)).map value else s.shown key' t := by
  obtain ⟨err,ok,rfl⟩ := stores_some stores
  have present : (s.shown key now).isSome = (live now (s.data.get key)).isSome := isSome_map
  rw [present] at err ok ⊢
  rw [MemoryStore.shown] at err ok ⊢
  simp only [MemoryStore.mutate,err,ok,if_true,Bool.false_eq_true,if_false,MemoryStore.set,true_and]
  intro key' t
  rw [memory_put]
  split
  · rfl
  rename_i other
  split
  · rw [memory_put,if_neg other]
  · rfl

theorem memory_unstored (stores : (KvOp.mutate key fn).stores (s.shown key now) now = none) :
    (s.mutate key fn now).1 = {failed := (fn ((s.shown key now).getD []) (s.shown key now).isSome).err} ∧
    ∀ key' t, (s.mutate key fn now).2.shown key' t = if key' = key ∧ (live now (s.data.get key)).isSome = true
      then (live t (s.data.get key)).map (fun _ => (fn ((s.shown key now).getD []) true).left) else s.shown key' t := by
  have none := stores_none stores
  cases live : live now (s.data.get key) with
  | none =>
    have hidden : s.shown key now = Option.none := by
      rw [shown,live]
      rfl
    rw [hidden] at none ⊢
    have result : s.mutate key fn now = ({failed := (fn [] false).err},s) := by
      simp only [mutate,live]
      rcases none with err | ok
      · rw [show (fn [] false).err = true from err]
        exact if_pos err
      · cases err : (fn [] false).err <;> simp [err,show (fn [] false).ok = false from ok]
    rw [result]
    exact ⟨rfl,fun key' t => (if_neg fun both => nomatch both.2).symm⟩
  | some e =>
    have visible : s.shown key now = some e.value := by
      rw [shown,live]
      rfl
    have there : s.data.get key = some e := (Option.filter_eq_some_iff.mp live).1
    rw [visible] at none ⊢
    have result : s.mutate key fn now = ({failed := (fn e.value true).err},s.put key (some {e with value := (fn e.value true).left})) := by
      simp only [mutate,live]
      rcases none with err | ok
      · rw [show (fn e.value true).err = true from err]
        exact if_pos err
      · cases err : (fn e.value true).err <;> simp [err,show (fn e.value true).ok = false from ok]
    rw [result]
    refine ⟨rfl,fun key' t => ?_⟩
    rw [memory_put]
    by_cases here : key' = key
    · rw [if_pos here,if_pos ⟨here,rfl⟩,there,live_some,live_some]
      show Option.map _ (if e.expired t = true then _ else _) = _
      split <;> rfl
    · rw [if_neg here,if_neg fun both => here both.1]

theorem file_set_accepted {value : Bytes} (limit : (value.length : Int) ≤ cfg.maxEntrySize) (text : (cfg.fileSize ⟨value,kvExpiry ttl now⟩).isSome = true) :
    f.set cfg key value ttl now = ({},f.put cfg key (some ⟨value,kvExpiry ttl now⟩)) := by
  rw [FileStore.set,if_neg (Int.not_lt.mpr limit),if_neg]
  rw [isNone_iff_eq_none]
  intro none
  rw [none] at text
  cases text

theorem file_stored (same : f.shown cfg key now = current) (stores : (KvOp.mutate key fn).stores current now = some e)
    (limit : (e.value.length : Int) ≤ cfg.maxEntrySize) (text : (cfg.fileSize e).isSome = true) :
    f.mutate cfg key fn now = ({},f.put cfg key (some e)) := by
  obtain ⟨err,ok,rfl⟩ := stores_some stores
  rw [← same,FileStore.shown,isSome_map] at err ok limit text ⊢
  simp only [FileStore.mutate,err,ok,Bool.false_eq_true,if_false,if_true]
  exact file_set_accepted limit text

theorem file_unstored (same : f.shown cfg key now = current) (stores : (KvOp.mutate key fn).stores current now = none) :
    f.mutate cfg key fn now = ({failed := (fn (current.getD []) current.isSome).err},f) := by
  have none := stores_none stores
  rw [← same,FileStore.shown,isSome_map] at none ⊢
  rw [FileStore.mutate]
  split
  · rename_i err
    rw [err]
  · rename_i err
    rw [if_neg (Bool.eq_false_iff.mp (none.resolve_left err)),Bool.eq_false_iff.mpr err]
end

theorem stored_iff (fresh : e.expired now = false) : (∀ t, now ≤ t →
    (live t (some e)).map value = ((live t (some e)).filter cfg.readable).map value) ↔ cfg.readable e = true := by
  constructor
  · intro same
    have here := same now (Int.le_refl now)
    rw [live_some,fresh,if_neg Bool.false_ne_true,filter_some] at here
    by_contra unread
    rw [if_neg unread] at here
    cases here
  · intro read t _
    rw [live_some]
    split
    · rfl
    · rw [filter_some,if_pos read]

theorem left_iff {s : MemoryStore} {fn : Bytes → Bool → KvMutation} : (∀ t, now ≤ t → (if (live now (s.data.get key)).isSome = true
      then (live t (s.data.get key)).map (fun _ => (fn ((s.shown key now).getD []) true).left) else s.shown key t) = s.shown key t) ↔
    ∀ value, s.shown key now = some value → (fn value true).left = value := by
  cases live : live now (s.data.get key) with
  | none =>
    have hidden : s.shown key now = none := by
      rw [shown,live]
      rfl
    refine iff_of_true (fun t _ => if_neg (by simp)) fun value some => ?_
    cases hidden.symm.trans some
  | some e =>
    have visible : s.shown key now = some e.value := by
      rw [shown,live]
      rfl
    rw [visible]
    constructor
    · intro same value is
      cases is
      have here := same now (Int.le_refl now)
      rw [if_pos isSome_some,visible,live] at here
      exact some.inj here
    · intro left t _
      rw [if_pos isSome_some,shown,(filter_eq_some_iff.mp live).1,getD_some,left e.value rfl,live_some]
      split <;> rfl
end

structure KvInv (cfg : KvConfig) (s : KvPair) : Prop where
  agree : s.Agree cfg
  memory : ∀ key, key ∉ s.keys → s.memory.data.get key = none
  file : ∀ name, (∀ key ∈ s.keys, cfg.path key ≠ name) → s.file.files.get name = none

section
open KvOp
variable {cfg : KvConfig} {s t : KvPair} {o : KvOp} {e : KvEntry}

theorem KvInv.shown (inv : KvInv cfg s) (own : ∀ key ∈ s.keys, cfg.path key = cfg.path o.key → key = o.key) {t : Int} (later : s.now ≤ t) :
    s.memory.shown o.key t = s.file.shown cfg o.key t := by
  by_cases used : o.key ∈ s.keys
  · exact inv.agree o.key used t later
  · rw [MemoryStore.shown,inv.memory o.key used,FileStore.shown,inv.file (cfg.path o.key) fun key mem same => used (own key mem same ▸ mem)]
    rfl

theorem onMemory_other {key : Bytes} (other : key ≠ o.key) : (o.onMemory m now).2.data.get key = m.data.get key := by
  have put : ∀ {m : MemoryStore} {e : Option KvEntry}, (m.put o.key e).data.get key = m.data.get key := fun {m e} => Table.get_set_ne m.data e other
  cases o with
  | get key' =>
    rw [onMemory,MemoryStore.get]
    split
    · rfl
    · split
      · exact put
      · rfl
  | set key' value ttl => exact put
  | delete key' => exact put
  | mutate key' fn =>
    rw [onMemory,MemoryStore.mutate]
    cases KvEntry.live now (m.data.get key') with
    | none =>
      split_ifs
      · rfl
      · exact put
      · rfl
    | some e =>
      split_ifs
      · exact put
      · exact put.trans put
      · exact put

theorem onFile_other (other : name ≠ cfg.path o.key) : (o.onFile cfg f now).2.files.get name = f.files.get name := by
  have put : ∀ {f : FileStore} {e : Option KvEntry}, (f.put cfg o.key e).files.get name = f.files.get name := fun {f e} => Table.get_set_ne f.files e other
  have set : ∀ {value : Bytes} {ttl : Int}, (f.set cfg o.key value ttl now).2.files.get name = f.files.get name := by
    intro value ttl
    rw [FileStore.set]
    split_ifs
    · rfl
    · rfl
    · exact put
  cases o with
  | get key' =>
    rw [onFile,FileStore.get]
    split
    · rfl
    split
    · split
      · exact put
      · rfl
    · rfl
  | set key' value ttl => exact set
  | delete key' => exact put
  | mutate key' fn =>
    rw [onFile,FileStore.mutate]
    split_ifs
    · rfl
    · exact set
    · rfl

theorem op_spec (inv : KvInv cfg s) (accepts : s.Accepts cfg o) : (o.onMemory s.memory s.now).1 = (o.onFile cfg s.file s.now).1 ∧
    ((∀ t, s.now ≤ t → (o.onMemory s.memory s.now).2.shown o.key t = (o.onFile cfg s.file s.now).2.shown cfg o.key t) ↔ s.Fits cfg o) := by
  have same : ∀ {t}, s.now ≤ t → s.memory.shown o.key t = s.file.shown cfg o.key t := inv.shown accepts.own
  have here := same (Int.le_refl s.now)
  cases o with
  | get key =>
    refine ⟨?_,?_⟩
    · rw [onMemory,onFile,memory_get,file_get]
      exact congrArg _ here
    · refine iff_of_true (fun t later => ?_) ⟨nofun,trivial⟩
      rw [onMemory,onFile,memory_get_shown later,file_get_shown later]
      exact same later
  | delete key =>
    refine ⟨rfl,iff_of_true (fun t _ => ?_) ⟨nofun,trivial⟩⟩
    show (s.memory.put key none).shown key t = (s.file.put cfg key none).shown cfg key t
    rw [memory_put,if_pos rfl,file_store_put,if_pos rfl]
    rfl
  | set key value ttl =>
    obtain ⟨limit,text⟩ := accepts.limit ⟨value,kvExpiry ttl s.now⟩ rfl
    have shown : ∀ t, (s.memory.put key (some ⟨value,kvExpiry ttl s.now⟩)).shown key t = (s.file.put cfg key (some ⟨value,kvExpiry ttl s.now⟩)).shown cfg key t ↔
        (KvEntry.live t (some ⟨value,kvExpiry ttl s.now⟩)).map KvEntry.value =
          ((KvEntry.live t (some ⟨value,kvExpiry ttl s.now⟩)).filter cfg.readable).map KvEntry.value := by
      intro t
      rw [memory_put,if_pos rfl,file_store_put,if_pos rfl]
    rw [onMemory,onFile,MemoryStore.set,file_set_accepted limit text]
    refine ⟨rfl,?_⟩
    show (∀ t, s.now ≤ t → (s.memory.put key _).shown key t = (s.file.put cfg key _).shown cfg key t) ↔ _
    simp only [shown]
    rw [stored_iff fresh_entry]
    constructor
    · intro read
      refine ⟨fun e is => ?_,trivial⟩
      cases is
      exact read
    · exact fun fits => fits.size _ rfl
  | mutate key fn =>
    have same : ∀ {t}, s.now ≤ t → s.memory.shown key t = s.file.shown cfg key t := same
    have found : s.file.shown cfg key s.now = s.memory.shown key s.now := here.symm
    rw [onMemory,onFile]
    cases stores : (mutate key fn).stores (s.memory.shown key s.now) s.now with
    | some e =>
      obtain ⟨limit,text⟩ := accepts.limit e stores
      obtain ⟨answer,shown⟩ := memory_stored stores
      obtain ⟨_,_,is⟩ := stores_some stores
      have fresh : e.expired s.now = false := by
        rw [is]
        exact fresh_entry
      rw [file_stored found stores limit text]
      refine ⟨answer,?_⟩
      show (∀ t, s.now ≤ t → (s.memory.mutate key fn s.now).2.shown key t = (s.file.put cfg key _).shown cfg key t) ↔ _
      simp only [shown,file_store_put,if_true]
      rw [stored_iff fresh]
      constructor
      · intro read
        refine ⟨fun e' is' => ?_,fun unstored => ?_⟩
        · cases stores.symm.trans is'
          exact read
        · cases stores.symm.trans unstored
      · exact fun fits => fits.size _ stores
    | none =>
      obtain ⟨answer,shown⟩ := memory_unstored stores
      rw [file_unstored found stores]
      refine ⟨answer,?_⟩
      show (∀ t, s.now ≤ t → (s.memory.mutate key fn s.now).2.shown key t = s.file.shown cfg key t) ↔ _
      have both : (∀ t, s.now ≤ t → (s.memory.mutate key fn s.now).2.shown key t = s.file.shown cfg key t) ↔
          ∀ t, s.now ≤ t → (s.memory.mutate key fn s.now).2.shown key t = s.memory.shown key t :=
        forall₂_congr fun t later => by rw [same later]
      rw [both]
      simp only [shown,true_and]
      rw [left_iff]
      constructor
      · intro left
        refine ⟨fun e is => ?_,fun _ => left⟩
        cases stores.symm.trans is
      · exact fun fits => fits.left stores

theorem agree_iff (inv : KvInv cfg s) (accepts : s.Accepts cfg o) (got : s.step cfg (.op o) = some t) : t.Agree cfg ↔ s.Fits cfg o := by
  cases got
  rw [← (op_spec inv accepts).2]
  constructor
  · intro agree time later
    exact agree o.key mem_cons_self time later
  intro here key mem time later
  by_cases same : key = o.key
  · rw [same]
    exact here time later
  have used := (mem_cons.mp mem).resolve_left same
  have path : cfg.path key ≠ cfg.path o.key := fun equal => same (accepts.own key used equal)
  rw [MemoryStore.shown,onMemory_other same,FileStore.shown,onFile_other path]
  exact inv.agree key used time later

theorem KvInv.start : KvInv cfg {} where
  agree := nofun
  memory := fun _ _ => rfl
  file := fun _ _ => rfl

theorem KvInv.step (inv : KvInv cfg s) (keeps : s.keepsAgreement cfg event) (got : s.step cfg event = some t) : KvInv cfg t := by
  cases event with
  | passes time =>
    cases got
    exact {agree := fun key used later order => inv.agree key used later (by show s.now ≤ later; have : s.now+time ≤ later := order; lia)
           memory := inv.memory, file := inv.file}
  | op o =>
    have agree := (agree_iff inv keeps.1 got).mpr keeps.2
    cases got
    refine ⟨agree,fun key unused => ?_,fun name unused => ?_⟩
    · rw [mem_cons,not_or] at unused
      exact (onMemory_other unused.1).trans (inv.memory key unused.2)
    · have other : name ≠ cfg.path o.key := fun same => unused o.key mem_cons_self same.symm
      exact (onFile_other other).trans (inv.file name fun key used => unused key (mem_cons_of_mem _ used))
end

end FhServer

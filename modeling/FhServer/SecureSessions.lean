import FhServer.SecureStores

namespace FhServer.SecureTransport
open GoBytes List TimedStore

structure Stores where
  sessions : SessionStore := {}
  devices : DeviceStore := {}
  now : Int

inductive SessionCall where
  | wait (time : Nat)
  | create (session : Session)
  | get (id : ID16)
  | delete (id : ID16)
  | sweep
  | deleteByDevice (deviceID : ID16)
  | revoke (deviceID : ID16)

-- RevokeDevice leaves the sessions alone where the device is unknown.
def Stores.step (s : Stores) : SessionCall → Stores
  | .wait time => {s with now := s.now+time}
  | .create session => {s with sessions := (createSession s.sessions session s.now).2}
  | .get id => {s with sessions := (getSession s.sessions id s.now).2}
  | .delete id => {s with sessions := deleteSession s.sessions id s.now}
  | .sweep => {s with sessions := sweepExpiredSessions s.sessions s.now}
  | .deleteByDevice deviceID => {s with sessions := deleteSessionsByDevice s.sessions deviceID s.now}
  | .revoke deviceID =>
    match revokeDevice s.devices deviceID s.now s.now with
    | (some _,devices) => {s with devices := devices}
    | (none,devices) => {s with devices := devices, sessions := deleteSessionsByDevice s.sessions deviceID s.now}

def Stores.run (s : Stores) (calls : List SessionCall) : Stores := calls.foldl step s

def Stores.fresh (devices : DeviceStore) (now : Int) : Stores := {devices := devices, now := now}

def Stores.lookup (s : Stores) (id : ID16) : Except SecureError Session := (getSession s.sessions id s.now).1

def Stores.listed (s : Stores) (deviceID : ID16) : List Bytes :=
  ((s.sessions.find (sessionDeviceIndexKey deviceID) s.now).bind SessionRecord.toIds).getD []

section
theorem recordKey_injective (same : recordKey x = recordKey y) : x = y := append_cancel_left same

theorem record_device (x : Bytes) (d : ID16) : recordKey x ≠ sessionDeviceIndexKey d := by
  intro same
  have fifth := congrArg (fun key => key[4]?) same
  simp [recordKey,sessionDeviceIndexKey,ascii] at fifth

theorem record_all (x : Bytes) : recordKey x ≠ sessionAllIndexKey := by
  intro same
  have fifth := congrArg (fun key => key[4]?) same
  simp [recordKey,sessionAllIndexKey,ascii] at fifth

theorem device_all (d : ID16) : sessionDeviceIndexKey d ≠ sessionAllIndexKey := by
  intro same
  have fifth := congrArg (fun key => key[4]?) same
  simp [sessionDeviceIndexKey,sessionAllIndexKey,ascii] at fifth
end

def Lists (store : SessionStore) : Prop := ∀ d e, store.data.get (sessionDeviceIndexKey d) = some e → ∃ ids, e = ⟨.ids ids,none⟩

-- Every session is under its own name and on the list of its device, and neither has an end of its own.
structure Indexed (store : SessionStore) : Prop where
  lists : Lists store
  sessions : ∀ x e, store.data.get (recordKey x) = some e → ∃ s ids, e = ⟨.session s,none⟩ ∧ hexText s.id.1 = x ∧
    store.data.get (sessionDeviceIndexKey s.deviceID) = some ⟨.ids ids,none⟩ ∧ x ∈ ids

def Records (P : Session → Prop) (store : SessionStore) : Prop := ∀ x s, store.data.get (recordKey x) = some ⟨.session s,none⟩ → P s

structure Delisted (x : Bytes) (store store' : SessionStore) : Prop where
  lists : Lists store → Lists store'
  listed : ∀ d ids, store.data.get (sessionDeviceIndexKey d) = some ⟨.ids ids,none⟩ →
    ∃ ids', store'.data.get (sessionDeviceIndexKey d) = some ⟨.ids ids',none⟩ ∧ ∀ y ∈ ids, y ≠ x → y ∈ ids'
  records : ∀ y, store'.data.get (recordKey y) = store.data.get (recordKey y)

structure Trimmed (x : Bytes) (store store' : SessionStore) : Prop where
  lists : Lists store → Lists store'
  listed : ∀ d ids, store.data.get (sessionDeviceIndexKey d) = some ⟨.ids ids,none⟩ →
    ∃ ids', store'.data.get (sessionDeviceIndexKey d) = some ⟨.ids ids',none⟩ ∧ ∀ y ∈ ids, y ≠ x → y ∈ ids'
  gone : store'.data.get (recordKey x) = none
  others : ∀ y, y ≠ x → store'.data.get (recordKey y) = store.data.get (recordKey y)

section
variable {store store' : SessionStore}

theorem Trimmed.kept (trimmed : Trimmed x store store') (there : store'.data.get (recordKey y) = some e) :
    y ≠ x ∧ store.data.get (recordKey y) = some e := by
  have other : y ≠ x := by
    intro same
    rw [same,trimmed.gone] at there
    cases there
  rw [trimmed.others y other] at there
  exact ⟨other,there⟩

theorem Trimmed.indexed (trimmed : Trimmed x store store') (inv : Indexed store) : Indexed store' where
  lists := trimmed.lists inv.lists
  sessions := by
    intro y e there
    obtain ⟨other,before⟩ := trimmed.kept there
    obtain ⟨s,ids,rfl,name,list,mem⟩ := inv.sessions y e before
    obtain ⟨ids',list',kept⟩ := trimmed.listed s.deviceID ids list
    exact ⟨s,ids',rfl,name,list',kept y mem other⟩

theorem Trimmed.records (trimmed : Trimmed x store store') (all : Records P store) : Records P store' := by
  intro y s there
  exact all y s (trimmed.kept there).2

theorem Delisted.refl (x : Bytes) (store : SessionStore) : Delisted x store store where
  lists := id
  listed := fun _ ids list => ⟨ids,list,fun _ mem _ => mem⟩
  records := fun _ => rfl

theorem Delisted.trans (first : Delisted x store store') (second : Delisted x store' store'') : Delisted x store store'' where
  lists := fun lists => second.lists (first.lists lists)
  listed := by
    intro d ids list
    obtain ⟨ids',list',kept⟩ := first.listed d ids list
    obtain ⟨ids'',list'',kept'⟩ := second.listed d ids' list'
    exact ⟨ids'',list'',fun y mem other => kept' y (kept y mem other) other⟩
  records := fun y => (second.records y).trans (first.records y)

theorem wipeAndDelete_other (now : Int) (other : key' ≠ key) : (wipeAndDelete store key now).data.get key' = store.data.get key' := by
  rw [wipeAndDelete,get_erase_ne other]
  exact get_mutate_ne now _ other

theorem Delisted.wiped (first : Delisted x store store') (now : Int) : Trimmed x store (wipeAndDelete store' (recordKey x) now) where
  lists := by
    intro lists d e there
    rw [wipeAndDelete_other now (record_device x d).symm] at there
    exact first.lists lists d e there
  listed := by
    intro d ids list
    rw [wipeAndDelete_other now (record_device x d).symm]
    exact first.listed d ids list
  gone := get_erase_self
  others := by
    intro y other
    rw [wipeAndDelete_other now fun same => other (recordKey_injective same)]
    exact first.records y

theorem removeIndexEntry_other (x : Bytes) (now : Int) (other : key ≠ idxKey) : (removeIndexEntry store idxKey x now).data.get key = store.data.get key :=
  get_mutate_ne now _ other

theorem removeIndexEntry_none (absent : store.data.get idxKey = none) (x : Bytes) (now : Int) : removeIndexEntry store idxKey x now = store := by
  rw [removeIndexEntry,mutate,find_absent absent]
  rfl

theorem removeIndexEntry_list (list : store.data.get idxKey = some ⟨.ids ids,none⟩) (x : Bytes) (now : Int) :
    ∃ ids', (removeIndexEntry store idxKey x now).data.get idxKey = some ⟨.ids ids',none⟩ ∧ ∀ y ∈ ids, y ≠ x → y ∈ ids' := by
  have found := find_lasting list now
  by_cases inside : x ∈ ids
  · rw [removeIndexEntry,mutate_stored (by rw [found]; exact if_pos inside)]
    refine ⟨ids.filter (· ≠ x),get_put_self 0 now,fun y mem other => ?_⟩
    exact mem_filter.mpr ⟨mem,decide_eq_true other⟩
  · rw [removeIndexEntry,mutate_left (by rw [found]; exact if_neg inside)]
    exact ⟨ids,list,fun y mem _ => mem⟩

theorem delisted_device (d : ID16) (x : Bytes) (now : Int) : Delisted x store (removeIndexEntry store (sessionDeviceIndexKey d) x now) where
  lists := by
    intro lists d' e there
    by_cases same : sessionDeviceIndexKey d' = sessionDeviceIndexKey d
    · rw [same] at there
      cases before : store.data.get (sessionDeviceIndexKey d) with
      | none =>
        rw [removeIndexEntry_none before,before] at there
        cases there
      | some e' =>
        obtain ⟨ids,rfl⟩ := lists d e' before
        obtain ⟨ids',list,-⟩ := removeIndexEntry_list before x now
        rw [list,Option.some.injEq] at there
        exact ⟨ids',there.symm⟩
    · rw [removeIndexEntry_other x now same] at there
      exact lists d' e there
  listed := by
    intro d' ids list
    by_cases same : sessionDeviceIndexKey d' = sessionDeviceIndexKey d
    · rw [same] at list ⊢
      exact removeIndexEntry_list list x now
    · rw [removeIndexEntry_other x now same]
      exact ⟨ids,list,fun y mem _ => mem⟩
  records := fun y => removeIndexEntry_other x now (record_device y d)

theorem delisted_all (x : Bytes) (now : Int) : Delisted x store (removeIndexEntry store sessionAllIndexKey x now) where
  lists := by
    intro lists d e there
    rw [removeIndexEntry_other x now (device_all d)] at there
    exact lists d e there
  listed := by
    intro d ids list
    rw [removeIndexEntry_other x now (device_all d)]
    exact ⟨ids,list,fun y mem _ => mem⟩
  records := fun y => removeIndexEntry_other x now (record_all y)

theorem expireSession_trims (session : Session) (x : Bytes) (now : Int) : Trimmed x store (expireSession store session x now) :=
  ((delisted_device session.deviceID x now).trans (delisted_all x now)).wiped now

theorem deleteSession_trims (id : ID16) (now : Int) : Trimmed (hexText id.1) store (deleteSession store id now) := by
  rw [deleteSession]
  split
  · rename_i session _
    exact ((delisted_device session.deviceID _ now).trans (delisted_all _ now)).wiped now
  · exact ((Delisted.refl _ store).trans (delisted_all _ now)).wiped now
end

-- What holds of a store with the index and of all its sessions, and stays when sessions go.
def Sound (P : Session → Prop) (store : SessionStore) : Prop := Indexed store ∧ Records P store

theorem Trimmed.sound (trimmed : Trimmed x store store') (sound : Sound P store) : Sound P store' :=
  ⟨trimmed.indexed sound.1,trimmed.records sound.2⟩

section
variable {store : SessionStore} {P : Session → Prop}

theorem deleteOne_trims (x : Bytes) (now : Int) : Trimmed x store (deleteOne now store x) := (delisted_all x now).wiped now

theorem deleteOne_lists (d : ID16) (x : Bytes) (now : Int) :
    (deleteOne now store x).data.get (sessionDeviceIndexKey d) = store.data.get (sessionDeviceIndexKey d) := by
  rw [deleteOne,wipeAndDelete_other now (record_device x d).symm,removeIndexEntry_other x now (device_all d)]

theorem addIndexEntry_other (x : Bytes) (now : Int) (other : key ≠ idxKey) : (addIndexEntry store idxKey x now).data.get key = store.data.get key :=
  get_mutate_ne now _ other

theorem addIndexEntry_self (lists : Lists store) (d : ID16) (x : Bytes) (now : Int) :
    ∃ ids, (addIndexEntry store (sessionDeviceIndexKey d) x now).data.get (sessionDeviceIndexKey d) = some ⟨.ids ids,none⟩ ∧ x ∈ ids ∧
      ∀ ids', store.data.get (sessionDeviceIndexKey d) = some ⟨.ids ids',none⟩ → ∀ y ∈ ids', y ∈ ids := by
  cases list : store.data.get (sessionDeviceIndexKey d) with
  | none =>
    rw [addIndexEntry,mutate,find_absent list]
    exact ⟨[x],get_put_self 0 now,mem_singleton_self x,by simp⟩
  | some e =>
    obtain ⟨ids,rfl⟩ := lists d e list
    have found := find_lasting list now
    by_cases inside : x ∈ ids
    · rw [addIndexEntry,mutate_left (by rw [found]; exact if_pos inside)]
      refine ⟨ids,list,inside,fun ids' same y mem => ?_⟩
      cases same
      exact mem
    · rw [addIndexEntry,mutate_stored (by rw [found]; exact if_neg inside)]
      refine ⟨ids ++ [x],get_put_self 0 now,mem_append_right ids (mem_singleton_self x),fun ids' same y mem => ?_⟩
      cases same
      exact mem_append_left [x] mem

theorem stored_names {s kept : Session} (stored : s.stored = some kept) : kept.id = s.id ∧ kept.deviceID = s.deviceID := by
  rw [Session.stored] at stored
  split at stored
  · cases stored
    exact ⟨rfl,rfl⟩
  · cases stored

section
variable (sound : Sound P store)
include sound

theorem getSession_sound (id : ID16) (now : Int) : Sound P (getSession store id now).2 := by
  rw [getSession]
  split
  · exact sound
  split
  · exact sound
  · split
    · exact (expireSession_trims _ _ now).sound sound
    · exact sound

theorem sweepOne_sound (x : Bytes) (now : Int) : Sound P (sweepOne now store x) := by
  rw [sweepOne]
  split
  · exact sound
  · split
    · exact (expireSession_trims _ x now).sound sound
    · exact sound

theorem sweep_sound (now : Int) : Sound P (sweepExpiredSessions store now) := by
  rw [sweepExpiredSessions]
  split
  · exact sound
  rename_i ids _
  clear * - sound
  induction ids generalizing store with
  | nil => exact sound
  | cons x ids ih => exact ih (sweepOne_sound sound x now)

theorem deleteLoop_spec (ids : List Bytes) (now : Int) : Sound P (ids.foldl (deleteOne now) store) ∧
    (∀ x, x ∈ ids ∨ store.data.get (recordKey x) = none → (ids.foldl (deleteOne now) store).data.get (recordKey x) = none) ∧
      ∀ d, (ids.foldl (deleteOne now) store).data.get (sessionDeviceIndexKey d) = store.data.get (sessionDeviceIndexKey d) := by
  induction ids generalizing store with
  | nil => exact ⟨sound,fun x gone => gone.resolve_left not_mem_nil,fun _ => rfl⟩
  | cons y ids ih =>
    have trimmed : Trimmed y store (deleteOne now store y) := deleteOne_trims y now
    obtain ⟨kept,gone,lists⟩ := ih (trimmed.sound sound)
    refine ⟨kept,fun x either => gone x ?_,fun d => (lists d).trans (deleteOne_lists d y now)⟩
    by_cases same : x = y
    · exact .inr (same ▸ trimmed.gone)
    · rcases either with mem | absent
      · exact .inl ((mem_cons.mp mem).resolve_left same)
      · exact .inr ((trimmed.others x same).trans absent)

theorem deleteSessionsByDevice_sound (d : ID16) (now : Int) :
    Sound (fun s => P s ∧ s.deviceID ≠ d) (deleteSessionsByDevice store d now) := by
  rw [deleteSessionsByDevice]
  cases list : store.data.get (sessionDeviceIndexKey d) with
  | none =>
    rw [find_absent list]
    refine ⟨sound.1,fun x s there => ⟨sound.2 x s there,fun same => ?_⟩⟩
    obtain ⟨s',ids,stored,-,list',-⟩ := sound.1.sessions x _ there
    cases stored
    rw [same,list] at list'
    cases list'
  | some e =>
    obtain ⟨ids,rfl⟩ := sound.1.lists d e list
    rw [find_lasting list]
    show Sound _ ((ids.foldl (deleteOne now) store).erase (sessionDeviceIndexKey d))
    obtain ⟨kept,gone,lists⟩ := deleteLoop_spec sound ids now
    have left : ∀ {x s}, (ids.foldl (deleteOne now) store).data.get (recordKey x) = some ⟨.session s,none⟩ →
        sessionDeviceIndexKey s.deviceID ≠ sessionDeviceIndexKey d := by
      intro x s there same
      obtain ⟨s',ids',stored,-,list',mem⟩ := kept.1.sessions x _ there
      cases stored
      rw [lists,same,list] at list'
      cases list'
      rw [gone x (.inl mem)] at there
      cases there
    refine ⟨⟨fun d' e there => ?_,fun x e there => ?_⟩,fun x s there => ?_⟩
    · by_cases same : sessionDeviceIndexKey d' = sessionDeviceIndexKey d
      · rw [same,get_erase_self] at there
        cases there
      · rw [get_erase_ne same] at there
        exact kept.1.lists d' e there
    · rw [get_erase_ne (record_device x d)] at there
      obtain ⟨s,ids',rfl,name,list',mem⟩ := kept.1.sessions x e there
      exact ⟨s,ids',rfl,name,by rw [get_erase_ne (left there)]; exact list',mem⟩
    · rw [get_erase_ne (record_device x d)] at there
      exact ⟨kept.2 x s there,fun same => left there (congrArg sessionDeviceIndexKey same)⟩

theorem listed_sound (fits : P s) (now : Int) :
    Sound P (addIndexEntry (addIndexEntry (store.put (sessionKey s.id) (.session s) 0 now) (sessionDeviceIndexKey s.deviceID) (hexText s.id.1) now)
      sessionAllIndexKey (hexText s.id.1) now) := by
  generalize middle : store.put (sessionKey s.id) (.session s) 0 now = store'
  have device : ∀ d, store'.data.get (sessionDeviceIndexKey d) = store.data.get (sessionDeviceIndexKey d) := by
    intro d
    rw [← middle]
    exact get_put_ne 0 now (record_device _ d).symm
  have lists : Lists store' := by
    intro d e there
    rw [device] at there
    exact sound.1.lists d e there
  obtain ⟨ids,list,inside,more⟩ := addIndexEntry_self lists s.deviceID (hexText s.id.1) now
  generalize last : addIndexEntry (addIndexEntry store' (sessionDeviceIndexKey s.deviceID) (hexText s.id.1) now) sessionAllIndexKey
    (hexText s.id.1) now = store''
  have own : store''.data.get (sessionDeviceIndexKey s.deviceID) = some ⟨.ids ids,none⟩ := by
    rw [← last,addIndexEntry_other _ now (device_all s.deviceID)]
    exact list
  have other : ∀ d, sessionDeviceIndexKey d ≠ sessionDeviceIndexKey s.deviceID →
      store''.data.get (sessionDeviceIndexKey d) = store.data.get (sessionDeviceIndexKey d) := by
    intro d apart
    rw [← last,addIndexEntry_other _ now (device_all d),addIndexEntry_other _ now apart,device]
  have record : ∀ x, store''.data.get (recordKey x) = if x = hexText s.id.1 then some ⟨.session s,none⟩ else store.data.get (recordKey x) := by
    intro x
    rw [← last,addIndexEntry_other _ now (record_all x),addIndexEntry_other _ now (record_device x _),← middle]
    split
    · rename_i same
      rw [same]
      exact get_put_self 0 now
    · rename_i apart
      exact get_put_ne 0 now fun same => apart (recordKey_injective same)
  refine ⟨⟨fun d e there => ?_,fun x e there => ?_⟩,fun x s' there => ?_⟩
  · by_cases same : sessionDeviceIndexKey d = sessionDeviceIndexKey s.deviceID
    · rw [same,own,Option.some.injEq] at there
      exact ⟨ids,there.symm⟩
    · rw [other d same] at there
      exact sound.1.lists d e there
  · rw [record] at there
    split at there
    · rename_i same
      rw [Option.some.injEq] at there
      exact ⟨s,ids,there.symm,same.symm,own,same ▸ inside⟩
    · obtain ⟨s',ids',rfl,name,list',mem⟩ := sound.1.sessions x e there
      by_cases same : sessionDeviceIndexKey s'.deviceID = sessionDeviceIndexKey s.deviceID
      · rw [same] at list'
        exact ⟨s',ids,rfl,name,by rw [same]; exact own,more ids' ((device s.deviceID).trans list') x mem⟩
      · exact ⟨s',ids',rfl,name,(other _ same).trans list',mem⟩
  · rw [record] at there
    split at there
    · cases there
      exact fits
    · exact sound.2 x s' there

theorem createSession_sound {s : Session} (fits : ∀ kept, s.stored = some kept → P kept) (now : Int) :
    Sound P (createSession store s now).2 := by
  rw [createSession,mutate]
  cases found : store.find (sessionKey s.id) now with
  | some _ => exact sound
  | none =>
    cases stored : s.stored with
    | none => exact sound
    | some kept =>
      obtain ⟨id,device⟩ := stored_names stored
      have listed := listed_sound sound (fits kept stored) now
      rw [id,device] at listed
      exact listed
end

theorem step_sound {s : Stores} (sound : Sound P s.sessions) (call : SessionCall)
    (fits : ∀ session kept, call = .create session → session.stored = some kept → P kept) : Sound P (s.step call).sessions := by
  cases call with
  | wait time => exact sound
  | create session => exact createSession_sound sound (fun kept => fits session kept rfl) s.now
  | get id => exact getSession_sound sound id s.now
  | delete id => exact (deleteSession_trims id s.now).sound sound
  | sweep => exact sweep_sound sound s.now
  | deleteByDevice d =>
    obtain ⟨indexed,records⟩ := deleteSessionsByDevice_sound sound d s.now
    exact ⟨indexed,fun x session there => (records x session there).1⟩
  | revoke d =>
    rw [Stores.step]
    split
    · exact sound
    · obtain ⟨indexed,records⟩ := deleteSessionsByDevice_sound sound d s.now
      exact ⟨indexed,fun x session there => (records x session there).1⟩

theorem run_sound {s : Stores} (sound : Sound P s.sessions) (calls : List SessionCall)
    (fits : ∀ session kept, .create session ∈ calls → session.stored = some kept → P kept) : Sound P (s.run calls).sessions := by
  induction calls generalizing s with
  | nil => exact sound
  | cons call calls ih =>
    have first := step_sound sound call fun session kept same => fits session kept (same ▸ mem_cons_self)
    exact ih first fun session kept mem => fits session kept (mem_cons_of_mem call mem)

theorem empty_sound : Sound P {} where
  left := {lists := nofun, sessions := fun _ _ there => nomatch there}
  right := nofun

theorem getSession_ok {id : ID16} (got : (getSession store id now).1 = .ok s) (sound : Sound P store) :
    store.data.get (sessionKey id) = some ⟨.session s,none⟩ := by
  cases there : store.data.get (sessionKey id) with
  | none =>
    rw [getSession,find_absent there] at got
    cases got
  | some e =>
    obtain ⟨s',ids,rfl,-⟩ := sound.1.sessions _ e there
    rw [getSession,find_lasting there] at got
    simp only [SessionRecord.toSession] at got
    split at got
    · cases got
    · cases got
      rfl

theorem getSession_none {id : ID16} (absent : store.data.get (sessionKey id) = none) (now : Int) : (getSession store id now).1 = .error .sessionNotFound := by
  rw [getSession,find_absent absent]
end

-- The calls that revoke a device: the deletion itself, and a RevokeDevice that does not fail before it.
def Revokes (s : Stores) (d : ID16) (call : SessionCall) : Prop :=
  call = .deleteByDevice d ∨ call = .revoke d ∧ (revokeDevice s.devices d s.now s.now).1 = none

theorem revokes_sound (sound : Sound P s.sessions) (revokes : Revokes s d call) :
    Sound (fun session => P session ∧ session.deviceID ≠ d) (s.step call).sessions := by
  rcases revokes with rfl | ⟨rfl,done⟩
  · exact deleteSessionsByDevice_sound sound d s.now
  rw [Stores.step]
  split
  · rename_i e devices failed
    rw [failed] at done
    cases done
  · exact deleteSessionsByDevice_sound sound d s.now

def MadeBy (calls : List SessionCall) (s : Session) : Prop := ∃ c, .create c ∈ calls ∧ c.id = s.id ∧ c.deviceID = s.deviceID

theorem stored_made {kept : Session} (mem : .create s ∈ calls) (stored : s.stored = some kept) : MadeBy calls kept := by
  obtain ⟨id,device⟩ := stored_names stored
  exact ⟨s,mem,id.symm,device.symm⟩

theorem revoked_sound (devices : DeviceStore) (now : Int) {calls more : List SessionCall} (revokes : Revokes ((Stores.fresh devices now).run calls) d call)
    (others : ∀ s, .create s ∈ more → s.deviceID ≠ d) :
    Sound (fun s => MadeBy (calls ++ more) s ∧ s.deviceID ≠ d) ((Stores.fresh devices now).run (calls ++ call :: more)).sessions := by
  have first : Sound (MadeBy (calls ++ more)) ((Stores.fresh devices now).run calls).sessions :=
    run_sound empty_sound calls fun s kept mem => stored_made (mem_append_left more mem)
  have second := revokes_sound first revokes
  rw [Stores.run,foldl_append,foldl_cons]
  refine run_sound second more fun s kept mem stored => ⟨stored_made (mem_append_right calls mem) stored,?_⟩
  rw [(stored_names stored).2]
  exact others s mem

-- A session that getSession returns is on the list of its device.  After a device has been revoked no session of it is returned, whatever
-- is called then, until one is created for it again; a name that was given to sessions of that device only is not found.
theorem revoked_sessions_gone (devices : DeviceStore) (now : Int) (calls : List SessionCall) :
    (∀ id s, ((Stores.fresh devices now).run calls).lookup id = .ok s → hexText id.1 ∈ ((Stores.fresh devices now).run calls).listed s.deviceID) ∧
    ∀ d call more, Revokes ((Stores.fresh devices now).run calls) d call → (∀ s, .create s ∈ more → s.deviceID ≠ d) →
      (∀ id s, ((Stores.fresh devices now).run (calls ++ call :: more)).lookup id = .ok s → s.deviceID ≠ d) ∧
      ∀ s, .create s ∈ calls → (∀ s', .create s' ∈ calls ++ more → s'.id = s.id → s'.deviceID = d) →
        ((Stores.fresh devices now).run (calls ++ call :: more)).lookup s.id = .error .sessionNotFound := by
  refine ⟨fun id s got => ?_,fun d call more revokes others => ?_⟩
  · have sound : Sound (fun _ => True) ((Stores.fresh devices now).run calls).sessions := run_sound empty_sound calls fun _ _ _ _ => trivial
    obtain ⟨s',ids,stored,-,list,mem⟩ := sound.1.sessions _ _ (getSession_ok got sound)
    cases stored
    rw [Stores.listed,find_lasting list]
    exact mem
  · have sound := revoked_sound devices now revokes others
    refine ⟨fun id s got => (sound.2 _ s (getSession_ok got sound)).2,fun s _ only => ?_⟩
    cases there : ((Stores.fresh devices now).run (calls ++ call :: more)).sessions.data.get (sessionKey s.id) with
    | none => exact getSession_none there _
    | some e =>
      obtain ⟨s',-,rfl,name,-⟩ := sound.1.sessions _ e there
      obtain ⟨⟨c,made,id,device⟩,foreign⟩ := sound.2 _ s' there
      have same : c.id = s.id := id.trans (Subtype.ext (hexText_injective name))
      exact absurd (device ▸ only c made same) foreign

def phoneID : ID16 := ⟨replicate 16 1,rfl⟩

def phone : Device := {id := phoneID, publicKey := replicate 32 7, name := ascii "phone", principal := ascii "ann", createdAt := 0, lastSeen := 0}

def phoneSession : Session :=
  {id := ⟨replicate 16 2,rfl⟩, deviceID := phoneID, principal := ascii "ann", keys := ⟨replicate 32 3,replicate 32 4⟩,
    createdAt := 10, expiresAt := 1000, keyID := ascii "fh-server-1"}

theorem phone_session_gone :
    ((Stores.fresh (registerDevice {} phone 0).2 10).run [.create phoneSession]).lookup phoneSession.id = .ok phoneSession ∧
      ((Stores.fresh (registerDevice {} phone 0).2 10).run ([.create phoneSession] ++ .revoke phoneID :: [.wait 5,.sweep])).lookup phoneSession.id =
        .error .sessionNotFound := by
  have revokes : Revokes ((Stores.fresh (registerDevice {} phone 0).2 10).run [.create phoneSession]) phoneID (.revoke phoneID) :=
    .inr ⟨rfl,by decide⟩
  refine ⟨by decide,?_⟩
  refine ((revoked_sessions_gone (registerDevice {} phone 0).2 10 [.create phoneSession]).2 phoneID (.revoke phoneID) [.wait 5,.sweep] revokes ?_).2
    phoneSession mem_cons_self ?_
  · intro s mem
    simp at mem
  intro s mem _
  simp at mem
  rw [mem]
  rfl
end FhServer.SecureTransport

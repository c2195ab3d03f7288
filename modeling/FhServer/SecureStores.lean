import FhServer.GoText
import FhServer.TimedStore

namespace FhServer.SecureTransport
open GoBytes GoText

abbrev ID16 := {b : Bytes // b.length = 16}

def hexText (b : Bytes) : Bytes := b.flatMap fun c => [(ascii "0123456789abcdef").getD (c.toNat/16) 0,(ascii "0123456789abcdef").getD (c.toNat%16) 0]

theorem hexText_injective (same : hexText a = hexText b) : a = b := by
  induction a generalizing b with
  | nil =>
    cases b with
    | nil => rfl
    | cons d b => cases same
  | cons c a ih =>
    cases b with
    | nil => cases same
    | cons d b =>
      simp only [hexText,List.flatMap_cons,List.cons_append,List.nil_append,List.cons.injEq] at same
      obtain ⟨high,low,rest⟩ := same
      have apart : ∀ m n : Fin 16, (ascii "0123456789abcdef").getD m 0 = (ascii "0123456789abcdef").getD n 0 → m = n := by decide
      have upper := apart ⟨c.toNat/16,by have := c.toNat_lt; lia⟩ ⟨d.toNat/16,by have := d.toNat_lt; lia⟩ high
      have lower := apart ⟨c.toNat%16,Nat.mod_lt _ (by decide)⟩ ⟨d.toNat%16,Nat.mod_lt _ (by decide)⟩ low
      rw [ih rest,UInt8.toNat_inj.mp (by lia : c.toNat = d.toNat)]

-- Times are in nanoseconds from the Unix epoch. A time has a text in JSON from the year 0 to the year 9999.
def hasText (t : Int) : Bool := decide (-62167219200*1000000000 ≤ t) && decide (t < 253402300800*1000000000)

inductive SecureError where
  | duplicateDevice
  | deviceNotFound
  | deviceRevoked
  | duplicateSession
  | sessionNotFound
  | capacityExhausted
  | unreadable
  | noText
deriving DecidableEq

structure Device where
  id : ID16
  publicKey : Bytes
  name : Bytes
  principal : Bytes
  createdAt : Int
  lastSeen : Int
  revokedAt : Option Int := none
deriving DecidableEq

namespace Device

def stored (d : Device) : Option Device :=
  if hasText d.createdAt && hasText d.lastSeen && d.revokedAt.all hasText then some {d with name := jsonText d.name, principal := jsonText d.principal}
  else none
end Device

abbrev DeviceStore := TimedStore Bytes Device

def deviceKey (id : ID16) : Bytes := ascii "device:" ++ hexText id.1

def registerDevice (store : DeviceStore) (device : Device) (now : Int) : Option SecureError × DeviceStore :=
  store.mutate (deviceKey device.id) now fun current =>
    if current.isSome then (some .duplicateDevice,none)
    else match device.stored with
      | none => (some .noText,none)
      | some d => (none,some (d,0))

def getDevice (store : DeviceStore) (id : ID16) (now : Int) : Except SecureError Device :=
  match store.find (deviceKey id) now with
  | none => .error .deviceNotFound
  | some d => if d.revokedAt.isSome then .error .deviceRevoked else .ok d

def revokeDevice (store : DeviceStore) (id : ID16) (revokedAt now : Int) : Option SecureError × DeviceStore :=
  store.mutate (deviceKey id) now fun current =>
    match current with
    | none => (some .deviceNotFound,none)
    | some d =>
      match ({d with revokedAt := some revokedAt} : Device).stored with
      | none => (some .noText,none)
      | some d => (none,some (d,0))

structure SessionKeys where
  clientToServer : Bytes
  serverToClient : Bytes
deriving DecidableEq

structure Session where
  id : ID16
  deviceID : ID16
  principal : Bytes
  keys : SessionKeys
  createdAt : Int
  expiresAt : Int
  keyID : Bytes
deriving DecidableEq

def Session.stored (s : Session) : Option Session :=
  if hasText s.createdAt && hasText s.expiresAt then some {s with principal := jsonText s.principal, keyID := jsonText s.keyID} else none

-- What is under a key of the session store: a session, a list of names of sessions, or the zeros that are written over a session.
inductive SessionRecord where
  | session (s : Session)
  | ids (names : List Bytes)
  | zeros
deriving DecidableEq

namespace SessionRecord

def toSession : SessionRecord → Option Session
  | .session s => some s
  | _ => none

def toIds : SessionRecord → Option (List Bytes)
  | .ids names => some names
  | _ => none
end SessionRecord

abbrev SessionStore := TimedStore Bytes SessionRecord

def recordKey (idHex : Bytes) : Bytes := ascii "sess:" ++ idHex

def sessionKey (id : ID16) : Bytes := recordKey (hexText id.1)

def sessionDeviceIndexKey (deviceID : ID16) : Bytes := ascii "sessdevidx:" ++ hexText deviceID.1

def sessionAllIndexKey : Bytes := ascii "sessidx:all"

section
variable (store : SessionStore)

def addIndexEntry (idxKey sessionHex : Bytes) (now : Int) : SessionStore :=
  (store.mutate idxKey now fun current =>
    let ids := (current.bind SessionRecord.toIds).getD []
    if sessionHex ∈ ids then ((),none) else ((),some (.ids (ids ++ [sessionHex]),0))).2

def removeIndexEntry (idxKey sessionHex : Bytes) (now : Int) : SessionStore :=
  (store.mutate idxKey now fun current =>
    match current.bind SessionRecord.toIds with
    | none => ((),none)
    | some ids => if sessionHex ∈ ids then ((),some (.ids (ids.filter (· ≠ sessionHex)),0)) else ((),none)).2

def wipeAndDelete (key : Bytes) (now : Int) : SessionStore :=
  (store.mutate key now fun current => ((),current.map fun _ => (.zeros,1))).2.erase key

def createSession (session : Session) (now : Int) : Option SecureError × SessionStore :=
  match store.mutate (sessionKey session.id) now fun current =>
      if current.isSome then (some SecureError.duplicateSession,none)
      else match session.stored with
        | none => (some .noText,none)
        | some s => (none,some (.session s,0)) with
  | (some e,store) => (some e,store)
  | (none,store) =>
    (none,addIndexEntry (addIndexEntry store (sessionDeviceIndexKey session.deviceID) (hexText session.id.1) now) sessionAllIndexKey
      (hexText session.id.1) now)

-- What getSession and SweepExpiredSessions do with a session that is over.
def expireSession (session : Session) (idHex : Bytes) (now : Int) : SessionStore :=
  let store := removeIndexEntry store (sessionDeviceIndexKey session.deviceID) idHex now
  let store := removeIndexEntry store sessionAllIndexKey idHex now
  wipeAndDelete store (recordKey idHex) now

def getSession (id : ID16) (now : Int) : Except SecureError Session × SessionStore :=
  match store.find (sessionKey id) now with
  | none => (.error .sessionNotFound,store)
  | some data =>
    match data.toSession with
    | none => (.error .unreadable,store)
    | some session =>
      if session.expiresAt ≤ now then (.error .sessionNotFound,expireSession store session (hexText id.1) now)
      else (.ok session,store)

def deleteSession (id : ID16) (now : Int) : SessionStore :=
  let store := match (store.find (sessionKey id) now).bind SessionRecord.toSession with
    | some session => removeIndexEntry store (sessionDeviceIndexKey session.deviceID) (hexText id.1) now
    | none => store
  let store := removeIndexEntry store sessionAllIndexKey (hexText id.1) now
  wipeAndDelete store (sessionKey id) now
end

def deleteOne (now : Int) (store : SessionStore) (idHex : Bytes) : SessionStore :=
  wipeAndDelete (removeIndexEntry store sessionAllIndexKey idHex now) (recordKey idHex) now

def deleteSessionsByDevice (store : SessionStore) (deviceID : ID16) (now : Int) : SessionStore :=
  match store.find (sessionDeviceIndexKey deviceID) now with
  | none => store
  | some data =>
    match data.toIds with
    | none => store
    | some ids => (ids.foldl (deleteOne now) store).erase (sessionDeviceIndexKey deviceID)

def sweepOne (now : Int) (store : SessionStore) (idHex : Bytes) : SessionStore :=
  match (store.find (recordKey idHex) now).bind SessionRecord.toSession with
  | none => store
  | some session => if session.expiresAt ≤ now then expireSession store session idHex now else store

def sweepExpiredSessions (store : SessionStore) (now : Int) : SessionStore :=
  match (store.find sessionAllIndexKey now).bind SessionRecord.toIds with
  | none => store
  | some ids => ids.foldl (sweepOne now) store

-- time.Until. A difference of times is a Duration, of 64 bits, and stays at its ends.
def sub (t u : Int) : Int := max (-2^63) (min (2^63-1) (t-u))

abbrev ReplayStore := TimedStore Bytes Unit

def defaultMaxReplayEntries : Int := 250000

def replayCapacity (maxEntries : Int) : Int := if maxEntries ≤ 0 then defaultMaxReplayEntries else maxEntries

def checkAndStoreReplay (store : ReplayStore) (maxEntries : Int) (key : Bytes) (expiresAt now : Int) : Except SecureError Bool × ReplayStore :=
  let n := store.size now
  store.mutate key now fun current =>
    if current.isSome then (.ok false,none)
    else
      let ttl := sub expiresAt now
      if ttl ≤ 0 then (.ok true,none)
      else if (n : Int) ≥ replayCapacity maxEntries then (.error .capacityExhausted,none)
      else (.ok true,some ((),ttl))
end FhServer.SecureTransport

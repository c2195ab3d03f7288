import FhServer.GoNumbers
import FhServer.SecureStores
import FhServer.WebSocketFrames

namespace FhServer.SecureTransport
open GoBytes GoText

def encodeID (id : ID16) : Bytes := base64Text id.1

structure TransportConfig where
  sessionTTL : Int64 := 0
  handshakeTTL : Int64 := 0
  requestTTL : Int64 := 0
  maxClockSkew : Int64 := 0
  maxReplayEntries : Int := 0
  maxBody : Int := 0
  skipDeviceStatusCheck : Bool := false

def TransportConfig.new (c : TransportConfig) : TransportConfig :=
  {c with
    sessionTTL := if c.sessionTTL ≤ 0 then 900000000000 else c.sessionTTL
    handshakeTTL := if c.handshakeTTL ≤ 0 then 120000000000 else c.handshakeTTL
    requestTTL := if c.requestTTL ≤ 0 then 90000000000 else c.requestTTL
    maxClockSkew := if c.maxClockSkew ≤ 0 then 30000000000 else c.maxClockSkew
    maxBody := if c.maxBody ≤ 0 then 16777216 else c.maxBody}

section
def take (n : Nat) (b : Bytes) : Option (Bytes × Bytes) := if n ≤ b.length then some (b.take n,b.drop n) else none

def takeID (b : Bytes) : Option (ID16 × Bytes) := if enough : 16 ≤ b.length then some (⟨b.take 16,List.length_take_of_le enough⟩,b.drop 16) else none

def takeUint (n : Nat) (b : Bytes) : Option (Nat × Bytes) := (take n b).map fun r => (WebSocket.uint r.1,r.2)

def takeInt64 (b : Bytes) : Option (Int × Bytes) := (takeUint 8 b).map fun r => (if r.1 < 2^63 then r.1 else r.1-2^64,r.2)

def protocolVersion : UInt8 := 1

def takeMagic (magic : String) (b : Bytes) : Option Bytes :=
  (take 5 b).bind fun r => if r.1 = ascii magic ++ [protocolVersion] then some r.2 else none

structure RequestEnvelope where
  sessionID : ID16
  requestID : ID16
  sequence : Nat
  issuedAt : Int
  expiresAt : Int
  nonce : Bytes
  ciphertext : Bytes
deriving DecidableEq

def decodeRequestEnvelope (data : Bytes) (maxCiphertext : Int) : Option RequestEnvelope := do
  let r ← takeMagic "FHR1" data
  let (sessionID,r) ← takeID r
  let (requestID,r) ← takeID r
  let (sequence,r) ← takeUint 8 r
  let (issuedAt,r) ← takeInt64 r
  let (expiresAt,r) ← takeInt64 r
  let (nonce,r) ← take 12 r
  let (length,r) ← takeUint 4 r
  if (length : Int) > maxCiphertext then none
  let (ciphertext,r) ← take length r
  if r ≠ [] then none
  return {sessionID, requestID, sequence, issuedAt, expiresAt, nonce, ciphertext}

structure DeviceRegistrationRequest where
  issuedAt : Int
  nonce : Bytes
  publicKey : Bytes
  name : Bytes

def decodeDeviceRegistrationRequest (data : Bytes) : Option DeviceRegistrationRequest := do
  let r ← takeMagic "FHD1" data
  let (issuedAt,r) ← takeInt64 r
  let (nonce,r) ← take 16 r
  let (publicKey,r) ← take 32 r
  let (length,r) ← takeUint 2 r
  if length > 256 then none
  let (name,r) ← take length r
  if r ≠ [] then none
  return {issuedAt, nonce, publicKey, name}
end

def ofUnixMilli (ms : Int) : Int := ms*1000000
def unixMilli (t : Int) : Int := t/1000000
def milliseconds (d : Int64) : Int := d.toInt.tdiv 1000000

inductive ProtocolError where
  | malformed
  | expired

def validateTime (issuedAt expiresAt now : Int) (maxClockSkew : Int64) : Option ProtocolError :=
  if issuedAt ≤ 0 ∨ expiresAt ≤ issuedAt then some .malformed
  else if issuedAt > unixMilli now+milliseconds maxClockSkew ∨ expiresAt < unixMilli now-milliseconds maxClockSkew then some .expired
  else none

structure Transport where
  sessions : SessionStore := {}
  devices : DeviceStore := {}
  replay : ReplayStore := {}

def sequenceKey (session : ID16) (sequence : Nat) : Bytes := ascii "request-sequence:" ++ encodeID session ++ ascii ":" ++ itoa sequence

def requestIDKey (session request : ID16) : Bytes := ascii "request-id:" ++ encodeID session ++ ascii ":" ++ encodeID request

inductive SecureAnswer where
  | authFailure
  | replayStore
  | replay
  | passed (m : RequestEnvelope)

-- A request as it arrives: the bytes of its envelope, whether the ciphertext opens for its method and target, and the times
-- at which it is validated and at which the replay store is asked.
structure Delivery where
  raw : Bytes
  opens : Bool
  now : Int
  checked : Int

-- A registration as it arrives, with what the origin check and AuthorizeDeviceRegistration say of it and what NewID returns.
-- The replay store is asked after the authorization.
structure Registration where
  now : Int
  checked : Int
  originOk : Bool
  principal : Option Bytes
  id : Option ID16

inductive RegistrationAnswer where
  | originRejected
  | tooLarge
  | invalid
  | expired
  | refused
  | replay
  | failed
  | registered (id : ID16)

def registrationKey (nonce : Bytes) : Bytes := ascii "device-registration:" ++ base64Text nonce

def newDevice (request : DeviceRegistrationRequest) (id : ID16) (principal : Bytes) (now : Int) : Device :=
  {id := id, publicKey := request.publicKey, name := request.name, principal := principal, createdAt := now, lastSeen := now}

section
variable (cfg : TransportConfig)

def timely (session : Session) (m : RequestEnvelope) (now : Int) : Bool :=
  decide (now < session.expiresAt) && (validateTime m.issuedAt m.expiresAt now cfg.maxClockSkew).isNone && decide (m.sequence ≠ 0) &&
    decide (sub (ofUnixMilli m.expiresAt) (ofUnixMilli m.issuedAt) ≤ (cfg.requestTTL+cfg.maxClockSkew).toInt) &&
    decide (m.expiresAt ≤ unixMilli session.expiresAt+milliseconds cfg.maxClockSkew)

def replayExpiry (m : RequestEnvelope) : Int := ofUnixMilli m.expiresAt+cfg.maxClockSkew.toInt

def replayChecks (store : ReplayStore) (session : ID16) (m : RequestEnvelope) (now : Int) : SecureAnswer × ReplayStore :=
  match checkAndStoreReplay store cfg.maxReplayEntries (sequenceKey session m.sequence) (replayExpiry cfg m) now with
  | (.error _,store) => (.replayStore,store)
  | (.ok false,store) => (.replay,store)
  | (.ok true,store) =>
    match checkAndStoreReplay store cfg.maxReplayEntries (requestIDKey session m.requestID) (replayExpiry cfg m) now with
    | (.error _,store) => (.replayStore,store)
    | (.ok false,store) => (.replay,store)
    | (.ok true,store) => (.passed m,store)

-- handleSecure up to the replay checks.  A request that passes them goes on to the application.
def handleSecure (t : Transport) (d : Delivery) : SecureAnswer × Transport :=
  match decodeRequestEnvelope d.raw (cfg.maxBody+65536) with
  | none => (.authFailure,t)
  | some m =>
    match getSession t.sessions m.sessionID d.now with
    | (.error _,sessions) => (.authFailure,{t with sessions := sessions})
    | (.ok session,sessions) =>
      let t := {t with sessions := sessions}
      if ¬timely cfg session m d.now then (.authFailure,t)
      else if ¬cfg.skipDeviceStatusCheck ∧ ¬(getDevice t.devices session.deviceID d.now).isOk then (.authFailure,t)
      else if ¬d.opens ∨ m.sessionID ≠ session.id then (.authFailure,t)
      else
        let (answer,replay) := replayChecks cfg t.replay session.id m d.checked
        (answer,{t with replay := replay})

def registrationTimely (request : DeviceRegistrationRequest) (now : Int) : Bool :=
  let delta := sub now (ofUnixMilli request.issuedAt)
  !(decide (delta > (cfg.handshakeTTL+cfg.maxClockSkew).toInt) || decide (delta < (-cfg.maxClockSkew).toInt))

def honourRegistration (t : Transport) (request : DeviceRegistrationRequest) (principal : Bytes) (d : Registration) :
    RegistrationAnswer × Transport :=
  match checkAndStoreReplay t.replay cfg.maxReplayEntries (registrationKey request.nonce) (d.now+cfg.handshakeTTL.toInt) d.checked with
  | (.ok true,replay) =>
    let t := {t with replay := replay}
    match d.id with
    | none => (.failed,t)
    | some id =>
      match registerDevice t.devices (newDevice request id principal d.now) d.checked with
      | (some _,devices) => (.failed,{t with devices := devices})
      | (none,devices) => (.registered id,{t with devices := devices})
  | (_,replay) => (.replay,{t with replay := replay})

def handleRegistration (t : Transport) (body : Bytes) (d : Registration) : RegistrationAnswer × Transport :=
  if ¬d.originOk then (.originRejected,t)
  else if body.length > 4096 then (.tooLarge,t)
  else match decodeDeviceRegistrationRequest body with
    | none => (.invalid,t)
    | some request =>
      if ¬registrationTimely cfg request d.now then (.expired,t)
      else match d.principal with
        | none => (.refused,t)
        | some principal => honourRegistration cfg t request principal d
end
end FhServer.SecureTransport

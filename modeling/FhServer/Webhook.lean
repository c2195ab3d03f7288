import FhServer.GoNumbers
import FhServer.SecureStores

namespace FhServer.Webhook
open GoBytes GoText TimedStore

inductive Algorithm
  | sha256
  | sha384
  | sha512

structure Config where
  tolerance : Int64 := 0
  sigPrefix : Bytes := []
  algorithm : Bytes := []
  requireTimestamp : Bool := true

def Config.new (c : Config) : Config :=
  { c with
    tolerance := if c.tolerance = 0 then 300000000000 else c.tolerance
    algorithm := if c.algorithm = [] then ascii "sha256" else c.algorithm }

structure Request where
  signature : Bytes
  timestamp : Bytes
  body : Bytes
  -- What Secret or SecretFunc gives for the request; none is an error of SecretFunc.
  key : Option Bytes
  now : Int
  -- The time at which the replay store is asked.
  checked : Int

inductive WebhookError
  | missingSignature
  | prefixMismatch
  | secretFunc
  | missingSecret
  | timestampRequired
  | invalidTimestamp
  | outsideTolerance
  | unsupportedAlgorithm
  | signatureMismatch
  | replayed
deriving DecidableEq

-- strconv.ParseInt(s,10,64).
def parseUint10 (b : Bytes) : Option Nat :=
  if b ≠ [] ∧ b.all decimalByte then some (b.foldl (fun n c => n*10+(c.toNat-48)) 0) else none

def parseInt10 : Bytes → Option Int
  | [] => none
  | c :: rest =>
    if c == 45 then (parseUint10 rest).bind fun n => if n ≤ maxInt+1 then some (-(n : Int)) else none
    else (parseUint10 (if c == 43 then rest else c :: rest)).bind fun n => if n ≤ maxInt then some (n : Int) else none

-- The lower case of texts, time.Parse for RFC 3339 in nanoseconds, and the hexadecimal text of the keyed hash.
structure Stdlib where
  lower : Lowering
  rfc3339 : Bytes → Option Int
  mac : Algorithm → (key message : Bytes) → Bytes

section
variable (std : Stdlib)

def algo (a : Bytes) : Option Algorithm :=
  let name := std.lower.lower a
  if name = ascii "sha256" then some .sha256
  else if name = ascii "sha384" then some .sha384
  else if name = ascii "sha512" then some .sha512
  else none

def parseTime (s : Bytes) : Option Int :=
  match parseInt10 s with
  | some i => some (if 1000000000000 < i then i*1000000 else i*1000000000)
  | none => std.rfc3339 s

def signatureText (cfg : Config) (header : Bytes) : Except WebhookError Bytes :=
  let sig := trimSpace header
  if sig = [] then .error .missingSignature
  else if cfg.sigPrefix ≠ [] then
    let p := cfg.sigPrefix ++ [61]
    if p.isPrefixOf sig then .ok (sig.drop p.length) else .error .prefixMismatch
  else match indexByte sig 61 with
    | some (i+1) => .ok (sig.drop (i+2))
    | _ => .ok sig

def checkTimestamp (cfg : Config) (r : Request) : Except WebhookError Bytes :=
  if r.timestamp = [] then if cfg.requireTimestamp then .error .timestampRequired else .ok r.body
  else match parseTime std r.timestamp with
    | none => .error .invalidTimestamp
    | some t =>
      if 0 < cfg.tolerance ∧ cfg.tolerance.toInt < SecureTransport.sub r.now t then .error .outsideTolerance
      else .ok (r.timestamp ++ [46] ++ r.body)

-- Verify up to the replay check; the result is the signature as it was sent.
def authenticate (cfg : Config) (r : Request) : Except WebhookError Bytes :=
  match signatureText cfg r.signature with
  | .error e => .error e
  | .ok sig =>
    match r.key with
    | none => .error .secretFunc
    | some key =>
      if key = [] then .error .missingSecret
      else match checkTimestamp std cfg r with
        | .error e => .error e
        | .ok msg =>
          match algo std cfg.algorithm with
          | none => .error .unsupportedAlgorithm
          | some h => if std.lower.lower sig = std.mac h key msg then .ok sig else .error .signatureMismatch

def seen (store : SecureTransport.ReplayStore) (key : Bytes) (ttl : Int64) (now : Int) : Bool × SecureTransport.ReplayStore :=
  store.mutate key now fun found => if found.isSome then (true,none) else (false,some ((),ttl.toInt))

def marker (sig timestamp : Bytes) : Bytes := sig ++ [58] ++ timestamp

def verify (cfg : Config) (store : SecureTransport.ReplayStore) (r : Request) : Except WebhookError Unit × SecureTransport.ReplayStore :=
  match authenticate std cfg r with
  | .error e => (.error e,store)
  | .ok sig =>
    if r.timestamp = [] then (.ok (),store)
    else match seen store (marker sig r.timestamp) cfg.tolerance r.checked with
      | (true,store) => (.error .replayed,store)
      | (false,store) => (.ok (),store)

def accepts (cfg : Config) (store : SecureTransport.ReplayStore) (r : Request) : Bool := (verify std cfg store r).1.isOk

def handle (cfg : Config) (store : SecureTransport.ReplayStore) (rs : List Request) : SecureTransport.ReplayStore :=
  rs.foldl (fun store r => (verify std cfg store r).2) store
end
variable {std : Stdlib} {cfg : Config} {store : SecureTransport.ReplayStore} {r : Request}

theorem seen_found (found : (store.find key now).isSome = true) (ttl : Int64) : seen store key ttl now = (true,store) :=
  mutate_left (if_pos found)

theorem seen_absent (absent : store.find key now = none) (ttl : Int64) : seen store key ttl now = (false,store.put key () ttl.toInt now) := by
  apply mutate_stored
  simp [absent]

-- What Verify does to the store: nothing, or it marks a key that was free.
inductive Verified (std : Stdlib) (cfg : Config) (store : SecureTransport.ReplayStore) (r : Request) :
    Except WebhookError Unit × SecureTransport.ReplayStore → Prop
  | refused : Verified std cfg store r (.error e,store)
  | untimed (none : r.timestamp = []) : Verified std cfg store r (.ok (),store)
  | marked (authentic : authenticate std cfg r = .ok sig) (absent : store.find (marker sig r.timestamp) r.checked = none) :
      Verified std cfg store r (.ok (),store.put (marker sig r.timestamp) () cfg.tolerance.toInt r.checked)

theorem verify_cases (std : Stdlib) (cfg : Config) (store : SecureTransport.ReplayStore) (r : Request) : Verified std cfg store r (verify std cfg store r) := by
  unfold verify
  split
  · exact .refused
  rename_i sig authentic
  split
  · rename_i none
    exact .untimed none
  cases found : store.find (marker sig r.timestamp) r.checked with
  | some v =>
    rw [seen_found (by rw [found]; rfl)]
    exact .refused
  | none =>
    rw [seen_absent found]
    exact .marked authentic found

theorem verify_free (authentic : authenticate std cfg r = .ok sig) (timed : r.timestamp ≠ []) (absent : store.find (marker sig r.timestamp) r.checked = none) :
    verify std cfg store r = (.ok (),store.put (marker sig r.timestamp) () cfg.tolerance.toInt r.checked) := by
  simp only [verify,authentic,if_neg timed]
  rw [seen_absent absent]

theorem verify_found (authentic : authenticate std cfg r = .ok sig) (timed : r.timestamp ≠ []) (found : (store.find (marker sig r.timestamp) r.checked).isSome = true) :
    accepts std cfg store r = false := by
  simp only [accepts,verify,authentic,if_neg timed]
  rw [seen_found found]
  rfl

theorem accepts_authentic (accepted : accepts std cfg store r = true) : ∃ sig, authenticate std cfg r = .ok sig := by
  cases authentic : authenticate std cfg r with
  | ok sig => exact ⟨sig,rfl⟩
  | error e =>
    simp only [accepts,verify,authentic] at accepted
    cases accepted

theorem authentic_timed (required : cfg.requireTimestamp = true) (authentic : authenticate std cfg r = .ok sig) : r.timestamp ≠ [] := by
  intro none
  unfold authenticate at authentic
  split at authentic
  · cases authentic
  split at authentic
  · cases authentic
  · split at authentic
    · cases authentic
    · simp [checkTimestamp,none,required] at authentic

section
variable (positive : 0 < cfg.tolerance.toInt)
include positive

theorem holds_verify (holds : store.Holds key ends) (r : Request) : (verify std cfg store r).2.Holds key ends := by
  have verified := verify_cases std cfg store r
  generalize verify std cfg store r = result at verified ⊢
  cases verified with
  | refused => exact holds
  | untimed => exact holds
  | marked _ absent => exact holds.put () positive absent

theorem holds_handle (holds : store.Holds key ends) (rs : List Request) : (handle std cfg store rs).Holds key ends := by
  induction rs generalizing store with
  | nil => exact holds
  | cons r rs ih => exact ih (holds_verify positive holds r)

theorem accepted_holds (authentic : authenticate std cfg r = .ok sig) (timed : r.timestamp ≠ []) (accepted : accepts std cfg store r = true) :
    (verify std cfg store r).2.Holds (marker sig r.timestamp) (r.checked+cfg.tolerance.toInt) := by
  cases found : store.find (marker sig r.timestamp) r.checked with
  | some v =>
    rw [verify_found authentic timed (by rw [found]; rfl)] at accepted
    cases accepted
  | none =>
    rw [verify_free authentic timed found]
    exact holds_put store _ () positive r.checked
end

theorem marker_inj (same : marker sig timestamp = marker sig' timestamp) : sig = sig' := by
  simpa [marker] using same

-- Two requests with one timestamp and body are not both accepted, in any run, exactly where one of them is not authentic, or
-- they spell the signature alike and the store is asked for the second before the tolerance has passed since it was asked for the first.
theorem accepted_once_iff (std : Stdlib) (c : Config) (required : c.requireTimestamp = true) (tolerant : 0 < c.new.tolerance.toInt) {a b : Request}
    (signed : a.timestamp = b.timestamp ∧ a.body = b.body) (order : a.now ≤ b.now ∧ a.checked ≤ b.checked) :
    (∀ before between, (before ++ a :: (between ++ [b])).Pairwise (fun r r' => r.now ≤ r'.now ∧ r.checked ≤ r'.checked) →
      ¬(accepts std c.new (handle std c.new {} before) a = true ∧ accepts std c.new (handle std c.new {} (before ++ a :: between)) b = true)) ↔
    ∀ sig sig', authenticate std c.new a = .ok sig → authenticate std c.new b = .ok sig' → sig = sig' ∧ b.checked < a.checked+c.new.tolerance.toInt := by
  have needed : c.new.requireTimestamp = true := required
  constructor
  · intro never sig sig' authentic authentic'
    apply Classical.byContradiction
    intro apart
    have timed : a.timestamp ≠ [] := authentic_timed needed authentic
    have timed' : b.timestamp ≠ [] := authentic_timed needed authentic'
    have first := verify_free authentic timed (find_empty (marker sig a.timestamp) a.checked)
    have free : (verify std c.new {} a).2.find (marker sig' b.timestamp) b.checked = none := by
      rw [first]
      by_cases same : sig = sig'
      · rw [← same,← signed.1,find_put_self tolerant,if_neg fun early => apart ⟨same,early⟩]
      rw [find_put_ne _ a.checked b.checked]
      · exact find_empty _ _
      · intro equal
        rw [signed.1] at equal
        exact same (marker_inj equal).symm
    apply never [] []
    · simpa using order
    refine ⟨?_,?_⟩
    · show (verify std c.new {} a).1.isOk = true
      rw [first]
      rfl
    · show (verify std c.new (verify std c.new {} a).2 b).1.isOk = true
      rw [verify_free authentic' timed' free]
      rfl
  · intro condition before between _ ⟨accepted,accepted'⟩
    obtain ⟨sig,authentic⟩ := accepts_authentic accepted
    obtain ⟨sig',authentic'⟩ := accepts_authentic accepted'
    obtain ⟨rfl,early⟩ := condition sig sig' authentic authentic'
    have timed : a.timestamp ≠ [] := authentic_timed needed authentic
    have marked : (handle std c.new _ between).Holds _ _ := holds_handle tolerant (accepted_holds tolerant authentic timed accepted) between
    have run : handle std c.new {} (before ++ a :: between) = handle std c.new (verify std c.new (handle std c.new {} before) a).2 between := by
      simp [handle]
    rw [run] at accepted'
    rw [verify_found authentic' (signed.1 ▸ timed) (signed.1 ▸ marked b.checked early)] at accepted'
    cases accepted'

def toyStdlib : Stdlib := ⟨lowering,fun _ => none,fun _ _ _ => ascii "ab12"⟩

def ping (signature : Bytes) (now : Int) : Request := ⟨signature,ascii "100",ascii "ping",some (ascii "secret"),now,now+1000⟩

theorem prompt_copy_refused : ¬(accepts toyStdlib ({} : Config).new (handle toyStdlib ({} : Config).new {} []) (ping (ascii "sha256=ab12") 101000000000) = true ∧
    accepts toyStdlib ({} : Config).new (handle toyStdlib ({} : Config).new {} ([] ++ ping (ascii "sha256=ab12") 101000000000 :: [])) (ping (ascii "ab12") 102000000000) = true) := by
  apply (accepted_once_iff toyStdlib {} rfl (by decide) ⟨rfl,rfl⟩ (by decide)).mpr _ [] [] (by decide)
  intro sig sig' authentic authentic'
  have first : authenticate toyStdlib ({} : Config).new (ping (ascii "sha256=ab12") 101000000000) = .ok (ascii "ab12") := by decide
  have second : authenticate toyStdlib ({} : Config).new (ping (ascii "ab12") 102000000000) = .ok (ascii "ab12") := by decide
  cases first.symm.trans authentic
  cases second.symm.trans authentic'
  exact ⟨rfl,by decide⟩

-- The signature in upper case, and a timestamp that lies ahead of the clock.
theorem respelled_copy_accepted :
    (accepts toyStdlib ({} : Config).new {} (ping (ascii "ab12") 101000000000) = true ∧
      accepts toyStdlib ({} : Config).new (handle toyStdlib ({} : Config).new {} [ping (ascii "ab12") 101000000000]) (ping (ascii "AB12") 102000000000) = true) ∧
    accepts toyStdlib ({} : Config).new {} (ping (ascii "ab12") 90000000000) = true ∧
      accepts toyStdlib ({} : Config).new (handle toyStdlib ({} : Config).new {} [ping (ascii "ab12") 90000000000]) (ping (ascii "ab12") 391000000000) = true := by
  decide
end FhServer.Webhook

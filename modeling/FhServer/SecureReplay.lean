import FhServer.SecureHandlers
import FhServer.SecureSessions

namespace FhServer.SecureTransport
open GoBytes TimedStore
section
variable {store : ReplayStore} {key : Bytes} {now : Int}

theorem check_live (found : (store.find key now).isSome = true) (maxEntries expiresAt : Int) :
    checkAndStoreReplay store maxEntries key expiresAt now = (.ok false,store) := by
  rw [checkAndStoreReplay]
  exact mutate_left (if_pos found)

theorem check_free (absent : store.find key now = none) (maxEntries expiresAt : Int) : checkAndStoreReplay store maxEntries key expiresAt now =
    if sub expiresAt now ≤ 0 then (.ok true,store)
    else if replayCapacity maxEntries ≤ store.size now then (.error .capacityExhausted,store)
    else (.ok true,store.put key () (sub expiresAt now) now) := by
  split_ifs with ended full
  · rw [checkAndStoreReplay,mutate_left]
    simp [absent,ended]
  · rw [checkAndStoreReplay,mutate_left]
    simp [absent,ended,full]
  · rw [checkAndStoreReplay,mutate_stored]
    simp [absent,ended,full]

inductive Checked (store : ReplayStore) (key : Bytes) (expiresAt now : Int) : Except SecureError Bool × ReplayStore → Prop
  | live : (store.find key now).isSome = true → Checked store key expiresAt now (.ok false,store)
  | late : store.find key now = none → sub expiresAt now ≤ 0 → Checked store key expiresAt now (.ok true,store)
  | full : store.find key now = none → Checked store key expiresAt now (.error .capacityExhausted,store)
  | stored : store.find key now = none → 0 < sub expiresAt now →
      Checked store key expiresAt now (.ok true,store.put key () (sub expiresAt now) now)

theorem check_cases (store : ReplayStore) (maxEntries : Int) (key : Bytes) (expiresAt now : Int) :
    Checked store key expiresAt now (checkAndStoreReplay store maxEntries key expiresAt now) := by
  cases found : store.find key now with
  | some v =>
    have live : (store.find key now).isSome = true := by rw [found]; rfl
    rw [check_live live]
    exact .live live
  | none =>
    rw [check_free found]
    split_ifs with ended full
    · exact .late found ended
    · exact .full found
    · exact .stored found (by lia)

theorem holds_check (marked : store.Holds key ends) (maxEntries : Int) (key' : Bytes) (expiresAt now : Int) :
    (checkAndStoreReplay store maxEntries key' expiresAt now).2.Holds key ends := by
  have checked := check_cases store maxEntries key' expiresAt now
  generalize checkAndStoreReplay store maxEntries key' expiresAt now = result at checked ⊢
  cases checked with
  | live _ => exact marked
  | late _ _ => exact marked
  | full _ => exact marked
  | stored absent positive => exact marked.put () positive absent

theorem check_marks (accepted : checkAndStoreReplay store maxEntries key expiresAt now = (.ok true,store'))
    (left : 0 < sub expiresAt now) : store'.Holds key (now+sub expiresAt now) := by
  have checked := check_cases store maxEntries key expiresAt now
  rw [accepted] at checked
  cases checked with
  | late _ ended => lia
  | stored absent positive => exact holds_put store key () positive now

theorem holds_replayChecks (marked : store.Holds key ends) (cfg : TransportConfig) (session : ID16) (m : RequestEnvelope) (now : Int) :
    (replayChecks cfg store session m now).2.Holds key ends := by
  have first := holds_check marked cfg.maxReplayEntries (sequenceKey session m.sequence) (replayExpiry cfg m) now
  rw [replayChecks]
  split
  · rename_i checked
    rw [checked] at first
    exact first
  · rename_i checked
    rw [checked] at first
    exact first
  · rename_i checked
    rw [checked] at first
    have second := holds_check first cfg.maxReplayEntries (requestIDKey session m.requestID) (replayExpiry cfg m) now
    split <;> rename_i checked <;> rw [checked] at second <;> exact second

theorem passed_marks (passed : replayChecks cfg store session m now = (.passed m,store')) (left : 0 < sub (replayExpiry cfg m) now) :
    store'.Holds (sequenceKey session m.sequence) (now+sub (replayExpiry cfg m) now) ∧
      store'.Holds (requestIDKey session m.requestID) (now+sub (replayExpiry cfg m) now) := by
  rw [replayChecks] at passed
  split at passed
  · cases passed
  · cases passed
  rename_i first
  have marked := check_marks first left
  split at passed
  · cases passed
  · cases passed
  rename_i second
  have kept := holds_check marked cfg.maxReplayEntries (requestIDKey session m.requestID) (replayExpiry cfg m) now
  rw [second] at kept
  cases passed
  exact ⟨kept,check_marks second left⟩

theorem marked_refuses (marked : store.Holds (sequenceKey session m.sequence) ends ∨ store.Holds (requestIDKey session m.requestID) ends)
    (early : now < ends) (cfg : TransportConfig) : (replayChecks cfg store session m now).1 ≠ .passed m := by
  rcases marked with marked | marked
  · rw [replayChecks,check_live (marked now early)]
    exact SecureAnswer.noConfusion
  have kept := holds_check marked cfg.maxReplayEntries (sequenceKey session m.sequence) (replayExpiry cfg m) now
  rw [replayChecks]
  split
  · exact SecureAnswer.noConfusion
  · exact SecureAnswer.noConfusion
  rename_i checked
  rw [checked] at kept
  rw [check_live (kept now early)]
  exact SecureAnswer.noConfusion
end

def SecureAnswer.isPassed : SecureAnswer → Bool
  | .passed _ => true
  | _ => false

def passes (cfg : TransportConfig) (t : Transport) (d : Delivery) : Bool := (handleSecure cfg t d).1.isPassed

def deliver (cfg : TransportConfig) (t : Transport) (ds : List Delivery) : Transport := ds.foldl (fun t d => (handleSecure cfg t d).2) t

def Admitted (cfg : TransportConfig) (session : Session) (m : RequestEnvelope) (d : Delivery) : Prop := d.opens = true ∧ timely cfg session m d.now = true

theorem replayChecks_passed (passed : (replayChecks cfg store session m now).1.isPassed = true) : (replayChecks cfg store session m now).1 = .passed m := by
  rw [replayChecks] at passed ⊢
  split at passed
  · cases passed
  · cases passed
  split at passed
  · cases passed
  · cases passed
  · rfl

section
variable {cfg : TransportConfig} {t : Transport} {d : Delivery} {session : Session} {m : RequestEnvelope}

theorem handleSecure_replay (cfg : TransportConfig) (t : Transport) (d : Delivery) : (handleSecure cfg t d).2.replay = t.replay ∨
    ∃ session m, (handleSecure cfg t d).2.replay = (replayChecks cfg t.replay session m d.checked).2 := by
  rw [handleSecure]
  split
  · exact .inl rfl
  rename_i m _
  split
  · exact .inl rfl
  rename_i session _ _
  dsimp only
  split
  · exact .inl rfl
  split
  · exact .inl rfl
  · split
    · exact .inl rfl
    · exact .inr ⟨session.id,m,rfl⟩

theorem holds_handleSecure (marked : t.replay.Holds key ends) (cfg : TransportConfig) (d : Delivery) : (handleSecure cfg t d).2.replay.Holds key ends := by
  rcases handleSecure_replay cfg t d with same | ⟨session,m,checked⟩
  · rw [same]
    exact marked
  · rw [checked]
    exact holds_replayChecks marked cfg session m d.checked

theorem holds_deliver (marked : t.replay.Holds key ends) (cfg : TransportConfig) (ds : List Delivery) : (deliver cfg t ds).replay.Holds key ends := by
  induction ds generalizing t with
  | nil => exact marked
  | cons d ds ih => exact ih (holds_handleSecure marked cfg d)

def Held (t : Transport) (session : Session) : Prop :=
  t.sessions.data.get (sessionKey session.id) = some ⟨.session session,none⟩ ∨ t.sessions.data.get (sessionKey session.id) = none

theorem getSession_held (store : SessionStore) (key : Bytes) (id : ID16) (now : Int) :
    (getSession store id now).2.data.get (recordKey key) = store.data.get (recordKey key) ∨ (getSession store id now).2.data.get (recordKey key) = none := by
  rw [getSession]
  split
  · exact .inl rfl
  split
  · exact .inl rfl
  split
  · rename_i ended _ _
    have trimmed : Trimmed (hexText id.1) store _ := expireSession_trims ended (hexText id.1) now
    by_cases same : key = hexText id.1
    · exact .inr (same ▸ trimmed.gone)
    · exact .inl (trimmed.others key same)
  · exact .inl rfl

theorem handleSecure_sessions (cfg : TransportConfig) (t : Transport) (d : Delivery) : (handleSecure cfg t d).2.sessions = t.sessions ∨
    ∃ id, (handleSecure cfg t d).2.sessions = (getSession t.sessions id d.now).2 := by
  rw [handleSecure]
  split
  · exact .inl rfl
  rename_i m _
  split
  · rename_i got
    exact .inr ⟨m.sessionID,(congrArg Prod.snd got).symm⟩
  · rename_i got
    dsimp only
    split_ifs <;> exact .inr ⟨m.sessionID,(congrArg Prod.snd got).symm⟩

theorem Held.deliver (held : Held t session) (cfg : TransportConfig) (ds : List Delivery) : Held (deliver cfg t ds) session := by
  induction ds generalizing t with
  | nil => exact held
  | cons d ds ih =>
    refine ih ?_
    rcases handleSecure_sessions cfg t d with same | ⟨id,changed⟩
    · rw [Held,same]
      exact held
    rw [Held,changed]
    rcases getSession_held t.sessions (hexText session.id.1) id d.now with same | gone
    · rcases held with there | absent
      · exact .inl (same.trans there)
      · exact .inr (same.trans absent)
    · exact .inr gone

variable (decoded : decodeRequestEnvelope d.raw (cfg.maxBody+65536) = some m) (mine : m.sessionID = session.id)
include decoded mine

theorem handleSecure_lost (lost : getSession t.sessions session.id d.now = (.error e,sessions)) : passes cfg t d = false := by
  rw [passes,handleSecure,decoded]
  simp only [mine,lost]
  rfl

theorem handleSecure_open (there : t.sessions.data.get (sessionKey session.id) = some ⟨.session session,none⟩) (going : d.now < session.expiresAt) :
    handleSecure cfg t d =
      if ¬timely cfg session m d.now then (.authFailure,t)
      else if ¬cfg.skipDeviceStatusCheck ∧ ¬(getDevice t.devices session.deviceID d.now).isOk then (.authFailure,t)
      else if ¬d.opens then (.authFailure,t)
      else ((replayChecks cfg t.replay session.id m d.checked).1,{t with replay := (replayChecks cfg t.replay session.id m d.checked).2}) := by
  have got : getSession t.sessions session.id d.now = (.ok session,t.sessions) := by
    rw [getSession,find_lasting there]
    exact if_neg (by lia)
  rw [handleSecure,decoded]
  simp [mine,got]

theorem passes_inv (held : Held t session) (passed : passes cfg t d = true) : Admitted cfg session m d ∧
    replayChecks cfg t.replay session.id m d.checked = (.passed m,(handleSecure cfg t d).2.replay) := by
  rcases held with there | absent
  · by_cases going : d.now < session.expiresAt
    · have opened := handleSecure_open decoded mine there going
      rw [passes] at passed
      split at opened
      · rw [opened] at passed
        cases passed
      rename_i timely
      split at opened
      · rw [opened] at passed
        cases passed
      split at opened
      · rw [opened] at passed
        cases passed
      · rename_i opens
        rw [opened] at passed ⊢
        exact ⟨⟨Decidable.not_not.mp opens,Decidable.not_not.mp timely⟩,Prod.ext (replayChecks_passed passed) rfl⟩
    · have got : getSession t.sessions session.id d.now = (.error .sessionNotFound,expireSession t.sessions session (hexText session.id.1) d.now) := by
        rw [getSession,find_lasting there]
        exact if_pos (by lia)
      rw [handleSecure_lost decoded mine got] at passed
      cases passed
  · have got : getSession t.sessions session.id d.now = (.error .sessionNotFound,t.sessions) := by rw [getSession,find_absent absent]
    rw [handleSecure_lost decoded mine got] at passed
    cases passed
end

-- The session is open, its device is known and not revoked, and no request has come yet.
structure Opened (t : Transport) (session : Session) : Prop where
  stored : t.sessions.data.get (sessionKey session.id) = some ⟨.session session,none⟩
  device : ∃ device, t.devices.data.get (deviceKey session.deviceID) = some ⟨device,none⟩ ∧ device.revokedAt = none
  replay : t.replay = {}

theorem keys_apart (session request : ID16) (sequence : Nat) : requestIDKey session request ≠ sequenceKey session sequence := by
  intro same
  have ninth := congrArg (fun key => key[8]?) same
  simp [requestIDKey,sequenceKey,ascii] at ninth

def Clear (store : ReplayStore) (since : Int) : Prop := ∀ key t, since ≤ t → store.find key t = none

theorem clear_put (clear : Clear store since) (later : since ≤ now+ttl) (positive : 0 < ttl) (key : Bytes) :
    Clear (store.put key () ttl now) (now+ttl) := by
  intro key' t ended
  by_cases same : key' = key
  · rw [same,find_put_self positive,if_neg (by lia)]
  · rw [find_put_ne ttl now t same]
    exact clear key' t (by lia)

theorem replayChecks_free (cfg : TransportConfig) (session : ID16) (m : RequestEnvelope) (clear : Clear store now)
    (room : (store.data.keys.length+1 : Int) < replayCapacity cfg.maxReplayEntries) :
    ∃ store', replayChecks cfg store session m now = (.passed m,store') ∧ store'.data.keys.length ≤ store.data.keys.length+2 ∧
      Clear store' (now+max 0 (sub (replayExpiry cfg m) now)) := by
  have free := clear (sequenceKey session m.sequence) now (le_refl now)
  have free' := clear (requestIDKey session m.requestID) now (le_refl now)
  by_cases ended : sub (replayExpiry cfg m) now ≤ 0
  · refine ⟨store,?_,by lia,fun key t later => clear key t (by lia)⟩
    rw [replayChecks,check_free free,if_pos ended]
    simp only
    rw [check_free free',if_pos ended]
  · have small := store.size_le now
    generalize middle : store.put (sequenceKey session m.sequence) () (sub (replayExpiry cfg m) now) now = store'
    have keys : store'.data.keys.length ≤ store.data.keys.length+1 := middle ▸ keys_put _ now
    have small' := store'.size_le now
    have still : store'.find (requestIDKey session m.requestID) now = none := by
      rw [← middle,find_put_ne _ now now (keys_apart session m.requestID m.sequence)]
      exact free'
    have clear' : Clear store' (now+sub (replayExpiry cfg m) now) := middle ▸ clear_put clear (by lia) (by lia) _
    refine ⟨store'.put (requestIDKey session m.requestID) () (sub (replayExpiry cfg m) now) now,?_,?_,?_⟩
    · rw [replayChecks,check_free free,if_neg ended,if_neg (by lia),middle]
      simp only
      rw [check_free still,if_neg ended,if_neg (by lia)]
    · have more := keys_put (s := store') (k := requestIDKey session m.requestID) (v := ()) (sub (replayExpiry cfg m) now) now
      lia
    · rw [max_eq_right (by lia)]
      exact clear_put clear' (le_refl _) (by lia) _

theorem passes_open
    (decoded : decodeRequestEnvelope d.raw (cfg.maxBody+65536) = some m) (mine : m.sessionID = session.id)
    (there : t.sessions.data.get (sessionKey session.id) = some ⟨.session session,none⟩)
    (device : ∃ device, t.devices.data.get (deviceKey session.deviceID) = some ⟨device,none⟩ ∧ device.revokedAt = none)
    (admitted : Admitted cfg session m d) (passed : replayChecks cfg t.replay session.id m d.checked = (.passed m,replay)) :
    handleSecure cfg t d = (.passed m,{t with replay := replay}) := by
  obtain ⟨device,known,active⟩ := device
  obtain ⟨opens,timely⟩ := admitted
  have going : d.now < session.expiresAt := by
    rw [SecureTransport.timely] at timely
    simp only [Bool.and_eq_true,decide_eq_true_eq] at timely
    exact timely.1.1.1.1
  have lives : (getDevice t.devices session.deviceID d.now).isOk = true := by
    rw [getDevice,find_lasting known]
    simp only [active]
    rfl
  rw [handleSecure_open decoded mine there going,if_neg (not_not_intro timely),if_neg fun both => both.2 lives,if_neg (not_not_intro opens),passed]

-- Two deliveries that share a sequence number or a request ID are not both let through, in any run, where one of them fails the checks before
-- or the second comes before the end of the first one's markers.
theorem replay_refused_iff (c : TransportConfig) {t : Transport} {session : Session} (opened : Opened t session)
    (room : 4 ≤ replayCapacity c.maxReplayEntries) {a b : Delivery} {m n : RequestEnvelope}
    (first : decodeRequestEnvelope a.raw (c.new.maxBody+65536) = some m) (second : decodeRequestEnvelope b.raw (c.new.maxBody+65536) = some n)
    (mine : m.sessionID = session.id) (yours : n.sessionID = session.id) (shared : m.sequence = n.sequence ∨ m.requestID = n.requestID)
    (order : a.checked ≤ b.checked) :
    (∀ before between, (before ++ a :: (between ++ [b])).Pairwise (fun d e => d.checked ≤ e.checked) →
      ¬(passes c.new (deliver c.new t before) a = true ∧ passes c.new (deliver c.new t (before ++ a :: between)) b = true)) ↔
    (Admitted c.new session m a → Admitted c.new session n b → b.checked < a.checked+sub (replayExpiry c.new m) a.checked) := by
  constructor
  · intro never admitted admitted'
    by_contra late
    -- The two alone, one after the other.
    have clear : Clear t.replay a.checked := by
      rw [opened.replay]
      exact fun key time _ => find_empty key time
    have none : t.replay.data.keys.length = 0 := by
      rw [opened.replay]
      rfl
    obtain ⟨replay,checks,keys,clear'⟩ := replayChecks_free c.new session.id m clear (by rw [none]; exact Int.lt_of_lt_of_le (by decide) room)
    have passed := passes_open first mine opened.stored opened.device admitted checks
    have clear : Clear replay b.checked := fun key time later => clear' key time (by lia)
    obtain ⟨replay',checks',-⟩ := replayChecks_free c.new session.id n clear
      (Int.lt_of_lt_of_le (by lia : (replay.data.keys.length+1 : Int) < 4) room)
    have passed' := passes_open (t := {t with replay := replay}) second yours opened.stored opened.device admitted' checks'
    refine never [] [] (by simpa using order) ⟨?_,?_⟩
    · rw [passes]
      show (handleSecure c.new t a).1.isPassed = true
      rw [passed]
      rfl
    · rw [passes]
      show (handleSecure c.new (handleSecure c.new t a).2 b).1.isPassed = true
      rw [passed,passed']
      rfl
  · rintro early before between - ⟨passed,passed'⟩
    have held : Held t session := .inl opened.stored
    obtain ⟨admitted,checks⟩ := passes_inv first mine (held.deliver c.new before) passed
    obtain ⟨admitted',checks'⟩ := passes_inv second yours (held.deliver c.new (before ++ a :: between)) passed'
    have left := early admitted admitted'
    obtain ⟨sequence,request⟩ := passed_marks checks (by lia)
    have run : deliver c.new t (before ++ a :: between) = deliver c.new (handleSecure c.new (deliver c.new t before) a).2 between := by
      rw [deliver,List.foldl_append,List.foldl_cons]
      rfl
    rw [run] at checks'
    refine marked_refuses (m := n) ?_ left c.new (congrArg Prod.fst checks')
    rcases shared with same | same
    · exact .inl (same ▸ holds_deliver sequence c.new between)
    · exact .inr (same ▸ holds_deliver request c.new between)

def phoneTransport : Transport :=
  {sessions := (createSession {} {phoneSession with expiresAt := 900000000000} 10).2, devices := (registerDevice {} phone 0).2}

def phoneRequest (now checked : Int) : Delivery where
  raw := ascii "FHR1" ++ [1] ++ List.replicate 16 2 ++ List.replicate 16 5 ++ WebSocket.putUint 8 1 ++ WebSocket.putUint 8 1000 ++
    WebSocket.putUint 8 61000 ++ List.replicate 12 0 ++ WebSocket.putUint 4 0
  opens := true
  now := now
  checked := checked

theorem phoneTransport_opened : Opened phoneTransport {phoneSession with expiresAt := 900000000000} where
  stored := by decide
  device := ⟨phone,by decide,rfl⟩
  replay := rfl

def phoneEnvelope : RequestEnvelope where
  sessionID := phoneSession.id
  requestID := ⟨List.replicate 16 5,rfl⟩
  sequence := 1
  issuedAt := 1000
  expiresAt := 61000
  nonce := List.replicate 12 0
  ciphertext := []

theorem phoneRequest_decodes (now checked : Int) :
    decodeRequestEnvelope (phoneRequest now checked).raw (({} : TransportConfig).new.maxBody+65536) = some phoneEnvelope := by
  show decodeRequestEnvelope (phoneRequest 0 0).raw _ = _
  decide

theorem early_copy_refused : ¬(passes ({} : TransportConfig).new (deliver ({} : TransportConfig).new phoneTransport []) (phoneRequest 2000000000 2000500000) = true ∧
    passes ({} : TransportConfig).new (deliver ({} : TransportConfig).new phoneTransport ([] ++ phoneRequest 2000000000 2000500000 :: []))
      (phoneRequest 3000000000 3000500000) = true) :=
  (replay_refused_iff {} phoneTransport_opened (by decide) (phoneRequest_decodes 2000000000 2000500000) (phoneRequest_decodes 3000000000 3000500000)
    rfl rfl (.inl rfl) (by decide)).mpr (fun _ _ => by decide) [] [] (by decide)

-- The copy is validated in the last millisecond of the request and checked when the markers have gone.
theorem expiring_request_accepted_twice :
    passes ({} : TransportConfig).new phoneTransport (phoneRequest 2000000000 2000500000) = true ∧
      passes ({} : TransportConfig).new (deliver ({} : TransportConfig).new phoneTransport [phoneRequest 2000000000 2000500000])
        (phoneRequest 90999000000 91001000000) = true := by
  decide
end FhServer.SecureTransport

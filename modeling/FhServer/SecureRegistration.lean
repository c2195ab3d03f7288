import FhServer.SecureReplay

namespace FhServer.SecureTransport
open GoBytes List RegistrationAnswer

def RegistrationAnswer.isRegistered : RegistrationAnswer → Bool
  | .registered _ => true
  | _ => false

def registrations (cfg : TransportConfig) (body : Bytes) : Transport → List Registration → List RegistrationAnswer
  | _,[] => []
  | t,d :: ds => (handleRegistration cfg t body d).1 :: registrations cfg body (handleRegistration cfg t body d).2 ds

def Eligible (cfg : TransportConfig) (request : DeviceRegistrationRequest) (d : Registration) : Prop :=
  d.originOk = true ∧ registrationTimely cfg request d.now = true ∧ d.principal.isSome = true

-- The end of the marker that is left for a delivery that is honoured.
def markerEnd (cfg : TransportConfig) (d : Registration) : Int := d.checked+sub (d.now+cfg.handshakeTTL.toInt) d.checked

-- Of two deliveries that could be honoured the later one comes within the lifetime of the earlier one's marker.
def InTime (cfg : TransportConfig) (body : Bytes) (ds : List Registration) : Prop :=
  ∀ request, body.length ≤ 4096 → decodeDeviceRegistrationRequest body = some request →
    ds.Pairwise fun d e => Eligible cfg request d → Eligible cfg request e → e.checked < markerEnd cfg d

-- NewID returns names that no device has, and the clock shows years that have a text.
structure Fresh (devices : DeviceStore) (ds : List Registration) : Prop where
  distinct : ds.Pairwise fun d e => d.id ≠ e.id
  unused : ∀ d ∈ ds, ∃ id, d.id = some id ∧ devices.data.get (deviceKey id) = none
  dated : ∀ d ∈ ds, hasText d.now = true

theorem deviceKey_injective (same : deviceKey a = deviceKey b) : a = b := Subtype.ext (hexText_injective (append_cancel_left same))

theorem markerEnd_mono {d e : Registration} (cfg : TransportConfig) (now : d.now ≤ e.now) (checked : d.checked ≤ e.checked) :
    markerEnd cfg d ≤ markerEnd cfg e := by
  simp only [markerEnd,sub]
  lia

theorem registerDevice_new {store : DeviceStore} {device kept : Device} (unused : store.data.get (deviceKey device.id) = none)
    (text : device.stored = some kept) (now : Int) : registerDevice store device now = (none,store.put (deviceKey device.id) kept 0 now) := by
  rw [registerDevice,TimedStore.mutate_stored]
  rw [TimedStore.find_absent unused,text]
  rfl

section
variable {cfg : TransportConfig} {t : Transport} {body : Bytes} {d : Registration} {request : DeviceRegistrationRequest}
section
variable (bad : 4096 < body.length ∨ decodeDeviceRegistrationRequest body = none) (t : Transport)
include bad

theorem undecoded (d : Registration) :
    (handleRegistration cfg t body d).1.isRegistered = false := by
  rw [handleRegistration]
  split
  · rfl
  split
  · rfl
  · rename_i short
    rw [bad.resolve_left short]
    rfl

theorem undecoded_none (ds : List Registration) :
    ∀ a ∈ registrations cfg body t ds, ¬a.isRegistered = true := by
  induction ds generalizing t with
  | nil => exact nofun
  | cons d ds ih =>
    intro a mem
    rcases mem_cons.mp mem with rfl | later
    · rw [undecoded bad t d]
      exact Bool.false_ne_true
    · exact ih _ a later
end

theorem honour_live (found : (t.replay.find (registrationKey request.nonce) d.checked).isSome = true) :
    honourRegistration cfg t request principal d = (.replay,t) := by
  rw [honourRegistration,check_live found]

theorem honour_replay : (honourRegistration cfg t request principal d).2.replay =
    (checkAndStoreReplay t.replay cfg.maxReplayEntries (registrationKey request.nonce) (d.now+cfg.handshakeTTL.toInt) d.checked).2 := by
  rw [honourRegistration]
  split
  · rename_i checked
    rw [checked]
    split
    · rfl
    dsimp only
    split
    · rfl
    · rfl
  · rename_i checked
    rw [checked]

theorem honour_marks (lasts : d.checked < markerEnd cfg d)
    (registered : (honourRegistration cfg t request principal d).1.isRegistered = true) :
    (honourRegistration cfg t request principal d).2.replay.Holds (registrationKey request.nonce) (markerEnd cfg d) := by
  rw [honour_replay]
  rw [honourRegistration] at registered
  split at registered
  · rename_i replay checked
    rw [checked]
    rw [markerEnd] at lasts
    exact check_marks checked (by lia)
  · cases registered

theorem honour_free (cfg : TransportConfig) (request : DeviceRegistrationRequest) (principal : Bytes) {id : ID16} (clear : Clear t.replay d.checked)
    (drawn : d.id = some id) (unused : t.devices.data.get (deviceKey id) = none) (dated : hasText d.now = true) :
    ∃ t', honourRegistration cfg t request principal d = (.registered id,t') ∧ Clear t'.replay (max d.checked (markerEnd cfg d)) ∧
      ∀ other, other ≠ id → t'.devices.data.get (deviceKey other) = t.devices.data.get (deviceKey other) := by
  have free := clear (registrationKey request.nonce) d.checked (le_refl _)
  have empty := TimedStore.size_eq_zero fun key => clear key d.checked (le_refl _)
  have room : 0 < replayCapacity cfg.maxReplayEntries := by
    rw [replayCapacity]
    split
    · decide
    · lia
  obtain ⟨replay,passes,ends⟩ : ∃ replay, checkAndStoreReplay t.replay cfg.maxReplayEntries (registrationKey request.nonce)
      (d.now+cfg.handshakeTTL.toInt) d.checked = (.ok true,replay) ∧ Clear replay (max d.checked (markerEnd cfg d)) := by
    rw [check_free free,empty,markerEnd]
    split_ifs with ended full
    · exact ⟨t.replay,rfl,fun key time later => clear key time (by lia)⟩
    · lia
    · refine ⟨_,rfl,?_⟩
      rw [max_eq_right (by lia)]
      exact clear_put clear (by lia) (by lia) _
  obtain ⟨kept,text⟩ : ∃ kept, (newDevice request id principal d.now).stored = some kept := by
    rw [Device.stored,if_pos]
    · exact ⟨_,rfl⟩
    · simp [newDevice,dated]
  refine ⟨{t with replay := replay, devices := t.devices.put (deviceKey id) kept 0 d.checked},?_,ends,?_⟩
  · rw [honourRegistration,passes]
    simp only [drawn]
    rw [registerDevice_new unused text]
    rfl
  · intro other apart
    exact TimedStore.get_put_ne 0 d.checked fun same => apart (deviceKey_injective same)

variable (short : body.length ≤ 4096) (decoded : decodeDeviceRegistrationRequest body = some request)
include short decoded

theorem ineligible (not : ¬Eligible cfg request d) (t : Transport) :
    (handleRegistration cfg t body d).1.isRegistered = false ∧ (handleRegistration cfg t body d).2 = t := by
  rw [handleRegistration,decoded]
  split
  · exact ⟨rfl,rfl⟩
  rename_i origin
  rw [if_neg (by lia)]
  simp only
  split
  · exact ⟨rfl,rfl⟩
  rename_i timely
  split
  · exact ⟨rfl,rfl⟩
  · rename_i principal named
    exact absurd ⟨Decidable.not_not.mp origin,Decidable.not_not.mp timely,by rw [named]; rfl⟩ not

theorem eligible (meets : Eligible cfg request d) (t : Transport) :
    ∃ principal, handleRegistration cfg t body d = honourRegistration cfg t request principal d := by
  obtain ⟨origin,timely,named⟩ := meets
  obtain ⟨principal,named⟩ := Option.isSome_iff_exists.mp named
  refine ⟨principal,?_⟩
  rw [handleRegistration,decoded,if_neg (not_not_intro origin),if_neg (by lia)]
  simp only
  rw [if_neg (not_not_intro timely),named]

theorem none_registered
    (live : ∀ d ∈ ds, Eligible cfg request d → (t.replay.find (registrationKey request.nonce) d.checked).isSome = true) :
    ∀ a ∈ registrations cfg body t ds, ¬a.isRegistered = true := by
  induction ds with
  | nil => exact nofun
  | cons d ds ih =>
    have step : (handleRegistration cfg t body d).1.isRegistered = false ∧ (handleRegistration cfg t body d).2 = t := by
      by_cases meets : Eligible cfg request d
      · obtain ⟨principal,same⟩ := eligible short decoded meets t
        rw [same,honour_live (live d mem_cons_self meets)]
        exact ⟨rfl,rfl⟩
      · exact ineligible short decoded meets t
    intro a inside
    rw [registrations,step.2] at inside
    rcases mem_cons.mp inside with rfl | later
    · rw [step.1]
      exact Bool.false_ne_true
    · exact ih (fun e mem => live e (mem_cons_of_mem d mem)) a later

theorem registered_once (t : Transport) (ordered : ds.Pairwise fun d e => d.checked ≤ e.checked)
    (inTime : ds.Pairwise fun d e => Eligible cfg request d → Eligible cfg request e → e.checked < markerEnd cfg d) :
    (registrations cfg body t ds).countP isRegistered ≤ 1 := by
  induction ds generalizing t with
  | nil => exact Nat.zero_le 1
  | cons d ds ih =>
    obtain ⟨after,later⟩ := pairwise_cons.mp inTime
    obtain ⟨order,ordered⟩ := pairwise_cons.mp ordered
    rw [registrations,countP_cons]
    by_cases registered : (handleRegistration cfg t body d).1.isRegistered = true
    · by_cases meets : Eligible cfg request d
      · obtain ⟨principal,same⟩ := eligible short decoded meets t
        have live : ∀ e ∈ ds, Eligible cfg request e →
            ((handleRegistration cfg t body d).2.replay.find (registrationKey request.nonce) e.checked).isSome = true := by
          intro e inside allowed
          have early := after e inside meets allowed
          rw [same] at registered ⊢
          exact honour_marks (Int.lt_of_le_of_lt (order e inside) early) registered e.checked early
        rw [countP_eq_zero.mpr (none_registered short decoded live),if_pos registered]
      · rw [(ineligible short decoded meets t).1] at registered
        cases registered
    · rw [if_neg registered]
      exact ih _ ordered later

theorem late_registered (unused : ∀ d ∈ ds, ∃ id, d.id = some id ∧ t.devices.data.get (deviceKey id) = none)
    (dated : ∀ d ∈ ds, hasText d.now = true) (clear : ∀ d ∈ ds, ends ≤ d.checked → Clear t.replay d.checked)
    (live : ∀ d ∈ ds, d.checked < ends → (t.replay.find (registrationKey request.nonce) d.checked).isSome = true)
    (late : ∃ d ∈ ds, Eligible cfg request d ∧ ends ≤ d.checked) : 0 < (registrations cfg body t ds).countP isRegistered := by
  induction ds with
  | nil =>
    obtain ⟨d,inside,-⟩ := late
    cases inside
  | cons d ds ih =>
    rw [registrations,countP_cons]
    by_cases now : Eligible cfg request d ∧ ends ≤ d.checked
    · obtain ⟨meets,ended⟩ := now
      obtain ⟨principal,same⟩ := eligible short decoded meets t
      obtain ⟨id,drawn,new⟩ := unused d mem_cons_self
      obtain ⟨t',honoured,-⟩ := honour_free cfg request principal (clear d mem_cons_self ended) drawn new (dated d mem_cons_self)
      rw [same,honoured]
      exact Nat.succ_pos _
    · have step : (handleRegistration cfg t body d).2 = t := by
        by_cases meets : Eligible cfg request d
        · obtain ⟨principal,same⟩ := eligible short decoded meets t
          have early : d.checked < ends := by
            by_contra ended
            exact now ⟨meets,by lia⟩
          rw [same,honour_live (live d mem_cons_self early)]
        · exact (ineligible short decoded meets t).2
      obtain ⟨e,inside,meets⟩ := late
      have rest : e ∈ ds := by
        rcases mem_cons.mp inside with rfl | rest
        · exact absurd meets now
        · exact rest
      have found := ih (fun e mem => unused e (mem_cons_of_mem d mem)) (fun e mem => dated e (mem_cons_of_mem d mem))
        (fun e mem => clear e (mem_cons_of_mem d mem)) (fun e mem => live e (mem_cons_of_mem d mem)) ⟨e,rest,meets⟩
      lia

theorem once_inTime {ds : List Registration} (ordered : ds.Pairwise fun d e => d.checked ≤ e.checked)
    (validated : ds.Pairwise fun d e => d.now ≤ e.now) (clear : ∀ since, Clear t.replay since) (fresh : Fresh t.devices ds)
    (once : (registrations cfg body t ds).countP isRegistered ≤ 1) :
    ds.Pairwise fun d e => Eligible cfg request d → Eligible cfg request e → e.checked < markerEnd cfg d := by
  induction ds with
  | nil => exact .nil
  | cons d ds ih =>
    obtain ⟨after,ordered⟩ := pairwise_cons.mp ordered
    obtain ⟨after',validated⟩ := pairwise_cons.mp validated
    obtain ⟨others,distinct⟩ := pairwise_cons.mp fresh.distinct
    have unused := fun e mem => fresh.unused e (mem_cons_of_mem d mem)
    have dated := fun e mem => fresh.dated e (mem_cons_of_mem d mem)
    rw [registrations,countP_cons] at once
    by_cases meets : Eligible cfg request d
    · obtain ⟨principal,same⟩ := eligible short decoded meets t
      obtain ⟨id,drawn,new⟩ := fresh.unused d mem_cons_self
      obtain ⟨t',honoured,ends,devices⟩ := honour_free cfg request principal (clear d.checked) drawn new (fresh.dated d mem_cons_self)
      have live : ∀ e ∈ ds, e.checked < markerEnd cfg d → (t'.replay.find (registrationKey request.nonce) e.checked).isSome = true := by
        intro e inside early
        have registered : (honourRegistration cfg t request principal d).1.isRegistered = true := by
          rw [honoured]
          rfl
        have marks := honour_marks (Int.lt_of_le_of_lt (after e inside) early) registered
        rw [honoured] at marks
        exact marks e.checked early
      rw [same,honoured] at once
      have alone : (registrations cfg body t' ds).countP isRegistered+1 ≤ 1 := once
      have unused' : ∀ e ∈ ds, ∃ id, e.id = some id ∧ t'.devices.data.get (deviceKey id) = none := by
        intro e inside
        obtain ⟨id',drawn',new'⟩ := unused e inside
        refine ⟨id',drawn',(devices id' fun same => ?_).trans new'⟩
        exact others e inside (by rw [drawn,drawn',same])
      have free : ∀ e ∈ ds, markerEnd cfg d ≤ e.checked → Clear t'.replay e.checked := by
        intro e inside late key time later
        exact ends key time (max_le ((after e inside).trans later) (late.trans later))
      have early : ∀ e ∈ ds, Eligible cfg request e → e.checked < markerEnd cfg d := by
        intro e inside allowed
        by_contra late
        have again := late_registered short decoded unused' dated free live ⟨e,inside,allowed,by lia⟩
        lia
      refine pairwise_cons.mpr ⟨fun e inside _ => early e inside,?_⟩
      refine ordered.imp_of_mem fun {e f} inside inside' _ _ allowed => ?_
      exact Int.lt_of_lt_of_le (early f inside' allowed) (markerEnd_mono cfg (after' e inside) (after e inside))
    · rw [(ineligible short decoded meets t).1,(ineligible short decoded meets t).2,if_neg Bool.false_ne_true] at once
      exact pairwise_cons.mpr ⟨fun e inside allowed => absurd allowed meets,ih ordered validated ⟨distinct,unused,dated⟩ (by lia)⟩
end

-- A body is honoured once where its deliveries are in time. With fresh names from NewID it is honoured once only there.
theorem registration_once_iff (c : TransportConfig) (t : Transport) (body : Bytes) (ds : List Registration)
    (ordered : ds.Pairwise fun d e => d.checked ≤ e.checked) :
    (InTime c.new body ds → (registrations c.new body t ds).countP isRegistered ≤ 1) ∧
      (t.replay = {} → Fresh t.devices ds → (ds.Pairwise fun d e => d.now ≤ e.now) →
        ((registrations c.new body t ds).countP isRegistered ≤ 1 ↔ InTime c.new body ds)) := by
  have enough : InTime c.new body ds → (registrations c.new body t ds).countP isRegistered ≤ 1 := by
    intro inTime
    by_cases bad : 4096 < body.length ∨ decodeDeviceRegistrationRequest body = none
    · rw [countP_eq_zero.mpr (undecoded_none bad t ds)]
      exact Nat.zero_le 1
    · obtain ⟨short,some⟩ := not_or.mp bad
      obtain ⟨request,decoded⟩ := Option.ne_none_iff_exists'.mp some
      exact registered_once (Nat.le_of_not_lt short) decoded t ordered (inTime request (Nat.le_of_not_lt short) decoded)
  refine ⟨enough,fun unmarked fresh validated => ⟨fun once request short decoded => ?_,enough⟩⟩
  exact once_inTime short decoded ordered validated (fun since key time _ => by rw [unmarked]; rfl) fresh once

def tabletBody : Bytes :=
  ascii "FHD1" ++ [1] ++ WebSocket.putUint 8 100000 ++ replicate 16 9 ++ replicate 32 7 ++ WebSocket.putUint 2 6 ++ ascii "tablet"

def tabletDelivery (now : Int) (id : UInt8) : Registration :=
  {now := now, checked := now+1000000, originOk := true, principal := some (ascii "ann"), id := some ⟨replicate 16 id,rfl⟩}

theorem tablet_fresh : Fresh ({} : DeviceStore) [tabletDelivery 70000000000 1,tabletDelivery 180000000000 2] where
  distinct := by decide
  unused := by
    intro d mem
    simp only [mem_cons,not_mem_nil,or_false] at mem
    rcases mem with rfl | rfl
    · exact ⟨_,rfl,rfl⟩
    · exact ⟨_,rfl,rfl⟩
  dated := by decide

theorem tablet_registered_once :
    (registrations ({} : TransportConfig).new tabletBody {} [tabletDelivery 70000000000 1,tabletDelivery 180000000000 2]).countP
        isRegistered ≤ 1 ∧
      InTime ({} : TransportConfig).new tabletBody [tabletDelivery 70000000000 1,tabletDelivery 180000000000 2] := by
  have inTime : InTime ({} : TransportConfig).new tabletBody [tabletDelivery 70000000000 1,tabletDelivery 180000000000 2] := by
    intro request _ _
    simp only [pairwise_cons,mem_singleton,not_mem_nil,false_implies,implies_true,List.Pairwise.nil,and_true,forall_eq]
    intro _ _
    decide
  have both := registration_once_iff {} {} tabletBody [tabletDelivery 70000000000 1,tabletDelivery 180000000000 2] (by decide)
  exact ⟨both.1 inTime,(both.2 rfl tablet_fresh (by decide)).mp (both.1 inTime)⟩

-- The clock of the client is ahead by the skew that is allowed: the marker has gone two minutes after the first delivery, and the request
-- is good for another minute.
theorem tablet_registered_twice :
    (registrations ({} : TransportConfig).new tabletBody {} [tabletDelivery 70000000000 1,tabletDelivery 190000000000 2]).countP
      isRegistered = 2 := by
  decide
end FhServer.SecureTransport

import FhServer.Webhook

namespace FhServer.Signature
open GoBytes SecureTransport Webhook List TimedStore

structure Config where
  scheme : Bytes := []
  tolerance : Int64 := 0

def Config.new (c : Config) : Config :=
  ⟨if c.scheme = [] then ascii "sha256=" else c.scheme,if c.tolerance ≤ 0 then 300000000000 else c.tolerance⟩

-- The secrets are those of the configuration, or what Resolve gives for the request.
structure Request where
  signature : Bytes
  timestamp : Bytes := []
  body : Bytes := []
  secrets : List Bytes := []
  now : Int

inductive SignatureError
  | missing
  | badTimestamp
  | stale
  | replayed
  | invalid
deriving DecidableEq

section
variable (std : Stdlib) (cfg : Config)

def combinedPart (found : Bytes × Bytes) (part : Bytes) : Bytes × Bytes :=
  let part := trimSpace part
  if part.contains 61 then
    let key := std.lower.lower (trimSpace (before part 61))
    let val := trimSpace (part.drop ((before part 61).length+1))
    if key = ascii "t" then (val,found.2) else if key = ascii "sig" ∨ key = ascii "v1" then (found.1,val) else found
  else found

def parseCombinedSignature (value : Bytes) : Option (Bytes × Bytes) :=
  let found := (value.splitOn 44).foldl (combinedPart std) ([],[])
  if found.1 ≠ [] ∧ found.2 ≠ [] then some found else none

def parts (r : Request) : Bytes × Bytes :=
  let sig := trimSpace r.signature
  let (ts,sig) := ((parseCombinedSignature std sig).map fun found => (if r.timestamp = [] then found.1 else r.timestamp,found.2)).getD (r.timestamp,sig)
  (ts,if cfg.scheme.isPrefixOf sig then sig.drop cfg.scheme.length else sig)

-- time.Unix keeps the seconds since the year 1 in an int64.
def parseTimestamp (value : Bytes) : Option Int :=
  match parseInt10 value with
  | some unix => some (((unix+62135596800).bmod (2^64)-62135596800)*1000000000)
  | none => std.rfc3339 value

-- New up to the replay store: the key of the marker and its time to live. The negation of the least duration is itself.
def authenticate (r : Request) : Except SignatureError (Bytes × Int) :=
  let (ts,sig) := parts std cfg r
  if ts = [] ∨ sig = [] then .error .missing
  else match parseTimestamp std ts with
    | none => .error .badTimestamp
    | some when =>
      let delta := sub r.now when
      if delta ≠ -2^63 ∧ cfg.tolerance.toInt < |delta| then .error .stale
      else if r.secrets.any fun secret => sig = std.mac .sha256 secret (ts ++ [46] ++ r.body) then
        let ttl := sub (when+cfg.tolerance.toInt) r.now
        if ttl ≤ 0 then .error .replayed else .ok (marker sig ts,ttl)
      else .error .invalid

def deliver (store : ReplayStore) (r : Request) : Except SignatureError Unit × ReplayStore :=
  match authenticate std cfg r with
  | .error e => (.error e,store)
  | .ok (key,ttl) => if (store.find key r.now).isSome then (.error .replayed,store) else (.ok (),store.put key () ttl r.now)

def handle (rs : List Request) : ReplayStore := rs.foldl (fun store r => (deliver std cfg store r).2) {}

def reaches (earlier : List Request) (r : Request) : Prop := (deliver std cfg (handle std cfg earlier) r).1 = .ok ()
end
variable {std : Stdlib} {cfg : Config} {store : ReplayStore}

theorem authentic_positive (authentic : authenticate std cfg r = .ok (key,ttl)) : 0 < ttl := by
  simp only [authenticate] at authentic
  grind

theorem delivered_iff : (deliver std cfg store r).1 = .ok () ↔
    ∃ key ttl, authenticate std cfg r = .ok (key,ttl) ∧ store.find key r.now = none ∧ (deliver std cfg store r).2 = store.put key () ttl r.now := by
  unfold deliver
  cases authenticate std cfg r with
  | error e => simp
  | ok marked =>
    obtain ⟨key,ttl⟩ := marked
    cases found : store.find key r.now <;> simp [found]

theorem holds_deliver (holds : store.Holds key ends) (r : Request) : (deliver std cfg store r).2.Holds key ends := by
  unfold deliver
  split
  · exact holds
  rename_i authentic
  split
  · exact holds
  · rename_i absent
    exact holds.put () (authentic_positive authentic) (by simpa using absent)

theorem holds_run (rs : List Request) (holds : store.Holds key ends) : (rs.foldl (fun store r => (deliver std cfg store r).2) store).Holds key ends := by
  induction rs generalizing store with
  | nil => exact holds
  | cons r rs ih => exact ih (holds_deliver holds r)

def Signed (std : Stdlib) (cfg : Config) (a b : Request) : Prop := (parts std cfg a).1 = (parts std cfg b).1 ∧ a.body = b.body

-- Two requests with one signed timestamp and body do not both reach the handler, in any run, exactly where one of them is
-- not authentic, or they carry one signature and the marker of the first is still there.
theorem reached_once_iff (std : Stdlib) (c : Config) (a b : Request) :
    (Signed std c.new a b → ∀ before between, (before ++ a :: (between ++ [b])).Pairwise (fun r r' => r.now ≤ r'.now) →
      ¬(reaches std c.new before a ∧ reaches std c.new (before ++ a :: between) b)) ↔
    (Signed std c.new a b → a.now ≤ b.now →
      ∀ key ttl key' ttl', authenticate std c.new a = .ok (key,ttl) → authenticate std c.new b = .ok (key',ttl') → key = key' ∧ b.now < a.now+ttl) := by
  constructor
  · intro never signed order key ttl key' ttl' first second
    apply Classical.byContradiction
    intro apart
    have positive := authentic_positive first
    have marked : deliver std c.new {} a = (.ok (),put {} key () ttl a.now) := by simp [deliver,first,find_empty]
    apply never signed [] [] (by simpa using order)
    refine ⟨congrArg Prod.fst marked,?_⟩
    have free : (put {} key () ttl a.now).find key' b.now = none := by
      by_cases same : key' = key
      · rw [same,find_put_self positive]
        exact if_neg fun early => apart ⟨same.symm,early⟩
      · exact find_put_ne ttl a.now b.now same
    show (deliver std c.new (deliver std c.new {} a).2 b).1 = .ok ()
    rw [marked]
    simp [deliver,second,free]
  · intro condition signed before between ordered ⟨reached,again⟩
    have order : a.now ≤ b.now := (pairwise_cons.mp (pairwise_append.mp ordered).2.1).1 b (by simp)
    obtain ⟨key,ttl,first,-,stored⟩ := delivered_iff.mp reached
    obtain ⟨key',ttl',second,free,-⟩ := delivered_iff.mp again
    obtain ⟨rfl,early⟩ := condition signed order key ttl key' ttl' first second
    have put := holds_put (handle std c.new before) key () (authentic_positive first) a.now
    have holds : (between.foldl (fun store r => (deliver std c.new store r).2) _).Holds _ _ := holds_run between put
    rw [← stored] at holds
    have there := holds b.now early
    simp only [handle,foldl_append,foldl_cons] at free there
    rw [free] at there
    cases there

def toyStdlib : Stdlib := ⟨GoText.lowering,fun _ => none,fun _ secret _ => secret⟩

def ping (signature : Bytes) : Request := ⟨signature,ascii "100",ascii "ping",[ascii "ab",ascii "cd"],101000000000⟩

-- One timestamp and body, signed with either of the two secrets.
theorem reached_twice : Signed toyStdlib ({} : Config).new (ping (ascii "ab")) (ping (ascii "cd")) ∧
    reaches toyStdlib ({} : Config).new [] (ping (ascii "ab")) ∧ reaches toyStdlib ({} : Config).new [ping (ascii "ab")] (ping (ascii "cd")) := by
  unfold Signed reaches
  decide
end FhServer.Signature

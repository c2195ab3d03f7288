import FhServer.GoNumbers
import FhServer.TimedStore

namespace FhServer
open List TimedStore

-- Times and durations are in nanoseconds; what is stored comes back from JSON as it was.
namespace SlidingWindow

structure Limiter where
  rate : Int64
  burst : Int64
  windowSize : Int

variable (l : Limiter) (key : Bytes)

-- Whether the call is allowed, what remains of the rate, and when to try again. The call reads the clock before it has the
-- store, which then reads it again.
def allow (now checked : Int) (store : TimedStore Bytes (List Int)) : (Bool × Int64 × Int) × TimedStore Bytes (List Int) :=
  store.mutate key checked fun current =>
    let timestamps := (current.getD []).dropWhile (· < now-l.windowSize)
    if (l.rate+l.burst).toInt ≤ timestamps.length then
      ((false,0,(timestamps.head?.map fun oldest => max 0 (l.windowSize-(now-oldest))).getD 0),some (timestamps,l.windowSize*2))
    else ((true,l.rate-.ofNat timestamps.length-1,0),some (timestamps ++ [now],l.windowSize*2))

def run (store : TimedStore Bytes (List Int)) (calls : List (Int × Int)) : TimedStore Bytes (List Int) × List Int :=
  calls.foldl (fun s c => ((allow l key c.1 c.2 s.1).2,if (allow l key c.1 c.2 s.1).1.1 then s.2 ++ [c.1] else s.2)) (store,[])

structure Exact (store : TimedStore Bytes (List Int)) (calls : List (Int × Int)) : Prop where
  allowed : ∀ before t u, before ++ [(t,u)] <+: calls → ((allow l key t u (run l key store before).1).1.1 = true ↔
    ((run l key store before).2.countP fun a => t-l.windowSize ≤ a ∧ a ≤ t : Int) < l.rate.toInt+l.burst.toInt)
  bounded : ∀ a, ((run l key store calls).2.countP fun b => a ≤ b ∧ b ≤ a+l.windowSize : Int) ≤ max 0 (l.rate.toInt+l.burst.toInt)

-- The clock readings of the calls do not decrease, and each call has the store within a window.
structure Prompt (calls : List (Int × Int)) : Prop where
  ordered : (calls.map Prod.fst).Pairwise (· ≤ ·)
  soon : ∀ c ∈ calls, c.1 ≤ c.2 ∧ c.2 < c.1+l.windowSize

-- The entry that the calls up to time last have left, with all calls that were allowed.
structure Keeps (store : TimedStore Bytes (List Int)) (admitted : List Int) (last : Int) : Prop where
  sorted : admitted.Pairwise (· ≤ ·)
  past : ∀ a ∈ admitted, a ≤ last
  stored : (∃ ends ≥ last+l.windowSize*2, store.data.get key = some ⟨admitted.filter (last-l.windowSize ≤ ·),some ends⟩) ∨
    store.data.get key = none ∧ admitted = []

variable {l key} {store : TimedStore Bytes (List Int)} {admitted : List Int} {calls : List (Int × Int)} {last t u : Int}

theorem dropWhile_sorted (cutoff : Int) {times : List Int} (sorted : times.Pairwise (· ≤ ·)) :
    times.dropWhile (· < cutoff) = times.filter (cutoff ≤ ·) := by
  induction times with
  | nil => rfl
  | cons a times ih =>
    obtain ⟨least,rest⟩ := pairwise_cons.mp sorted
    by_cases old : a < cutoff
    · rw [dropWhile_cons_of_pos (by simpa using old),filter_cons_of_neg (by simpa using old),ih rest]
    · rw [dropWhile_cons_of_neg (by simpa using old),filter_eq_self.mpr]
      intro b mem
      rcases mem_cons.mp mem with rfl | later
      · simpa using old
      · have above := least b later
        exact decide_eq_true (by lia)

theorem Keeps.trimmed (keeps : Keeps l key store admitted last) (later : last ≤ t) (soon : u < t+l.windowSize) :
    ((store.find key u).getD []).dropWhile (· < t-l.windowSize) = admitted.filter (t-l.windowSize ≤ ·) := by
  rcases keeps.stored with ⟨ends,long,there⟩ | ⟨absent,rfl⟩
  · rw [find_ending there]
    split
    · rw [Option.getD_some,dropWhile_sorted _ (keeps.sorted.filter _),filter_filter]
      refine filter_congr fun a _ => ?_
      lia
    · refine (filter_eq_nil_iff.mpr fun a mem => ?_).symm
      have before := keeps.past a mem
      lia
  · rw [find_absent absent]
    rfl

theorem recent_count (keeps : Keeps l key store admitted last) (later : last ≤ t) :
    (admitted.filter (t-l.windowSize ≤ ·)).length = admitted.countP fun a => t-l.windowSize ≤ a ∧ a ≤ t := by
  rw [← countP_eq_length_filter]
  refine countP_congr fun a mem => ?_
  have before := keeps.past a mem
  lia

theorem Keeps.call (keeps : Keeps l key store admitted last) (later : last ≤ t) (soon : t ≤ u ∧ u < t+l.windowSize) :
    ((allow l key t u store).1.1 = true ↔ (admitted.countP fun a => t-l.windowSize ≤ a ∧ a ≤ t : Int) < (l.rate+l.burst).toInt) ∧
      Keeps l key (allow l key t u store).2 (if (allow l key t u store).1.1 then admitted ++ [t] else admitted) t := by
  have past : ∀ a ∈ admitted, a ≤ t := fun a mem => (keeps.past a mem).trans later
  rw [← recent_count keeps later]
  by_cases full : (l.rate+l.burst).toInt ≤ (admitted.filter (t-l.windowSize ≤ ·)).length
  · obtain ⟨retry,does⟩ : ∃ retry, allow l key t u store =
        ((false,0,retry),store.put key (admitted.filter (t-l.windowSize ≤ ·)) (l.windowSize*2) u) :=
      ⟨_,by rw [allow,mutate]; simp only [keeps.trimmed later soon.2,if_pos full]; rfl⟩
    rw [does]
    refine ⟨by simpa using full,keeps.sorted,past,.inl ⟨u+l.windowSize*2,by lia,?_⟩⟩
    rw [get_put_self,if_pos (by lia)]
    rfl
  · obtain ⟨remaining,does⟩ : ∃ remaining, allow l key t u store =
        ((true,remaining,0),store.put key (admitted.filter (t-l.windowSize ≤ ·) ++ [t]) (l.windowSize*2) u) :=
      ⟨_,by rw [allow,mutate]; simp only [keeps.trimmed later soon.2,if_neg full]; rfl⟩
    rw [does]
    refine ⟨by simpa using full,?_,?_,.inl ⟨u+l.windowSize*2,by lia,?_⟩⟩
    · exact pairwise_append.mpr ⟨keeps.sorted,pairwise_singleton _ _,by simpa using past⟩
    · simpa [or_imp,forall_and] using past
    · rw [get_put_self,if_pos (by lia),if_pos rfl,filter_append,filter_singleton]
      have here : t-l.windowSize ≤ t := by lia
      simp [here]

theorem run_snoc (calls : List (Int × Int)) (t u : Int) : run l key store (calls ++ [(t,u)]) =
    ((allow l key t u (run l key store calls).1).2,
      if (allow l key t u (run l key store calls).1).1.1 then (run l key store calls).2 ++ [t] else (run l key store calls).2) :=
  foldl_concat ..

theorem Prompt.snoc (prompt : Prompt l (calls ++ [(t,u)])) : Prompt l calls ∧ (∀ c ∈ calls, c.1 ≤ t) ∧ t ≤ u ∧ u < t+l.windowSize := by
  obtain ⟨ordered,soon⟩ := prompt
  rw [map_append,pairwise_append] at ordered
  refine ⟨⟨ordered.1,fun c mem => soon c (mem_append_left _ mem)⟩,fun c mem => ?_,soon _ (mem_append_right _ (mem_singleton_self _))⟩
  exact ordered.2.2 c.1 (mem_map_of_mem mem) t (mem_singleton_self t)

theorem run_keeps (last : Int) (absent : store.data.get key = none) (prompt : Prompt l calls)
    (past : ∀ c ∈ calls, c.1 ≤ last) : ∃ time ≤ last, Keeps l key (run l key store calls).1 (run l key store calls).2 time := by
  induction calls using List.reverseRecOn generalizing last with
  | nil => exact ⟨last,le_refl _,.nil,forall_mem_nil _,.inr ⟨absent,rfl⟩⟩
  | append_singleton calls c ih =>
    obtain ⟨earlier,between,soon⟩ := prompt.snoc
    obtain ⟨time,before,keeps⟩ := ih c.1 earlier between
    rw [run_snoc]
    exact ⟨c.1,past c (by simp),(keeps.call before soon).2⟩

-- The sum of rate and burst is a Go int.
theorem limit_agrees (same : 0 < (l.rate+l.burst).toInt ↔ 0 < l.rate.toInt+l.burst.toInt) (n : Nat) :
    (n : Int) < (l.rate+l.burst).toInt ↔ (n : Int) < l.rate.toInt+l.burst.toInt := by
  have bounds := And.intro l.rate.toInt_lt l.burst.toInt_lt
  rw [Int64.toInt_add] at same ⊢
  lia

theorem run_bounded (absent : store.data.get key = none) (same : 0 < (l.rate+l.burst).toInt ↔ 0 < l.rate.toInt+l.burst.toInt)
    (prompt : Prompt l calls) (a : Int) :
    ((run l key store calls).2.countP fun b => a ≤ b ∧ b ≤ a+l.windowSize : Int) ≤ max 0 (l.rate.toInt+l.burst.toInt) := by
  induction calls using List.reverseRecOn with
  | nil => exact Int.le_max_left ..
  | append_singleton calls c ih =>
    obtain ⟨t,u⟩ := c
    obtain ⟨earlier,between,soon⟩ := prompt.snoc
    obtain ⟨time,before,keeps⟩ := run_keeps t absent earlier between
    have less := ih earlier
    rw [run_snoc]
    split
    · rename_i allowed
      have room := (limit_agrees same _).mp ((keeps.call before soon).1.mp allowed)
      rw [countP_append,countP_singleton]
      split
      · rename_i here
        have fewer : ((run l key store calls).2.countP fun b => a ≤ b ∧ b ≤ a+l.windowSize) ≤
            (run l key store calls).2.countP fun b => t-l.windowSize ≤ b ∧ b ≤ t := by
          refine countP_mono_left fun b mem inside => ?_
          have older := keeps.past b mem
          lia
        lia
      · exact less
    · exact less

theorem exact_iff (key : Bytes) (pos : 0 < l.windowSize) :
    (∀ store calls, store.data.get key = none → Prompt l calls → Exact l key store calls) ↔
      (0 < (l.rate+l.burst).toInt ↔ 0 < l.rate.toInt+l.burst.toInt) := by
  constructor
  · intro all
    have fresh : Keeps l key {} [] 0 := ⟨.nil,forall_mem_nil _,.inr ⟨rfl,rfl⟩⟩
    have soon : (0 : Int) ≤ 0 ∧ (0 : Int) < 0+l.windowSize := by lia
    have first := (all {} [(0,0)] rfl ⟨pairwise_singleton _ _,by simpa using pos⟩).allowed [] 0 0 prefix_rfl
    exact (fresh.call (le_refl _) soon).1.symm.trans first
  · intro same store calls absent prompt
    refine ⟨fun before t u within => ?_,run_bounded absent same prompt⟩
    have part : Prompt l (before ++ [(t,u)]) :=
      ⟨prompt.ordered.sublist (within.sublist.map _),fun c mem => prompt.soon c (within.subset mem)⟩
    obtain ⟨earlier,between,soon⟩ := part.snoc
    obtain ⟨time,past,keeps⟩ := run_keeps t absent earlier between
    rw [(keeps.call past soon).1,limit_agrees same]

theorem one_per_second_exact : Exact ⟨1,0,1000000000⟩ [] {} [(0,5),(1,6),(1000000001,1000000009)] :=
  (exact_iff [] (by decide)).mpr (by decide) {} _ rfl ⟨by decide,by decide⟩

theorem greatest_rate_refused : (allow ⟨9223372036854775807,1,1⟩ [] 0 0 {}).1.1 = false ∧ ¬Exact ⟨9223372036854775807,1,1⟩ [] {} [(0,0)] := by
  refine ⟨by decide,fun all => ?_⟩
  have first := all.allowed [] 0 0 prefix_rfl
  revert first
  decide

-- A call that waits for the store for two windows finds no entry there.
example : (run ⟨1,0,10⟩ [] {} [(0,0),(0,20)]).2 = [0,0] := by decide
end SlidingWindow
namespace FixedWindow

structure WindowState where
  count : Int
  resetAt : Int

structure Result where
  allowed : Bool
  limit : Int
  remaining : Int
  used : Int
  resetAt : Int
  retryAfter : Int

def second : Int := 1000000000

def allow (limit window : Int) (key : Bytes) (now : Int) (store : TimedStore Bytes WindowState) : Result × TimedStore Bytes WindowState :=
  let limit := if limit ≤ 0 then 1 else limit
  let window := if window ≤ 0 then 60*second else window
  store.mutate key now fun current =>
    let st := (current.filter fun st => now < st.resetAt).getD ⟨0,now+window⟩
    let used := st.count+1
    let ttl := st.resetAt-now
    (⟨used ≤ limit,limit,max 0 (limit-used),used,st.resetAt,if used ≤ limit then 0 else max ttl second⟩,
      some (⟨used,st.resetAt⟩,if ttl ≤ 0 then window else ttl))

-- Where seconds is int(d.Seconds()), which goes through a float64.
def retry (seconds : Int → Int) (result : Result) : Int := max 1 (seconds result.retryAfter)

def defaultLimitReachedHandler (seconds : Int → Int) (result : Result) : List (Bytes × Bytes) × Bytes :=
  ([(ascii "Retry-After",itoa (retry seconds result).toNat),(ascii "Content-Type",ascii "text/plain; charset=utf-8")],ascii "Too Many Requests")

variable {limit window : Int} {key : Bytes} {store : TimedStore Bytes WindowState} {st : WindowState} {t : Int}

theorem allow_rejected (found : store.find key t = some st) (rejected : (allow limit window key t store).1.allowed = false) :
    max 1 limit ≤ st.count ∧ t < st.resetAt ∧ (allow limit window key t store).1.retryAfter = max (st.resetAt-t) second ∧
      (allow limit window key t store).2 = store.put key ⟨st.count+1,st.resetAt⟩ (st.resetAt-t) t := by
  rw [allow,mutate,found] at rejected ⊢
  by_cases within : t < st.resetAt
  · simp only [Option.filter_some,within,decide_true,if_true,Option.getD_some,decide_eq_false_iff_not] at rejected ⊢
    refine ⟨?_,trivial,if_neg rejected,by rw [if_neg (by lia)]⟩
    split at rejected <;> lia
  · simp only [Option.filter_some,within,decide_false,Bool.false_eq_true,if_false,Option.getD_none,decide_eq_false_iff_not] at rejected
    split at rejected <;> lia

theorem allow_full {ends : Int} (there : store.data.get key = some ⟨⟨st.count+1,ends⟩,some ends⟩) (full : max 1 limit ≤ st.count) :
    (allow limit window key t store).1.allowed = true ↔ ends ≤ t := by
  rw [allow,mutate,find_ending there]
  by_cases within : t < ends
  · simp only [within,if_true,Option.filter_some,decide_true,Option.getD_some,decide_eq_true_eq]
    split <;> lia
  · simp only [within,if_false,Option.filter_none,Option.getD_none,decide_eq_true_eq]
    split <;> lia

theorem retry_header {n : Nat} (seconds : Int → Int) (result : Result) :
    (ascii "Retry-After",itoa n) ∈ (defaultLimitReachedHandler seconds result).1 ↔ (n : Int) = retry seconds result := by
  have other : ascii "Retry-After" ≠ ascii "Content-Type" := by decide
  have positive : 1 ≤ retry seconds result := le_max_left ..
  simp only [defaultLimitReachedHandler,mem_cons,not_mem_nil,or_false,Prod.mk.injEq,true_and,other,false_and]
  refine ⟨fun same => ?_,fun same => congrArg itoa ?_⟩
  · have equal := itoa_inj same
    lia
  · lia

-- A request is rejected only where the key has an entry, st.
theorem retry_honest_iff {seconds : Int → Int} (whole : ∀ d ≥ 0, d/second ≤ seconds d) (found : store.find key t = some st)
    (rejected : (allow limit window key t store).1.allowed = false) :
    (∀ n, (ascii "Retry-After",itoa n) ∈ (defaultLimitReachedHandler seconds (allow limit window key t store).1).1 → ∀ later ≥ t+n*second,
      (allow limit window key later (allow limit window key t store).2).1.allowed = true) ↔
      st.resetAt-t ≤ second ∨ second ∣ st.resetAt-t ∨ (st.resetAt-t)/second < seconds (st.resetAt-t) := by
  obtain ⟨full,within,rest,after⟩ := allow_rejected found rejected
  have there : (allow limit window key t store).2.data.get key = some ⟨⟨st.count+1,st.resetAt⟩,some st.resetAt⟩ := by
    rw [after,get_put_self,if_pos (by lia),add_sub_cancel]
  simp only [allow_full there full,retry_header,retry,rest,second] at whole ⊢
  have least := whole (st.resetAt-t) (by lia)
  by_cases brief : st.resetAt-t ≤ 1000000000
  · rw [max_eq_right brief]
    exact iff_of_true (fun n said later past => by omega) (.inl brief)
  · rw [max_eq_left (not_le.mp brief).le]
    constructor
    · intro all
      have first := all (max 1 (seconds (st.resetAt-t))).toNat (by omega) _ (le_refl _)
      omega
    · intro long n said later past
      omega

theorem whole_seconds_honest : (allow 1 2000000000 [] 0 (allow 1 2000000000 [] 0 {}).2).1.allowed = false ∧
    ∀ later ≥ 2000000000, (allow 1 2000000000 [] later (allow 1 2000000000 [] 0 (allow 1 2000000000 [] 0 {}).2).2).1.allowed = true := by
  have found : (allow 1 2000000000 [] 0 {}).2.find [] 0 = some ⟨1,2000000000⟩ := rfl
  have rejected : (allow 1 2000000000 [] 0 (allow 1 2000000000 [] 0 {}).2).1.allowed = false := by decide
  have said : (ascii "Retry-After",itoa 2) ∈
      (defaultLimitReachedHandler (·/second) (allow 1 2000000000 [] 0 (allow 1 2000000000 [] 0 {}).2).1).1 := by decide
  exact ⟨rejected,(retry_honest_iff (fun d _ => le_refl (d/second)) found rejected).mpr (by decide) 2 said⟩

theorem early_retry_rejected :
    (ascii "Retry-After",ascii "1") ∈ (defaultLimitReachedHandler (·/second) (allow 1 1500000000 [] 0 (allow 1 1500000000 [] 0 {}).2).1).1 ∧
    (allow 1 1500000000 [] second (allow 1 1500000000 [] 0 (allow 1 1500000000 [] 0 {}).2).2).1.allowed = false := by decide
end FixedWindow
end FhServer

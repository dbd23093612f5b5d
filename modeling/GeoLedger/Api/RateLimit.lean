import Mathlib
import GeoLedger.Library.Recency

/-! The in-memory rate limiter. One insertion-ordered dictionary is the counter
table, the recency list and the expiry index. The body under the lock never
suspends, so each request is one step; requests carry their clock reading. -/
namespace GeoLedger.RateLimit

/-- The settings one process reads. -/
structure Settings where
  rateLimitEnabled : Bool
  rateLimitWindowSeconds : Int
  rateLimitRequestsPerWindow : Int
  rateLimitMaxEntries : Int

def rateLimitExemptPaths : List String := ["/api/v1/simulator/session/ensure"]

/-- A request with the reading of the monotonic clock it is served at. -/
structure Request where
  path : String
  client : Option String
  monotonic : ℚ

/-- `(request.client.host if request.client else None) or "unknown"`. -/
def Request.clientHost (request : Request) : String :=
  match request.client with
  | none => "unknown"
  | some host => if host = "" then "unknown" else host

structure TooManyRequests where
  windowSeconds : Int
  limit : Int
  deriving DecidableEq, Repr

/-- The module's globals `_rate_limit_counters` and `_rate_limit_last_cleanup_bucket`. -/
structure Limiter where
  counters : Dict (Int × String) Int
  lastCleanupBucket : Option Int

def Limiter.initial : Limiter := ⟨Dict.empty, none⟩

namespace Settings

variable (settings : Settings)

def windowSeconds : Int := max 1 settings.rateLimitWindowSeconds

def limit : Int := max 1 settings.rateLimitRequestsPerWindow

def maxEntries : Nat := (max 1 settings.rateLimitMaxEntries).toNat

/-- `int(time.monotonic() // window_seconds)`. -/
def bucket (request : Request) : Int := ⌊request.monotonic / settings.windowSeconds⌋

def key (request : Request) : Int × String := (settings.bucket request, request.clientHost)

/-- The request is counted: limiting is on and its path is not exempt. -/
def limits (request : Request) : Bool :=
  settings.rateLimitEnabled && !rateLimitExemptPaths.contains request.path

end Settings

/-- Drop the counters of buckets before the previous one, once per bucket. -/
def Limiter.cleanup (bucket : Int) (s : Limiter) : Limiter :=
  if s.lastCleanupBucket ≠ some bucket then
    let staleKeys := s.counters.keys.filter (·.1 < bucket - 1)
    ⟨staleKeys.foldl Dict.pop s.counters, some bucket⟩
  else s

/-- The counter of the request's key after the request. -/
def Limiter.current (settings : Settings) (s : Limiter) (request : Request) : Int :=
  (s.cleanup (settings.bucket request)).counters.getD (settings.key request) 0 + 1

/-- The table after a counted request. -/
def Limiter.count (settings : Settings) (s : Limiter) (request : Request) : Limiter :=
  let cleaned := s.cleanup (settings.bucket request)
  { cleaned with
    counters := Recency.evict settings.maxEntries
      (Recency.touch (settings.key request) (s.current settings request) cleaned.counters) }

/-- `rate_limit`: return, or raise `TooManyRequestsException`. -/
def rateLimit (settings : Settings) (s : Limiter) (request : Request) :
    Except TooManyRequests Unit × Limiter :=
  if settings.rateLimitEnabled = false then (.ok (), s)
  else if rateLimitExemptPaths.contains request.path then (.ok (), s)
  else
    let current := s.current settings request
    (if settings.limit < current then .error ⟨settings.windowSeconds, settings.limit⟩ else .ok (),
      s.count settings request)

/-- The limiter after a sequence of requests, from the state of a new process. -/
def served (settings : Settings) (requests : List Request) : Limiter :=
  requests.foldl (fun s request => (rateLimit settings s request).2) Limiter.initial

variable {settings : Settings}

theorem rateLimit_limited {request : Request} (h : settings.limits request = true) (s : Limiter) :
    rateLimit settings s request =
      (if settings.limit < s.current settings request then
          .error ⟨settings.windowSeconds, settings.limit⟩ else .ok (), s.count settings request) := by
  rw [Settings.limits, Bool.and_eq_true, Bool.not_eq_true'] at h
  rw [rateLimit, if_neg (by simp [h.1]), if_neg (by simpa using h.2)]

theorem rateLimit_exempt {request : Request} (h : settings.limits request = false) (s : Limiter) :
    rateLimit settings s request = (.ok (), s) := by
  rw [Settings.limits, Bool.and_eq_false_iff, Bool.not_eq_false'] at h
  rw [rateLimit]
  rcases h with hOff | hExempt
  · rw [if_pos hOff]
  · rw [if_pos hExempt, ite_self]

/-! ### What the cleanup and one counted request do to the table -/

theorem keys_cleanup (bucket : Int) (s : Limiter) :
    (s.cleanup bucket).counters.keys.Sublist s.counters.keys := by
  rw [Limiter.cleanup]
  split
  · exact Recency.keys_foldl_pop_sublist _ _
  · exact List.Sublist.refl _

/-- The cleanup drops no counter of the current or a later bucket. -/
theorem get?_cleanup {bucket : Int} (s : Limiter) {key : Int × String} (hKey : bucket ≤ key.1) :
    (s.cleanup bucket).counters.get? key = s.counters.get? key := by
  rw [Limiter.cleanup]
  split
  · simp only [Dict.get?_foldl_pop]
    refine if_neg fun hStale => ?_
    have hOld := of_decide_eq_true (List.mem_filter.mp hStale).2
    omega
  · rfl

/-- The counted requests of a key. -/
def requestsOf (settings : Settings) (requests : List Request) (key : Int × String) : List Request :=
  requests.filter fun request => settings.limits request && settings.key request = key

/-- The distinct clients with a counted request in a bucket. -/
def clientsIn (settings : Settings) (requests : List Request) (bucket : Int) : Finset String :=
  ((requests.filter fun request => settings.limits request && settings.bucket request = bucket).map
    Request.clientHost).toFinset

theorem mem_clientsIn {requests : List Request} {bucket : Int} {host : String} :
    host ∈ clientsIn settings requests bucket ↔
      ∃ request ∈ requests, settings.limits request = true ∧ settings.key request = (bucket, host) := by
  simp only [clientsIn, List.mem_toFinset, List.mem_map, List.mem_filter, Bool.and_eq_true,
    decide_eq_true_eq, Settings.key, Prod.mk.injEq, and_assoc]

theorem clientsIn_mono (settings : Settings) {requests more : List Request} (h : ∀ request ∈ requests, request ∈ more)
    (bucket : Int) : clientsIn settings requests bucket ⊆ clientsIn settings more bucket := by
  intro host hHost
  rw [mem_clientsIn] at hHost ⊢
  obtain ⟨request, hMem, hRest⟩ := hHost
  exact ⟨request, h request hMem, hRest⟩

/-- What the table says after the requests `past`: it is bounded, ordered by
bucket, holds only counters of requests seen, and counts every bucket that is
not over and does not have too many clients exactly. -/
structure Accurate (settings : Settings) (past : List Request) (s : Limiter) : Prop where
  bounded : s.counters.items.length ≤ settings.maxEntries
  ordered : s.counters.keys.Pairwise fun a b => a.1 ≤ b.1
  seen : ∀ key ∈ s.counters.keys, ∃ request ∈ past,
    settings.limits request = true ∧ settings.key request = key
  counted : ∀ bucket, (∀ request ∈ past, settings.bucket request ≤ bucket) →
    (clientsIn settings past bucket).card ≤ settings.maxEntries →
    ∀ host, s.counters.get? (bucket, host) =
      if requestsOf settings past (bucket, host) = [] then none
      else some (requestsOf settings past (bucket, host)).length

theorem Accurate.initial (settings : Settings) : Accurate settings [] Limiter.initial where
  bounded := Nat.zero_le _
  ordered := List.Pairwise.nil
  seen := fun _ hKey => absurd hKey List.not_mem_nil
  counted := fun _ _ _ _ => rfl

/-- A request that is not counted changes nothing. -/
theorem Accurate.exempt {past : List Request} {s : Limiter} {request : Request}
    (h : Accurate settings past s) (hExempt : settings.limits request = false) :
    Accurate settings (past ++ [request]) s where
  bounded := h.bounded
  ordered := h.ordered
  seen := fun key hKey => by
    obtain ⟨earlier, hMem, hRest⟩ := h.seen key hKey
    exact ⟨earlier, List.mem_append_left _ hMem, hRest⟩
  counted := fun bucket hOver hClients host => by
    have hSame : requestsOf settings (past ++ [request]) (bucket, host) =
        requestsOf settings past (bucket, host) := by
      simp [requestsOf, hExempt]
    rw [hSame]
    refine h.counted bucket (fun earlier hMem => hOver earlier (List.mem_append_left _ hMem)) ?_ host
    exact (Finset.card_le_card
      (clientsIn_mono settings (fun earlier hMem => List.mem_append_left _ hMem) bucket)).trans hClients

/-- The keys of one bucket in a table of seen requests are no more than its clients. -/
theorem length_bucket_le {past : List Request} {d : Dict (Int × String) Int}
    (hSeen : ∀ key ∈ d.keys, ∃ request ∈ past, settings.limits request = true ∧ settings.key request = key)
    (bucket : Int) :
    (d.keys.filter (·.1 = bucket)).length ≤ (clientsIn settings past bucket).card := by
  have hNodup : ((d.keys.filter (·.1 = bucket)).map Prod.snd).Nodup := by
    refine (List.Nodup.filter _ d.nodup).map_on fun a ha b hb hHost => ?_
    have hBuckets := (of_decide_eq_true (List.mem_filter.mp ha).2).trans
      (of_decide_eq_true (List.mem_filter.mp hb).2).symm
    exact Prod.ext hBuckets hHost
  rw [← List.length_map Prod.snd, ← List.toFinset_card_of_nodup hNodup]
  refine Finset.card_le_card fun host hHost => ?_
  obtain ⟨key, hKey, rfl⟩ := List.mem_map.mp (List.mem_toFinset.mp hHost)
  obtain ⟨hMem, hBucket⟩ := List.mem_filter.mp hKey
  obtain ⟨request, hRequest, hLimits, hIs⟩ := hSeen key hMem
  refine mem_clientsIn.mpr ⟨request, hRequest, hLimits, ?_⟩
  rw [hIs, ← of_decide_eq_true hBucket]

/-- The counter before a counted request is the number of its key's requests so far. -/
theorem Accurate.current_eq {past : List Request} {s : Limiter} {request : Request}
    (h : Accurate settings past s)
    (hLast : ∀ earlier ∈ past, settings.bucket earlier ≤ settings.bucket request)
    (hClients : (clientsIn settings past (settings.bucket request)).card ≤ settings.maxEntries) :
    s.current settings request = (requestsOf settings past (settings.key request)).length + 1 := by
  rw [Limiter.current, Dict.getD, get?_cleanup s (le_refl _ : settings.bucket request ≤ (settings.key request).1),
    Settings.key, h.counted _ hLast hClients]
  split
  · next hNone => simp [hNone]
  · rfl

/-- One counted request of the current bucket keeps the table accurate. -/
theorem Accurate.count {past : List Request} {s : Limiter} {request : Request}
    (h : Accurate settings past s) (hLimits : settings.limits request = true)
    (hLast : ∀ earlier ∈ past, settings.bucket earlier ≤ settings.bucket request) :
    Accurate settings (past ++ [request]) (s.count settings request) := by
  set cleaned := s.cleanup (settings.bucket request) with hCleaned
  set touched := Recency.touch (settings.key request) (s.current settings request) cleaned.counters
    with hTouched
  have hResult : (s.count settings request).counters = Recency.evict settings.maxEntries touched := rfl
  have hCleanedSeen : ∀ key ∈ cleaned.counters.keys, ∃ earlier ∈ past,
      settings.limits earlier = true ∧ settings.key earlier = key :=
    fun key hKey => h.seen key ((keys_cleanup _ s).mem hKey)
  have hNewest : ∀ key ∈ cleaned.counters.keys, key.1 ≤ (settings.key request).1 := by
    intro key hKey
    obtain ⟨earlier, hMem, _, rfl⟩ := hCleanedSeen key hKey
    exact hLast earlier hMem
  have hSeen : ∀ key ∈ touched.keys, ∃ earlier ∈ past ++ [request],
      settings.limits earlier = true ∧ settings.key earlier = key := by
    intro key hKey
    rw [hTouched, Recency.keys_touch, List.mem_append, List.mem_singleton] at hKey
    rcases hKey with hOld | rfl
    · obtain ⟨earlier, hMem, hRest⟩ := hCleanedSeen key (List.mem_of_mem_filter hOld)
      exact ⟨earlier, List.mem_append_left _ hMem, hRest⟩
    · exact ⟨request, List.mem_append_right _ (List.mem_singleton_self _), hLimits, rfl⟩
  have hOrdered : touched.keys.Pairwise fun a b => a.1 ≤ b.1 :=
    Recency.pairwise_touch Prod.fst _ (h.ordered.sublist (keys_cleanup _ s)) hNewest
  have hEvicted := Recency.keys_evict_sublist settings.maxEntries touched
  refine ⟨?_, ?_, ?_, ?_⟩
  · exact hResult ▸ Recency.length_trim_le _ _
  · exact hResult ▸ hOrdered.sublist hEvicted
  · exact fun key hKey => hSeen key (hEvicted.mem (hResult ▸ hKey))
  · intro bucket hOver hClients host
    have hBucket : settings.bucket request ≤ bucket :=
      hOver request (List.mem_append_right _ (List.mem_singleton_self _))
    have hPast : (clientsIn settings past bucket).card ≤ settings.maxEntries :=
      (Finset.card_le_card
        (clientsIn_mono settings (fun earlier hMem => List.mem_append_left _ hMem) bucket)).trans hClients
    have hKept : (s.count settings request).counters.get? (bucket, host) =
        touched.get? (bucket, host) := by
      rw [hResult]
      refine Recency.get?_evict Prod.fst hOrdered ?_
        ((length_bucket_le hSeen bucket).trans hClients) rfl
      intro key hKey
      obtain ⟨earlier, hMem, _, rfl⟩ := hSeen key hKey
      exact hOver earlier hMem
    rw [hKept, hTouched, Recency.get?_touch]
    by_cases hKey : (bucket, host) = settings.key request
    · have hEq : bucket = settings.bucket request := congrArg Prod.fst hKey
      subst hEq
      have hList : requestsOf settings (past ++ [request]) (settings.bucket request, host) =
          requestsOf settings past (settings.key request) ++ [request] := by
        rw [hKey]
        simp [requestsOf, hLimits]
      rw [if_pos hKey, hList, if_neg (by simp), h.current_eq hLast hPast, List.length_append]
      rfl
    · have hList : requestsOf settings (past ++ [request]) (bucket, host) =
          requestsOf settings past (bucket, host) := by
        simp [requestsOf, Ne.symm hKey]
      rw [if_neg hKey, get?_cleanup s hBucket, hList]
      exact h.counted bucket (fun earlier hMem => hOver earlier (List.mem_append_left _ hMem)) hPast host

/-- The table is accurate after any sequence of requests with non-decreasing buckets. -/
theorem accurate_served {requests : List Request}
    (hBuckets : (requests.map settings.bucket).Pairwise (· ≤ ·)) :
    Accurate settings requests (served settings requests) := by
  induction requests using List.reverseRecOn with
  | nil => exact Accurate.initial settings
  | append_singleton past request ih =>
      rw [List.map_append, List.pairwise_append] at hBuckets
      obtain ⟨hPast, _, hLast⟩ := hBuckets
      rw [served, List.foldl_append]
      cases hLimits : settings.limits request with
      | false =>
          rw [List.foldl_cons, List.foldl_nil, rateLimit_exempt hLimits]
          exact (ih hPast).exempt hLimits
      | true =>
          rw [List.foldl_cons, List.foldl_nil, rateLimit_limited hLimits]
          refine (ih hPast).count hLimits fun earlier hMem => ?_
          exact hLast _ (List.mem_map_of_mem hMem) _ (List.mem_singleton_self _)

/-- After every request the table is bounded. In a bucket with no more clients
than entries every client has exactly its first `limit` requests accepted, and
no counter of the bucket is ever dropped. -/
theorem rateLimit_exact (settings : Settings) (requests : List Request)
    (hBuckets : (requests.map settings.bucket).Pairwise (· ≤ ·)) :
    (∀ past, past <+: requests → (served settings past).counters.items.length ≤ settings.maxEntries) ∧
    ∀ past request later, requests = past ++ request :: later → settings.limits request = true →
      (clientsIn settings requests (settings.bucket request)).card ≤ settings.maxEntries →
      (rateLimit settings (served settings past) request).1 =
          (if ((requestsOf settings past (settings.key request)).length : Int) < settings.limit then .ok ()
          else .error ⟨settings.windowSeconds, settings.limit⟩) ∧
      ∀ earlier ∈ past ++ [request], settings.limits earlier = true →
        settings.bucket earlier = settings.bucket request →
        (served settings (past ++ [request])).counters.get? (settings.key earlier) =
          some (requestsOf settings (past ++ [request]) (settings.key earlier)).length := by
  have hAccurate : ∀ past, past <+: requests → Accurate settings past (served settings past) :=
    fun past hPrefix => accurate_served (hBuckets.sublist (hPrefix.sublist.map settings.bucket))
  refine ⟨fun past hPrefix => (hAccurate past hPrefix).bounded, ?_⟩
  rintro past request later rfl hLimits hClients
  have hLast : ∀ earlier ∈ past, settings.bucket earlier ≤ settings.bucket request := by
    intro earlier hMem
    rw [List.map_append, List.pairwise_append] at hBuckets
    exact hBuckets.2.2 _ (List.mem_map_of_mem hMem) _ List.mem_cons_self
  have hSubset : ∀ earlier ∈ past ++ [request], earlier ∈ past ++ request :: later := by
    intro earlier hMem
    simp only [List.mem_append, List.mem_cons] at hMem ⊢
    tauto
  have hNow := (Finset.card_le_card (clientsIn_mono settings hSubset (settings.bucket request))).trans hClients
  have hPast := (Finset.card_le_card (clientsIn_mono settings
    (fun earlier hMem => List.mem_append_left _ hMem) (settings.bucket request))).trans hClients
  constructor
  · rw [rateLimit_limited hLimits, (hAccurate past (List.prefix_append _ _)).current_eq hLast hPast]
    split <;> split <;> first | rfl | omega
  · intro earlier hMem hEarlier hSame
    have hStep := hAccurate (past ++ [request]) ⟨later, by simp⟩
    have hCounted := hStep.counted (settings.bucket request) (fun other hOther => by
      rcases List.mem_append.mp hOther with hOther | hOther
      · exact hLast other hOther
      · rw [List.mem_singleton.mp hOther]) hNow earlier.clientHost
    have hSome : requestsOf settings (past ++ [request]) (settings.key earlier) ≠ [] := by
      refine List.ne_nil_of_mem (List.mem_filter.mpr ⟨hMem, ?_⟩)
      rw [hEarlier, Bool.true_and]
      exact decide_eq_true rfl
    rw [← hSame] at hCounted
    rw [show settings.key earlier = (settings.bucket earlier, earlier.clientHost) from rfl] at hSome ⊢
    rwa [if_neg hSome] at hCounted

/-- One request per minute and client: the second request of a minute is refused
and its counter is still there, with the next minute's request behind it. -/
theorem rateLimit_exact_second :
    (rateLimit ⟨true, 60, 1, 2⟩ (served ⟨true, 60, 1, 2⟩ [⟨"/p", some "a", 61⟩]) ⟨"/p", some "a", 119⟩).1 =
      .error ⟨60, 1⟩ ∧
    (served ⟨true, 60, 1, 2⟩ [⟨"/p", some "a", 61⟩, ⟨"/p", some "a", 119⟩]).counters.get? (1, "a") = some 2 := by
  have hExact := (rateLimit_exact ⟨true, 60, 1, 2⟩
    [⟨"/p", some "a", 61⟩, ⟨"/p", some "a", 119⟩, ⟨"/p", none, 120⟩] (by decide +kernel)).2
    [⟨"/p", some "a", 61⟩] ⟨"/p", some "a", 119⟩ [⟨"/p", none, 120⟩] rfl (by decide +kernel) (by decide +kernel)
  refine ⟨hExact.1.trans (by decide +kernel), ?_⟩
  have hKept := hExact.2 ⟨"/p", some "a", 61⟩ (by simp) (by decide +kernel) (by decide +kernel)
  have hKey : (⟨true, 60, 1, 2⟩ : Settings).key ⟨"/p", some "a", 61⟩ = (1, "a") := by decide +kernel
  rw [hKey] at hKept
  exact hKept.trans (by decide +kernel)

end GeoLedger.RateLimit

import OxidizedSystemd.Lib.Assoc
import OxidizedSystemd.Resolved.CacheKey
import Mathlib.Data.List.MinMax

/-!
# The response cache

Model of `DnsCache` (`resolved/src/dns.rs`, lines 930–1298): insertion with the
lifetime read from the response, lookup with expiry, flush, and eviction. The map is
an association list without duplicate keys; the order in which a `HashMap` visits its
entries is a parameter. Times are nanoseconds of the monotonic clock.

* `extractMinTtl_eq`: what `extract_min_ttl` returns is the least of the lifetimes
  that it reads.
* `cacheable_eq_some`: which insertions are accepted.
* `stored_run`: every entry is the last accepted insertion for its key, and no flush
  came behind it.
* `length_run_le`: the cache never has more entries than its capacity.
* `lookup_run`, `lookup_same_question`: what a lookup returns after any sequence of operations.
-/

namespace OxidizedSystemd.Resolved

open OxidizedSystemd.Lib

/-- `CACHE_MIN_TTL_SECS` (line 873). -/
def cacheMinTtlSecs : ℕ := 1

/-- `CACHE_MAX_TTL_SECS` (line 876). -/
def cacheMaxTtlSecs : ℕ := 3600

/-- `RecordType::OPT`. -/
def optRecord : ℕ := 41

def nanosPerSec : ℕ := 1000000000

/-! ## Lifetimes -/

/-- `u32::from_be_bytes` of four bytes at an offset that the caller has checked. -/
def be32 (data : Bytes) (pos : ℕ) : ℕ := be16 data pos * 65536 + be16 data (pos + 2)

/-- The loop of `skip_name` (lines 1273–1297), with the turns that are left before `hops`
    is above its bound. -/
def skipNameLoop (data : Bytes) : ℕ → ℕ → Option ℕ → Option ℕ
  | 0, _, _ => none
  | turns + 1, pos, endPos =>
    match data[pos]? with
    | none => none
    | some b =>
      let len := b.toNat
      if len = 0 then some (endPos.getD (pos + 1))
      else if len &&& 0xC0 = 0xC0 then
        match data[pos + 1]? with
        | none => none
        | some lo => skipNameLoop data turns (pointerTarget b lo) (some (endPos.getD (pos + 2)))
      else skipNameLoop data turns (pos + 1 + len) endPos

/-- `skip_name` (lines 1270–1298). -/
def skipName (data : Bytes) (pos : ℕ) : Option ℕ :=
  skipNameLoop data (maxCompressionHops + 1) pos none

/-- The loop over the questions (lines 1228–1234). -/
def skipQuestions (response : Bytes) : ℕ → ℕ → Option ℕ
  | 0, pos => some pos
  | n + 1, pos =>
    (skipName response pos).bind fun pos =>
      if pos + 4 > response.length then none else skipQuestions response n (pos + 4)

/-- `min_ttl` after a record (lines 1260–1263). -/
def minTtl (current : Option ℕ) (ttl : ℕ) : Option ℕ :=
  match current with
  | some current => some (min current ttl)
  | none => some ttl

/-- The loop over the records (lines 1238–1264). -/
def readMinTtl (response : Bytes) : ℕ → ℕ → Option ℕ → Option ℕ
  | 0, _, found => found
  | n + 1, pos, found =>
    (skipName response pos).bind fun pos =>
      if pos + 10 > response.length then found
      else
        let next := pos + 10 + be16 response (pos + 8)
        if be16 response pos = optRecord then readMinTtl response n next found
        else readMinTtl response n next (minTtl found (be32 response (pos + 4)))

/-- `extract_min_ttl` (lines 1211–1267). -/
def extractMinTtl (response : Bytes) : Option ℕ :=
  if response.length < headerSize then none
  else
    let totalRr := be16 response 6 + be16 response 8 + be16 response 10
    if totalRr = 0 then none
    else
      (skipQuestions response (be16 response 4) headerSize).bind fun pos =>
        readMinTtl response totalRr pos none

/-- The lifetimes of the records that are not `OPT`, as far as they can be read; `none` if a
    name in front of a record is malformed. -/
def recordTtls (response : Bytes) : ℕ → ℕ → Option (List ℕ)
  | 0, _ => some []
  | n + 1, pos =>
    (skipName response pos).bind fun pos =>
      if pos + 10 > response.length then some []
      else
        let rest := recordTtls response n (pos + 10 + be16 response (pos + 8))
        if be16 response pos = optRecord then rest
        else rest.map (be32 response (pos + 4) :: ·)

/-- The lifetimes that a response carries. -/
def responseTtls (response : Bytes) : Option (List ℕ) :=
  if response.length < headerSize then none
  else
    let totalRr := be16 response 6 + be16 response 8 + be16 response 10
    if totalRr = 0 then none
    else
      (skipQuestions response (be16 response 4) headerSize).bind fun pos =>
        recordTtls response totalRr pos

theorem readMinTtl_eq (response : Bytes) (n pos : ℕ) (found : Option ℕ) :
    readMinTtl response n pos found =
      (recordTtls response n pos).bind fun ttls => (found.toList ++ ttls).min? := by
  induction n generalizing pos found with
  | zero => cases found <;> rfl
  | succ n ih =>
    rw [readMinTtl, recordTtls]
    cases skipName response pos with
    | none => rfl
    | some pos =>
      rw [Option.bind_some, Option.bind_some]
      dsimp only
      by_cases hshort : pos + 10 > response.length
      · rw [if_pos hshort, if_pos hshort]
        cases found <;> rfl
      · rw [if_neg hshort, if_neg hshort]
        by_cases hopt : be16 response pos = optRecord
        · rw [if_pos hopt, if_pos hopt, ih]
        · rw [if_neg hopt, if_neg hopt, ih, Option.bind_map]
          congr 1
          funext ttls
          cases found <;> rfl

/-- `extract_min_ttl` returns the least lifetime that it reads. -/
theorem extractMinTtl_eq (response : Bytes) :
    extractMinTtl response = (responseTtls response).bind List.min? := by
  unfold extractMinTtl responseTtls
  dsimp only
  split_ifs
  · rfl
  · rfl
  · rw [Option.bind_assoc]
    congr 1
    funext pos
    exact readMinTtl_eq response _ pos none

/-- How long a response may be kept, in seconds: its least lifetime, or 30. -/
def lifetime (response : Bytes) : ℕ := ((responseTtls response).bind List.min?).getD 30

/-! ## The cache -/

/-- `CacheEntry` (lines 931–938). -/
structure CacheEntry where
  response : Bytes
  insertedAt : ℕ
  ttlSecs : ℕ
  deriving DecidableEq, Repr

/-- `CacheEntry::new_at` (lines 952–959), and `new` (lines 942–949) at the current time. -/
def CacheEntry.newAt (response : Bytes) (ttlSecs insertedAt : ℕ) : CacheEntry :=
  { response, insertedAt, ttlSecs := min (max ttlSecs cacheMinTtlSecs) cacheMaxTtlSecs }

/-- `is_expired` (lines 962–964). `elapsed` is zero for a time in the future. -/
def CacheEntry.isExpired (entry : CacheEntry) (now : ℕ) : Bool :=
  entry.ttlSecs * nanosPerSec ≤ now - entry.insertedAt

/-- `response_for_query` (lines 974–983). -/
def CacheEntry.responseForQuery (entry : CacheEntry) (query : Bytes) : Option Bytes :=
  if query.length < 2 ∨ entry.response.length < 2 then none
  else some ((entry.response.set 0 (query.getD 0 0)).set 1 (query.getD 1 0))

/-- `CacheStats` (lines 988–1001). -/
structure CacheStats where
  lookups : ℕ := 0
  hits : ℕ := 0
  misses : ℕ := 0
  inserts : ℕ := 0
  evictions : ℕ := 0
  flushes : ℕ := 0

/-- The entries of the map. -/
abbrev Entries := AList fun _ : CacheKey => CacheEntry

/-- `DnsCache` (lines 1041–1047). -/
structure DnsCache where
  entries : Entries
  maxEntries : ℕ
  stats : CacheStats
  enabled : Bool

/-- `DnsCache::with_capacity` (lines 1061–1068), and whether it is switched on after. -/
def DnsCache.withCapacity (maxEntries : ℕ) (enabled : Bool) : DnsCache :=
  { entries := ∅, maxEntries, stats := {}, enabled }

/-- The order in which a map visits its entries: every entry once. -/
structure VisitOrder where
  visit : Entries → List (Sigma fun _ : CacheKey => CacheEntry)
  perm : ∀ m, (visit m).Perm m.entries

/-- `retain` of a map. -/
def retain (p : CacheEntry → Bool) (m : Entries) : Entries :=
  ⟨m.entries.filter fun e => p e.2, m.nodupKeys.sublist List.filter_sublist⟩

/-- `lookup` (lines 1074–1097). -/
def DnsCache.lookup (now : ℕ) (query : Bytes) (c : DnsCache) : Option Bytes × DnsCache :=
  if !c.enabled then (none, c)
  else
    match fromQuery query with
    | none => (none, c)
    | some key =>
      let stats := { c.stats with lookups := c.stats.lookups + 1 }
      match c.entries.lookup key with
      | some entry =>
        if entry.isExpired now then
          (none, { c with
            entries := c.entries.erase key
            stats := { stats with evictions := stats.evictions + 1, misses := stats.misses + 1 } })
        else
          (entry.responseForQuery query, { c with stats := { stats with hits := stats.hits + 1 } })
      | none => (none, { c with stats := { stats with misses := stats.misses + 1 } })

/-- `evict_expired` (lines 1179–1184). -/
def DnsCache.evictExpired (now : ℕ) (c : DnsCache) : DnsCache :=
  let entries := retain (fun entry => !entry.isExpired now) c.entries
  let evicted := c.entries.entries.length - entries.entries.length
  { c with entries, stats := { c.stats with evictions := c.stats.evictions + evicted } }

/-- `evict_oldest` (lines 1187–1200). `min_by_key` takes the first of the least. -/
def DnsCache.evictOldest (order : VisitOrder) (c : DnsCache) : DnsCache :=
  match (order.visit c.entries).argmin fun e => e.2.insertedAt with
  | none => c
  | some oldest =>
    { c with
      entries := c.entries.erase oldest.1
      stats := { c.stats with evictions := c.stats.evictions + 1 } }

/-- The early returns of `insert` (lines 1105–1141): the key and the lifetime of a
    response that is accepted. -/
def cacheable (enabled : Bool) (query response : Bytes) : Option (CacheKey × ℕ) :=
  if !enabled then none
  else if response.length < headerSize then none
  else if ((response.getD 2 0) >>> 7) &&& 1 ≠ 1 then none
  else
    let rcode := (response.getD 3 0) &&& 0x0F
    if rcode ≠ 0 ∧ rcode ≠ 3 then none
    else if ((response.getD 2 0) >>> 1) &&& 1 = 1 then none
    else
      (fromQuery query).bind fun key =>
        let ttl := (extractMinTtl response).getD 30
        if ttl = 0 then none else some (key, ttl)

/-- `if self.entries.len() >= self.max_entries`. -/
def DnsCache.whenFull (evict : DnsCache → DnsCache) (c : DnsCache) : DnsCache :=
  if c.entries.entries.length ≥ c.maxEntries then evict c else c

/-- The evictions of `insert` (lines 1143–1151). -/
def DnsCache.makeRoom (order : VisitOrder) (now : ℕ) (c : DnsCache) : DnsCache :=
  (c.whenFull (DnsCache.evictExpired now)).whenFull (DnsCache.evictOldest order)

/-- `insert` (lines 1104–1156). -/
def DnsCache.insert (order : VisitOrder) (now : ℕ) (query response : Bytes) (c : DnsCache) :
    DnsCache :=
  match cacheable c.enabled query response with
  | none => c
  | some (key, ttl) =>
    let c := c.makeRoom order now
    { c with
      entries := c.entries.insert key (CacheEntry.newAt response ttl now)
      stats := { c.stats with inserts := c.stats.inserts + 1 } }

/-- `flush` (lines 1159–1166). -/
def DnsCache.flush (c : DnsCache) : DnsCache :=
  let count := c.entries.entries.length
  { c with
    entries := ∅
    stats := { c.stats with
      flushes := c.stats.flushes + 1
      evictions := if count > 0 then c.stats.evictions + count else c.stats.evictions } }

/-! ## Runs -/

/-- An operation on the cache. -/
inductive Op where
  | insert (query response : Bytes)
  | lookup (query : Bytes)
  | flush
  | evictExpired
  | evictOldest

/-- The cache after an operation at a time. -/
def DnsCache.step (order : VisitOrder) (c : DnsCache) (op : ℕ × Op) : DnsCache :=
  match op.2 with
  | .insert query response => c.insert order op.1 query response
  | .lookup query => (c.lookup op.1 query).2
  | .flush => c.flush
  | .evictExpired => c.evictExpired op.1
  | .evictOldest => c.evictOldest order

/-- The cache after a sequence of operations. -/
def DnsCache.run (order : VisitOrder) (c : DnsCache) (ops : List (ℕ × Op)) : DnsCache :=
  ops.foldl (DnsCache.step order) c

/-! ## What an operation does to the entries -/

theorem lookup_of_retain {p : CacheEntry → Bool} {m : Entries} {key : CacheKey}
    {entry : CacheEntry} (h : (retain p m).lookup key = some entry) :
    m.lookup key = some entry := by
  have hmem := AList.mem_lookup_iff.mp h
  exact AList.mem_lookup_iff.mpr (List.mem_of_mem_filter hmem)

theorem lookup_of_erase {m : Entries} {key k : CacheKey} {entry : CacheEntry}
    (h : (m.erase k).lookup key = some entry) : m.lookup key = some entry := by
  rw [lookup_erase_eq] at h
  split at h
  · cases h
  · exact h

theorem lookup_evictExpired {now : ℕ} {c : DnsCache} {key : CacheKey} {entry : CacheEntry}
    (h : (c.evictExpired now).entries.lookup key = some entry) :
    c.entries.lookup key = some entry :=
  lookup_of_retain h

theorem lookup_evictOldest {order : VisitOrder} {c : DnsCache} {key : CacheKey}
    {entry : CacheEntry} (h : (c.evictOldest order).entries.lookup key = some entry) :
    c.entries.lookup key = some entry := by
  unfold DnsCache.evictOldest at h
  split at h
  · exact h
  · exact lookup_of_erase h

theorem lookup_whenFull {evict : DnsCache → DnsCache} {c : DnsCache} {key : CacheKey}
    {entry : CacheEntry}
    (hevict : (evict c).entries.lookup key = some entry → c.entries.lookup key = some entry)
    (h : (c.whenFull evict).entries.lookup key = some entry) :
    c.entries.lookup key = some entry := by
  unfold DnsCache.whenFull at h
  split at h
  · exact hevict h
  · exact h

theorem lookup_makeRoom {order : VisitOrder} {now : ℕ} {c : DnsCache} {key : CacheKey}
    {entry : CacheEntry} (h : (c.makeRoom order now).entries.lookup key = some entry) :
    c.entries.lookup key = some entry :=
  lookup_whenFull lookup_evictExpired (lookup_whenFull lookup_evictOldest h)

theorem lookup_lookup {now : ℕ} {query : Bytes} {c : DnsCache} {key : CacheKey}
    {entry : CacheEntry} (h : (c.lookup now query).2.entries.lookup key = some entry) :
    c.entries.lookup key = some entry := by
  unfold DnsCache.lookup at h
  split at h
  · exact h
  · split at h
    · exact h
    · dsimp only at h
      split at h
      · split at h
        · exact lookup_of_erase h
        · exact h
      · exact h

/-- The operation is an insertion for the key that is accepted. -/
def AcceptedFor (enabled : Bool) (key : CacheKey) : Op → Prop
  | .insert query response => ∃ ttl, cacheable enabled query response = some (key, ttl)
  | _ => False

/-- What a key has after an operation: what it had before, unless the operation is a flush
    or an accepted insertion for the key, or what the operation has inserted. -/
theorem lookup_step {order : VisitOrder} {c : DnsCache} {op : ℕ × Op} {key : CacheKey}
    {entry : CacheEntry} (h : (c.step order op).entries.lookup key = some entry) :
    (c.entries.lookup key = some entry ∧ op.2 ≠ .flush ∧ ¬ AcceptedFor c.enabled key op.2) ∨
      ∃ query response ttl, op.2 = .insert query response ∧
        cacheable c.enabled query response = some (key, ttl) ∧
        entry = CacheEntry.newAt response ttl op.1 := by
  obtain ⟨now, op⟩ := op
  cases op with
  | insert query response =>
    change (c.insert order now query response).entries.lookup key = some entry at h
    unfold DnsCache.insert at h
    cases hcache : cacheable c.enabled query response with
    | none =>
      rw [hcache] at h
      refine Or.inl ⟨h, by simp, ?_⟩
      rintro ⟨ttl, hsome⟩
      simp [hcache] at hsome
    | some kt =>
      obtain ⟨k, ttl⟩ := kt
      rw [hcache] at h
      dsimp only at h
      by_cases hkey : key = k
      · rw [hkey, AList.lookup_insert] at h
        exact Or.inr ⟨query, response, ttl, rfl, hkey ▸ hcache, (Option.some.inj h).symm⟩
      · rw [AList.lookup_insert_ne hkey] at h
        refine Or.inl ⟨lookup_makeRoom h, by simp, ?_⟩
        rintro ⟨ttl', hsome⟩
        rw [hcache] at hsome
        exact hkey (Prod.mk.inj (Option.some.inj hsome)).1.symm
  | lookup query => exact Or.inl ⟨lookup_lookup h, by simp, id⟩
  | flush => cases h
  | evictExpired => exact Or.inl ⟨lookup_evictExpired h, by simp, id⟩
  | evictOldest => exact Or.inl ⟨lookup_evictOldest h, by simp, id⟩

/-- An operation neither switches the cache on or off nor changes its capacity. -/
structure SameSettings (c c' : DnsCache) : Prop where
  enabled : c'.enabled = c.enabled
  maxEntries : c'.maxEntries = c.maxEntries

theorem sameSettings_evictOldest (order : VisitOrder) (c : DnsCache) :
    SameSettings c (c.evictOldest order) := by
  unfold DnsCache.evictOldest
  split <;> exact ⟨rfl, rfl⟩

theorem sameSettings_whenFull {evict : DnsCache → DnsCache} {c : DnsCache}
    (h : SameSettings c (evict c)) : SameSettings c (c.whenFull evict) := by
  unfold DnsCache.whenFull
  split
  · exact h
  · exact ⟨rfl, rfl⟩

theorem sameSettings_makeRoom (order : VisitOrder) (now : ℕ) (c : DnsCache) :
    SameSettings c (c.makeRoom order now) := by
  have hexpired : SameSettings c (c.whenFull (DnsCache.evictExpired now)) :=
    sameSettings_whenFull ⟨rfl, rfl⟩
  have holdest := sameSettings_whenFull
    (sameSettings_evictOldest order (c.whenFull (DnsCache.evictExpired now)))
  exact ⟨holdest.enabled.trans hexpired.enabled, holdest.maxEntries.trans hexpired.maxEntries⟩

theorem sameSettings_step (order : VisitOrder) (c : DnsCache) (op : ℕ × Op) :
    SameSettings c (c.step order op) := by
  obtain ⟨now, op⟩ := op
  cases op with
  | insert query response =>
    change SameSettings c (c.insert order now query response)
    unfold DnsCache.insert
    split
    · exact ⟨rfl, rfl⟩
    · have hroom := sameSettings_makeRoom order now c
      exact ⟨hroom.enabled, hroom.maxEntries⟩
  | lookup query =>
    change SameSettings c (c.lookup now query).2
    unfold DnsCache.lookup
    dsimp only
    repeat' split
    all_goals exact ⟨rfl, rfl⟩
  | flush => exact ⟨rfl, rfl⟩
  | evictExpired => exact ⟨rfl, rfl⟩
  | evictOldest => exact sameSettings_evictOldest order c

/-! ## How many entries there are -/

theorem length_erase_le (m : Entries) (key : CacheKey) :
    (m.erase key).entries.length ≤ m.entries.length := by
  cases h : m.lookup key with
  | none =>
    have hkeys : key ∉ m.entries.keys :=
      fun hk => AList.lookup_eq_none.mp h (AList.mem_keys.mpr hk)
    rw [show (m.erase key).entries = m.entries from List.kerase_of_notMem_keys hkeys]
  | some entry =>
    have := (perm_cons_erase h).length_eq
    rw [List.length_cons] at this
    omega

theorem length_evictExpired_le (now : ℕ) (c : DnsCache) :
    (c.evictExpired now).entries.entries.length ≤ c.entries.entries.length :=
  List.length_filter_le _ _

theorem length_evictOldest_le (order : VisitOrder) (c : DnsCache) :
    (c.evictOldest order).entries.entries.length ≤ c.entries.entries.length - 1 := by
  unfold DnsCache.evictOldest
  split
  · rename_i hnone
    have hempty := List.argmin_eq_none.mp hnone
    have := (order.perm c.entries).length_eq
    rw [hempty, List.length_nil] at this
    omega
  · rename_i oldest hsome
    have hmem := (order.perm c.entries).mem_iff.mp (List.argmin_mem hsome)
    have hlookup : c.entries.lookup oldest.1 = some oldest.2 := AList.mem_lookup_iff.mpr hmem
    have := (perm_cons_erase hlookup).length_eq
    rw [List.length_cons] at this
    dsimp only
    omega

/-- There is room for one more entry. -/
theorem length_makeRoom_lt (order : VisitOrder) (now : ℕ) {c : DnsCache} (h : 1 ≤ c.maxEntries)
    (hle : c.entries.entries.length ≤ c.maxEntries) :
    (c.makeRoom order now).entries.entries.length < c.maxEntries := by
  unfold DnsCache.makeRoom
  have hexpired : (c.whenFull (DnsCache.evictExpired now)).entries.entries.length ≤
      c.maxEntries ∧ (c.whenFull (DnsCache.evictExpired now)).maxEntries = c.maxEntries := by
    unfold DnsCache.whenFull
    split
    · exact ⟨(length_evictExpired_le now c).trans hle, rfl⟩
    · exact ⟨hle, rfl⟩
  generalize c.whenFull (DnsCache.evictExpired now) = c' at hexpired ⊢
  have holdest := length_evictOldest_le order c'
  unfold DnsCache.whenFull
  split <;> omega

theorem length_step_le (order : VisitOrder) {c : DnsCache} (h : 1 ≤ c.maxEntries)
    (hle : c.entries.entries.length ≤ c.maxEntries) (op : ℕ × Op) :
    (c.step order op).entries.entries.length ≤ c.maxEntries := by
  obtain ⟨now, op⟩ := op
  cases op with
  | insert query response =>
    change (c.insert order now query response).entries.entries.length ≤ c.maxEntries
    unfold DnsCache.insert
    split
    · exact hle
    · rename_i key ttl _
      have hroom := length_makeRoom_lt order now h hle
      have herase := length_erase_le (c.makeRoom order now).entries key
      dsimp only
      rw [AList.entries_insert, List.length_cons]
      change ((c.makeRoom order now).entries.erase key).entries.length + 1 ≤ c.maxEntries
      omega
  | lookup query =>
    change (c.lookup now query).2.entries.entries.length ≤ c.maxEntries
    unfold DnsCache.lookup
    dsimp only
    repeat' split
    all_goals first | exact hle | exact (length_erase_le _ _).trans hle
  | flush => exact Nat.zero_le _
  | evictExpired => exact (length_evictExpired_le now c).trans hle
  | evictOldest =>
    have := length_evictOldest_le order c
    change (c.evictOldest order).entries.entries.length ≤ c.maxEntries
    omega

/-! ## Runs from an empty cache -/

/-- The entry is what the last accepted insertion for the key has stored, and no flush came
    behind it. -/
def IsLatest (enabled : Bool) (ops : List (ℕ × Op)) (key : CacheKey) (entry : CacheEntry) : Prop :=
  ∃ before time query response ttl after,
    ops = before ++ (time, .insert query response) :: after ∧
    cacheable enabled query response = some (key, ttl) ∧
    entry = CacheEntry.newAt response ttl time ∧
    ∀ op ∈ after, op.2 ≠ .flush ∧ ¬ AcceptedFor enabled key op.2

theorem run_append_singleton (order : VisitOrder) (c : DnsCache) (ops : List (ℕ × Op))
    (op : ℕ × Op) : c.run order (ops ++ [op]) = (c.run order ops).step order op :=
  List.foldl_concat _ _ _ _

section FromEmpty

variable (order : VisitOrder) (maxEntries : ℕ) (enabled : Bool)

theorem sameSettings_run (c : DnsCache) (ops : List (ℕ × Op)) :
    SameSettings c (c.run order ops) := by
  induction ops using List.reverseRecOn with
  | nil => exact ⟨rfl, rfl⟩
  | append_singleton ops op ih =>
    have hstep := sameSettings_step order (c.run order ops) op
    rw [run_append_singleton]
    exact ⟨hstep.enabled.trans ih.enabled, hstep.maxEntries.trans ih.maxEntries⟩

theorem stored_run (ops : List (ℕ × Op)) (key : CacheKey) (entry : CacheEntry)
    (h : ((DnsCache.withCapacity maxEntries enabled).run order ops).entries.lookup key =
      some entry) : IsLatest enabled ops key entry := by
  induction ops using List.reverseRecOn generalizing entry with
  | nil => cases h
  | append_singleton ops op ih =>
    have hsettings := sameSettings_run order (DnsCache.withCapacity maxEntries enabled) ops
    have henabled : (DnsCache.run order (DnsCache.withCapacity maxEntries enabled) ops).enabled =
        enabled := hsettings.enabled
    rw [run_append_singleton] at h
    cases lookup_step h with
    | inl hkept =>
      obtain ⟨hlookup, hflush, haccepted⟩ := hkept
      obtain ⟨before, time, query, response, ttl, after, rfl, hcache, hentry, hafter⟩ :=
        ih entry hlookup
      refine ⟨before, time, query, response, ttl, after ++ [op], by simp, hcache, hentry, ?_⟩
      intro op' hop'
      cases List.mem_append.mp hop' with
      | inl hmem => exact hafter op' hmem
      | inr hmem =>
        rw [List.mem_singleton.mp hmem]
        exact ⟨hflush, henabled ▸ haccepted⟩
    | inr hnew =>
      obtain ⟨query, response, ttl, hop, hcache, hentry⟩ := hnew
      refine ⟨ops, op.1, query, response, ttl, [], ?_, henabled ▸ hcache, hentry, ?_⟩
      · rw [← hop]
      · intro op' hop'
        cases hop'

theorem length_run_le (h : 1 ≤ maxEntries) (ops : List (ℕ × Op)) :
    ((DnsCache.withCapacity maxEntries enabled).run order ops).entries.entries.length ≤
      maxEntries := by
  induction ops using List.reverseRecOn with
  | nil => exact Nat.zero_le _
  | append_singleton ops op ih =>
    have hsettings := sameSettings_run order (DnsCache.withCapacity maxEntries enabled) ops
    have hmax : (DnsCache.run order (DnsCache.withCapacity maxEntries enabled) ops).maxEntries =
        maxEntries := hsettings.maxEntries
    rw [run_append_singleton]
    have hstep := length_step_le order (hmax.symm ▸ h) (hmax.symm ▸ ih) op
    rwa [hmax] at hstep

/-! ## What a lookup returns -/

theorem lookup_eq_some {now : ℕ} {query response : Bytes} {c : DnsCache}
    (h : (c.lookup now query).1 = some response) :
    ∃ key entry, fromQuery query = some key ∧ c.entries.lookup key = some entry ∧
      entry.isExpired now = false ∧ entry.responseForQuery query = some response := by
  unfold DnsCache.lookup at h
  split at h
  · cases h
  · split at h
    · cases h
    · rename_i key hkey
      dsimp only at h
      split at h
      · rename_i entry hentry
        split at h
        · cases h
        · rename_i hexpired
          exact ⟨key, entry, hkey, hentry, Bool.eq_false_iff.mpr hexpired, h⟩
      · cases h

theorem cacheable_eq_some {query response : Bytes} {key : CacheKey} {ttl : ℕ}
    (h : cacheable enabled query response = some (key, ttl)) :
    fromQuery query = some key ∧ ttl = lifetime response ∧ 0 < ttl := by
  unfold cacheable at h
  dsimp only at h
  split_ifs at h with _ _ _ _ _ hzero
  · obtain ⟨k, _, h⟩ := Option.bind_eq_some_iff.mp h
    cases h
  · obtain ⟨k, hk, h⟩ := Option.bind_eq_some_iff.mp h
    obtain ⟨rfl, rfl⟩ := Prod.mk.inj (Option.some.inj h)
    rw [extractMinTtl_eq] at hzero ⊢
    exact ⟨hk, rfl, Nat.pos_of_ne_zero hzero⟩

/-- Only the message id is rewritten. -/
theorem responseForQuery_eq_some {entry : CacheEntry} {query response : Bytes}
    (h : entry.responseForQuery query = some response) :
    response = query.take 2 ++ entry.response.drop 2 := by
  unfold CacheEntry.responseForQuery at h
  split at h
  · cases h
  · rename_i hlong
    rw [← Option.some.inj h]
    match query, entry.response, hlong with
    | _ :: _ :: _, _ :: _ :: _, _ => rfl
    | [], _, hlong => simp at hlong
    | [_], _, hlong => simp at hlong
    | _ :: _ :: _, [], hlong => simp at hlong
    | _ :: _ :: _, [_], hlong => simp at hlong

/-- An entry that has not expired is younger than its lifetime and than an hour. -/
theorem lt_of_not_isExpired {response : Bytes} {ttl time now : ℕ} (hpos : 0 < ttl)
    (h : (CacheEntry.newAt response ttl time).isExpired now = false) :
    now < time + min ttl cacheMaxTtlSecs * nanosPerSec := by
  have hclamp : min (max ttl cacheMinTtlSecs) cacheMaxTtlSecs = min ttl cacheMaxTtlSecs := by
    rw [max_eq_left (show cacheMinTtlSecs ≤ ttl from hpos)]
  have hfresh := of_decide_eq_false h
  change ¬ min (max ttl cacheMinTtlSecs) cacheMaxTtlSecs * nanosPerSec ≤ now - time at hfresh
  rw [hclamp] at hfresh
  omega

/-- After any operations on an empty cache with room for an entry: there are never more
    entries than its capacity, and a lookup returns only the response of the last accepted
    insertion for its key, with the message id of the query, less than its lifetime and an
    hour after it was inserted, and with no flush since. -/
theorem lookup_run (h : 1 ≤ maxEntries) (ops : List (ℕ × Op)) (now : ℕ) (query : Bytes) :
    ((DnsCache.withCapacity maxEntries enabled).run order ops).entries.entries.length ≤
      maxEntries ∧
    ∀ answer,
      (((DnsCache.withCapacity maxEntries enabled).run order ops).lookup now query).1 =
        some answer →
      ∃ key before time insertQuery response after,
        fromQuery query = some key ∧
        ops = before ++ (time, .insert insertQuery response) :: after ∧
        AcceptedFor enabled key (.insert insertQuery response) ∧
        (∀ op ∈ after, op.2 ≠ .flush ∧ ¬ AcceptedFor enabled key op.2) ∧
        now < time + min (lifetime response) cacheMaxTtlSecs * nanosPerSec ∧
        answer = query.take 2 ++ response.drop 2 := by
  refine ⟨length_run_le order maxEntries enabled h ops, ?_⟩
  intro answer hanswer
  obtain ⟨key, entry, hkey, hentry, hfresh, hresponse⟩ := lookup_eq_some hanswer
  obtain ⟨before, time, insertQuery, response, ttl, after, hops, hcache, rfl, hafter⟩ :=
    stored_run order maxEntries enabled ops key entry hentry
  obtain ⟨_, httl, hpos⟩ := cacheable_eq_some enabled hcache
  refine ⟨key, before, time, insertQuery, response, after, hkey, hops, ⟨ttl, hcache⟩, hafter, ?_,
    responseForQuery_eq_some hresponse⟩
  rw [← httl]
  exact lt_of_not_isExpired hpos hfresh

/-- As long as only host names are asked for, a lookup returns only the response to the same
    question. -/
theorem lookup_same_question {ops : List (ℕ × Op)} {now : ℕ} {query answer : Bytes}
    (hquery : HostName query)
    (hops : ∀ time insertQuery response, (time, .insert insertQuery response) ∈ ops →
      HostName insertQuery)
    (h : (((DnsCache.withCapacity maxEntries enabled).run order ops).lookup now query).1 =
      some answer) :
    ∃ time insertQuery response, (time, .insert insertQuery response) ∈ ops ∧
      SameQuestion query insertQuery ∧ answer = query.take 2 ++ response.drop 2 := by
  obtain ⟨key, entry, hkey, hentry, -, hresponse⟩ := lookup_eq_some h
  obtain ⟨before, time, insertQuery, response, ttl, after, rfl, hcache, rfl, -⟩ :=
    stored_run order maxEntries enabled ops key entry hentry
  have hmem : (time, Op.insert insertQuery response) ∈
      before ++ (time, .insert insertQuery response) :: after := by simp
  obtain ⟨hkey', -⟩ := cacheable_eq_some enabled hcache
  refine ⟨time, insertQuery, response, hmem, ?_, responseForQuery_eq_some hresponse⟩
  exact sameQuestion_of_key hquery (hops _ _ _ hmem) (by simp [hkey]) (hkey.trans hkey'.symm)

end FromEmpty

/-- A map that is visited as it is stored. -/
def storedOrder : VisitOrder := ⟨fun m => m.entries, fun _ => List.Perm.refl _⟩

/-- A response without records to `undottedQuery`. -/
def undottedResponse : Bytes :=
  [0x12, 0x34, 0x81, 0x80, 0, 1, 0, 0, 0, 0, 0, 0, 1, 0x61, 1, 0x62, 0, 0, 1, 0, 1]

/-- In a cache with room for one entry, a response without records is served for less than
    30 seconds. -/
theorem lookup_run_undotted :
    (((DnsCache.withCapacity 1 true).run storedOrder
      [(5, .insert undottedQuery undottedResponse)]).lookup 6 undottedQuery).1 =
        some undottedResponse ∧
    ∃ key before time insertQuery response after,
      fromQuery undottedQuery = some key ∧
      [(5, Op.insert undottedQuery undottedResponse)] =
        before ++ (time, .insert insertQuery response) :: after ∧
      AcceptedFor true key (.insert insertQuery response) ∧
      (∀ op ∈ after, op.2 ≠ .flush ∧ ¬ AcceptedFor true key op.2) ∧
      6 < time + min (lifetime response) cacheMaxTtlSecs * nanosPerSec ∧
      undottedResponse = undottedQuery.take 2 ++ response.drop 2 :=
  have h : (((DnsCache.withCapacity 1 true).run storedOrder
      [(5, .insert undottedQuery undottedResponse)]).lookup 6 undottedQuery).1 =
        some undottedResponse := by decide
  ⟨h, (lookup_run storedOrder 1 true (by decide)
    [(5, .insert undottedQuery undottedResponse)] 6 undottedQuery).2 undottedResponse h⟩

theorem lookup_same_question_undotted :
    ∃ time insertQuery response,
      (time, .insert insertQuery response) ∈ [(5, Op.insert undottedQuery undottedResponse)] ∧
      SameQuestion undottedQuery insertQuery ∧
      undottedResponse = undottedQuery.take 2 ++ response.drop 2 := by
  have hlookup : (((DnsCache.withCapacity 1 true).run storedOrder
      [(5, .insert undottedQuery undottedResponse)]).lookup 6 undottedQuery).1 =
        some undottedResponse := by decide
  refine lookup_same_question storedOrder 1 true hostName_undottedQuery ?_ hlookup
  rintro time insertQuery response hmem
  obtain ⟨-, rfl, -⟩ : time = 5 ∧ insertQuery = undottedQuery ∧ response = undottedResponse := by
    simpa using hmem
  exact hostName_undottedQuery

end OxidizedSystemd.Resolved

import OxidizedSystemd.Lib.Run
import OxidizedSystemd.Resolved.OptRecord

/-!
# Queries that are handled

Model of `handle_query` (`resolved/src/main.rs`, lines 376–510) with the cache that all clients
share. A client that sends no `OPT` record in its query is to get none in the reply; the record is
taken out of the responses that are forwarded to it, not of those that are cached.

* `handleQuery_step`: what one query does to the cache, and what its reply has.
* `handleQuery_replies`: when no response with an `OPT` record is cached and every response to a
  query without one can be stripped, no reply to such a query has one.
* `cached_opt_served`: a cached response is served with its `OPT` record.
-/

namespace OxidizedSystemd.Resolved

open OxidizedSystemd.Lib

/-! ## Forwarded queries -/

/-- `prepare_query_with_edns`. -/
def prepareQueryWithEdns (query : Bytes) (dnssecEnabled : Bool) : Bytes :=
  let opt := ({} : OptRecord).withUdpSize 4096
  (appendOptToQuery query (if dnssecEnabled then opt.withDnssecOk else opt)).getD query

/-- `ValidationResult`. -/
inductive ValidationResult where
  | secure
  | insecure
  | bogus
  | indeterminate

/-- `DnssecMode`. -/
inductive DnssecMode where
  | yes
  | no
  | allowDowngrade
  deriving DecidableEq

/-- The errors of a forwarded query that `handle_query` tells apart. -/
inductive ForwardError where
  | timeout
  | failure

/-- What a query is handled with, besides the cache: the hosts, the servers, the router when it
    has routing domains (`servers_for_name`), the trust anchors of the validator, and what comes
    back for a query that is sent to the servers. -/
structure QueryContext (Addr : Type) where
  etcHosts : EtcHosts
  upstreams : List Addr
  serversForName : Option (List Char → List Addr)
  isNegativeTrustAnchor : List Char → Bool
  hasTrustAnchor : List Char → Bool
  dnssecMode : DnssecMode
  forward : Bytes → List Addr → Except ForwardError Bytes

variable {Addr : Type}

/-- `validate_rrset` (`dnssec.rs`, lines 1274–1349), of no signatures and no keys. -/
def QueryContext.validateRrset (ctx : QueryContext Addr) (qname : List Char) : ValidationResult :=
  if ctx.isNegativeTrustAnchor qname then .insecure
  else if !ctx.hasTrustAnchor qname then .insecure
  else .bogus

/-- `validate_dnssec_response` (lines 323–374). -/
def QueryContext.validateDnssecResponse (ctx : QueryContext Addr) (query response : Bytes) :
    Bytes :=
  if ctx.dnssecMode = .no then response
  else
    match extractQueryName query with
    | none => response
    | some qname =>
      if ctx.isNegativeTrustAnchor qname then response
      else
        match ctx.validateRrset qname with
        | .secure =>
          if headerSize ≤ response.length then response.set 3 ((response.getD 3 0) ||| 0x20)
          else response
        | .bogus => (buildServfail query).getD response
        | .insecure => response
        | .indeterminate => response

/-- `effective_upstreams` (lines 421–440). -/
def QueryContext.effectiveUpstreams (ctx : QueryContext Addr) (query : Bytes) : List Addr :=
  match ctx.serversForName with
  | none => ctx.upstreams
  | some serversForName =>
    match extractQueryName query with
    | none => ctx.upstreams
    | some qname => serversForName qname

/-- The response from the servers, as it is after the validation (lines 448–468). -/
def QueryContext.upstreamResponse (ctx : QueryContext Addr) (query : Bytes) :
    Except ForwardError Bytes :=
  (ctx.forward (prepareQueryWithEdns query (ctx.dnssecMode ≠ .no))
    (ctx.effectiveUpstreams query)).map (ctx.validateDnssecResponse query)

/-- `final_response` (lines 470–476). -/
def finalResponse (query response : Bytes) : Bytes :=
  if !hasOptRecord query then (stripOptFromMessage response).getD response else response

/-! ## The handler -/

/-- The counters of `AtomicStats` that `handle_query` raises. -/
structure AtomicStats where
  queriesReceived : ℕ := 0
  queriesForwarded : ℕ := 0
  responsesOk : ℕ := 0
  responsesServfail : ℕ := 0
  responsesNxdomain : ℕ := 0
  responsesFormerr : ℕ := 0
  upstreamTimeouts : ℕ := 0
  upstreamFailures : ℕ := 0

/-- The counters after a response (lines 478–491). -/
def AtomicStats.countResponse (stats : AtomicStats) (response : Bytes) : AtomicStats :=
  if headerSize ≤ response.length then
    let rcode := (response.getD 3 0) &&& 0x0F
    if rcode = 0 then { stats with responsesOk := stats.responsesOk + 1 }
    else if rcode = 3 then { stats with responsesNxdomain := stats.responsesNxdomain + 1 }
    else stats
  else stats

/-- What stays between queries. -/
structure Resolver where
  cache : DnsCache
  stats : AtomicStats

/-- A query, the time of its lookup in the cache and that of the insertion, and what it is handled
    with. -/
structure Request (Addr : Type) where
  query : Bytes
  lookupAt : ℕ
  insertAt : ℕ
  ctx : QueryContext Addr

/-- The part of `handle_query` behind the cache (lines 442–508). -/
def forwardRequest (order : VisitOrder) (r : Request Addr) (s : Resolver) : Bytes × Resolver :=
  if (r.ctx.effectiveUpstreams r.query).isEmpty then
    ((buildServfail r.query).getD [],
      { s with stats := { s.stats with responsesServfail := s.stats.responsesServfail + 1 } })
  else
    let stats := { s.stats with queriesForwarded := s.stats.queriesForwarded + 1 }
    match r.ctx.upstreamResponse r.query with
    | .ok response =>
      let final := finalResponse r.query response
      (final,
        { cache := s.cache.insert order r.insertAt r.query final
          stats := stats.countResponse final })
    | .error .timeout =>
      ((buildServfail r.query).getD [],
        { s with
          stats := { stats with
            upstreamTimeouts := stats.upstreamTimeouts + 1
            responsesServfail := stats.responsesServfail + 1 } })
    | .error .failure =>
      ((buildServfail r.query).getD [],
        { s with
          stats := { stats with
            upstreamFailures := stats.upstreamFailures + 1
            responsesServfail := stats.responsesServfail + 1 } })

/-- The query is well formed and is one. -/
def isValidQuery (query : Bytes) : Bool :=
  match DnsMessage.parse query with
  | .ok msg => msg.isQuery
  | .error _ => false

/-- `handle_query`. No lock is poisoned. -/
def handleQuery (order : VisitOrder) (r : Request Addr) (s : Resolver) : Bytes × Resolver :=
  let stats := { s.stats with queriesReceived := s.stats.queriesReceived + 1 }
  if !isValidQuery r.query then
    ((buildFormerr r.query).getD [],
      { s with stats := { stats with responsesFormerr := stats.responsesFormerr + 1 } })
  else
    match r.ctx.etcHosts.lookup r.query with
    | some response =>
      (response, { s with stats := { stats with responsesOk := stats.responsesOk + 1 } })
    | none =>
      let (cached, cache) := s.cache.lookup r.lookupAt r.query
      match cached with
      | some response =>
        (response, { cache, stats := { stats with responsesOk := stats.responsesOk + 1 } })
      | none => forwardRequest order r { cache, stats }

/-! ## Replies to queries without OPT records -/

/-- The query is sent to the servers. -/
def GoesUpstream (s : Resolver) (r : Request Addr) : Prop :=
  isValidQuery r.query ∧ r.ctx.etcHosts.lookup r.query = none ∧
    (s.cache.lookup r.lookupAt r.query).1 = none ∧ r.ctx.effectiveUpstreams r.query ≠ []

/-- The response that comes back for a query with an `OPT` record has none or is not cached, and
    that for a query without one can be stripped or has none. -/
def ResponseFits (s : Resolver) (r : Request Addr) : Prop :=
  GoesUpstream s r → ∀ response, r.ctx.upstreamResponse r.query = .ok response →
    EdnsFree response ∨
      if hasOptRecord r.query then cacheable s.cache.enabled r.query response = none
      else (stripOptFromMessage response).isSome

/-- No cached response has an `OPT` record. -/
def CacheEdnsFree (c : DnsCache) : Prop :=
  ∀ key entry, c.entries.lookup key = some entry → EdnsFree entry.response

variable {order : VisitOrder} {s : Resolver} {r : Request Addr}

theorem hasOptRecord_responseForQuery {entry : CacheEntry} {query response : Bytes}
    (h : EdnsFree entry.response) (hresponse : entry.responseForQuery query = some response) :
    hasOptRecord response = false := by
  rw [CacheEntry.responseForQuery] at hresponse
  split at hresponse
  · cases hresponse
  · rw [← Option.some.inj hresponse]
    exact h _ _

theorem CacheEdnsFree.lookup {c : DnsCache} (h : CacheEdnsFree c) (now : ℕ) (query : Bytes) :
    CacheEdnsFree (c.lookup now query).2 :=
  fun key entry hentry => h key entry (lookup_lookup hentry)

/-- A response that is inserted has no `OPT` record, or it is not accepted. -/
theorem CacheEdnsFree.insert {c : DnsCache} (h : CacheEdnsFree c) {now : ℕ} {query response : Bytes}
    (hresponse : EdnsFree response ∨ cacheable c.enabled query response = none) :
    CacheEdnsFree (c.insert order now query response) := by
  intro key entry hentry
  have hstep : (c.step order (now, .insert query response)).entries.lookup key = some entry :=
    hentry
  rcases lookup_step hstep with
    ⟨hentry, -⟩ | ⟨query', response', ttl, hop, hcache, rfl⟩
  · exact h key entry hentry
  · cases hop
    rcases hresponse with hfree | hnone
    · exact hfree
    · rw [hnone] at hcache
      cases hcache

theorem enabled_lookup (c : DnsCache) (now : ℕ) (query : Bytes) :
    (c.lookup now query).2.enabled = c.enabled :=
  (sameSettings_step storedOrder c (now, .lookup query)).enabled

/-- The response that is returned to the client and cached. -/
theorem finalResponse_fits {enabled : Bool} {query response : Bytes}
    (h : EdnsFree response ∨ if hasOptRecord query then cacheable enabled query response = none
      else (stripOptFromMessage response).isSome) :
    (hasOptRecord query = false → EdnsFree (finalResponse query response)) ∧
      (EdnsFree (finalResponse query response) ∨
        cacheable enabled query (finalResponse query response) = none) := by
  cases hquery : hasOptRecord query with
  | true =>
    have hfinal : finalResponse query response = response := by simp [finalResponse, hquery]
    rw [hfinal]
    rw [hquery] at h
    exact ⟨fun hfalse => absurd hfalse (by simp), h⟩
  | false =>
    have hfree : EdnsFree (finalResponse query response) := by
      rw [hquery] at h
      rw [finalResponse, hquery, Bool.not_false, if_pos rfl]
      cases hstrip : stripOptFromMessage response with
      | none =>
        rw [hstrip] at h
        exact h.resolve_right (by simp)
      | some result => exact stripOptFromMessage_ednsFree hstrip
    exact ⟨fun _ => hfree, .inl hfree⟩

/-- What is forwarded keeps the cache free of `OPT` records. -/
theorem forwardRequest_step (hcache : CacheEdnsFree s.cache)
    (hfits : r.ctx.effectiveUpstreams r.query ≠ [] → ∀ response,
      r.ctx.upstreamResponse r.query = .ok response → EdnsFree response ∨
        if hasOptRecord r.query then cacheable s.cache.enabled r.query response = none
        else (stripOptFromMessage response).isSome) :
    (hasOptRecord r.query = false → hasOptRecord (forwardRequest order r s).1 = false) ∧
      CacheEdnsFree (forwardRequest order r s).2.cache := by
  have hservfail := (buildServfail_ednsFree r.query).hasOptRecord
  rw [forwardRequest]
  cases hempty : (r.ctx.effectiveUpstreams r.query).isEmpty with
  | true => exact ⟨fun _ => hservfail, hcache⟩
  | false =>
    have hne : r.ctx.effectiveUpstreams r.query ≠ [] := by
      intro hnil
      rw [hnil] at hempty
      cases hempty
    rw [if_neg (by simp)]
    cases hresponse : r.ctx.upstreamResponse r.query with
    | ok response =>
      obtain ⟨hreply, hinsert⟩ := finalResponse_fits (hfits hne response hresponse)
      exact ⟨fun hquery => (hreply hquery).hasOptRecord, hcache.insert hinsert⟩
    | error e =>
      cases e with
      | timeout => exact ⟨fun _ => hservfail, hcache⟩
      | failure => exact ⟨fun _ => hservfail, hcache⟩

/-- One query: its reply has no `OPT` record if it has none, and the cache stays free of them. -/
theorem handleQuery_step (hcache : CacheEdnsFree s.cache) (hfits : ResponseFits s r) :
    (hasOptRecord r.query = false → hasOptRecord (handleQuery order r s).1 = false) ∧
      CacheEdnsFree (handleQuery order r s).2.cache := by
  rw [handleQuery]
  cases hvalid : isValidQuery r.query with
  | false => exact ⟨fun _ => (buildFormerr_ednsFree r.query).hasOptRecord, hcache⟩
  | true =>
    dsimp only
    rw [if_neg (by simp)]
    cases hhosts : r.ctx.etcHosts.lookup r.query with
    | some response => exact ⟨fun _ => (EtcHosts.lookup_ednsFree hhosts).hasOptRecord, hcache⟩
    | none =>
      dsimp only
      have hlookup := hcache.lookup r.lookupAt r.query
      have henabled := enabled_lookup s.cache r.lookupAt r.query
      cases hcached : (s.cache.lookup r.lookupAt r.query).1 with
      | some response =>
        obtain ⟨key, entry, -, hentry, -, hresponse⟩ := lookup_eq_some hcached
        exact ⟨fun _ => hasOptRecord_responseForQuery (hcache key entry hentry) hresponse, hlookup⟩
      | none =>
        apply forwardRequest_step hlookup
        intro hne
        dsimp only
        rw [henabled]
        exact hfits ⟨hvalid, hhosts, hcached, hne⟩

/-! ## Runs -/

/-- The resolver behind a query. -/
def Resolver.step (order : VisitOrder) (s : Resolver) (r : Request Addr) : Option Resolver :=
  some (handleQuery order r s).2

/-- A resolver with an empty cache. -/
def Resolver.start (maxEntries : ℕ) (enabled : Bool) : Resolver :=
  { cache := DnsCache.withCapacity maxEntries enabled, stats := {} }

/-- In a run in which the responses fit, the reply to every query without an `OPT` record has
    none. -/
theorem handleQuery_replies (order : VisitOrder) (maxEntries : ℕ) (enabled : Bool)
    {rs before after : List (Request Addr)} {r : Request Addr} {s : Resolver}
    (hfits : RunMeets (Resolver.step order) ResponseFits (Resolver.start maxEntries enabled) rs)
    (hsplit : rs = before ++ r :: after)
    (hrun : run (Resolver.step order) (Resolver.start maxEntries enabled) before = some s)
    (hquery : hasOptRecord r.query = false) : hasOptRecord (handleQuery order r s).1 = false := by
  subst hsplit
  have hstart : CacheEdnsFree (Resolver.start maxEntries enabled).cache :=
    fun key entry hentry => by cases hentry
  have hcache : CacheEdnsFree s.cache := by
    have hstep : ∀ (s : Resolver) (r : Request Addr) (s' : Resolver), CacheEdnsFree s.cache →
        ResponseFits s r → Resolver.step order s r = some s' → CacheEdnsFree s'.cache := by
      intro s r s' hs hfits hstep
      cases hstep
      exact (handleQuery_step hs hfits).2
    exact run_inv_of_meets (P := fun s => CacheEdnsFree s.cache) hstep before hstart
      hfits.append_left hrun
  exact (handleQuery_step hcache (hfits.at_step hrun)).1 hquery

/-! ## Two clients -/

/-- A query for `a`. -/
def queryA : Bytes := [0x12, 0x34, 1, 0, 0, 1, 0, 0, 0, 0, 0, 0, 1, 0x61, 0, 0, 1, 0, 1]

/-- The same query with an `OPT` record. -/
def queryAEdns : Bytes :=
  [0x56, 0x78, 1, 0, 0, 1, 0, 0, 0, 0, 0, 1, 1, 0x61, 0, 0, 1, 0, 1,
    0, 0, 41, 0x10, 0, 0, 0, 0, 0, 0, 0]

/-- A response to it, with an `OPT` record. -/
def responseAEdns : Bytes :=
  [0x56, 0x78, 0x81, 0x80, 0, 1, 0, 0, 0, 0, 0, 1, 1, 0x61, 0, 0, 1, 0, 1,
    0, 0, 41, 0x10, 0, 0, 0, 0, 0, 0, 0]

/-- One server, which answers every query with `responseAEdns`. -/
def oneServer : QueryContext Unit where
  etcHosts := ⟨fun _ => none, fun _ => none, fun _ => none⟩
  upstreams := [()]
  serversForName := none
  isNegativeTrustAnchor := fun _ => false
  hasTrustAnchor := fun _ => false
  dnssecMode := .no
  forward := fun _ _ => .ok responseAEdns

/-- A query that is handled at a time. -/
def requestAt (query : Bytes) (time : ℕ) : Request Unit :=
  { query, lookupAt := time, insertAt := time, ctx := oneServer }

theorem responseFits_queryA (s : Resolver) (time : ℕ) : ResponseFits s (requestAt queryA time) := by
  intro _ response hresponse
  have hself : oneServer.upstreamResponse queryA = .ok responseAEdns := rfl
  obtain rfl := Except.ok.inj (hself.symm.trans hresponse)
  have hquery : hasOptRecord (requestAt queryA time).query = false := by
    show hasOptRecord queryA = false
    decide
  have hstrip : (stripOptFromMessage responseAEdns).isSome := by decide
  rw [hquery]
  exact .inr hstrip

/-- The response to the first query is stripped, and so it is served for the second. -/
theorem handleQuery_replies_queryA :
    hasOptRecord (handleQuery storedOrder (requestAt queryA 6) (handleQuery storedOrder
      (requestAt queryA 5) (Resolver.start 4096 true)).2).1 = false := by
  have hfits : ∀ s : Resolver, RunMeets (Resolver.step storedOrder) ResponseFits s
      [requestAt queryA 5, requestAt queryA 6] :=
    fun s => ⟨responseFits_queryA s 5, fun s' _ => ⟨responseFits_queryA s' 6, fun _ _ => trivial⟩⟩
  have hsplit : [requestAt queryA 5, requestAt queryA 6] =
      [requestAt queryA 5] ++ requestAt queryA 6 :: [] := rfl
  exact handleQuery_replies storedOrder 4096 true (hfits _) hsplit rfl (by decide)

/-- The response to a client with EDNS is cached as it is and served to one without. -/
theorem cached_opt_served :
    ¬∀ (order : VisitOrder) (maxEntries : ℕ) (enabled : Bool)
      (rs before after : List (Request Unit)) (r : Request Unit) (s : Resolver),
      rs = before ++ r :: after →
      run (Resolver.step order) (Resolver.start maxEntries enabled) before = some s →
      hasOptRecord r.query = false → hasOptRecord (handleQuery order r s).1 = false := by
  intro hclaim
  have hreply := hclaim storedOrder 4096 true [requestAt queryAEdns 5, requestAt queryA 6]
    [requestAt queryAEdns 5] [] (requestAt queryA 6) _ rfl rfl (by decide)
  have hserved : hasOptRecord (handleQuery storedOrder (requestAt queryA 6) (handleQuery storedOrder
      (requestAt queryAEdns 5) (Resolver.start 4096 true)).2).1 = true := by
    decide
  exact absurd hserved (by rw [hreply]; decide)

end OxidizedSystemd.Resolved

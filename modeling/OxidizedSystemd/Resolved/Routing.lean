import OxidizedSystemd.Lib.IpAddr
import Mathlib.Data.Set.Basic
import OxidizedSystemd.Resolved.Name

/-!
# Split DNS

`DnsRouter` of `resolved/src/routing.rs` (lines 61–206 and 273–304): the servers for a query name,
from the routing domains of the links and of the global configuration.

A routing domain is the list of its labels, and the catch-all `~.` is the empty list, so that
every name has the labels of the catch-all behind its own.

* `nameMatchesDomain_iff`: a domain matches the names whose last labels are its own.
* `Considered.foldl`: what the loop over the routes keeps.
* `serversForName_eq`: the servers of the longest suffix, and what comes in their place.
-/

namespace OxidizedSystemd.Resolved

open OxidizedSystemd.Lib

/-! ## Configuration -/

/-- `IpAddr`. -/
inductive IpAddr
  | v4 (addr : Octets 4)
  | v6 (addr : Octets 16)
  deriving DecidableEq

/-- `SocketAddr`. -/
structure SocketAddr where
  addr : IpAddr
  port : ℕ
  deriving DecidableEq

/-- `DnsServer` (`config.rs`, lines 194–201). -/
structure DnsServer where
  addr : IpAddr
  port : ℕ
  serverName : Option (List Char)

/-- `DnsServer::socket_addr`. -/
def DnsServer.socketAddr (server : DnsServer) : SocketAddr := ⟨server.addr, server.port⟩

/-- The fields of `LinkDns` that the router reads. -/
structure LinkDns where
  ifname : List Char
  dnsServers : List DnsServer
  domains : List (List Char)
  defaultRoute : Bool

/-- The fields of `ResolvedConfig` that the router reads. -/
structure ResolvedConfig where
  dns : List DnsServer
  fallbackDns : List DnsServer
  domains : List (List Char)
  linkDns : List LinkDns

/-! ## Names -/

/-- `str::trim_end_matches('.')`. -/
def trimEndDots (cs : List Char) : List Char := (cs.reverse.dropWhile (· = '.')).reverse

/-- `normalize_domain`. -/
def normalizeDomain (s : List Char) : List Char :=
  let s := toAsciiLowercase (trim s)
  if s = ['.'] then [] else trimEndDots s

/-- `name_matches_domain`. -/
def nameMatchesDomain (name domain : List Char) : Bool :=
  if domain = [] then true
  else if name = domain then true
  else
    match stripSuffix domain name with
    | some front => front.getLast? = some '.'
    | none => false

/-! ## The router -/

/-- `DnsRoute`. -/
structure DnsRoute where
  domain : List Char
  labelCount : ℕ
  servers : List SocketAddr
  linkName : List Char

/-- `DnsRouter`. -/
structure DnsRouter where
  routes : List DnsRoute
  defaultRouteServers : List SocketAddr
  globalServers : List SocketAddr
  fallbackServers : List SocketAddr

/-- The loops that push each server that is not contained yet. -/
def pushNew (acc servers : List SocketAddr) : List SocketAddr :=
  servers.foldl (fun acc s => if s ∈ acc then acc else acc ++ [s]) acc

/-- The route of a configured domain, if it has the prefix `~`. -/
def routeOf (servers : List SocketAddr) (linkName rawDomain : List Char) : Option DnsRoute :=
  (stripPrefix ['~'] (trim rawDomain)).map fun routing =>
    let domain := normalizeDomain routing
    { domain, labelCount := if domain = [] then 0 else (domain.splitOn '.').length,
      servers, linkName }

/-- The body of the loop over the links: the routes and the default-route servers so far. -/
def addLink (acc : List DnsRoute × List SocketAddr) (link : LinkDns) :
    List DnsRoute × List SocketAddr :=
  if link.dnsServers = [] then acc
  else
    let linkServers := link.dnsServers.map DnsServer.socketAddr
    let hasRoutingDomain :=
      link.domains.any fun rawDomain => (stripPrefix ['~'] (trim rawDomain)).isSome
    (acc.1 ++ link.domains.filterMap (routeOf linkServers link.ifname),
      if link.defaultRoute ∧ ¬hasRoutingDomain then pushNew acc.2 linkServers else acc.2)

/-- `DnsRouter::from_config`. -/
def DnsRouter.fromConfig (config : ResolvedConfig) : DnsRouter :=
  let (routes, defaultRouteServers) := config.linkDns.foldl addLink ([], [])
  let globalDns := config.dns.map DnsServer.socketAddr
  let globalRoutes :=
    if globalDns = [] then [] else config.domains.filterMap (routeOf globalDns "global".toList)
  { routes := routes ++ globalRoutes
    defaultRouteServers
    globalServers := globalDns
    fallbackServers := config.fallbackDns.map DnsServer.socketAddr }

/-- What the loop of `servers_for_name` keeps. -/
structure Best where
  bestLabelCount : ℕ
  bestServers : List SocketAddr
  haveCatchAll : List SocketAddr

/-- The body of the loop. -/
def considerRoute (name : List Char) (best : Best) (route : DnsRoute) : Best :=
  if route.labelCount = 0 then
    { best with haveCatchAll := pushNew best.haveCatchAll route.servers }
  else if nameMatchesDomain name route.domain then
    if route.labelCount > best.bestLabelCount then
      { best with bestLabelCount := route.labelCount, bestServers := route.servers }
    else if route.labelCount = best.bestLabelCount then
      { best with bestServers := pushNew best.bestServers route.servers }
    else best
  else best

/-- `servers_for_name`. -/
def DnsRouter.serversForName (router : DnsRouter) (queryName : List Char) : List SocketAddr :=
  let name := normalizeDomain queryName
  let best := router.routes.foldl (considerRoute name) ⟨0, [], []⟩
  if best.bestServers ≠ [] then best.bestServers
  else if best.haveCatchAll ≠ [] then best.haveCatchAll
  else if router.defaultRouteServers ≠ [] then router.defaultRouteServers
  else if router.globalServers ≠ [] then router.globalServers
  else router.fallbackServers

/-! ## What the router is for -/

/-- The labels of a normalized name, of which the root has none. -/
def labelsOf (name : List Char) : List (List Char) := if name = [] then [] else name.splitOn '.'

/-- The labels of a configured domain, if it is a routing domain. -/
def routingLabels (rawDomain : List Char) : Option (List (List Char)) :=
  (stripPrefix ['~'] (trim rawDomain)).map fun routing => labelsOf (normalizeDomain routing)

/-- The configuration routes a domain to a server. -/
def RoutesTo (config : ResolvedConfig) (domain : List (List Char)) (s : SocketAddr) : Prop :=
  (∃ link ∈ config.linkDns, (∃ raw ∈ link.domains, routingLabels raw = some domain) ∧
    s ∈ link.dnsServers.map DnsServer.socketAddr) ∨
  (∃ raw ∈ config.domains, routingLabels raw = some domain) ∧
    s ∈ config.dns.map DnsServer.socketAddr

/-- The domain is a whole-label suffix of the name, and no routed one with more labels is. -/
def Longest (config : ResolvedConfig) (name domain : List (List Char)) : Prop :=
  domain <:+ name ∧ ∀ domain' s, RoutesTo config domain' s → domain' <:+ name →
    domain'.length ≤ domain.length

/-- The servers of the routes of most labels. -/
def longestServers (config : ResolvedConfig) (name : List (List Char)) : Set SocketAddr :=
  {s | ∃ domain, domain ≠ [] ∧ RoutesTo config domain s ∧ Longest config name domain}

/-- The servers of the catch-all routes. -/
def catchAllServers (config : ResolvedConfig) : Set SocketAddr := {s | RoutesTo config [] s}

/-- The servers of the default-route links without routing domains. -/
def defaultRouteServers (config : ResolvedConfig) : Set SocketAddr :=
  {s | ∃ link ∈ config.linkDns, link.defaultRoute = true ∧
    (∀ raw ∈ link.domains, routingLabels raw = none) ∧
    s ∈ link.dnsServers.map DnsServer.socketAddr}

/-- The first of the sets that has elements. -/
def firstNonempty {α : Type*} : List (Set α) → Set α
  | [] => ∅
  | S :: rest => {a | a ∈ S ∨ S = ∅ ∧ a ∈ firstNonempty rest}

/-- The servers that a name is routed to. -/
def routedServers (config : ResolvedConfig) (name : List (List Char)) : Set SocketAddr :=
  firstNonempty [longestServers config name, catchAllServers config, defaultRouteServers config,
    {s | s ∈ config.dns.map DnsServer.socketAddr},
    {s | s ∈ config.fallbackDns.map DnsServer.socketAddr}]

/-! ## Suffixes -/

variable {name domain : List Char} {s : SocketAddr} {servers acc : List SocketAddr}

theorem intercalate_append_of_ne_nil {α : Type*} {sep : List α} {as bs : List (List α)}
    (has : as ≠ []) (hbs : bs ≠ []) :
    sep.intercalate (as ++ bs) = sep.intercalate as ++ (sep ++ sep.intercalate bs) := by
  induction as with
  | nil => exact absurd rfl has
  | cons a as ih =>
    by_cases hnil : as = []
    · rw [hnil, List.singleton_append, List.intercalate_cons_of_ne_nil hbs,
        List.intercalate_singleton, List.append_assoc]
    · rw [List.cons_append, List.intercalate_cons_of_ne_nil (by simp [hnil]), ih hnil,
        List.intercalate_cons_of_ne_nil hnil]
      simp only [List.append_assoc]

/-- The last pieces of a text are the text itself, or all behind some separator. -/
theorem splitOn_suffix_iff {c : Char} {text tail : List Char} :
    tail.splitOn c <:+ text.splitOn c ↔ text = tail ∨ ∃ front, text = front ++ c :: tail := by
  constructor
  · rintro ⟨pieces, hpieces⟩
    have htext := congrArg (List.intercalate [c]) hpieces
    rw [List.intercalate_splitOn] at htext
    by_cases hnil : pieces = []
    · rw [hnil, List.nil_append, List.intercalate_splitOn] at htext
      exact Or.inl htext.symm
    · rw [intercalate_append_of_ne_nil hnil (List.splitOn_ne_nil c tail),
        List.intercalate_splitOn] at htext
      exact Or.inr ⟨_, htext.symm⟩
  · rintro (rfl | ⟨front, rfl⟩)
    · exact List.suffix_rfl
    · rw [List.splitOn_append_cons_self]
      exact List.suffix_append _ _

/-- A domain matches the names whose last labels are its own. -/
theorem nameMatchesDomain_iff :
    nameMatchesDomain name domain = true ↔ labelsOf domain <:+ labelsOf name := by
  rw [nameMatchesDomain, labelsOf, labelsOf]
  by_cases hdomain : domain = []
  · simp [hdomain]
  rw [if_neg hdomain, if_neg hdomain]
  by_cases hname : name = []
  · -- the root has no suffix with labels
    have hstrip : stripSuffix domain [] = none := by
      apply Option.eq_none_iff_forall_not_mem.mpr
      intro front hfront
      have := stripSuffix_eq_some_iff.mp hfront
      simp [hdomain] at this
    simp [hname, hstrip, Ne.symm hdomain, List.splitOn_ne_nil]
  rw [if_neg hname, splitOn_suffix_iff]
  by_cases heq : name = domain
  · simp [heq]
  rw [if_neg heq, or_iff_right heq]
  cases hstrip : stripSuffix domain name with
  | none =>
    simp only [Bool.false_eq_true, false_iff, not_exists]
    intro front hfront
    rw [hfront, show front ++ '.' :: domain = (front ++ ['.']) ++ domain by simp] at hstrip
    rw [stripSuffix_eq_some_iff.mpr rfl] at hstrip
    cases hstrip
  | some front =>
    have hname := stripSuffix_eq_some_iff.mp hstrip
    rw [decide_eq_true_eq, List.getLast?_eq_some_iff]
    constructor
    · rintro ⟨rest, rfl⟩
      exact ⟨rest, by simp [hname]⟩
    · rintro ⟨rest, hrest⟩
      refine ⟨rest, ?_⟩
      rw [hname, show rest ++ '.' :: domain = (rest ++ ['.']) ++ domain by simp] at hrest
      exact List.append_cancel_right hrest

/-! ## Routes -/

variable {config : ResolvedConfig} {route : DnsRoute} {labels : List (List Char)}

theorem mem_pushNew : s ∈ pushNew acc servers ↔ s ∈ acc ∨ s ∈ servers := by
  unfold pushNew
  induction servers generalizing acc with
  | nil => simp
  | cons a servers ih =>
    rw [List.foldl_cons, ih, List.mem_cons]
    by_cases ha : a ∈ acc
    · rw [if_pos ha]
      constructor
      · rintro (h | h)
        · exact Or.inl h
        · exact Or.inr (Or.inr h)
      · rintro (h | rfl | h)
        · exact Or.inl h
        · exact Or.inl ha
        · exact Or.inr h
    · rw [if_neg ha, List.mem_append, List.mem_singleton, or_assoc]

/-- A route has the labels of the configured domain, their number and the given servers. -/
theorem routeOf_eq_some {linkName raw : List Char} (h : routeOf servers linkName raw = some route) :
    routingLabels raw = some (labelsOf route.domain) ∧
      route.labelCount = (labelsOf route.domain).length ∧ route.servers = servers := by
  obtain ⟨routing, hrouting, rfl⟩ := Option.map_eq_some_iff.mp h
  refine ⟨?_, ?_, rfl⟩
  · rw [routingLabels, hrouting]
    rfl
  · show (if normalizeDomain routing = [] then 0 else _) = _
    rw [labelsOf]
    split
    · rfl
    · rfl

theorem exists_routeOf {linkName raw : List Char} (h : routingLabels raw = some labels) :
    ∃ route, routeOf servers linkName raw = some route ∧ labelsOf route.domain = labels ∧
      route.servers = servers := by
  obtain ⟨routing, hrouting, rfl⟩ := Option.map_eq_some_iff.mp h
  rw [routeOf, hrouting]
  exact ⟨_, rfl, rfl, rfl⟩

/-- The routes of a link. -/
def linkRoutes (link : LinkDns) : List DnsRoute :=
  if link.dnsServers = [] then []
  else link.domains.filterMap (routeOf (link.dnsServers.map DnsServer.socketAddr) link.ifname)

theorem fst_foldl_addLink (links : List LinkDns) (acc : List DnsRoute × List SocketAddr) :
    (links.foldl addLink acc).1 = acc.1 ++ links.flatMap linkRoutes := by
  induction links generalizing acc with
  | nil => simp
  | cons link links ih =>
    rw [List.foldl_cons, ih, List.flatMap_cons, ← List.append_assoc, addLink, linkRoutes]
    split
    · rw [List.append_nil]
    · rfl

theorem any_routing_iff (link : LinkDns) :
    ¬(link.domains.any fun raw => (stripPrefix ['~'] (trim raw)).isSome) = true ↔
      ∀ raw ∈ link.domains, routingLabels raw = none := by
  simp [routingLabels, List.any_eq_true]

theorem mem_snd_foldl_addLink {links : List LinkDns} {acc : List DnsRoute × List SocketAddr} :
    s ∈ (links.foldl addLink acc).2 ↔ s ∈ acc.2 ∨ ∃ link ∈ links, link.defaultRoute = true ∧
      (∀ raw ∈ link.domains, routingLabels raw = none) ∧
      s ∈ link.dnsServers.map DnsServer.socketAddr := by
  induction links generalizing acc with
  | nil => simp
  | cons link links ih =>
    have hstep : s ∈ (addLink acc link).2 ↔ s ∈ acc.2 ∨ link.defaultRoute = true ∧
        (∀ raw ∈ link.domains, routingLabels raw = none) ∧
        s ∈ link.dnsServers.map DnsServer.socketAddr := by
      rw [addLink]
      by_cases hnil : link.dnsServers = []
      · simp [hnil]
      · rw [if_neg hnil, ← any_routing_iff, ← and_assoc]
        show s ∈ (if link.defaultRoute ∧ ¬_ then _ else acc.2) ↔ _
        split
        · rename_i hdefault
          rw [mem_pushNew, and_iff_right hdefault]
        · rename_i hdefault
          rw [or_iff_left fun h => hdefault h.1]
    rw [List.foldl_cons, ih, hstep, or_assoc]
    simp

theorem routes_fromConfig (config : ResolvedConfig) :
    (DnsRouter.fromConfig config).routes = config.linkDns.flatMap linkRoutes ++
      (if config.dns.map DnsServer.socketAddr = [] then [] else config.domains.filterMap
        (routeOf (config.dns.map DnsServer.socketAddr) "global".toList)) := by
  show (config.linkDns.foldl addLink ([], [])).1 ++ _ = _
  rw [fst_foldl_addLink, List.nil_append]

/-- The routes of a configuration, as a relation between domains and servers. -/
theorem routesTo_iff : RoutesTo config labels s ↔
    ∃ route ∈ (DnsRouter.fromConfig config).routes, labelsOf route.domain = labels ∧
      s ∈ route.servers := by
  rw [routes_fromConfig]
  constructor
  · rintro (⟨link, hlink, ⟨raw, hraw, hlabels⟩, hs⟩ | ⟨⟨raw, hraw, hlabels⟩, hs⟩)
    · obtain ⟨route, hroute, hdomain, hservers⟩ := exists_routeOf hlabels
      refine ⟨route, List.mem_append_left _ (List.mem_flatMap.mpr ⟨link, hlink, ?_⟩), hdomain,
        hservers ▸ hs⟩
      have hne : link.dnsServers ≠ [] := by
        rintro hnil
        simp [hnil] at hs
      rw [linkRoutes, if_neg hne]
      exact List.mem_filterMap.mpr ⟨raw, hraw, hroute⟩
    · obtain ⟨route, hroute, hdomain, hservers⟩ := exists_routeOf hlabels
      refine ⟨route, List.mem_append_right _ ?_, hdomain, hservers ▸ hs⟩
      rw [if_neg (List.ne_nil_of_mem hs)]
      exact List.mem_filterMap.mpr ⟨raw, hraw, hroute⟩
  · rintro ⟨route, hroute, rfl, hs⟩
    rcases List.mem_append.mp hroute with hroute | hroute
    · obtain ⟨link, hlink, hroute⟩ := List.mem_flatMap.mp hroute
      rw [linkRoutes] at hroute
      split at hroute
      · cases hroute
      · obtain ⟨raw, hraw, heq⟩ := List.mem_filterMap.mp hroute
        obtain ⟨hlabels, -, hservers⟩ := routeOf_eq_some heq
        exact Or.inl ⟨link, hlink, ⟨raw, hraw, hlabels⟩, hservers ▸ hs⟩
    · split at hroute
      · cases hroute
      · obtain ⟨raw, hraw, heq⟩ := List.mem_filterMap.mp hroute
        obtain ⟨hlabels, -, hservers⟩ := routeOf_eq_some heq
        exact Or.inr ⟨⟨raw, hraw, hlabels⟩, hservers ▸ hs⟩

/-- Every route has the number of its labels, and servers. -/
theorem route_ok (h : route ∈ (DnsRouter.fromConfig config).routes) :
    route.labelCount = (labelsOf route.domain).length ∧ route.servers ≠ [] := by
  rw [routes_fromConfig] at h
  rcases List.mem_append.mp h with h | h
  · obtain ⟨link, -, h⟩ := List.mem_flatMap.mp h
    rw [linkRoutes] at h
    split at h
    · cases h
    · rename_i hne
      obtain ⟨raw, -, heq⟩ := List.mem_filterMap.mp h
      obtain ⟨-, hcount, hservers⟩ := routeOf_eq_some heq
      exact ⟨hcount, by simp [hservers, hne]⟩
  · split at h
    · cases h
    · rename_i hne
      obtain ⟨raw, -, heq⟩ := List.mem_filterMap.mp h
      obtain ⟨-, hcount, hservers⟩ := routeOf_eq_some heq
      exact ⟨hcount, hservers ▸ hne⟩

/-! ## The loop -/

/-- A route, not the catch-all, whose domain matches. -/
def Specific (name : List Char) (route : DnsRoute) : Prop :=
  route.labelCount ≠ 0 ∧ nameMatchesDomain name route.domain = true

/-- What is kept of the routes that have been seen. -/
structure Considered (name : List Char) (seen : List DnsRoute) (best : Best) : Prop where
  le : ∀ r ∈ seen, Specific name r → r.labelCount ≤ best.bestLabelCount
  attained : best.bestLabelCount ≠ 0 →
    ∃ r ∈ seen, Specific name r ∧ r.labelCount = best.bestLabelCount
  mem_best : ∀ s, s ∈ best.bestServers ↔
    ∃ r ∈ seen, (Specific name r ∧ r.labelCount = best.bestLabelCount) ∧ s ∈ r.servers
  mem_catchAll : ∀ s, s ∈ best.haveCatchAll ↔ ∃ r ∈ seen, r.labelCount = 0 ∧ s ∈ r.servers

variable {seen : List DnsRoute} {best : Best}

theorem considered_nil (name : List Char) : Considered name [] ⟨0, [], []⟩ where
  le := by simp
  attained := by simp
  mem_best := by simp
  mem_catchAll := by simp

theorem exists_mem_concat_iff {P : DnsRoute → Prop} :
    (∃ r ∈ seen ++ [route], P r ∧ s ∈ r.servers) ↔
      (∃ r ∈ seen, P r ∧ s ∈ r.servers) ∨ P route ∧ s ∈ route.servers := by
  simp [or_and_right, exists_or]

/-- The routes that have been seen have at most the labels that they had, and so has one more. -/
theorem Considered.le_concat (h : Considered name seen best) {n : ℕ}
    (hbest : best.bestLabelCount ≤ n) (hroute : Specific name route → route.labelCount ≤ n) :
    ∀ r ∈ seen ++ [route], Specific name r → r.labelCount ≤ n := by
  intro r hr
  rcases List.mem_append.mp hr with hr | hr
  · exact fun hspec => (h.le r hr hspec).trans hbest
  · rw [List.mem_singleton.mp hr]
    exact hroute

/-- A route that is not specific, or has fewer labels, does not change the best ones. -/
theorem Considered.outdone (h : Considered name seen best) {catchAll : List SocketAddr}
    (hroute : Specific name route → route.labelCount < best.bestLabelCount)
    (hcatch : ∀ s, s ∈ catchAll ↔ ∃ r ∈ seen ++ [route], r.labelCount = 0 ∧ s ∈ r.servers) :
    Considered name (seen ++ [route]) { best with haveCatchAll := catchAll } where
  le := h.le_concat le_rfl fun hspec => (hroute hspec).le
  attained := by
    intro hne
    obtain ⟨r, hr, hspec⟩ := h.attained hne
    exact ⟨r, List.mem_append_left _ hr, hspec⟩
  mem_best := by
    intro s
    have hnot : ¬((Specific name route ∧ route.labelCount = best.bestLabelCount) ∧
        s ∈ route.servers) := fun hs => (hroute hs.1.1).ne hs.1.2
    rw [exists_mem_concat_iff, ← h.mem_best s]
    exact (or_iff_left hnot).symm
  mem_catchAll := hcatch

/-- A specific route with more labels takes the place of the best ones. -/
theorem Considered.better (h : Considered name seen best) (hspec : Specific name route)
    (hgt : best.bestLabelCount < route.labelCount)
    (hcatch : ∀ s, s ∈ best.haveCatchAll ↔
      ∃ r ∈ seen ++ [route], r.labelCount = 0 ∧ s ∈ r.servers) :
    Considered name (seen ++ [route])
      { best with bestLabelCount := route.labelCount, bestServers := route.servers } where
  le := h.le_concat hgt.le fun _ => le_rfl
  attained := fun _ => ⟨route, List.mem_append_right _ (List.mem_singleton_self _), hspec, rfl⟩
  mem_best := by
    intro s
    have hnone : ¬∃ r ∈ seen,
        (Specific name r ∧ r.labelCount = route.labelCount) ∧ s ∈ r.servers := by
      rintro ⟨r, hr, ⟨hspec', heq⟩, -⟩
      have := h.le r hr hspec'
      omega
    rw [exists_mem_concat_iff, or_iff_right hnone]
    exact (and_iff_right ⟨hspec, rfl⟩).symm
  mem_catchAll := hcatch

/-- A specific route with as many labels is put with the best ones. -/
theorem Considered.equal (h : Considered name seen best) (hspec : Specific name route)
    (heq : route.labelCount = best.bestLabelCount)
    (hcatch : ∀ s, s ∈ best.haveCatchAll ↔
      ∃ r ∈ seen ++ [route], r.labelCount = 0 ∧ s ∈ r.servers) :
    Considered name (seen ++ [route])
      { best with bestServers := pushNew best.bestServers route.servers } where
  le := h.le_concat le_rfl fun _ => heq.le
  attained := fun _ => ⟨route, List.mem_append_right _ (List.mem_singleton_self _), hspec, heq⟩
  mem_best := by
    intro s
    rw [exists_mem_concat_iff, mem_pushNew, ← h.mem_best s, and_iff_right ⟨hspec, heq⟩]
  mem_catchAll := hcatch

/-- What one route changes. -/
theorem Considered.step (h : Considered name seen best) (route : DnsRoute) :
    Considered name (seen ++ [route]) (considerRoute name best route) := by
  rw [considerRoute]
  by_cases hzero : route.labelCount = 0
  · rw [if_pos hzero]
    refine h.outdone (fun hspec => absurd hzero hspec.1) fun s => ?_
    rw [exists_mem_concat_iff, ← h.mem_catchAll s, mem_pushNew, and_iff_right hzero]
  rw [if_neg hzero]
  -- the catch-all servers do not change from here on
  have hcatch : ∀ s, s ∈ best.haveCatchAll ↔
      ∃ r ∈ seen ++ [route], r.labelCount = 0 ∧ s ∈ r.servers := by
    intro s
    rw [exists_mem_concat_iff, ← h.mem_catchAll s]
    exact (or_iff_left fun hs => hzero hs.1).symm
  by_cases hmatch : nameMatchesDomain name route.domain = true
  · rw [if_pos hmatch]
    by_cases hgt : route.labelCount > best.bestLabelCount
    · rw [if_pos hgt]
      exact h.better ⟨hzero, hmatch⟩ hgt hcatch
    rw [if_neg hgt]
    by_cases heq : route.labelCount = best.bestLabelCount
    · rw [if_pos heq]
      exact h.equal ⟨hzero, hmatch⟩ heq hcatch
    · rw [if_neg heq]
      exact h.outdone (fun _ => by omega) hcatch
  · rw [if_neg hmatch]
    exact h.outdone (fun hspec => absurd hspec.2 hmatch) hcatch

theorem Considered.foldl (h : Considered name seen best) (routes : List DnsRoute) :
    Considered name (seen ++ routes) (routes.foldl (considerRoute name) best) := by
  induction routes generalizing seen best with
  | nil => simpa using h
  | cons route routes ih =>
    have hstep := ih (h.step route)
    rwa [List.append_assoc, List.singleton_append] at hstep

/-! ## The servers of a name -/

section Servers

variable {best : Best} {queryName : List Char}

theorem specific_iff (h : route ∈ (DnsRouter.fromConfig config).routes) :
    Specific name route ↔ labelsOf route.domain ≠ [] ∧ labelsOf route.domain <:+ labelsOf name := by
  rw [Specific, nameMatchesDomain_iff, (route_ok h).1, Ne, List.length_eq_zero_iff]

theorem mem_bestServers
    (h : Considered name (DnsRouter.fromConfig config).routes best) :
    s ∈ best.bestServers ↔ s ∈ longestServers config (labelsOf name) := by
  rw [h.mem_best s]
  constructor
  · rintro ⟨r, hr, ⟨hspec, hcount⟩, hs⟩
    obtain ⟨hne, hsuffix⟩ := (specific_iff hr).mp hspec
    refine ⟨_, hne, routesTo_iff.mpr ⟨r, hr, rfl, hs⟩, hsuffix, ?_⟩
    intro domain' s' hroutes' hsuffix'
    obtain ⟨r', hr', rfl, -⟩ := routesTo_iff.mp hroutes'
    rw [← (route_ok hr).1, ← (route_ok hr').1]
    by_cases hzero : r'.labelCount = 0
    · omega
    · have hspec' : Specific name r' := ⟨hzero, nameMatchesDomain_iff.mpr hsuffix'⟩
      exact (h.le r' hr' hspec').trans_eq hcount.symm
  · rintro ⟨domain, hne, hroutes, hsuffix, hmax⟩
    obtain ⟨r, hr, rfl, hs⟩ := routesTo_iff.mp hroutes
    have hspec : Specific name r := (specific_iff hr).mpr ⟨hne, hsuffix⟩
    have hle := h.le r hr hspec
    have hpos := hspec.1
    -- the count that is kept is that of a route, and this route has servers
    obtain ⟨r', hr', hspec', hcount'⟩ := h.attained (by omega)
    obtain ⟨s', hs'⟩ := List.exists_mem_of_ne_nil _ (route_ok hr').2
    have hge := hmax _ s' (routesTo_iff.mpr ⟨r', hr', rfl, hs'⟩) ((specific_iff hr').mp hspec').2
    rw [← (route_ok hr).1, ← (route_ok hr').1] at hge
    exact ⟨r, hr, ⟨hspec, by omega⟩, hs⟩

theorem mem_haveCatchAll (h : Considered name (DnsRouter.fromConfig config).routes best) :
    s ∈ best.haveCatchAll ↔ s ∈ catchAllServers config := by
  rw [h.mem_catchAll s]
  refine Iff.trans (exists_congr fun r => and_congr_right fun hr => ?_) routesTo_iff.symm
  rw [(route_ok hr).1, List.length_eq_zero_iff]

theorem mem_firstNonempty {l rest : List SocketAddr} {S : Set SocketAddr}
    {sets : List (Set SocketAddr)} (hS : ∀ s, s ∈ l ↔ s ∈ S)
    (hrest : s ∈ rest ↔ s ∈ firstNonempty sets) :
    (s ∈ if l ≠ [] then l else rest) ↔ s ∈ firstNonempty (S :: sets) := by
  have hnil : l = [] ↔ S = ∅ := by
    rw [List.eq_nil_iff_forall_not_mem, Set.eq_empty_iff_forall_notMem]
    exact forall_congr' fun s => not_congr (hS s)
  show _ ↔ s ∈ S ∨ S = ∅ ∧ s ∈ firstNonempty sets
  rw [← hS s, ← hnil, ← hrest]
  by_cases hl : l = []
  · simp [hl]
  · simp [hl]

/-- The servers of a name are those of the routes with the longest suffix of it. -/
theorem mem_serversForName :
    s ∈ (DnsRouter.fromConfig config).serversForName queryName ↔
      s ∈ routedServers config (labelsOf (normalizeDomain queryName)) := by
  have hbest := (considered_nil (normalizeDomain queryName)).foldl
    (DnsRouter.fromConfig config).routes
  rw [List.nil_append] at hbest
  refine mem_firstNonempty (fun s => mem_bestServers hbest) ?_
  refine mem_firstNonempty (fun s => mem_haveCatchAll hbest) ?_
  refine mem_firstNonempty (fun s => ?_) ?_
  · refine mem_snd_foldl_addLink.trans ?_
    simp [defaultRouteServers]
  refine mem_firstNonempty (fun s => Iff.rfl) ?_
  show s ∈ config.fallbackDns.map DnsServer.socketAddr ↔
    s ∈ config.fallbackDns.map DnsServer.socketAddr ∨ _ ∧ s ∈ (∅ : Set SocketAddr)
  rw [Set.mem_empty_iff_false, and_false, or_false]

/-- Among the routed suffixes there is a longest one. -/
theorem exists_longest {labels name : List (List Char)} {s : SocketAddr}
    (hroutes : RoutesTo config labels s) (hsuffix : labels <:+ name) :
    ∃ domain s', RoutesTo config domain s' ∧ Longest config name domain ∧
      labels.length ≤ domain.length := by
  induction hk : name.length - labels.length using Nat.strong_induction_on
    generalizing labels s with
  | _ k ih =>
    by_cases hmax : ∀ domain s', RoutesTo config domain s' → domain <:+ name →
        domain.length ≤ labels.length
    · exact ⟨labels, s, hroutes, ⟨hsuffix, hmax⟩, le_rfl⟩
    · push Not at hmax
      obtain ⟨longer, s', hroutes', hsuffix', hlt⟩ := hmax
      have hle := hsuffix'.length_le
      obtain ⟨domain, s'', hdomain, hlongest, hge⟩ :=
        ih (name.length - longer.length) (by omega) hroutes' hsuffix' rfl
      exact ⟨domain, s'', hdomain, hlongest, hlt.le.trans hge⟩

/-- A routed name goes to servers of routes whose domain it is under. -/
theorem routesTo_of_mem {labels name : List (List Char)} {s s' : SocketAddr}
    (hroutes : RoutesTo config labels s') (hsuffix : labels <:+ name)
    (hs : s ∈ routedServers config name) :
    ∃ domain, RoutesTo config domain s ∧ domain <:+ name ∧ labels.length ≤ domain.length := by
  rcases hs with ⟨domain, -, hdomain, hsuffix', hmax⟩ | ⟨hempty, hs⟩
  · exact ⟨domain, hdomain, hsuffix', hmax labels s' hroutes hsuffix⟩
  · obtain ⟨domain, s'', hdomain, hlongest, hge⟩ := exists_longest hroutes hsuffix
    have hnil : domain = [] := by
      by_contra hne
      exact Set.eq_empty_iff_forall_notMem.mp hempty s'' ⟨domain, hne, hdomain, hlongest⟩
    subst hnil
    rcases hs with hcatch | ⟨hempty', -⟩
    · exact ⟨[], hcatch, List.nil_suffix, hge⟩
    · exact absurd hdomain (Set.eq_empty_iff_forall_notMem.mp hempty' s'')

/-- The router gives exactly the servers of the routes that are the longest suffix of the name,
    or of what comes in their place, and never one of a less specific route. -/
theorem serversForName_longestSuffix (config : ResolvedConfig) (queryName : List Char) :
    {s | s ∈ (DnsRouter.fromConfig config).serversForName queryName} =
        routedServers config (labelsOf (normalizeDomain queryName)) ∧
      ∀ labels s', RoutesTo config labels s' → labels <:+ labelsOf (normalizeDomain queryName) →
        ∀ s ∈ (DnsRouter.fromConfig config).serversForName queryName, ∃ domain,
          RoutesTo config domain s ∧ domain <:+ labelsOf (normalizeDomain queryName) ∧
            labels.length ≤ domain.length := by
  refine ⟨Set.ext fun s => mem_serversForName, fun labels s' hroutes hsuffix s hs => ?_⟩
  exact routesTo_of_mem hroutes hsuffix (mem_serversForName.mp hs)

/-- A name under `corp.example.com` is not sent to the servers of the link for `example.com`. -/
theorem serversForName_longestSuffix_corp :
    let server (n : UInt8) : DnsServer := ⟨.v4 ⟨[10, 0, 0, n], rfl⟩, 53, none⟩
    let config : ResolvedConfig := ⟨[server 1], [], [],
      [⟨"eth0".toList, [server 2], ["~example.com".toList, "~.".toList], true⟩,
        ⟨"vpn".toList, [server 3], ["~Corp.example.com.".toList], false⟩]⟩
    ∀ s ∈ (DnsRouter.fromConfig config).serversForName "git.corp.example.com".toList,
      ∃ domain, RoutesTo config domain s ∧ 3 ≤ domain.length := by
  intro server config s hs
  have hlabels : labelsOf (normalizeDomain "git.corp.example.com".toList) =
      ["git".toList, "corp".toList, "example".toList, "com".toList] := by decide
  have hroutes : RoutesTo config ["corp".toList, "example".toList, "com".toList]
      (server 3).socketAddr :=
    Or.inl ⟨_, List.mem_cons_of_mem _ List.mem_cons_self,
      ⟨"~Corp.example.com.".toList, List.mem_singleton.mpr rfl, by decide⟩,
      List.mem_singleton.mpr rfl⟩
  obtain ⟨domain, hdomain, -, hle⟩ := (serversForName_longestSuffix config _).2 _ _ hroutes
    (hlabels ▸ ⟨["git".toList], rfl⟩) s hs
  exact ⟨domain, hdomain, hle⟩

end Servers

end OxidizedSystemd.Resolved

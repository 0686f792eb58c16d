import OxidizedSystemd.Loading.ReverseEdges

/-!
# Sockets

Models of `add_socket_target_relations` and `apply_sockets_to_services`
(`units/loading/dependency_resolving.rs`, lines 684–845). Both enter their edges
on both sides.

* `lists_addSocketTargetRelations`: the edges to `sockets.target`.
* `lists_applySocketsToServices`: the edges between sockets and services. The
    loop writes to the configurations that it matches; what one round writes
    decides no later match (`matchSocket_applySocketToService`).
-/

namespace OxidizedSystemd.Units

open Dependencies
open OxidizedSystemd.Lib

namespace UnitTable

variable {t : UnitTable} {k : DepKind} {a b : UnitId}

/-! ## `sockets.target` -/

/-- `sockets.target`. -/
def socketsTargetId : UnitId := ⟨.target, "sockets.target"⟩

/-- `add_socket_target_relations` (lines 689–706). -/
def addSocketTargetRelations (t : UnitTable) : UnitTable :=
  if t.contains socketsTargetId then
    let socketIds := t.ids.filter fun id => id.kind = .socket
    let t := t.mapUnits fun unit => unit.mapDeps fun d =>
      if unit.id.kind = .socket then (d.push .before socketsTargetId).dedup else d
    t.modifyDeps socketsTargetId fun d => (d.pushAll (socketIds.map fun id => (.after, id))).dedup
  else t

/-- The socket `a` comes before the loaded `sockets.target`. -/
def SocketTargetEdge (t : UnitTable) (k : DepKind) (a b : UnitId) : Prop :=
  k = .before ∧ a ∈ t.ids ∧ a.kind = .socket ∧ b = socketsTargetId ∧ b ∈ t.ids

theorem lists_addSocketTargetRelations :
    t.addSocketTargetRelations.Lists k a b ↔
      t.Lists k a b ∨ Mirrored mirrorOf t.SocketTargetEdge k a b := by
  have hmirror : mirrorOf k = some .before ↔ k = .after := by cases k <;> simp [mirrorOf]
  unfold addSocketTargetRelations
  split_ifs with htarget
  · rw [contains_iff] at htarget
    have hextends : ∀ unit : LoadedUnit, Extends
        (fun d => if unit.id.kind = .socket then (d.push .before socketsTargetId).dedup else d)
        (if unit.id.kind = .socket then [(.before, socketsTargetId)] else []) := by
      intro unit
      by_cases h : unit.id.kind = .socket
      · simp only [if_pos h]
        exact extends_dedup (extends_push _ _)
      · simp only [if_neg h]
        exact extends_id
    have hsocket : (∃ u, t.get a = some u ∧
          (k, b) ∈ (if u.id.kind = .socket then [(DepKind.before, socketsTargetId)] else [])) ↔
        t.SocketTargetEdge k a b := by
      simp only [List.mem_ite_nil_right, List.mem_singleton, Prod.mk.injEq]
      constructor
      · rintro ⟨u, hu, hkind, rfl, rfl⟩
        rw [get_id hu] at hkind
        exact ⟨rfl, mem_ids_of_get hu, hkind, rfl, htarget⟩
      · rintro ⟨rfl, ha, hkind, rfl, _⟩
        obtain ⟨u, hu⟩ := exists_get_of_mem ha
        exact ⟨u, hu, by rw [get_id hu]; exact hkind, rfl, rfl⟩
    have hreverse : (a ∈ t.ids ∧ a = socketsTargetId ∧
          (k, b) ∈ (t.ids.filter fun id => id.kind = .socket).map fun id => (DepKind.after, id)) ↔
        ∃ j, mirrorOf k = some j ∧ t.SocketTargetEdge j b a := by
      simp only [List.mem_map, List.mem_filter, decide_eq_true_eq, Prod.mk.injEq]
      constructor
      · rintro ⟨ha, rfl, id, ⟨hid, hkind⟩, rfl, rfl⟩
        exact ⟨.before, rfl, rfl, hid, hkind, rfl, ha⟩
      · rintro ⟨j, hj, rfl, hb, hkind, rfl, ha⟩
        exact ⟨ha, rfl, b, ⟨hb, hkind⟩, (hmirror.mp hj).symm, rfl⟩
    rw [lists_modifyDeps (extends_dedup (extends_pushAll _)), ids_mapUnits,
      lists_extendAll hextends, hsocket, hreverse, or_assoc]
    rfl
  · have hno : ¬ Mirrored mirrorOf t.SocketTargetEdge k a b := by
      rw [contains_iff] at htarget
      rintro (⟨_, _, _, rfl, h⟩ | ⟨j, _, _, _, _, rfl, h⟩)
      · exact htarget h
      · exact htarget h
    simp [hno]

theorem sameUnits_addSocketTargetRelations (t : UnitTable) :
    SameUnits t t.addSocketTargetRelations := by
  unfold addSocketTargetRelations
  split_ifs
  · exact (sameUnits_mapDeps t _).trans (sameUnits_modifyDeps _ _ _)
  · exact SameUnits.refl t

/-! ## Sockets and services -/

/-- `unit_table.get_mut(&id)` followed by a change `f` of the specific part. -/
def modifySpecific (t : UnitTable) (id : UnitId) (f : Specific → Specific) : UnitTable :=
  t.modify id fun unit => { unit with specific := f unit.specific }

/-- Whether `apply_sockets_to_services` relates a socket and a service (lines
    796–807), and then whether the relation is `strong`. -/
def matchSpecific (sockId srvcId : UnitId) : Specific → Specific → Option Bool
  | .socket sock, .service srvc =>
    let namesMatch := decide (srvcId.nameWithoutSuffix = sockId.nameWithoutSuffix)
    let srvcHasSock := decide (sockId ∈ srvc.sockets)
    let sockHasSrvc := decide (srvcId ∈ sock.services)
    if namesMatch || srvcHasSock || sockHasSrvc then some (namesMatch || srvcHasSock) else none
  | _, _ => none

/-- The match of two units of the table. -/
def matchSocket (t : UnitTable) (sockId srvcId : UnitId) : Option Bool := do
  matchSpecific sockId srvcId (← t.specific sockId) (← t.specific srvcId)

/-- `srvc_conf.sockets.push(sock_id)` unless it is there. -/
def addSocket (sockId : UnitId) : Specific → Specific
  | .service conf =>
    if sockId ∈ conf.sockets then .service conf
    else .service { conf with sockets := conf.sockets ++ [sockId] }
  | specific => specific

/-- `sock_conf.services.push(srvc_id)` unless it is there. -/
def addService (srvcId : UnitId) : Specific → Specific
  | .socket conf =>
    if srvcId ∈ conf.services then .socket conf
    else .socket { conf with services := conf.services ++ [srvcId] }
  | specific => specific

/-- `add_sock_srvc_relations` (lines 717–747). -/
def addSockSrvcRelations (t : UnitTable) (srvcId sockId : UnitId) (strong : Bool) : UnitTable :=
  let t := t.modifyDeps srvcId fun d =>
    (d.pushAll ((.after, sockId) :: if strong then [(.requires, sockId)] else [])).dedup
  let t := t.modifyDeps sockId fun d =>
    (d.pushAll ((.before, srvcId) :: if strong then [(.requiredBy, srvcId)] else [])).dedup
  (t.modifySpecific srvcId (addSocket sockId)).modifySpecific sockId (addService srvcId)

/-- One round of the inner loop of `apply_sockets_to_services`. -/
def applySocketToService (t : UnitTable) (sockId srvcId : UnitId) : UnitTable :=
  match t.matchSocket sockId srvcId with
  | some strong => t.addSockSrvcRelations srvcId sockId strong
  | none => t

/-- `apply_sockets_to_services` (lines 760–845). Taking a unit out of the map and
    putting it back changes it in place. -/
def applySocketsToServices (t : UnitTable) : UnitTable :=
  let serviceIds := t.ids.filter fun id => id.kind = .service
  let socketIds := t.ids.filter fun id => id.kind = .socket
  socketIds.foldl (fun t sockId => serviceIds.foldl (fun t srvcId =>
    t.applySocketToService sockId srvcId) t) t

/-! ### One round -/

@[simp] theorem ids_modifySpecific (t : UnitTable) (id : UnitId) (f : Specific → Specific) :
    (t.modifySpecific id f).ids = t.ids := ids_modify t id _

theorem specific_modifySpecific (t : UnitTable) (id x : UnitId) (f : Specific → Specific) :
    (t.modifySpecific id f).specific x =
      if x = id then (t.specific x).map f else t.specific x := by
  rw [specific, modifySpecific, get_modify, Option.map_map]
  split_ifs with h
  · rw [specific, Option.map_map]
    rfl
  · rfl

@[simp] theorem specific_modifyDeps (t : UnitTable) (id x : UnitId)
    (f : Dependencies → Dependencies) : (t.modifyDeps id f).specific x = t.specific x := by
  rw [specific, get_modifyDeps, Option.map_map]
  split_ifs with h <;> rfl

@[simp] theorem lists_modifySpecific (id : UnitId) (f : Specific → Specific) :
    (t.modifySpecific id f).Lists k a b ↔ t.Lists k a b := by
  have hget := get_modify t id a fun unit => { unit with specific := f unit.specific }
  cases h : t.get a with
  | none =>
    rw [h, Option.map_none] at hget
    simp only [lists_iff, deps, modifySpecific, hget, h]
  | some u =>
    rw [h, Option.map_some] at hget
    rw [modifySpecific, lists_of_get hget, lists_of_get h]
    split_ifs <;> rfl

theorem mem_ids_of_specific {x : UnitId} {s : Specific} (h : t.specific x = some s) :
    x ∈ t.ids := by
  obtain ⟨u, hu, _⟩ := Option.map_eq_some_iff.mp h
  exact mem_ids_of_get hu

theorem mem_ids_of_matchSocket {sockId srvcId : UnitId} {strong : Bool}
    (h : t.matchSocket sockId srvcId = some strong) : sockId ∈ t.ids ∧ srvcId ∈ t.ids := by
  obtain ⟨s, hs, h⟩ := Option.bind_eq_some_iff.mp h
  obtain ⟨r, hr, _⟩ := Option.bind_eq_some_iff.mp h
  exact ⟨mem_ids_of_specific hs, mem_ids_of_specific hr⟩

/-- The service `srvcId` comes after the socket that it is matched with, and
    requires it when the match is strong. -/
def MatchEdge (t : UnitTable) (sockId srvcId : UnitId) (k : DepKind) (a b : UnitId) : Prop :=
  a = srvcId ∧ b = sockId ∧ (k = .after ∧ (t.matchSocket sockId srvcId).isSome ∨
    k = .requires ∧ t.matchSocket sockId srvcId = some true)

theorem lists_addSockSrvcRelations {sockId srvcId : UnitId} {strong : Bool}
    (h : t.matchSocket sockId srvcId = some strong) :
    (t.addSockSrvcRelations srvcId sockId strong).Lists k a b ↔
      t.Lists k a b ∨ Mirrored mirrorOf (t.MatchEdge sockId srvcId) k a b := by
  obtain ⟨hsock, hsrvc⟩ := mem_ids_of_matchSocket h
  have hservice : (a ∈ t.ids ∧ a = srvcId ∧
        (k, b) ∈ (DepKind.after, sockId) :: if strong then [(.requires, sockId)] else []) ↔
      t.MatchEdge sockId srvcId k a b := by
    rw [MatchEdge, h]
    cases strong <;> simp <;> grind
  have hsocket : (a ∈ t.ids ∧ a = sockId ∧
        (k, b) ∈ (DepKind.before, srvcId) :: if strong then [(.requiredBy, srvcId)] else []) ↔
      ∃ j, mirrorOf k = some j ∧ t.MatchEdge sockId srvcId j b a := by
    have hbefore : mirrorOf k = some .after ↔ k = .before := by cases k <;> simp [mirrorOf]
    have hrequired : mirrorOf k = some .requires ↔ k = .requiredBy := by
      cases k <;> simp [mirrorOf]
    simp only [MatchEdge, h]
    cases strong <;> simp <;> grind
  simp only [addSockSrvcRelations, lists_modifySpecific, ids_modifyDeps,
    lists_modifyDeps (extends_dedup (extends_pushAll _)), hservice, hsocket, or_assoc]
  rfl

theorem lists_applySocketToService (sockId srvcId : UnitId) :
    (t.applySocketToService sockId srvcId).Lists k a b ↔
      t.Lists k a b ∨ Mirrored mirrorOf (t.MatchEdge sockId srvcId) k a b := by
  unfold applySocketToService
  cases h : t.matchSocket sockId srvcId with
  | none =>
    have hno : ¬ Mirrored mirrorOf (t.MatchEdge sockId srvcId) k a b := by
      simp [Mirrored, MatchEdge, h]
    simp [hno]
  | some strong => exact lists_addSockSrvcRelations h

/-! ### All rounds -/

/-- What a round with a match does to the specific part of a unit `x`. -/
def enterMatch (sockId srvcId x : UnitId) (s : Specific) : Specific :=
  let s := if x = srvcId then addSocket sockId s else s
  if x = sockId then addService srvcId s else s

theorem specific_applySocketToService (sockId srvcId x : UnitId) :
    (t.applySocketToService sockId srvcId).specific x =
      if (t.matchSocket sockId srvcId).isSome then
        (t.specific x).map (enterMatch sockId srvcId x)
      else t.specific x := by
  unfold applySocketToService
  cases t.matchSocket sockId srvcId with
  | none => rfl
  | some strong =>
    rw [if_pos (Option.isSome_some)]
    simp only [addSockSrvcRelations, specific_modifySpecific, specific_modifyDeps]
    cases t.specific x with
    | none => split_ifs <;> rfl
    | some s =>
      simp only [Option.map_some, enterMatch]
      split_ifs <;> rfl

theorem matchSpecific_addSocket_left (sockId srvcId id : UnitId) (s r : Specific) :
    matchSpecific sockId srvcId (addSocket id s) r = matchSpecific sockId srvcId s r := by
  cases s with
  | service conf => rw [addSocket]; split_ifs <;> rfl
  | _ => rfl

theorem matchSpecific_addService_right (sockId srvcId id : UnitId) (s r : Specific) :
    matchSpecific sockId srvcId s (addService id r) = matchSpecific sockId srvcId s r := by
  cases r with
  | socket conf => rw [addService]; split_ifs <;> cases s <;> rfl
  | _ => rfl

theorem matchSpecific_addService_left {sockId srvcId id : UnitId} (h : srvcId ≠ id)
    (s r : Specific) :
    matchSpecific sockId srvcId (addService id s) r = matchSpecific sockId srvcId s r := by
  cases s with
  | socket conf =>
    rw [addService]
    split_ifs
    · rfl
    · cases r <;> simp [matchSpecific, h]
  | _ => rfl

theorem matchSpecific_addSocket_right {sockId srvcId id : UnitId} (h : sockId ≠ id)
    (s r : Specific) :
    matchSpecific sockId srvcId s (addSocket id r) = matchSpecific sockId srvcId s r := by
  cases r with
  | service conf =>
    rw [addSocket]
    split_ifs
    · rfl
    · cases s <;> simp [matchSpecific, h]
  | _ => rfl

/-- What a round enters into the configurations decides no other match. -/
theorem matchSpecific_enterMatch {sockId srvcId sock srvc : UnitId}
    (h : (sock, srvc) ≠ (sockId, srvcId)) (s r : Specific) :
    matchSpecific sock srvc (enterMatch sockId srvcId sock s) (enterMatch sockId srvcId srvc r) =
      matchSpecific sock srvc s r := by
  by_cases hsock : sock = sockId
  · have hsrvc : srvc ≠ srvcId := fun hsrvc => h (by rw [hsock, hsrvc])
    unfold enterMatch
    split_ifs <;>
      simp [matchSpecific_addSocket_left, matchSpecific_addService_right,
        matchSpecific_addService_left hsrvc]
  · unfold enterMatch
    split_ifs <;>
      simp [matchSpecific_addSocket_left, matchSpecific_addService_right,
        matchSpecific_addSocket_right hsock]

theorem matchSocket_eq_bind (sockId srvcId : UnitId) :
    t.matchSocket sockId srvcId = (t.specific sockId).bind fun s =>
      (t.specific srvcId).bind fun r => matchSpecific sockId srvcId s r := rfl

theorem matchSocket_applySocketToService {sockId srvcId sock srvc : UnitId}
    (h : (sock, srvc) ≠ (sockId, srvcId)) :
    (t.applySocketToService sockId srvcId).matchSocket sock srvc = t.matchSocket sock srvc := by
  rw [matchSocket_eq_bind, specific_applySocketToService, specific_applySocketToService]
  split_ifs
  · simp only [Option.bind_map, Function.comp_def, matchSpecific_enterMatch h]
    rfl
  · rfl

theorem lists_foldl_applySocketToService {pairs : List (UnitId × UnitId)} (hpairs : pairs.Nodup) :
    (pairs.foldl (fun t p => t.applySocketToService p.1 p.2) t).Lists k a b ↔
      t.Lists k a b ∨ ∃ p ∈ pairs, Mirrored mirrorOf (t.MatchEdge p.1 p.2) k a b := by
  induction pairs generalizing t with
  | nil => simp
  | cons p pairs ih =>
    obtain ⟨hp, hpairs⟩ := List.nodup_cons.mp hpairs
    have hedge : ∀ q ∈ pairs, (t.applySocketToService p.1 p.2).MatchEdge q.1 q.2 =
        t.MatchEdge q.1 q.2 := by
      intro q hq
      have hne : q ≠ p := by
        rintro rfl
        exact hp hq
      funext j x y
      rw [MatchEdge, MatchEdge, matchSocket_applySocketToService hne]
    have hrest : (∃ q ∈ pairs, Mirrored mirrorOf
          ((t.applySocketToService p.1 p.2).MatchEdge q.1 q.2) k a b) ↔
        ∃ q ∈ pairs, Mirrored mirrorOf (t.MatchEdge q.1 q.2) k a b := by
      refine exists_congr fun q => and_congr_right fun hq => ?_
      rw [hedge q hq]
    rw [List.foldl_cons, ih hpairs, lists_applySocketToService, hrest, List.exists_mem_cons_iff,
      or_assoc]

/-- The pairs of a socket and a service, in the order of the nested loops. -/
def socketServicePairs (t : UnitTable) : List (UnitId × UnitId) :=
  (t.ids.filter fun id => id.kind = .socket).flatMap fun sockId =>
    (t.ids.filter fun id => id.kind = .service).map fun srvcId => (sockId, srvcId)

theorem nodup_socketServicePairs (t : UnitTable) : t.socketServicePairs.Nodup :=
  (t.ids_nodup.filter _).product (t.ids_nodup.filter _)

theorem mem_socketServicePairs :
    (b, a) ∈ t.socketServicePairs ↔
      (b ∈ t.ids ∧ b.kind = .socket) ∧ a ∈ t.ids ∧ a.kind = .service := by
  simp [socketServicePairs]

theorem applySocketsToServices_eq (t : UnitTable) :
    t.applySocketsToServices =
      t.socketServicePairs.foldl (fun t p => t.applySocketToService p.1 p.2) t := by
  rw [applySocketsToServices, socketServicePairs, List.foldl_flatMap]
  simp only [List.foldl_map]

/-- The service `a` comes after the socket `b` that it is matched with, and
    requires it when the match is strong. -/
def SocketServiceEdge (t : UnitTable) (k : DepKind) (a b : UnitId) : Prop :=
  a.kind = .service ∧ b.kind = .socket ∧ t.MatchEdge b a k a b

theorem exists_matchEdge :
    (∃ p ∈ t.socketServicePairs, t.MatchEdge p.1 p.2 k a b) ↔ t.SocketServiceEdge k a b := by
  constructor
  · rintro ⟨⟨sock, srvc⟩, hp, rfl, rfl, h⟩
    obtain ⟨⟨_, hsock⟩, _, hsrvc⟩ := mem_socketServicePairs.mp hp
    exact ⟨hsrvc, hsock, rfl, rfl, h⟩
  · rintro ⟨hsrvc, hsock, h⟩
    have hids : b ∈ t.ids ∧ a ∈ t.ids := by
      rcases h with ⟨_, _, ⟨_, h⟩ | ⟨_, h⟩⟩
      · exact mem_ids_of_matchSocket (Option.some_get h).symm
      · exact mem_ids_of_matchSocket h
    exact ⟨(b, a), mem_socketServicePairs.mpr ⟨⟨hids.1, hsock⟩, hids.2, hsrvc⟩, h⟩

theorem lists_applySocketsToServices :
    t.applySocketsToServices.Lists k a b ↔
      t.Lists k a b ∨ Mirrored mirrorOf t.SocketServiceEdge k a b := by
  rw [applySocketsToServices_eq, lists_foldl_applySocketToService t.nodup_socketServicePairs]
  refine or_congr_right ?_
  simp only [Mirrored, ← exists_matchEdge]
  constructor
  · rintro ⟨p, hp, h | ⟨j, hj, h⟩⟩
    · exact Or.inl ⟨p, hp, h⟩
    · exact Or.inr ⟨j, hj, p, hp, h⟩
  · rintro (⟨p, hp, h⟩ | ⟨j, hj, p, hp, h⟩)
    · exact ⟨p, hp, Or.inl h⟩
    · exact ⟨p, hp, Or.inr ⟨j, hj, h⟩⟩

/-! ### What the rounds keep -/

theorem SameUnits.specific {t' : UnitTable} (h : SameUnits t t') (x : UnitId) :
    t.specific x = t'.specific x := by
  have hx := congrArg (Option.map (·.specific)) (h.get x)
  rw [Option.map_map, Option.map_map] at hx
  exact hx

theorem SameUnits.matchSocket {t' : UnitTable} (h : SameUnits t t') (sockId srvcId : UnitId) :
    t.matchSocket sockId srvcId = t'.matchSocket sockId srvcId := by
  rw [matchSocket_eq_bind, matchSocket_eq_bind, h.specific, h.specific]

/-- What a round enters leaves a projection of the specific parts as it was. -/
theorem map_specific_applySocketsToServices {β : Type*} {f : Specific → β}
    (hsocket : ∀ id s, f (addSocket id s) = f s) (hservice : ∀ id s, f (addService id s) = f s)
    (x : UnitId) : (t.applySocketsToServices.specific x).map f = (t.specific x).map f := by
  have henter : ∀ sockId srvcId s, f (enterMatch sockId srvcId x s) = f s := by
    intro sockId srvcId s
    unfold enterMatch
    split_ifs <;> simp [hsocket, hservice]
  rw [applySocketsToServices_eq]
  generalize t.socketServicePairs = pairs
  induction pairs generalizing t with
  | nil => rfl
  | cons p pairs ih =>
    rw [List.foldl_cons, ih, specific_applySocketToService]
    split_ifs
    · rw [Option.map_map]
      congr 1
      funext s
      exact henter p.1 p.2 s
    · rfl

@[simp] theorem ids_applySocketToService (sockId srvcId : UnitId) :
    (t.applySocketToService sockId srvcId).ids = t.ids := by
  unfold applySocketToService
  cases t.matchSocket sockId srvcId <;> simp [addSockSrvcRelations]

@[simp] theorem ids_applySocketsToServices : t.applySocketsToServices.ids = t.ids := by
  rw [applySocketsToServices_eq]
  generalize t.socketServicePairs = pairs
  induction pairs generalizing t with
  | nil => rfl
  | cons p pairs ih => rw [List.foldl_cons, ih, ids_applySocketToService]

end UnitTable

end OxidizedSystemd.Units

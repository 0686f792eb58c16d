import OxidizedSystemd.Lib.LockOrder
import OxidizedSystemd.Units.Table

/-!
# The order of status locks

Model of `acquire_locks` (`units/unitset_manipulation/locking.rs`, lines 16–133), and of
calls of it that run at the same time.

* `interleave_descending_iff`: the loop takes the lower of two locks first.
* `acquire_locks_ordered_iff`: calls take their locks in one order, and never deadlock, if
  none of them locks both ways.
* `acquireLocks_deadlocks`: two calls that do not.
-/

namespace OxidizedSystemd.Units

open OxidizedSystemd.Lib

/-! ## The source -/

/-- What is left of a list of ids (lines 28–56): sorted, without repetitions, and only units of
    the table. -/
def requested (t : UnitTable) (ids : List UnitId) : List UnitId :=
  (Dependencies.sortDedup ids).filter t.contains

/-- The lock of one unit, `if let Some(unit) = unit_table.get(&id)`. -/
def lockStatus (t : UnitTable) (mode : LockMode) (id : UnitId) : List (UnitId × LockMode) :=
  match t.get id with
  | some _ => [(id, mode)]
  | none => []

/-- The loops of `acquire_locks` (lines 66–131). The lists are held in reverse, so that `remove`
    and the loops over what is left take their heads. -/
def interleave (t : UnitTable) : List UnitId → List UnitId → List (UnitId × LockMode)
  | e :: es, s :: ss =>
    if e.name < s.name then lockStatus t .write e ++ interleave t es (s :: ss)
    else lockStatus t .read s ++ interleave t (e :: es) ss
  | es, ss => ss.flatMap (lockStatus t .read) ++ es.flatMap (lockStatus t .write)
termination_by es ss => es.length + ss.length

/-- `acquire_locks` (lines 16–133): the locks in the order in which it takes them, or nothing if
    its assertion fails. The maps that it returns have the guards of these locks. -/
def acquireLocks (lockExclusive lockShared : List UnitId) (t : UnitTable) :
    Option (List (UnitId × LockMode)) :=
  let exclusive := requested t lockExclusive
  let shared := requested t lockShared
  if exclusive.any fun id => shared.contains id then none
  else some (interleave t exclusive.reverse shared.reverse)

/-! ## Requests -/

/-- The lists of one call. They have no unit in common. -/
structure LockRequest where
  exclusive : List UnitId
  shared : List UnitId
  disjoint : ∀ id ∈ exclusive, id ∉ shared

/-- A call that only writes or only reads, of the units that are there, and does not lock units
    of one name. -/
structure OneWay (t : UnitTable) (r : LockRequest) : Prop where
  oneList : (∀ id ∈ r.exclusive, id ∉ t.ids) ∨ ∀ id ∈ r.shared, id ∉ t.ids
  names : ((requested t r.exclusive ++ requested t r.shared).map (·.name)).Nodup

/-- One global order: of each call alone, of every two, and of all together. -/
structure InLockOrder {ι : Type*} [DecidableEq ι] (plans : ι → List (UnitId × LockMode)) :
    Prop where
  descending : ∀ i, Descending (·.name) (plans i)
  sameOrder : ∀ i j, SameOrder (plans i) (plans j)
  noDeadlock : ∀ s, Reached plans s → ¬ Deadlocked s

variable {t : UnitTable} {es ss : List UnitId} {id : UnitId}

theorem mem_requested {ids : List UnitId} : id ∈ requested t ids ↔ id ∈ ids ∧ id ∈ t.ids := by
  simp [requested, UnitTable.contains_iff]

theorem requested_eq_nil {ids : List UnitId} :
    requested t ids = [] ↔ ∀ id ∈ ids, id ∉ t.ids := by
  simp [List.eq_nil_iff_forall_not_mem, mem_requested]

theorem lockStatus_of_mem (h : id ∈ t.ids) (mode : LockMode) :
    lockStatus t mode id = [(id, mode)] := by
  obtain ⟨u, hu⟩ := UnitTable.exists_get_of_mem h
  rw [lockStatus, hu]

theorem flatMap_lockStatus (h : ∀ id ∈ es, id ∈ t.ids) (mode : LockMode) :
    es.flatMap (lockStatus t mode) = es.map fun id => (id, mode) := by
  induction es with
  | nil => rfl
  | cons e es ih =>
    obtain ⟨he, hes⟩ := List.forall_mem_cons.mp h
    rw [List.flatMap_cons, lockStatus_of_mem he, ih hes]
    rfl

/-! ## The loop -/

theorem mem_interleave (hes : ∀ id ∈ es, id ∈ t.ids) (hss : ∀ id ∈ ss, id ∈ t.ids) :
    id ∈ (interleave t es ss).map Prod.fst ↔ id ∈ es ∨ id ∈ ss := by
  fun_induction interleave t es ss with
  | case1 e es s ss hlt ih =>
    obtain ⟨he, hes⟩ := List.forall_mem_cons.mp hes
    rw [lockStatus_of_mem he, List.map_append, List.mem_append, ih hes hss]
    simp [or_assoc]
  | case2 e es s ss hlt ih =>
    obtain ⟨hs, hss⟩ := List.forall_mem_cons.mp hss
    rw [lockStatus_of_mem hs, List.map_append, List.mem_append, ih hes hss]
    simp [or_left_comm]
  | case3 es ss hend =>
    rw [flatMap_lockStatus hes, flatMap_lockStatus hss]
    simp [or_comm]

/-- The first lock is not the highest if a lock that is no lower comes behind it. -/
theorem not_descending_cons {l : UnitId × LockMode} {ls : List (UnitId × LockMode)}
    (hmem : id ∈ ls.map Prod.fst) (hle : l.1.name ≤ id.name) :
    ¬ Descending (·.name) (l :: ls) := by
  intro hdesc
  obtain ⟨l', hl', rfl⟩ := List.mem_map.mp hmem
  have hlt := (List.pairwise_cons.mp hdesc).1 l' hl'
  exact absurd hlt (not_lt.mpr hle)

/-- The loop takes the lower of two locks first, so the order descends only where one list is
    empty from the start. -/
theorem interleave_descending_iff (hes : ∀ id ∈ es, id ∈ t.ids) (hss : ∀ id ∈ ss, id ∈ t.ids) :
    Descending (·.name) (interleave t es ss) ↔
      (es = [] ∨ ss = []) ∧ (ss ++ es).Pairwise fun a b => b.name < a.name := by
  by_cases hend : es = [] ∨ ss = []
  · have hloop : interleave t es ss =
        ss.flatMap (lockStatus t .read) ++ es.flatMap (lockStatus t .write) := by
      rcases hend with rfl | rfl <;> simp [interleave]
    rw [hloop, flatMap_lockStatus hes, flatMap_lockStatus hss, Descending]
    rcases hend with rfl | rfl <;> simp [List.pairwise_map]
  · obtain ⟨hnes, hnss⟩ := not_or.mp hend
    obtain ⟨e, es, rfl⟩ := List.exists_cons_of_ne_nil hnes
    obtain ⟨s, ss, rfl⟩ := List.exists_cons_of_ne_nil hnss
    apply iff_of_false _ fun h => hend h.1
    rw [interleave]
    split
    · rename_i hlt
      rw [lockStatus_of_mem (hes e List.mem_cons_self)]
      have hmem : s ∈ (interleave t es (s :: ss)).map Prod.fst :=
        (mem_interleave (fun id hid => hes id (List.mem_cons_of_mem e hid)) hss).mpr (by simp)
      exact not_descending_cons hmem hlt.le
    · rename_i hge
      rw [lockStatus_of_mem (hss s List.mem_cons_self)]
      have hmem : e ∈ (interleave t (e :: es) ss).map Prod.fst :=
        (mem_interleave hes fun id hid => hss id (List.mem_cons_of_mem s hid)).mpr (by simp)
      exact not_descending_cons hmem (not_lt.mp hge)

/-! ## Calls -/

/-- What is requested is sorted, so that it ascends strictly if no name occurs twice. -/
theorem requested_reverse_pairwise (t : UnitTable) (ids : List UnitId) :
    (requested t ids).reverse.Pairwise (fun a b => b.name < a.name) ↔
      ((requested t ids).map (·.name)).Nodup := by
  rw [List.pairwise_reverse, List.Nodup, List.pairwise_map]
  have hsorted : (requested t ids).Pairwise fun a b => a.name ≤ b.name :=
    (Dependencies.pairwise_sortDedup ids).filter _
  constructor
  · intro h
    exact h.imp fun hlt => ne_of_lt hlt
  · intro h
    exact (hsorted.and h).imp fun hab => lt_of_le_of_ne hab.1 hab.2

/-- The assertion holds for lists that have no unit in common. -/
theorem acquireLocks_of_disjoint (r : LockRequest) (t : UnitTable) :
    acquireLocks r.exclusive r.shared t =
      some (interleave t (requested t r.exclusive).reverse (requested t r.shared).reverse) := by
  rw [acquireLocks, if_neg]
  simp only [List.any_eq_true, List.contains_iff_mem, not_exists, not_and]
  intro id hid hshared
  exact r.disjoint id (mem_requested.mp hid).1 (mem_requested.mp hshared).1

/-- A call takes its locks by descending names exactly if it locks one way only. -/
theorem descending_iff_oneWay (r : LockRequest) (t : UnitTable) :
    Descending (·.name)
      (interleave t (requested t r.exclusive).reverse (requested t r.shared).reverse) ↔
        OneWay t r := by
  have hknown : ∀ ids, ∀ id ∈ (requested t ids).reverse, id ∈ t.ids := by
    intro ids id hid
    exact (mem_requested.mp (List.mem_reverse.mp hid)).2
  rw [interleave_descending_iff (hknown _) (hknown _), List.reverse_eq_nil_iff,
    List.reverse_eq_nil_iff]
  have hnames : ∀ {es ss : List UnitId}, requested t es = [] ∨ requested t ss = [] →
      (((requested t ss).reverse ++ (requested t es).reverse).Pairwise
        (fun a b => b.name < a.name) ↔
          ((requested t es ++ requested t ss).map (·.name)).Nodup) := by
    rintro es ss (h | h) <;> simp only [h, List.reverse_nil, List.append_nil, List.nil_append]
    · exact requested_reverse_pairwise t ss
    · exact requested_reverse_pairwise t es
  constructor
  · rintro ⟨hone, hdesc⟩
    exact ⟨hone.imp requested_eq_nil.mp requested_eq_nil.mp, (hnames hone).mp hdesc⟩
  · rintro ⟨hone, hnodup⟩
    have hone' := hone.imp requested_eq_nil.mpr requested_eq_nil.mpr
    exact ⟨hone', (hnames hone').mpr hnodup⟩

/-- Calls take their locks in one global order exactly if each of them locks one way only, and
    then they never deadlock. -/
theorem acquire_locks_ordered_iff {n : ℕ} (requests : Fin n → LockRequest) (t : UnitTable) :
    ∃ plans : Fin n → List (UnitId × LockMode),
      (∀ i, acquireLocks (requests i).exclusive (requests i).shared t = some (plans i)) ∧
        (InLockOrder plans ↔ ∀ i, OneWay t (requests i)) := by
  refine ⟨fun i => interleave t (requested t (requests i).exclusive).reverse
    (requested t (requests i).shared).reverse, fun i => acquireLocks_of_disjoint _ t, ?_⟩
  constructor
  · intro h i
    exact (descending_iff_oneWay (requests i) t).mp (h.descending i)
  · intro h
    have hdesc := fun i => (descending_iff_oneWay (requests i) t).mpr (h i)
    exact ⟨hdesc, fun i j => sameOrder_of_descending (hdesc i) (hdesc j),
      fun s hs => not_deadlocked_of_descending hdesc hs⟩

/-- Two units. -/
def serviceA : UnitId := ⟨.service, "a.service"⟩
def serviceB : UnitId := ⟨.service, "b.service"⟩

/-- The table of both. -/
def aAndB : UnitTable := ⟨[⟨serviceA, {}, .service {}⟩, ⟨serviceB, {}, .service {}⟩], by decide⟩

/-- One call locks the first to write and the second to read, in this order; another locks both
    to write, in the other order. -/
def crossedRequests : Fin 2 → LockRequest
  | 0 => ⟨[serviceA], [serviceB], by decide⟩
  | 1 => ⟨[serviceA, serviceB], [], by decide⟩

/-- What they take. -/
def crossedPlans : Fin 2 → List (UnitId × LockMode)
  | 0 => [(serviceA, .write), (serviceB, .read)]
  | 1 => [(serviceB, .write), (serviceA, .write)]

/-- Each has taken its first lock. -/
def crossed : Fin 2 → Holding UnitId
  | 0 => ⟨[(serviceA, .write)], [(serviceB, .read)]⟩
  | 1 => ⟨[(serviceB, .write)], [(serviceA, .write)]⟩

/-- The order of the first call does not descend, it is not that of the second, and when each has
    taken its first lock neither goes on. -/
theorem acquireLocks_deadlocks : ∃ plans : Fin 2 → List (UnitId × LockMode),
    (∀ i, acquireLocks (crossedRequests i).exclusive (crossedRequests i).shared aAndB =
      some (plans i)) ∧
    ¬ Descending (·.name) (plans 0) ∧ ¬ SameOrder (plans 0) (plans 1) ∧
      ∃ s, Reached plans s ∧ Deadlocked s := by
  have hlt : serviceA.name < serviceB.name := by decide
  have hA : serviceA ∈ aAndB.ids := by decide
  have hB : serviceB ∈ aAndB.ids := by decide
  refine ⟨crossedPlans, ?_, ?_, ?_, crossed, ?_, ⟨0, by simp [crossed]⟩, ?_⟩
  · intro i
    rw [acquireLocks_of_disjoint]
    match i with
    | 0 =>
      have hexclusive : requested aAndB [serviceA] = [serviceA] := by decide
      have hshared : requested aAndB [serviceB] = [serviceB] := by decide
      simp [crossedRequests, crossedPlans, hexclusive, hshared, interleave, hlt,
        lockStatus_of_mem hA, lockStatus_of_mem hB]
    | 1 =>
      have hexclusive : requested aAndB [serviceA, serviceB] = [serviceA, serviceB] := by decide
      have hshared : requested aAndB [] = [] := by decide
      simp [crossedRequests, crossedPlans, hexclusive, hshared, interleave,
        lockStatus_of_mem hA, lockStatus_of_mem hB]
  · intro hdesc
    exact absurd (List.pairwise_pair.mp hdesc) (lt_asymm hlt)
  · intro horder
    have hsub := horder serviceA serviceB (by decide) (by decide) (by decide)
    exact absurd hsub (by decide)
  · have hfirst : LockStep (fun i => ⟨[], crossedPlans i⟩)
        (Function.update (fun i => ⟨[], crossedPlans i⟩) 0 (crossed 0)) :=
      .take rfl fun i h hheld => absurd hheld List.not_mem_nil
    have hsecond : LockStep (Function.update (fun i => ⟨[], crossedPlans i⟩) 0 (crossed 0))
        (Function.update (Function.update (fun i => ⟨[], crossedPlans i⟩) 0 (crossed 0)) 1
          (crossed 1)) := by
      refine .take (l := (serviceB, .write)) rfl fun i h hheld hsame => ?_
      match i with
      | 0 =>
        obtain rfl : h = (serviceA, .write) := List.mem_singleton.mp hheld
        exact absurd hsame (by decide)
      | 1 => exact absurd hheld List.not_mem_nil
    have hcrossed : Function.update (Function.update (fun i => ⟨[], crossedPlans i⟩) 0 (crossed 0))
        1 (crossed 1) = crossed := by
      funext i
      match i with
      | 0 => rfl
      | 1 => rfl
    rw [hcrossed] at hsecond
    exact (Relation.ReflTransGen.single hfirst).tail hsecond
  · intro i hgo
    -- the lock that each takes next is the one that the other has to write
    match i with
    | 0 => exact absurd (hgo.1 1 (serviceB, .write) (by decide) rfl).1 (by decide)
    | 1 => exact absurd (hgo.1 0 (serviceA, .write) (by decide) rfl).1 (by decide)

end OxidizedSystemd.Units

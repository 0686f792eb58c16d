import OxidizedSystemd.Lib.Assoc
import OxidizedSystemd.Lib.Grouping
import OxidizedSystemd.Lib.Lines
import Mathlib.Algebra.Order.Group.Multiset
import Mathlib.Data.List.Induction
import Mathlib.Tactic.Abel

/-!
# The file descriptor store of a service

Models of `apply_notify` and `handle_received_fds_impl` (`notification_handler.rs`,
lines 432–503 and 554–671). A datagram comes with descriptors; `FDSTORE=1` stores
them under `FDNAME=`, `FDSTOREREMOVE=1` closes the ones that are stored under that
name. The rest of `apply_notify` drains the notification buffer and sets timestamps;
it touches neither the store nor a descriptor.

* `fds_handleReceivedFdsImpl`: every descriptor is stored or closed, once.
* `directives_fdstoreremove_iff`: the last line of a key decides.
* `notified_exact_iff`: a run of datagrams keeps the store exact exactly if no
    datagram without descriptors asks for a removal that finds something.
-/

namespace OxidizedSystemd.Notifications

open OxidizedSystemd.Lib

abbrev Text := List Char

/-! ## The directives of a datagram -/

/-- `fdstore`, `fdstoreremove` and `fdname` (lines 562–564). -/
structure Directives where
  fdstore : Bool := false
  fdstoreremove : Bool := false
  fdname : Option Text := none
deriving DecidableEq

/-- The loop body over the lines (lines 566–586). -/
def Directives.line (d : Directives) (line : Text) : Directives :=
  match splitOnce ['='] line with
  | none => d
  | some (key, value) =>
    if key = "FDSTORE".toList then { d with fdstore := value = ['1'] }
    else if key = "FDSTOREREMOVE".toList then { d with fdstoreremove := value = ['1'] }
    else if key = "FDNAME".toList then
      if trim value = [] then d else { d with fdname := some (trim value) }
    else d

/-- The directives of a datagram. -/
def directives (datagram : Text) : Directives := (textLines datagram).foldl Directives.line {}

/-- `fd_label` (line 588). -/
def Directives.label (d : Directives) : Text := d.fdname.getD "stored".toList

/-! ## The store -/

/-- The part of `Service` that the store needs. A descriptor is told apart from a later one
    with the same number. -/
structure Service (Fd : Type*) where
  storedFds : List (Text × Fd) := []

/-- `Specific`, with `FileDescriptorStoreMax=` and the state of a service. -/
inductive Specific (Fd : Type*) where
  | service (fileDescriptorStoreMax : ℕ) (srvc : Service Fd)
  | other

variable {Fd : Type*}

/-- The loop that stores the first `toStore` descriptors and closes the others
    (lines 644–659): the entries that are pushed and the descriptors that are closed. -/
def storeLoop (label : Text) (toStore : ℕ) (receivedFds : List Fd) (stored : List (Text × Fd)) :
    List (Text × Fd) × List Fd :=
  receivedFds.zipIdx.foldl
    (fun st p => if p.2 < toStore then (st.1 ++ [(label, p.1)], st.2) else (st.1, st.2 ++ [p.1]))
    (stored, [])

/-- `handle_received_fds_impl`: the service afterwards and the descriptors that are closed. -/
def handleReceivedFdsImpl (msgText : Text) (receivedFds : List Fd) (srvc : Service Fd)
    (fileDescriptorStoreMax : ℕ) : Service Fd × List Fd :=
  let d := directives msgText
  if d.fdstoreremove then
    ({ srvc with storedFds := srvc.storedFds.filter (·.1 ≠ d.label) },
      (srvc.storedFds.filter (·.1 = d.label)).map Prod.snd ++ receivedFds)
  else if d.fdstore then
    if fileDescriptorStoreMax = 0 then (srvc, receivedFds)
    else
      let space := fileDescriptorStoreMax - srvc.storedFds.length
      if space = 0 then (srvc, receivedFds)
      else
        let toStore := min receivedFds.length space
        let (stored, closed) := storeLoop d.label toStore receivedFds srvc.storedFds
        ({ srvc with storedFds := stored }, closed)
  else (srvc, receivedFds)

/-- One `Event::Notify`. -/
structure Notify (Fd : Type*) where
  unit : Text
  datagram : Text
  receivedFds : List Fd

/-- The unit table, and the descriptors that have been closed. -/
structure Manager (Fd : Type*) where
  unitTable : AList fun _ : Text => Specific Fd
  closed : List Fd := []

namespace Manager

/-- `apply_notify` (lines 432–503). -/
def applyNotify (m : Manager Fd) (e : Notify Fd) : Manager Fd :=
  match m.unitTable.lookup e.unit with
  | none => { m with closed := m.closed ++ e.receivedFds }
  | some .other => { m with closed := m.closed ++ e.receivedFds }
  | some (.service max srvc) =>
    if e.receivedFds.isEmpty then m
    else
      let (srvc, closed) := handleReceivedFdsImpl e.datagram e.receivedFds srvc max
      { unitTable := m.unitTable.insert e.unit (.service max srvc), closed := m.closed ++ closed }

/-- The datagrams of a list, one after another. -/
def applyAll (m : Manager Fd) (es : List (Notify Fd)) : Manager Fd := es.foldl applyNotify m

/-- The store of a unit, empty if the unit has none. -/
def store (m : Manager Fd) (unit : Text) : List (Text × Fd) :=
  match m.unitTable.lookup unit with
  | some (.service _ srvc) => srvc.storedFds
  | _ => []

end Manager

/-! ## The last line of a key decides -/

/-- The value that a line gives to a key. -/
def assigned (key line : Text) : Option Text :=
  match splitOnce ['='] line with
  | none => none
  | some (k, value) => if k = key then some value else none

/-- The values that the lines of a datagram give to a key, in order. -/
def assignments (key datagram : Text) : List Text := (textLines datagram).filterMap (assigned key)

/-- The names that a datagram gives. -/
def names (datagram : Text) : List Text :=
  ((assignments "FDNAME".toList datagram).map trim).filter (· ≠ [])

theorem line_fdstoreremove (d : Directives) (line : Text) :
    (d.line line).fdstoreremove =
      ((assigned "FDSTOREREMOVE".toList line).map fun v => decide (v = ['1'])).getD
        d.fdstoreremove := by
  unfold Directives.line assigned
  cases splitOnce ['='] line with
  | none => rfl
  | some pair =>
    dsimp only
    split_ifs <;> simp_all

theorem line_fdname (d : Directives) (line : Text) :
    (d.line line).fdname =
      ((((assigned "FDNAME".toList line).map trim).filter (· ≠ [])).map some).getD d.fdname := by
  unfold Directives.line assigned
  cases splitOnce ['='] line with
  | none => rfl
  | some pair =>
    dsimp only
    split_ifs <;> simp_all [Option.filter]

/-- `FDSTOREREMOVE=1` is in force exactly if the last line of the key says it. -/
theorem directives_fdstoreremove_iff (datagram : Text) :
    (directives datagram).fdstoreremove = true ↔
      (assignments "FDSTOREREMOVE".toList datagram).getLast? = some ['1'] := by
  unfold directives assignments
  rw [foldl_lastSet (p := Directives.fdstoreremove) line_fdstoreremove,
    ← List.map_filterMap, List.getLast?_map]
  cases ((textLines datagram).filterMap (assigned "FDSTOREREMOVE".toList)).getLast? with
  | none => simp
  | some v => simp

/-- The name of a datagram is the last one that it gives. -/
theorem directives_fdname (datagram : Text) :
    (directives datagram).fdname = (names datagram).getLast? := by
  unfold directives names assignments
  rw [foldl_lastSet (p := Directives.fdname) line_fdname]
  rw [← List.map_filterMap, ← List.filter_filterMap, ← List.map_filterMap, List.getLast?_map]
  have hcollapse : ∀ name : Option Text, (name.map some).getD none = name := by
    intro name
    cases name with
    | none => rfl
    | some n => rfl
  exact hcollapse _

/-! ## One call -/

theorem storeLoop_eq (label : Text) (toStore : ℕ) (receivedFds : List Fd)
    (stored : List (Text × Fd)) :
    storeLoop label toStore receivedFds stored =
      (stored ++ (receivedFds.take toStore).map (label, ·), receivedFds.drop toStore) := by
  have hloop : ∀ (i : ℕ) (stored : List (Text × Fd)) (closed : List Fd),
      (receivedFds.zipIdx i).foldl
        (fun st p => if p.2 < toStore then (st.1 ++ [(label, p.1)], st.2)
          else (st.1, st.2 ++ [p.1])) (stored, closed) =
        (stored ++ (receivedFds.take (toStore - i)).map (label, ·),
          closed ++ receivedFds.drop (toStore - i)) := by
    induction receivedFds with
    | nil => simp
    | cons fd fds ih =>
      intro i stored closed
      rw [List.zipIdx_cons, List.foldl_cons]
      by_cases hi : i < toStore
      · obtain ⟨k, hk⟩ : ∃ k, toStore - i = k + 1 := ⟨toStore - i - 1, by omega⟩
        have hk' : toStore - (i + 1) = k := by omega
        simp only [if_pos hi, ih, hk, hk', List.take_succ_cons, List.drop_succ_cons, List.map_cons,
          List.append_assoc, List.singleton_append]
      · have hk : toStore - i = 0 := by omega
        have hk' : toStore - (i + 1) = 0 := by omega
        simp only [if_neg hi, ih, hk, hk', List.take_zero, List.drop_zero, List.map_nil,
          List.append_nil, List.append_assoc, List.singleton_append]
  simpa [storeLoop] using hloop 0 stored []

/-- The descriptors that a service has stored. -/
def Service.fds (srvc : Service Fd) : List Fd := srvc.storedFds.map Prod.snd

section Call

variable {msgText : Text} {receivedFds : List Fd} {srvc : Service Fd} {max : ℕ}

theorem handleReceivedFdsImpl_remove (h : (directives msgText).fdstoreremove = true) :
    (handleReceivedFdsImpl msgText receivedFds srvc max).1.storedFds =
      srvc.storedFds.filter (·.1 ≠ (directives msgText).label) := by
  unfold handleReceivedFdsImpl
  dsimp only
  rw [if_pos h]

/-- Every descriptor is stored or closed, once. -/
theorem fds_handleReceivedFdsImpl (msgText : Text) (receivedFds : List Fd) (srvc : Service Fd)
    (max : ℕ) :
    ((handleReceivedFdsImpl msgText receivedFds srvc max).1.fds ++
      (handleReceivedFdsImpl msgText receivedFds srvc max).2).Perm (srvc.fds ++ receivedFds) := by
  unfold handleReceivedFdsImpl
  dsimp only
  split_ifs with hremove hstore hmax hspace
  · have hsplit := (List.filter_append_perm (fun p : Text × Fd =>
      decide (p.1 ≠ (directives msgText).label)) srvc.storedFds).map Prod.snd
    rw [List.map_append] at hsplit
    simp only [Service.fds, ← List.append_assoc]
    simpa using hsplit.append_right receivedFds
  · rfl
  · rfl
  · rw [storeLoop_eq]
    simp [Service.fds, List.map_append, Function.comp_def]
  · rfl

/-- The store stays within the limit. -/
theorem length_handleReceivedFdsImpl (h : srvc.storedFds.length ≤ max) :
    (handleReceivedFdsImpl msgText receivedFds srvc max).1.storedFds.length ≤ max := by
  unfold handleReceivedFdsImpl
  dsimp only
  split_ifs with hremove hstore hmax hspace
  · exact (List.length_filter_le _ _).trans h
  · exact h
  · exact h
  · rw [storeLoop_eq, List.length_append, List.length_map, List.length_take]
    omega
  · exact h

end Call

/-! ## One datagram -/

namespace Specific

/-- The descriptors that a unit has stored. -/
def fds : Specific Fd → Multiset Fd
  | .service _ srvc => srvc.fds
  | .other => 0

/-- The store is within `FileDescriptorStoreMax=`. -/
def WithinMax : Specific Fd → Prop
  | .service max srvc => srvc.storedFds.length ≤ max
  | .other => True

end Specific

namespace Manager

/-- The descriptors that the units have stored. -/
def stored (m : Manager Fd) : Multiset Fd := total Specific.fds m.unitTable

/-- Every store is within its limit. -/
def WithinMax (m : Manager Fd) : Prop :=
  ∀ unit spec, m.unitTable.lookup unit = some spec → spec.WithinMax

end Manager

/-- A datagram that asks for the removal of the entries with a name. -/
def AsksRemoval (datagram n : Text) : Prop :=
  (assignments "FDSTOREREMOVE".toList datagram).getLast? = some ['1'] ∧
    (names datagram).getLast? = some n

instance AsksRemoval.decidable (datagram n : Text) : Decidable (AsksRemoval datagram n) :=
  inferInstanceAs (Decidable (_ ∧ _))

namespace Manager

variable {m : Manager Fd} {e : Notify Fd}

/-- What a datagram for a service with descriptors does. -/
theorem applyNotify_service {max : ℕ} {srvc : Service Fd}
    (h : m.unitTable.lookup e.unit = some (.service max srvc)) (hne : e.receivedFds ≠ []) :
    m.applyNotify e =
      { unitTable := m.unitTable.insert e.unit
          (.service max (handleReceivedFdsImpl e.datagram e.receivedFds srvc max).1)
        closed := m.closed ++ (handleReceivedFdsImpl e.datagram e.receivedFds srvc max).2 } := by
  unfold applyNotify
  rw [h]
  dsimp only
  rw [if_neg (by simpa using hne)]

/-- A datagram without descriptors changes nothing. -/
theorem applyNotify_of_nil (h : e.receivedFds = []) : m.applyNotify e = m := by
  unfold applyNotify
  cases m.unitTable.lookup e.unit with
  | none => simp [h]
  | some spec =>
    cases spec with
    | other => simp [h]
    | service max srvc => simp [h]

/-- Descriptors for a unit without a store are closed. -/
theorem applyNotify_refused
    (h : ∀ max srvc, m.unitTable.lookup e.unit ≠ some (.service max srvc)) :
    m.applyNotify e = { m with closed := m.closed ++ e.receivedFds } := by
  unfold applyNotify
  cases hlookup : m.unitTable.lookup e.unit with
  | none => rfl
  | some spec =>
    cases spec with
    | other => rfl
    | service max srvc => exact absurd hlookup (h max srvc)

theorem store_eq_nil (h : ∀ max srvc, m.unitTable.lookup e.unit ≠ some (.service max srvc)) :
    m.store e.unit = [] := by
  unfold store
  split
  · rename_i max srvc hlookup
    exact absurd hlookup (h max srvc)
  · rfl

/-- A datagram stores or closes every descriptor that it has, once. -/
theorem accounted_applyNotify (m : Manager Fd) (e : Notify Fd) :
    (m.applyNotify e).stored + (m.applyNotify e).closed = m.stored + m.closed + e.receivedFds := by
  by_cases hnil : e.receivedFds = []
  · rw [applyNotify_of_nil hnil, hnil]
    simp
  by_cases hservice : ∃ max srvc, m.unitTable.lookup e.unit = some (.service max srvc)
  · obtain ⟨max, srvc, h⟩ := hservice
    have hperm := Multiset.coe_eq_coe.mpr
      (fds_handleReceivedFdsImpl e.datagram e.receivedFds srvc max)
    simp only [← Multiset.coe_add] at hperm
    rw [applyNotify_service h hnil, stored, stored, total_insert, total_of_lookup h]
    simp only [Specific.fds, ← Multiset.coe_add]
    set handled := handleReceivedFdsImpl e.datagram e.receivedFds srvc max
    set others := total Specific.fds (m.unitTable.erase e.unit)
    calc (handled.1.fds + others + (m.closed + handled.2) : Multiset Fd)
        = (handled.1.fds + handled.2) + (others + m.closed) := by abel
      _ = (srvc.fds + e.receivedFds) + (others + m.closed) := by rw [hperm]
      _ = srvc.fds + others + m.closed + e.receivedFds := by abel
  · push Not at hservice
    rw [applyNotify_refused hservice, stored, stored, ← Multiset.coe_add, add_assoc]

theorem withinMax_applyNotify (e : Notify Fd) (h : m.WithinMax) :
    (m.applyNotify e).WithinMax := by
  by_cases hnil : e.receivedFds = []
  · rw [applyNotify_of_nil hnil]
    exact h
  by_cases hservice : ∃ max srvc, m.unitTable.lookup e.unit = some (.service max srvc)
  · obtain ⟨max, srvc, hlookup⟩ := hservice
    rw [applyNotify_service hlookup hnil]
    intro unit spec hspec
    by_cases hunit : unit = e.unit
    · rw [hunit, AList.lookup_insert] at hspec
      obtain rfl := Option.some.inj hspec
      exact length_handleReceivedFdsImpl (h e.unit _ hlookup)
    · rw [AList.lookup_insert_ne hunit] at hspec
      exact h unit spec hspec
  · push Not at hservice
    rw [applyNotify_refused hservice]
    exact h

/-- The stores of the other units stay as they are. -/
theorem store_applyNotify_of_ne {unit : Text} (h : unit ≠ e.unit) :
    (m.applyNotify e).store unit = m.store unit := by
  by_cases hnil : e.receivedFds = []
  · rw [applyNotify_of_nil hnil]
  by_cases hservice : ∃ max srvc, m.unitTable.lookup e.unit = some (.service max srvc)
  · obtain ⟨max, srvc, hlookup⟩ := hservice
    rw [applyNotify_service hlookup hnil, store, store, AList.lookup_insert_ne h]
  · push Not at hservice
    rw [applyNotify_refused hservice]
    rfl

/-- A removal that comes with descriptors keeps the entries with other names, in order. -/
theorem store_applyNotify_of_asksRemoval {n : Text} (h : AsksRemoval e.datagram n)
    (hne : e.receivedFds ≠ []) :
    (m.applyNotify e).store e.unit = (m.store e.unit).filter (·.1 ≠ n) := by
  have hlabel : (directives e.datagram).label = n := by
    rw [Directives.label, directives_fdname, h.2]
    rfl
  by_cases hservice : ∃ max srvc, m.unitTable.lookup e.unit = some (.service max srvc)
  · obtain ⟨max, srvc, hlookup⟩ := hservice
    rw [applyNotify_service hlookup hne, store, store, AList.lookup_insert, hlookup]
    dsimp only
    rw [handleReceivedFdsImpl_remove ((directives_fdstoreremove_iff _).mpr h.1), hlabel]
  · push Not at hservice
    rw [applyNotify_refused hservice, store_eq_nil hservice]
    exact store_eq_nil hservice

end Manager

/-! ## Runs -/

/-- What is asked of the store after a datagram, `before` being the ones in front of it. -/
structure ExactAfter (m₀ : Manager Fd) (before : List (Notify Fd)) (e : Notify Fd) : Prop where
  /-- No store holds more than its limit. -/
  within : (m₀.applyAll (before ++ [e])).WithinMax
  /-- Every descriptor that was received is stored once or was closed once. -/
  accounted : (m₀.applyAll (before ++ [e])).stored + (m₀.applyAll (before ++ [e])).closed =
    m₀.stored + m₀.closed + ((before ++ [e]).flatMap (·.receivedFds) : List Fd)
  /-- A removal leaves the entries with other names, in order, and no others. -/
  removed : ∀ n, AsksRemoval e.datagram n →
    (m₀.applyAll (before ++ [e])).store e.unit =
      ((m₀.applyAll before).store e.unit).filter (·.1 ≠ n)
  /-- The stores of the other units stay as they are. -/
  others : ∀ unit ≠ e.unit,
    (m₀.applyAll (before ++ [e])).store unit = (m₀.applyAll before).store unit

/-- A datagram without descriptors does not ask for the removal of an entry that is stored. -/
def Reached (m : Manager Fd) (e : Notify Fd) : Prop :=
  e.receivedFds = [] → ∀ n, AsksRemoval e.datagram n → ∀ entry ∈ m.store e.unit, entry.1 ≠ n

namespace Manager

theorem applyAll_append_singleton (m : Manager Fd) (es : List (Notify Fd)) (e : Notify Fd) :
    m.applyAll (es ++ [e]) = (m.applyAll es).applyNotify e := by
  unfold applyAll
  rw [List.foldl_append]
  rfl

theorem withinMax_applyAll {m : Manager Fd} (h : m.WithinMax) (es : List (Notify Fd)) :
    (m.applyAll es).WithinMax := by
  induction es using List.reverseRecOn with
  | nil => exact h
  | append_singleton es e ih =>
    rw [applyAll_append_singleton]
    exact withinMax_applyNotify e ih

/-- No descriptor is lost and none is closed twice, over a run. -/
theorem accounted_applyAll (m : Manager Fd) (es : List (Notify Fd)) :
    (m.applyAll es).stored + (m.applyAll es).closed =
      m.stored + m.closed + (es.flatMap (·.receivedFds) : List Fd) := by
  induction es using List.reverseRecOn with
  | nil => simp [applyAll]
  | append_singleton es e ih =>
    rw [applyAll_append_singleton, accounted_applyNotify, ih, List.flatMap_append,
      ← Multiset.coe_add, add_assoc]
    simp

end Manager

theorem exactAfter_iff {m₀ : Manager Fd} (h : m₀.WithinMax) (before : List (Notify Fd))
    (e : Notify Fd) : ExactAfter m₀ before e ↔ Reached (m₀.applyAll before) e := by
  constructor
  · intro hexact hnil n hasks entry hentry heq
    have hremoved := hexact.removed n hasks
    rw [Manager.applyAll_append_singleton, Manager.applyNotify_of_nil hnil] at hremoved
    rw [hremoved, List.mem_filter] at hentry
    exact of_decide_eq_true hentry.2 heq
  · intro hreached
    refine ⟨Manager.withinMax_applyAll h _, Manager.accounted_applyAll m₀ _, ?_, ?_⟩
    · intro n hasks
      rw [Manager.applyAll_append_singleton]
      by_cases hnil : e.receivedFds = []
      · rw [Manager.applyNotify_of_nil hnil, eq_comm, List.filter_eq_self]
        intro entry hentry
        exact decide_eq_true (hreached hnil n hasks entry hentry)
      · exact Manager.store_applyNotify_of_asksRemoval hasks hnil
    · intro unit hunit
      rw [Manager.applyAll_append_singleton]
      exact Manager.store_applyNotify_of_ne hunit

/-- The store is exact after each datagram of a run exactly if no datagram without descriptors
    asks for the removal of an entry that is stored then. -/
theorem notified_exact_iff {m₀ : Manager Fd} (h : m₀.WithinMax) (es : List (Notify Fd)) :
    (∀ before e after, es = before ++ e :: after → ExactAfter m₀ before e) ↔
      ∀ before e after, es = before ++ e :: after → Reached (m₀.applyAll before) e := by
  constructor
  · intro hexact before e after hes
    exact (exactAfter_iff h before e).mp (hexact before e after hes)
  · intro hreached before e after hes
    exact (exactAfter_iff h before e).mpr (hreached before e after hes)

/-! ## A removal without descriptors -/

def storing : Notify ℕ := ⟨"a".toList, "FDSTORE=1\nFDNAME=n".toList, [7]⟩

def removing : Notify ℕ := ⟨"a".toList, "FDSTOREREMOVE=1\nFDNAME=n".toList, []⟩

/-- A service with room for one descriptor. -/
def oneService : Manager ℕ := { unitTable := (∅ : AList _).insert "a".toList (.service 1 {}) }

theorem withinMax_oneService : oneService.WithinMax := by
  intro unit spec h
  by_cases hunit : unit = "a".toList
  · rw [hunit, oneService, AList.lookup_insert] at h
    obtain rfl := Option.some.inj h
    exact Nat.zero_le 1
  · rw [oneService, AList.lookup_insert_ne hunit] at h
    cases h

/-- The same with a descriptor of its own. -/
def removingWith : Notify ℕ := { removing with receivedFds := [8] }

theorem notified_exact_removed : oneService.WithinMax ∧ ∀ before e after,
    [storing, removingWith] = before ++ e :: after → ExactAfter oneService before e := by
  refine ⟨withinMax_oneService, (notified_exact_iff withinMax_oneService _).mpr ?_⟩
  intro before e after hes hnil
  have hmem : e ∈ [storing, removingWith] := by
    rw [hes]
    simp
  rcases List.mem_cons.mp hmem with rfl | hmem
  · cases hnil
  · rw [List.mem_singleton.mp hmem] at hnil
    cases hnil

/-- A removal without descriptors removes nothing. -/
theorem bare_removal_ignored : ¬ ∀ m₀ : Manager ℕ, m₀.WithinMax → ∀ es before e after,
    es = before ++ e :: after → ExactAfter m₀ before e := by
  intro h
  have hexact := h oneService withinMax_oneService [storing, removing] [storing] removing [] rfl
  have hremoved := hexact.removed "n".toList (by decide)
  revert hremoved
  decide

end OxidizedSystemd.Notifications

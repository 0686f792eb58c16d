import OxidizedSystemd.Repart.Allocate
import Mathlib.Data.List.Nodup
import Mathlib.Data.List.Perm.Subperm

/-!
# Matching, and what it keeps

`match_partitions` gives every existing partition to one definition at most, and the
steps behind it change neither what a definition is matched to nor the slots in use.

* `matchPartitions_matches`: the matched partitions are different existing ones.
* `applySizes_slots`: new partitions get different slots, none of them in use.
-/

namespace OxidizedSystemd.Repart

/-! ## Matching -/

/-- Different existing partitions are matched, and new partitions are not. -/
structure Matches (existing : List GptPartition) (matched : List MatchedPartition) : Prop where
  isNew : ∀ m ∈ matched, m.isNew → m.existing = none
  mem : ∀ m ∈ matched, ∀ e, m.existing = some e → e ∈ existing
  nodup : (matched.filterMap (·.existing)).Nodup

section Matching

variable {existing : List GptPartition} {before ds : List PartitionDefinition}
  {matched : List MatchedPartition}

/-- What every matched definition keeps holds of all of them. -/
theorem matchLoop_inv {P : List PartitionDefinition → List MatchedPartition → Prop}
    (hstep : ∀ before matched d, P before matched →
      P (before ++ [d]) (matched ++ [matchOne existing before.length
        ((before.map (·.typeUuid)).count d.typeUuid) d matched]))
    (h : P before matched) : P (before ++ ds) (matchLoop existing before matched ds) := by
  induction ds generalizing before matched with
  | nil => rwa [List.append_nil]
  | cons d ds ih =>
    have hds := ih (hstep before matched d h)
    rwa [List.append_assoc, List.singleton_append] at hds

/-- What holds of no definition and is kept by each holds of all that are matched. -/
theorem matchPartitions_induct {P : List PartitionDefinition → List MatchedPartition → Prop}
    (defs : List PartitionDefinition)
    (hstep : ∀ before matched d, P before matched →
      P (before ++ [d]) (matched ++ [matchOne existing before.length
        ((before.map (·.typeUuid)).count d.typeUuid) d matched]))
    (h : P [] []) : P defs (matchPartitions defs existing) := matchLoop_inv hstep h

theorem mem_existingByType {t : String} {p : GptPartition}
    (h : p ∈ existingByType existing t) : p ∈ existing ∧ p.typeGuid = t := by
  have hfilter := (List.mem_insertionSort _).mp h
  obtain ⟨hmem, htype⟩ := List.mem_filter.mp hfilter
  exact ⟨hmem, of_decide_eq_true htype⟩

theorem existingByType_nodup (h : existing.Nodup) (t : String) :
    (existingByType existing t).Nodup :=
  (List.perm_insertionSort _ _).nodup_iff.mpr (h.filter _)

/-- The existing partition that a definition is matched to is the next one of its type. -/
theorem matchOne_existing (existing : List GptPartition) (matched : List MatchedPartition)
    (i counter : ℕ) (d : PartitionDefinition) :
    (matchOne existing i counter d matched).existing =
      (existingByType existing d.typeUuid)[counter]? := by
  rw [matchOne]
  cases (existingByType existing d.typeUuid)[counter]? <;> rfl

theorem matchOne_isNew (i counter : ℕ) (d : PartitionDefinition) :
    (matchOne existing i counter d matched).isNew =
      (matchOne existing i counter d matched).existing.isNone := by
  rw [matchOne]
  cases (existingByType existing d.typeUuid)[counter]? <;> rfl

/-- What the loop keeps: of each type, as many partitions are taken as definitions were seen. -/
structure MatchInv (existing : List GptPartition) (before : List PartitionDefinition)
    (matched : List MatchedPartition) : Prop where
  isNew : ∀ m ∈ matched, m.isNew = m.existing.isNone
  taken : ∀ e ∈ matched.filterMap (·.existing), e ∈ (existingByType existing e.typeGuid).take
    ((before.map (·.typeUuid)).count e.typeGuid)
  nodup : (matched.filterMap (·.existing)).Nodup

theorem filterMap_single {α β : Type*} (f : α → Option β) (a : α) :
    [a].filterMap f = (f a).toList := by
  cases h : f a <;> simp [h]

theorem notMem_take {α : Type*} {l : List α} {n : ℕ} {a : α} (hl : l.Nodup)
    (h : l[n]? = some a) : a ∉ l.take n := by
  obtain ⟨hn, rfl⟩ := List.getElem?_eq_some_iff.mp h
  intro hmem
  obtain ⟨j, hj, heq⟩ := List.mem_take_iff_getElem.mp hmem
  have hjn := (List.getElem_inj hl).mp heq
  omega

theorem MatchInv.step (hexisting : existing.Nodup) (h : MatchInv existing before matched)
    (d : PartitionDefinition) :
    MatchInv existing (before ++ [d]) (matched ++ [matchOne existing before.length
      ((before.map (·.typeUuid)).count d.typeUuid) d matched]) := by
  have hcount : ∀ t, ((before ++ [d]).map (·.typeUuid)).count t =
      (before.map (·.typeUuid)).count t + if d.typeUuid = t then 1 else 0 := fun t => by
    rw [List.map_append, List.count_append, List.map_singleton, List.count_singleton]
    simp
  have htake : ∀ (l : List GptPartition) (m n : ℕ) (e : GptPartition), e ∈ l.take m → m ≤ n →
      e ∈ l.take n := fun l m n e he hmn => (List.take_subset_take_left l hmn) he
  have hnew := matchOne_existing existing matched before.length
    ((before.map (·.typeUuid)).count d.typeUuid) d
  constructor
  · intro m hm
    rcases List.mem_append.mp hm with hm | hm
    · exact h.isNew m hm
    · rw [List.mem_singleton.mp hm]
      exact matchOne_isNew _ _ _
  · intro e he
    rw [List.filterMap_append, List.mem_append] at he
    rw [hcount]
    rcases he with he | he
    · exact htake _ _ _ e (h.taken e he) (Nat.le_add_right _ _)
    · rw [filterMap_single, hnew, Option.mem_toList] at he
      obtain ⟨hlt, hget⟩ := List.getElem?_eq_some_iff.mp he
      have htype : e.typeGuid = d.typeUuid :=
        (mem_existingByType (hget ▸ List.getElem_mem hlt)).2
      rw [htype, if_pos rfl]
      exact List.mem_take_iff_getElem.mpr ⟨_, by omega, hget⟩
  · rw [List.filterMap_append, filterMap_single, hnew]
    cases hget : (existingByType existing d.typeUuid)[
        (before.map (·.typeUuid)).count d.typeUuid]? with
    | none =>
      rw [Option.toList_none, List.append_nil]
      exact h.nodup
    | some e =>
      have hmem := List.mem_of_getElem? hget
      have hfresh : e ∉ matched.filterMap (·.existing) := fun he => by
        have htaken := h.taken e he
        rw [(mem_existingByType hmem).2] at htaken
        exact notMem_take (existingByType_nodup hexisting _) hget htaken
      exact List.nodup_append.mpr ⟨h.nodup, List.nodup_singleton e, fun a ha b hb hab =>
        hfresh (by rwa [← List.mem_singleton.mp hb, ← hab])⟩

theorem matchPartitions_inv (hexisting : existing.Nodup) (defs : List PartitionDefinition) :
    MatchInv existing defs (matchPartitions defs existing) :=
  matchPartitions_induct defs (fun _ _ d h => h.step hexisting d)
    ⟨by simp, by simp, List.nodup_nil⟩

/-- A definition is new exactly if it is matched to nothing. -/
theorem matchPartitions_isNew (existing : List GptPartition) (defs : List PartitionDefinition) :
    ∀ m ∈ matchPartitions defs existing, m.isNew = m.existing.isNone := by
  refine matchPartitions_induct (P := fun _ matched => ∀ m ∈ matched, m.isNew = m.existing.isNone)
    defs (fun before matched d h => ?_) (by simp)
  intro m hm
  rcases List.mem_append.mp hm with hm | hm
  · exact h m hm
  · rw [List.mem_singleton.mp hm]
    exact matchOne_isNew _ _ _

/-- What a definition is matched to is an existing partition, whatever the slots are. -/
theorem mem_of_matchPartitions (existing : List GptPartition) (defs : List PartitionDefinition) :
    ∀ m ∈ matchPartitions defs existing, ∀ e, m.existing = some e → e ∈ existing := by
  refine matchPartitions_induct
    (P := fun _ matched => ∀ m ∈ matched, ∀ e, m.existing = some e → e ∈ existing)
    defs (fun before matched d h => ?_) (by simp)
  intro m hm e he
  rcases List.mem_append.mp hm with hm | hm
  · exact h m hm e he
  · rw [List.mem_singleton.mp hm, matchOne_existing] at he
    exact (mem_existingByType (List.mem_of_getElem? he)).1

/-- Different definitions are matched to different existing partitions. -/
theorem matchPartitions_matches (hexisting : existing.Nodup) (defs : List PartitionDefinition) :
    Matches existing (matchPartitions defs existing) := by
  have h := matchPartitions_inv hexisting defs
  constructor
  · intro m hm hnew
    exact Option.isNone_iff_eq_none.mp (h.isNew m hm ▸ hnew)
  · intro m hm e he
    have htaken := h.taken e (List.mem_filterMap.mpr ⟨m, hm, he⟩)
    exact (mem_existingByType (List.mem_of_mem_take htaken)).1
  · exact h.nodup

end Matching

/-! ## Sizes and slots -/

theorem nextFreeSlot_notMem (used : List ℕ) : nextFreeSlot used ∉ used := by
  have hfree : ∃ slot ∈ List.range (used.length + 1), slot ∉ used := by
    by_contra hnone
    have hsub : List.range (used.length + 1) ⊆ used := fun slot hslot =>
      not_not.mp fun hmem => hnone ⟨slot, hslot, hmem⟩
    have hle := (List.nodup_range.subperm hsub).length_le
    rw [List.length_range] at hle
    omega
  obtain ⟨slot, hslot, hmem⟩ := hfree
  rw [nextFreeSlot]
  cases hfind : (List.range (used.length + 1)).find? fun slot => !used.contains slot with
  | none =>
    have hused := List.find?_eq_none.mp hfind slot hslot
    simp [hmem] at hused
  | some free =>
    have hfree := List.find?_some hfind
    simpa using hfree

section Sizes

variable {defs : List PartitionDefinition} {sectorSize : ℕ} {uuidOf : String → ℕ → String}
  {used : List ℕ} {types : List String}

theorem request_of_isNew {m : MatchedPartition} (h : m.isNew) :
    request defs sectorSize m = some
      { minBytes := max (definition defs m).sizeMin minPartitionSize
        maxBytes := (definition defs m).sizeMax
        weight := (definition defs m).weight
        paddingMin := (definition defs m).paddingMin
        paddingMax := (definition defs m).paddingMax
        paddingWeight := (definition defs m).paddingWeight } := if_pos h

/-- A new partition gets its size, rounded down to the grain, and a free slot. -/
theorem applySize_of_isNew {m : MatchedPartition} (h : m.isNew) (inst : ℕ) (size : ℕ × ℕ) :
    applySize defs sectorSize uuidOf used inst m size =
      ({ m with
          allocatedSize := alignDown size.1 (grain sectorSize)
          assignedUuid := (definition defs m).uuid.getD
            (uuidOf (definition defs m).typeUuid inst)
          slotIndex := nextFreeSlot used
          paddingSize := size.2 }, nextFreeSlot used :: used) := by
  rw [applySize, request_of_isNew h]
  obtain ⟨_, _, _, _, _, _, isNew, _, _, _, _⟩ := m
  subst h
  rfl

/-- What a size changes of a partition that is not new: its size, its padding and whether it
    grew. -/
theorem applySize_of_not_isNew (defs : List PartitionDefinition) (sectorSize : ℕ)
    (uuidOf : String → ℕ → String) (used : List ℕ) {m : MatchedPartition} (h : m.isNew = false)
    (inst : ℕ) (size : ℕ × ℕ) :
    ∃ allocated padding grown, applySize defs sectorSize uuidOf used inst m size =
      ({ m with allocatedSize := allocated, paddingSize := padding, isGrown := grown }, used) := by
  obtain ⟨index, existing, allocated, padding, uuid, label, isNew, grown, start, stop, slot⟩ := m
  subst h
  cases existing with
  | none => exact ⟨allocated, padding, grown, rfl⟩
  | some e =>
    rw [applySize]
    cases request defs sectorSize _ with
    | none => exact ⟨allocated, padding, grown, rfl⟩
    | some req => exact ⟨_, _, _, rfl⟩

theorem applySize_frame (defs : List PartitionDefinition) (sectorSize : ℕ)
    (uuidOf : String → ℕ → String) (used : List ℕ) (inst : ℕ) (m : MatchedPartition)
    (size : ℕ × ℕ) :
    (applySize defs sectorSize uuidOf used inst m size).1.isNew = m.isNew ∧
      (applySize defs sectorSize uuidOf used inst m size).1.existing = m.existing ∧
      (applySize defs sectorSize uuidOf used inst m size).1.definitionIndex =
        m.definitionIndex := by
  cases h : m.isNew with
  | true =>
    rw [applySize_of_isNew h]
    exact ⟨h, rfl, rfl⟩
  | false =>
    obtain ⟨allocated, padding, grown, heq⟩ := applySize_of_not_isNew defs sectorSize
      uuidOf used h inst size
    rw [heq]
    exact ⟨h, rfl, rfl⟩

theorem applySizes_cons (m : MatchedPartition) (ms : List MatchedPartition) (size : ℕ × ℕ)
    (ss : List (ℕ × ℕ)) :
    applySizes defs sectorSize uuidOf used types (m :: ms) (size :: ss) =
      (applySize defs sectorSize uuidOf used (types.count (definition defs m).typeUuid) m size).1 ::
        applySizes defs sectorSize uuidOf
          (applySize defs sectorSize uuidOf used (types.count (definition defs m).typeUuid) m
            size).2
          ((definition defs m).typeUuid :: types) ms ss := rfl

/-- The slots of the new partitions. -/
def newSlots (ms : List MatchedPartition) : List ℕ :=
  (ms.filter (·.isNew)).map (·.slotIndex)

theorem newSlots_cons_of_isNew {m : MatchedPartition} (h : m.isNew)
    (ms : List MatchedPartition) : newSlots (m :: ms) = m.slotIndex :: newSlots ms := by
  rw [newSlots, List.filter_cons_of_pos h, List.map_cons, newSlots]

theorem newSlots_cons_of_not_isNew {m : MatchedPartition} (h : m.isNew = false)
    (ms : List MatchedPartition) : newSlots (m :: ms) = newSlots ms := by
  rw [newSlots, List.filter_cons_of_neg (by simp [h]), newSlots]

/-- New partitions get different slots, none of them in use. -/
theorem applySizes_slots (defs : List PartitionDefinition) (sectorSize : ℕ)
    (uuidOf : String → ℕ → String) (used : List ℕ) (types : List String)
    {ms : List MatchedPartition} {ss : List (ℕ × ℕ)} (hlen : ms.length ≤ ss.length) :
    (newSlots (applySizes defs sectorSize uuidOf used types ms ss)).Nodup ∧
      ∀ slot ∈ newSlots (applySizes defs sectorSize uuidOf used types ms ss), slot ∉ used := by
  induction ms generalizing used types ss with
  | nil =>
    rw [applySizes]
    · exact ⟨List.nodup_nil, fun _ h => absurd h List.not_mem_nil⟩
    · simp
  | cons m ms ih =>
    cases ss with
    | nil => simp at hlen
    | cons size ss =>
      have hrest : ms.length ≤ ss.length := by simpa using hlen
      rw [applySizes_cons]
      cases h : m.isNew with
      | true =>
        obtain ⟨hnodup, hfresh⟩ := ih (nextFreeSlot used :: used)
          ((definition defs m).typeUuid :: types) hrest
        rw [applySize_of_isNew h, newSlots_cons_of_isNew]
        swap
        · exact h
        refine ⟨List.nodup_cons.mpr ⟨fun hmem => ?_, hnodup⟩, List.forall_mem_cons.mpr
          ⟨nextFreeSlot_notMem used, fun slot hslot => ?_⟩⟩
        · exact hfresh _ hmem List.mem_cons_self
        · exact fun hused => hfresh slot hslot (List.mem_cons_of_mem _ hused)
      | false =>
        obtain ⟨allocated, padding, grown, heq⟩ := applySize_of_not_isNew defs sectorSize
          uuidOf used h (types.count (definition defs m).typeUuid) size
        rw [heq, newSlots_cons_of_not_isNew]
        · exact ih _ _ hrest
        · exact h

theorem length_distribute (as : List (Option ℕ)) (grown : ℕ → List (ℕ × ℕ)) :
    (distribute as grown).length = as.length := by
  induction as generalizing grown with
  | nil => rfl
  | cons a as ih =>
    cases a <;> rw [distribute, List.length_cons, List.length_cons, ih]

theorem length_assignLoop (areas : List FreeArea) (order : List ℕ) (budget : ℕ → ℕ)
    (ms : List MatchedPartition) :
    (assignLoop defs sectorSize areas order budget ms).length = ms.length := by
  induction ms generalizing budget with
  | nil => rfl
  | cons m ms ih => rw [assignLoop, List.length_cons, List.length_cons, ih]

theorem length_sizes (matched : List MatchedPartition) (areas : List FreeArea) :
    (sizes defs sectorSize matched areas (assignment defs sectorSize matched areas)).length =
      matched.length := by
  rw [sizes, length_distribute, assignment, length_assignLoop]

end Sizes

end OxidizedSystemd.Repart

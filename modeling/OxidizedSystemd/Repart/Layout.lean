import OxidizedSystemd.Repart.Matching
import OxidizedSystemd.Lib.Extents

/-!
# The layout keeps extents apart

The existing partitions, the new ones that are placed and the free regions that are left
never meet, whatever sizes the layout is given.

* `findFreeRegions_packed`: the gaps lie between the existing partitions.
* `placeAll_packed`: placing new partitions keeps all extents apart.
* `growAll_packed`: so does growing existing ones.
* `allocateSpace_packed`: the partitions that are written are apart, in the usable range,
  and existing ones neither move nor shrink.
-/

namespace OxidizedSystemd.Repart

open OxidizedSystemd.Lib

/-- The extent of a partition. -/
def GptPartition.extent (p : GptPartition) : ℕ × ℕ := (p.firstLba, p.lastLba)

variable {defs : List PartitionDefinition} {sectorSize lo hi : ℕ} {existing : List GptPartition}
  {taken free : List (ℕ × ℕ)}

/-! ## Gaps -/

theorem regionsFrom_packed {xs : List (ℕ × ℕ)} {cursor : ℕ}
    (hsorted : xs.Pairwise fun a b => a.1 ≤ b.1) (h : Packed lo hi xs)
    (hcursor : ∀ x ∈ xs, cursor ≤ x.1) :
    Packed cursor hi (xs ++ regionsFrom hi cursor xs) := by
  induction xs generalizing cursor with
  | nil =>
    rw [regionsFrom, List.nil_append]
    split
    · rename_i hle
      exact Packed.single (Nat.le_refl cursor) hle (Nat.le_refl hi)
    · exact Packed.nil
  | cons x xs ih =>
    obtain ⟨start, stop⟩ := x
    obtain ⟨hstart, hxs⟩ := List.pairwise_cons.mp hsorted
    obtain ⟨hapart, -⟩ := List.pairwise_cons.mp h.apart
    obtain ⟨-, hle, hhi⟩ := h.bounds _ List.mem_cons_self
    have hlt : ∀ x ∈ xs, stop + 1 ≤ x.1 := fun x hx => by
      have hx₁ := hstart x hx
      have hx₂ := (h.bounds x (List.mem_cons_of_mem _ hx)).2.1
      rcases hapart x hx with hlt | hlt
      · exact hlt
      · simp only at *
        omega
    have hrest := ih hxs (h.sublist (List.sublist_cons_self _ _)) hlt
    have hcons : Packed start hi ((start, stop) :: (xs ++ regionsFrom hi (stop + 1) xs)) :=
      hrest.cons (Nat.le_refl start) hle hhi
    have hfirst : cursor ≤ start := hcursor _ List.mem_cons_self
    rw [regionsFrom]
    split
    · rename_i hgap
      have hpacked : Packed cursor hi
          ((cursor, start - 1) :: (start, stop) :: (xs ++ regionsFrom hi (stop + 1) xs)) :=
        Packed.cons (by rwa [Nat.sub_add_cancel (by omega)]) (Nat.le_refl cursor) (by omega)
          (by simp only at *; omega)
      refine hpacked.perm ?_
      rw [← List.cons_append, List.singleton_append]
      exact List.perm_middle.symm
    · rename_i hgap
      have heq : cursor = start := by omega
      rw [heq, List.nil_append]
      exact hcons

/-- The gaps lie between the existing partitions. -/
theorem findFreeRegions_packed (h : Packed lo hi (existing.map GptPartition.extent)) :
    Packed lo hi (existing.map GptPartition.extent ++ findFreeRegions existing lo hi) := by
  have hperm := List.perm_insertionSort (fun a b : ℕ × ℕ => a.1 ≤ b.1)
    (existing.map GptPartition.extent)
  have hsorted := List.pairwise_insertionSort (fun a b : ℕ × ℕ => a.1 ≤ b.1)
    (existing.map GptPartition.extent)
  have hpacked := h.perm hperm.symm
  refine (regionsFrom_packed hsorted hpacked fun x hx => (hpacked.bounds x hx).1).perm ?_
  exact hperm.append_right _

/-! ## Placing -/

theorem carve_some {n start : ℕ} {free' : List (ℕ × ℕ)} (h : carve n free = some (start, free')) :
    ∃ before r after, free = before ++ r :: after ∧ n ≤ regionSectors r ∧ start = r.1 ∧
      free' = before ++ (r.1 + n, r.2) :: after := by
  induction free generalizing free' with
  | nil => cases h
  | cons r rest ih =>
    rw [carve] at h
    split at h
    · rename_i hfit
      obtain ⟨rfl, rfl⟩ := Prod.mk.inj (Option.some.inj h)
      exact ⟨[], r, rest, rfl, hfit, rfl, rfl⟩
    · obtain ⟨⟨start', rest'⟩, hrest, heq⟩ := Option.map_eq_some_iff.mp h
      obtain ⟨rfl, rfl⟩ := Prod.mk.inj heq
      obtain ⟨before, r', after, rfl, hfit, hstart, rfl⟩ := ih hrest
      exact ⟨r :: before, r', after, rfl, hfit, hstart, rfl⟩

theorem retain_packed (h : Packed lo hi free) : retain free = free :=
  List.filter_eq_self.mpr fun r hr => decide_eq_true (h.bounds r hr).2.1

theorem retain_single {a b lo : ℕ} (h : lo ≤ a) : Packed lo b (retain [(a, b)]) := by
  by_cases hle : a ≤ b
  · rw [retain, List.filter_cons_of_pos (by simpa using hle), List.filter_nil]
    exact Packed.single h hle (Nat.le_refl b)
  · rw [retain, List.filter_cons_of_neg (by simpa using hle), List.filter_nil]
    exact Packed.nil

theorem retain_split {before after : List (ℕ × ℕ)} {r r' : ℕ × ℕ}
    (h : Packed lo hi (before ++ r :: after)) :
    retain (before ++ r' :: after) = before ++ (retain [r'] ++ after) := by
  have hbefore := retain_packed h.append_left
  have hafter := retain_packed (h.append_right.sublist (List.sublist_cons_self _ _))
  rw [retain] at hbefore hafter
  rw [retain, List.filter_append, hbefore, ← List.singleton_append, List.filter_append, hafter,
    retain]

/-- A placed partition takes its sectors, and its padding, out of the free regions. -/
theorem carve_packed {n k start : ℕ} {sorted free' : List (ℕ × ℕ)} (hn : 0 < n)
    (hperm : sorted.Perm free) (hcarve : carve (n + k) sorted = some (start, free'))
    (h : Packed lo hi (taken ++ free)) :
    Packed lo hi ((start, start + n - 1) :: taken ++ retain free') := by
  obtain ⟨before, ⟨a, b⟩, after, hsorted, hfit, hstart, hfree⟩ := carve_some hcarve
  rw [regionSectors] at hfit
  simp only at hfit hstart hfree
  rw [hstart, hfree]
  have hsplit : Packed lo hi (before ++ (a, b) :: after) :=
    (h.append_right.perm hperm.symm).perm (by rw [hsorted])
  have hfront : Packed lo hi ((a, b) :: (taken ++ (before ++ after))) := by
    refine h.perm ((hperm.symm.append_left taken).trans ?_)
    rw [hsorted]
    exact (List.perm_middle.append_left taken).trans List.perm_middle
  obtain ⟨-, hab, -⟩ := hsplit.bounds (a, b) (by simp)
  have hinner : Packed a b ((a, a + n - 1) :: retain [(a + (n + k), b)]) := by
    refine Packed.cons ?_ (Nat.le_refl a) (by omega) (by simp only at *; omega)
    exact retain_single (by omega)
  rw [retain_split hsplit]
  refine (hfront.replace hinner).perm (List.Perm.cons _ ?_)
  exact (List.perm_append_comm_assoc _ taken _).trans
    ((List.perm_append_comm_assoc _ before after).append_left taken)

theorem perm_sortRegions (free : List (ℕ × ℕ)) : (sortRegions free).Perm free :=
  List.perm_insertionSort _ _

/-- A new partition that has a size. -/
def MatchedPartition.NeedsPlace (m : MatchedPartition) : Prop := m.isNew ∧ m.allocatedSize ≠ 0

/-- What placing one partition does: nothing to one that needs no place, a carved extent, or the
    drop of an optional one that fits nowhere. -/
theorem placeOne_cases {m m' : MatchedPartition} {free' : List (ℕ × ℕ)}
    (h : placeOne defs sectorSize m free = .ok (m', free')) :
    (¬ m.NeedsPlace ∧ m' = m ∧ free' = free) ∨
    (m.NeedsPlace ∧ ∃ k start carved padding,
      carve (m.allocatedSize / sectorSize + k) (sortRegions free) = some (start, carved) ∧
      m' = { m with
        startLba := start
        endLba := start + m.allocatedSize / sectorSize - 1
        paddingSize := padding } ∧ free' = retain carved) ∨
    (m.NeedsPlace ∧ carve (m.allocatedSize / sectorSize) (sortRegions free) = none ∧
      0 < (definition defs m).priority ∧ m' = { m with allocatedSize := 0, isNew := false } ∧
      free' = retain (sortRegions free)) := by
  rw [placeOne] at h
  by_cases hplace : m.NeedsPlace
  · have hcond : ¬ ((!m.isNew || decide (m.allocatedSize = 0)) = true) := by
      simpa [MatchedPartition.NeedsPlace] using hplace
    rw [if_neg hcond] at h
    dsimp only at h
    split at h
    · rename_i start carved hcarve
      obtain ⟨rfl, rfl⟩ := Prod.mk.inj (Except.ok.inj h)
      exact .inr (.inl ⟨hplace, _, start, carved, _, hcarve, rfl, rfl⟩)
    · split at h
      · rename_i start carved hcarve
        obtain ⟨rfl, rfl⟩ := Prod.mk.inj (Except.ok.inj h)
        exact .inr (.inl ⟨hplace, 0, start, carved, _, hcarve, rfl, rfl⟩)
      · rename_i hcarve
        split at h
        · rename_i hpriority
          obtain ⟨rfl, rfl⟩ := Prod.mk.inj (Except.ok.inj h)
          exact .inr (.inr ⟨hplace, hcarve, hpriority, rfl, rfl⟩)
        · cases h
  · have hcond : (!m.isNew || decide (m.allocatedSize = 0)) = true := by
      by_contra hno
      exact hplace (by simpa [MatchedPartition.NeedsPlace] using hno)
    rw [if_pos hcond] at h
    obtain ⟨rfl, rfl⟩ := Prod.mk.inj (Except.ok.inj h)
    exact .inl ⟨hplace, rfl, rfl⟩

/-- The extents of the new partitions that have a size. -/
def newExtents (ms : List MatchedPartition) : List (ℕ × ℕ) :=
  (ms.filter fun m => m.isNew && decide (m.allocatedSize ≠ 0)).map fun m => (m.startLba, m.endLba)

theorem newExtents_cons_of_needsPlace {m : MatchedPartition} (h : m.NeedsPlace)
    (ms : List MatchedPartition) :
    newExtents (m :: ms) = (m.startLba, m.endLba) :: newExtents ms := by
  rw [newExtents, List.filter_cons_of_pos (by simpa [MatchedPartition.NeedsPlace] using h),
    List.map_cons, newExtents]

theorem newExtents_cons_of_not_needsPlace {m : MatchedPartition} (h : ¬ m.NeedsPlace)
    (ms : List MatchedPartition) : newExtents (m :: ms) = newExtents ms := by
  rw [newExtents, List.filter_cons_of_neg (by simpa [MatchedPartition.NeedsPlace] using h),
    newExtents]

theorem placeAll_cons {m : MatchedPartition} {ms ms' : List MatchedPartition}
    {free' : List (ℕ × ℕ)} (h : placeAll defs sectorSize (m :: ms) free = .ok (ms', free')) :
    ∃ m' between rest, placeOne defs sectorSize m free = .ok (m', between) ∧
      placeAll defs sectorSize ms between = .ok (rest, free') ∧ ms' = m' :: rest := by
  rw [placeAll] at h
  cases hone : placeOne defs sectorSize m free with
  | error e =>
    rw [hone] at h
    cases h
  | ok r =>
    obtain ⟨m', between⟩ := r
    cases hall : placeAll defs sectorSize ms between with
    | error e =>
      rw [hone] at h
      simp only [bind, Except.bind] at h
      rw [hall] at h
      cases h
    | ok r =>
      obtain ⟨rest, free''⟩ := r
      rw [hone] at h
      simp only [bind, Except.bind] at h
      rw [hall] at h
      obtain ⟨rfl, rfl⟩ := Prod.mk.inj (Except.ok.inj h)
      exact ⟨m', between, rest, rfl, hall, rfl⟩

/-- Placing new partitions keeps all extents apart, whatever their sizes. -/
theorem placeAll_packed {ms ms' : List MatchedPartition} {free' : List (ℕ × ℕ)}
    (hsize : ∀ m ∈ ms, m.NeedsPlace → 0 < m.allocatedSize / sectorSize)
    (h : placeAll defs sectorSize ms free = .ok (ms', free'))
    (hpacked : Packed lo hi (taken ++ free)) :
    Packed lo hi (taken ++ (newExtents ms' ++ free')) := by
  induction ms generalizing ms' taken free with
  | nil =>
    obtain ⟨rfl, rfl⟩ := Prod.mk.inj (Except.ok.inj h)
    exact hpacked
  | cons m ms ih =>
    obtain ⟨m', between, rest, hone, hall, rfl⟩ := placeAll_cons h
    obtain ⟨hm, hms⟩ := List.forall_mem_cons.mp hsize
    obtain ⟨hno, rfl, rfl⟩ | ⟨hplace, k, start, carved, padding, hcarve, rfl, rfl⟩ |
        ⟨-, -, -, rfl, rfl⟩ := placeOne_cases hone
    · rw [newExtents_cons_of_not_needsPlace hno]
      exact ih hms hall hpacked
    · have hcarved := carve_packed (hm hplace) (perm_sortRegions free) hcarve hpacked
      rw [newExtents_cons_of_needsPlace]
      swap
      · exact hplace
      refine (ih hms hall hcarved).perm ?_
      rw [List.cons_append, List.cons_append]
      exact List.perm_middle.symm
    · rw [newExtents_cons_of_not_needsPlace (by simp [MatchedPartition.NeedsPlace])]
      have hsorted : Packed lo hi (taken ++ sortRegions free) :=
        hpacked.perm ((perm_sortRegions free).symm.append_left taken)
      refine ih hms hall ?_
      rwa [retain_packed hsorted.append_right]

/-! ## Growing -/

theorem takeAt_some {start n : ℕ} {free' : List (ℕ × ℕ)} (h : takeAt start n free = some free') :
    ∃ before stop after, free = before ++ (start, stop) :: after ∧ n ≤ stop - start + 1 ∧
      free' = before ++ (start + n, stop) :: after := by
  induction free generalizing free' with
  | nil => cases h
  | cons r rest ih =>
    rw [takeAt] at h
    split at h
    · rename_i hfit
      obtain ⟨a, b⟩ := r
      obtain ⟨rfl, hn⟩ := hfit
      exact ⟨[], b, rest, rfl, hn, (Option.some.inj h).symm⟩
    · obtain ⟨rest', hrest, rfl⟩ := Option.map_eq_some_iff.mp h
      obtain ⟨before, stop, after, rfl, hn, rfl⟩ := ih hrest
      exact ⟨r :: before, stop, after, rfl, hn, rfl⟩

/-- A partition that grows takes the sectors behind it out of the free regions. -/
theorem takeAt_packed {a b n : ℕ} {free' : List (ℕ × ℕ)} (hn : 0 < n)
    (htake : takeAt (b + 1) n free = some free')
    (h : Packed lo hi ((a, b) :: (taken ++ free))) :
    Packed lo hi ((a, b + n) :: (taken ++ retain free')) := by
  obtain ⟨before, stop, after, rfl, hfit, rfl⟩ := takeAt_some htake
  have hsplit : Packed lo hi (before ++ (b + 1, stop) :: after) :=
    (h.sublist (List.sublist_cons_self _ _)).append_right
  obtain ⟨-, hab, -⟩ := hsplit.bounds (b + 1, stop) (by simp)
  have hfront : Packed lo hi ((b + 1, stop) :: (a, b) :: (taken ++ (before ++ after))) := by
    refine h.perm (List.Perm.trans (List.Perm.cons _ ?_) (List.Perm.swap _ _ _))
    exact (List.perm_middle.append_left taken).trans List.perm_middle
  have hinner : Packed (b + 1) stop
      ((b + 1, b + 1 + n - 1) :: retain [(b + 1 + n, stop)]) := by
    refine Packed.cons ?_ (Nat.le_refl _) (by omega) (by simp only at *; omega)
    exact retain_single (by omega)
  have hout := hfront.replace hinner
  have hend : b + 1 + n - 1 = b + n := by omega
  rw [hend] at hout
  have hjoin : Packed lo hi ((a, b) :: (b + 1, b + n) ::
      (retain [(b + 1 + n, stop)] ++ (taken ++ (before ++ after)))) := by
    refine hout.perm ?_
    rw [List.cons_append]
    exact (List.Perm.cons _ List.perm_middle).trans (List.Perm.swap _ _ _)
  rw [retain_split hsplit]
  refine hjoin.join.perm (List.Perm.cons _ ?_)
  exact (List.perm_append_comm_assoc _ taken _).trans
    ((List.perm_append_comm_assoc _ before after).append_left taken)

/-- What growing one partition does: nothing to one that is not grown, its new end, or its old
    extent again. -/
theorem growOne_cases (sectorSize : ℕ) (m : MatchedPartition) (free : List (ℕ × ℕ)) :
    ((m.isGrown = false ∨ m.existing = none) ∧ growOne sectorSize m free = (m, free)) ∨
    (∃ e n free', m.isGrown ∧ m.existing = some e ∧ 0 < n ∧
      takeAt (e.lastLba + 1) n free = some free' ∧
      growOne sectorSize m free =
        ({ m with startLba := e.firstLba, endLba := e.lastLba + n }, retain free')) ∨
    (∃ e allocated, m.existing = some e ∧ growOne sectorSize m free =
      ({ m with
          allocatedSize := allocated
          isGrown := false
          startLba := e.firstLba
          endLba := e.lastLba }, retain free)) := by
  obtain ⟨index, existing, allocated, padding, uuid, label, isNew, grown, start, stop, slot⟩ := m
  cases grown with
  | false => exact .inl ⟨.inl rfl, rfl⟩
  | true =>
    cases existing with
    | none => exact .inl ⟨.inr rfl, rfl⟩
    | some e =>
      rw [growOne]
      dsimp only
      split
      · rename_i hend
        split
        · rename_i free' htake
          have hadd : e.firstLba + allocated / sectorSize - 1 =
              e.lastLba + (e.firstLba + allocated / sectorSize - 1 - e.lastLba) := by omega
          refine .inr (.inl ⟨e, _, free', rfl, rfl, by omega, htake, ?_⟩)
          rw [← hadd]
        · exact .inr (.inr ⟨e, _, rfl, rfl⟩)
      · exact .inr (.inr ⟨e, allocated, rfl, rfl⟩)

/-- The existing partitions as they are written: those that did not grow, and the grown ones. -/
def oldParts (defs : List PartitionDefinition) (existing : List GptPartition)
    (ms : List MatchedPartition) : List GptPartition :=
  existing.filter (fun p => !isModified ms p) ++ ms.filterMap (grownPart defs)

theorem isModified_append (ms ms' : List MatchedPartition) (p : GptPartition) :
    isModified (ms ++ ms') p = (isModified ms p || isModified ms' p) := by
  rw [isModified, List.any_append, isModified, isModified]

/-- A partition that did not grow changes nothing. -/
theorem oldParts_append_of_not_grown {m : MatchedPartition} {ms : List MatchedPartition}
    (h : m.isGrown = false ∨ m.existing = none) :
    oldParts defs existing (ms ++ [m]) = oldParts defs existing ms := by
  have hpart : grownPart defs m = none := by
    rw [grownPart]
    rcases h with h | h <;> rw [h] <;> cases m.isNew <;> first | rfl | (cases m.isGrown <;> rfl)
  have hmod : ∀ p, isModified (ms ++ [m]) p = isModified ms p := fun p => by
    have hone : isModified [m] p = false := by
      rcases h with h | h <;> simp [isModified, isExisting, h]
    rw [isModified_append, hone, Bool.or_false]
  rw [oldParts, oldParts, List.filterMap_append, filterMap_single, hpart]
  simp only [hmod, Option.toList_none, List.append_nil]

theorem perm_cons_filter {e : GptPartition} {ps : List GptPartition}
    (hslots : (ps.map (·.slotIndex)).Nodup) (he : e ∈ ps) :
    ps.Perm (e :: ps.filter fun p => decide (p.slotIndex ≠ e.slotIndex)) := by
  have hnodup := List.Nodup.of_map _ hslots
  have hfilter : (ps.filter fun p => decide (p.slotIndex ≠ e.slotIndex)) = ps.erase e := by
    rw [hnodup.erase_eq_filter]
    apply List.filter_congr
    intro p hp
    have hinj := List.inj_on_of_nodup_map hslots hp he
    by_cases heq : p = e
    · simp [heq]
    · have hne : p.slotIndex ≠ e.slotIndex := fun hslot => heq (hinj hslot)
      simp [heq, hne]
  rw [hfilter]
  exact List.perm_cons_erase he

/-- A partition that grew is written in the place of the one it was. -/
theorem oldParts_append_of_grown (defs : List PartitionDefinition) {m : MatchedPartition}
    {ms : List MatchedPartition} {e : GptPartition} (hslots : (existing.map (·.slotIndex)).Nodup)
    (hms : Matches existing (ms ++ [m])) (hgrown : m.isGrown) (he : m.existing = some e) :
    ∃ rest p, (oldParts defs existing ms).Perm (e :: rest) ∧
      (oldParts defs existing (ms ++ [m])).Perm (p :: rest) ∧ p.slotIndex = e.slotIndex ∧
      p.firstLba = e.firstLba ∧ p.lastLba = m.endLba := by
  have hm : m ∈ ms ++ [m] := List.mem_append_right ms (List.mem_singleton_self m)
  have hnew : m.isNew = false := by
    by_contra hnew
    have hnone := hms.isNew m hm (by simpa using hnew)
    rw [he] at hnone
    cases hnone
  have hmem : e ∈ existing := hms.mem m hm e he
  have hpart : grownPart defs m = some
      { e with
        lastLba := m.endLba
        attributes := (definition defs m).effectiveFlags
        name := m.assignedLabel } := by
    rw [grownPart, hnew, hgrown, he]
  have hfresh : ∀ m₀ ∈ ms, m₀.existing ≠ some e := fun m₀ hm₀ he₀ => by
    have hnodup := hms.nodup
    rw [List.filterMap_append, filterMap_single, he] at hnodup
    exact (List.nodup_append.mp hnodup).2.2 e (List.mem_filterMap.mpr ⟨m₀, hm₀, he₀⟩) e
      (by simp) rfl
  have hunmodified : isModified ms e = false := by
    rw [isModified, List.any_eq_false]
    intro m₀ hm₀ htrue
    rw [Bool.and_eq_true, Bool.and_eq_true] at htrue
    obtain ⟨e', he', hslot⟩ := Option.map_eq_some_iff.mp (of_decide_eq_true htrue.1.2)
    have he₀ := hms.mem m₀ (List.mem_append_left _ hm₀) e' he'
    exact hfresh m₀ hm₀ (List.inj_on_of_nodup_map hslots he₀ hmem hslot ▸ he')
  have hmod : ∀ p, isModified (ms ++ [m]) p =
      (isModified ms p || decide (p.slotIndex = e.slotIndex)) := fun p => by
    have hone : isModified [m] p = decide (p.slotIndex = e.slotIndex) := by
      simp [isModified, isExisting, hnew, he, hgrown, eq_comm]
    rw [isModified_append, hone]
  have hkept : e ∈ existing.filter fun p => !isModified ms p :=
    List.mem_filter.mpr ⟨hmem, by rw [hunmodified]; rfl⟩
  have hkeptslots : ((existing.filter fun p => !isModified ms p).map (·.slotIndex)).Nodup :=
    hslots.sublist (List.filter_sublist.map _)
  have hfilter : existing.filter (fun p => !isModified (ms ++ [m]) p) =
      (existing.filter fun p => !isModified ms p).filter
        fun p => decide (p.slotIndex ≠ e.slotIndex) := by
    rw [List.filter_filter]
    apply List.filter_congr
    intro p _
    rw [hmod, Bool.not_or, Bool.and_comm, decide_not]
  refine ⟨((existing.filter fun p => !isModified ms p).filter
    fun p => decide (p.slotIndex ≠ e.slotIndex)) ++ ms.filterMap (grownPart defs),
    { e with
      lastLba := m.endLba
      attributes := (definition defs m).effectiveFlags
      name := m.assignedLabel }, ?_, ?_, rfl, rfl, rfl⟩
  · rw [oldParts, ← List.cons_append]
    exact (perm_cons_filter hkeptslots hkept).append_right _
  · rw [oldParts, hfilter, List.filterMap_append, filterMap_single, hpart, ← List.append_assoc]
    exact List.perm_append_singleton _ _

/-- What growing keeps: the written partitions are apart from the new ones and from what is free,
    every existing one has its slot, and none has moved or shrunk. -/
structure GrowInv (defs : List PartitionDefinition) (existing : List GptPartition) (lo hi : ℕ)
    (news free : List (ℕ × ℕ)) (ms : List MatchedPartition) : Prop where
  packed : Packed lo hi
    ((oldParts defs existing ms).map GptPartition.extent ++ (news ++ free))
  slots : ((oldParts defs existing ms).map (·.slotIndex)).Perm (existing.map (·.slotIndex))
  kept : ∀ e ∈ existing, ∃ p ∈ oldParts defs existing ms, p.slotIndex = e.slotIndex ∧
    p.firstLba = e.firstLba ∧ e.lastLba ≤ p.lastLba

theorem GrowInv.of_not_grown {news : List (ℕ × ℕ)} {m : MatchedPartition}
    {ms : List MatchedPartition} (h : GrowInv defs existing lo hi news free ms)
    (hm : m.isGrown = false ∨ m.existing = none) :
    GrowInv defs existing lo hi news (retain free) (ms ++ [m]) := by
  have hfree : retain free = free := retain_packed h.packed.append_right.append_right
  have hold : oldParts defs existing (ms ++ [m]) = oldParts defs existing ms :=
    oldParts_append_of_not_grown hm
  constructor
  · rw [hold, hfree]
    exact h.packed
  · rw [hold]
    exact h.slots
  · rw [hold]
    exact h.kept

theorem GrowInv.of_grown {news free' : List (ℕ × ℕ)} {m : MatchedPartition}
    {ms : List MatchedPartition} {e : GptPartition} {n : ℕ}
    (h : GrowInv defs existing lo hi news free ms)
    (hslots : (existing.map (·.slotIndex)).Nodup) (hms : Matches existing (ms ++ [m]))
    (hgrown : m.isGrown) (he : m.existing = some e) (hn : 0 < n)
    (htake : takeAt (e.lastLba + 1) n free = some free') (hend : m.endLba = e.lastLba + n) :
    GrowInv defs existing lo hi news (retain free') (ms ++ [m]) := by
  obtain ⟨rest, p, hold, hnew, hslot, hfirst, hlast⟩ :=
    oldParts_append_of_grown defs hslots hms hgrown he
  constructor
  · have hpacked : Packed lo hi ((e.firstLba, e.lastLba) ::
        ((rest.map GptPartition.extent ++ news) ++ free)) := by
      refine h.packed.perm ?_
      rw [List.append_assoc, ← List.cons_append]
      exact (hold.map GptPartition.extent).append_right _
    have hgrow := takeAt_packed hn htake hpacked
    have hextent : p.extent = (e.firstLba, e.lastLba + n) := by
      rw [GptPartition.extent, hfirst, hlast, hend]
    refine hgrow.perm ?_
    rw [List.append_assoc, ← List.cons_append, ← hextent]
    exact (hnew.map GptPartition.extent).symm.append_right _
  · refine ((hnew.map (·.slotIndex)).trans ?_).trans h.slots
    rw [List.map_cons, hslot, ← List.map_cons]
    exact (hold.map (·.slotIndex)).symm
  · intro e₀ he₀
    obtain ⟨q, hq, hq₁, hq₂, hq₃⟩ := h.kept e₀ he₀
    rcases List.mem_cons.mp (hold.mem_iff.mp hq) with rfl | hq
    · refine ⟨p, hnew.mem_iff.mpr List.mem_cons_self, hslot.trans hq₁, hfirst.trans hq₂, ?_⟩
      omega
    · exact ⟨q, hnew.mem_iff.mpr (List.mem_cons_of_mem p hq), hq₁, hq₂, hq₃⟩

/-! ## Whole runs -/

/-- What every step keeps of a matched partition; an optional one may be dropped. -/
structure Frame (m m' : MatchedPartition) : Prop where
  existing : m'.existing = m.existing
  definitionIndex : m'.definitionIndex = m.definitionIndex
  isNew : m'.isNew → m.isNew

/-- What the layout keeps. -/
structure LayoutFrame (m m' : MatchedPartition) : Prop extends Frame m m' where
  slotIndex : m'.slotIndex = m.slotIndex

theorem Frame.refl (m : MatchedPartition) : Frame m m := ⟨rfl, rfl, id⟩

theorem placeOne_frame {m m' : MatchedPartition} {free' : List (ℕ × ℕ)}
    (h : placeOne defs sectorSize m free = .ok (m', free')) : LayoutFrame m m' := by
  obtain ⟨-, rfl, -⟩ | ⟨-, _, _, _, _, -, rfl, -⟩ | ⟨-, -, -, rfl, -⟩ := placeOne_cases h
  · exact ⟨Frame.refl _, rfl⟩
  · exact ⟨⟨rfl, rfl, id⟩, rfl⟩
  · exact ⟨⟨rfl, rfl, fun h => absurd h Bool.false_ne_true⟩, rfl⟩

theorem placeAll_frame {ms ms' : List MatchedPartition} {free' : List (ℕ × ℕ)}
    (h : placeAll defs sectorSize ms free = .ok (ms', free')) :
    List.Forall₂ LayoutFrame ms ms' := by
  induction ms generalizing ms' free with
  | nil =>
    obtain ⟨rfl, rfl⟩ := Prod.mk.inj (Except.ok.inj h)
    exact List.Forall₂.nil
  | cons m ms ih =>
    obtain ⟨m', between, rest, hone, hall, rfl⟩ := placeAll_cons h
    exact List.Forall₂.cons (placeOne_frame hone) (ih hall)

theorem growOne_frame (sectorSize : ℕ) (m : MatchedPartition) (free : List (ℕ × ℕ)) :
    LayoutFrame m (growOne sectorSize m free).1 := by
  obtain ⟨-, heq⟩ | ⟨_, _, _, -, -, -, -, heq⟩ | ⟨_, _, -, heq⟩ :=
    growOne_cases sectorSize m free
  all_goals
    rw [heq]
    exact ⟨⟨rfl, rfl, id⟩, rfl⟩

theorem growAll_frame (ms : List MatchedPartition) (free : List (ℕ × ℕ)) :
    List.Forall₂ LayoutFrame ms (growAll sectorSize ms free).1 := by
  induction ms generalizing free with
  | nil => exact List.Forall₂.nil
  | cons m ms ih => exact List.Forall₂.cons (growOne_frame sectorSize m free) (ih _)

/-- A partition that is matched to nothing does not grow. -/
theorem growOne_of_none {m : MatchedPartition} (h : m.existing = none) (free : List (ℕ × ℕ)) :
    growOne sectorSize m free = (m, free) := by
  obtain ⟨-, heq⟩ | ⟨e, _, _, -, he, -⟩ | ⟨e, _, he, -⟩ :=
    growOne_cases sectorSize m free
  · exact heq
  · rw [h] at he
    cases he
  · rw [h] at he
    cases he

theorem growAll_new (sectorSize : ℕ) (ms : List MatchedPartition) (free : List (ℕ × ℕ)) :
    List.Forall₂ (fun m m' => m.existing = none → m' = m) ms (growAll sectorSize ms free).1 := by
  induction ms generalizing free with
  | nil => exact List.Forall₂.nil
  | cons m ms ih =>
    refine List.Forall₂.cons (fun hnone => ?_) (ih _)
    exact congrArg Prod.fst (growOne_of_none hnone free)

theorem applySizes_frame {uuidOf : String → ℕ → String} (used : List ℕ) (types : List String)
    (ms : List MatchedPartition) (ss : List (ℕ × ℕ)) :
    List.Forall₂ Frame ms (applySizes defs sectorSize uuidOf used types ms ss) := by
  induction ms generalizing used types ss with
  | nil =>
    rw [applySizes]
    · exact List.Forall₂.nil
    · simp
  | cons m ms ih =>
    cases ss with
    | nil => exact List.forall₂_same.mpr fun m _ => Frame.refl m
    | cons size ss =>
      rw [applySizes_cons]
      obtain ⟨hnew, hexisting, hindex⟩ := applySize_frame defs sectorSize uuidOf used
        (types.count (definition defs m).typeUuid) m size
      exact List.Forall₂.cons ⟨hexisting, hindex, fun h => hnew ▸ h⟩ (ih _ _ _)

theorem map_existing_of_frame {ms ms' : List MatchedPartition} (h : List.Forall₂ Frame ms ms') :
    ms'.map (·.existing) = ms.map (·.existing) := by
  induction h with
  | nil => rfl
  | cons hone _ ih => rw [List.map_cons, List.map_cons, hone.existing, ih]

/-- A partition in the result comes from one at the same place. -/
theorem mem_of_frame {ms ms' : List MatchedPartition} (h : List.Forall₂ Frame ms ms')
    {m' : MatchedPartition} (hm' : m' ∈ ms') : ∃ m ∈ ms, Frame m m' := by
  induction h with
  | nil => exact absurd hm' List.not_mem_nil
  | cons hone _ ih =>
    rcases List.mem_cons.mp hm' with rfl | hm'
    · exact ⟨_, List.mem_cons_self, hone⟩
    · obtain ⟨m, hm, hframe⟩ := ih hm'
      exact ⟨m, List.mem_cons_of_mem _ hm, hframe⟩

theorem Matches.of_frame {ms ms' : List MatchedPartition} (h : Matches existing ms)
    (hframe : List.Forall₂ Frame ms ms') : Matches existing ms' := by
  constructor
  · intro m' hm' hnew
    obtain ⟨m, hm, hone⟩ := mem_of_frame hframe hm'
    rw [hone.existing]
    exact h.isNew m hm (hone.isNew hnew)
  · intro m' hm' e he
    obtain ⟨m, hm, hone⟩ := mem_of_frame hframe hm'
    exact h.mem m hm e (hone.existing ▸ he)
  · have hmap : ∀ l : List MatchedPartition,
        l.filterMap (·.existing) = (l.map (·.existing)).filterMap id := fun l => by
      rw [List.filterMap_map]
      rfl
    rw [hmap, map_existing_of_frame hframe, ← hmap]
    exact h.nodup

theorem newSlots_of_frame {ms ms' : List MatchedPartition}
    (h : List.Forall₂ LayoutFrame ms ms') :
    (newSlots ms').Sublist (newSlots ms) := by
  induction h with
  | nil => exact List.Sublist.refl _
  | @cons m m' ms ms' hone _ ih =>
    cases hnew : m.isNew with
    | true =>
      rw [newSlots_cons_of_isNew hnew]
      cases hnew' : m'.isNew with
      | true =>
        rw [newSlots_cons_of_isNew hnew', hone.slotIndex]
        exact ih.cons_cons _
      | false =>
        rw [newSlots_cons_of_not_isNew hnew']
        exact ih.cons _
    | false =>
      have hnew' : m'.isNew = false := by
        by_contra hno
        rw [hone.isNew (by simpa using hno)] at hnew
        cases hnew
      rw [newSlots_cons_of_not_isNew hnew, newSlots_cons_of_not_isNew hnew']
      exact ih

/-- Growing one partition keeps the invariant. -/
theorem GrowInv.growOne {news : List (ℕ × ℕ)} {m : MatchedPartition}
    {ms : List MatchedPartition} (h : GrowInv defs existing lo hi news free ms)
    (hslots : (existing.map (·.slotIndex)).Nodup)
    (hms : Matches existing (ms ++ [(growOne sectorSize m free).1])) :
    GrowInv defs existing lo hi news (growOne sectorSize m free).2
      (ms ++ [(growOne sectorSize m free).1]) := by
  obtain ⟨hm, heq⟩ | ⟨e, n, free', hgrown, he, hn, htake, heq⟩ | ⟨e, allocated, he, heq⟩ :=
    growOne_cases sectorSize m free
  · rw [heq]
    have hsame := h.of_not_grown hm
    rwa [retain_packed h.packed.append_right.append_right] at hsame
  · rw [heq] at hms ⊢
    exact h.of_grown hslots hms hgrown he hn htake rfl
  · rw [heq]
    exact h.of_not_grown (.inl rfl)

/-- Growing all of them does. -/
theorem GrowInv.growAll {news : List (ℕ × ℕ)} {done ms : List MatchedPartition}
    (h : GrowInv defs existing lo hi news free done)
    (hslots : (existing.map (·.slotIndex)).Nodup) (hms : Matches existing (done ++ ms)) :
    GrowInv defs existing lo hi news (growAll sectorSize ms free).2
      (done ++ (growAll sectorSize ms free).1) := by
  induction ms generalizing done free with
  | nil =>
    rw [Repart.growAll, List.append_nil]
    exact h
  | cons m ms ih =>
    have hframe : ∀ ms' : List MatchedPartition, List.Forall₂ Frame ms' ms' := fun ms' =>
      List.forall₂_same.mpr fun m _ => Frame.refl m
    have hnext : Matches existing (done ++ [(Repart.growOne sectorSize m free).1] ++ ms) := by
      refine hms.of_frame ?_
      rw [List.append_assoc]
      exact List.rel_append (hframe done)
        (List.Forall₂.cons (growOne_frame sectorSize m free).toFrame (hframe ms))
    have hone : Matches existing (done ++ [(Repart.growOne sectorSize m free).1]) :=
      ⟨fun m hm => hnext.isNew m (List.mem_append_left _ hm),
        fun m hm => hnext.mem m (List.mem_append_left _ hm),
        hnext.nodup.sublist ((List.sublist_append_left _ _).filterMap _)⟩
    have hrest := ih (h.growOne hslots hone) hnext
    rwa [List.append_assoc, List.singleton_append] at hrest

/-- A partition that is new when it has its size is one of those before it, with a size that is
    rounded to the grain. -/
theorem applySizes_needsPlace {uuidOf : String → ℕ → String} {used : List ℕ}
    {types : List String} {ms : List MatchedPartition} {ss : List (ℕ × ℕ)}
    (hlen : ms.length ≤ ss.length) :
    ∀ m ∈ applySizes defs sectorSize uuidOf used types ms ss, m.isNew →
      ∃ size, m.allocatedSize = alignDown size (grain sectorSize) := by
  induction ms generalizing used types ss with
  | nil =>
    rw [applySizes]
    · exact fun m hm => absurd hm List.not_mem_nil
    · simp
  | cons m ms ih =>
    cases ss with
    | nil => simp at hlen
    | cons size ss =>
      rw [applySizes_cons]
      refine List.forall_mem_cons.mpr ⟨fun hnew => ?_, ih (by simpa using hlen)⟩
      rw [(applySize_frame _ _ _ _ _ m size).1] at hnew
      rw [applySize_of_isNew hnew]
      exact ⟨size.1, rfl⟩

theorem sectors_pos {size sectorSize : ℕ} (hsector : 0 < sectorSize)
    (h : alignDown size (grain sectorSize) ≠ 0) :
    0 < alignDown size (grain sectorSize) / sectorSize := by
  have hgrain : sectorSize ≤ grain sectorSize := Nat.le_max_right 4096 sectorSize
  have hpos : grain sectorSize ≠ 0 := by omega
  rw [alignDown, if_neg hpos] at h ⊢
  have hquot : 0 < size / grain sectorSize := Nat.pos_of_ne_zero fun h0 => h (by rw [h0]; simp)
  refine Nat.div_pos (Nat.le_trans hgrain ?_) hsector
  exact Nat.le_mul_of_pos_left _ hquot

theorem newExtents_growAll {ms : List MatchedPartition}
    (hnew : ∀ m ∈ ms, m.isNew → m.existing = none) (free : List (ℕ × ℕ)) :
    newExtents (growAll sectorSize ms free).1 = newExtents ms := by
  induction ms generalizing free with
  | nil => rfl
  | cons m ms ih =>
    obtain ⟨hm, hms⟩ := List.forall_mem_cons.mp hnew
    rw [growAll]
    by_cases hplace : m.NeedsPlace
    · rw [growOne_of_none (hm hplace.1)]
      dsimp only
      rw [newExtents_cons_of_needsPlace hplace, newExtents_cons_of_needsPlace hplace, ih hms]
    · have hplace' : ¬ (growOne sectorSize m free).1.NeedsPlace := fun hneeds => by
        have hnew' := (growOne_frame sectorSize m free).isNew hneeds.1
        rw [growOne_of_none (hm hnew')] at hneeds
        exact hplace hneeds
      dsimp only
      rw [newExtents_cons_of_not_needsPlace hplace, newExtents_cons_of_not_needsPlace hplace',
        ih hms]

/-- What a successful allocation consists of. -/
theorem allocateSpace_ok {uuidOf : String → ℕ → String} {matched ms : List MatchedPartition}
    {first last : ℕ}
    (h : allocateSpace defs sectorSize uuidOf matched first last existing = .ok ms) :
    ∃ placed free, placeAll defs sectorSize
        (planned defs sectorSize uuidOf existing matched first last)
        (findFreeRegions existing first last) = .ok (placed, free) ∧
      ms = (growAll sectorSize placed free).1 := by
  rw [allocateSpace] at h
  cases hcheck : checkMinimums defs sectorSize matched
      (((findFreeRegions existing first last).map regionSectors).sum * sectorSize) with
  | error e =>
    simp only [bind, Except.bind, hcheck] at h
    cases h
  | ok _ =>
    cases hplace : placeAll defs sectorSize
        (planned defs sectorSize uuidOf existing matched first last)
        (findFreeRegions existing first last) with
    | error e =>
      simp only [bind, Except.bind, hcheck, hplace] at h
      cases h
    | ok r =>
      simp only [bind, Except.bind, hcheck, hplace] at h
      exact ⟨r.1, r.2, rfl, (Except.ok.inj h).symm⟩

/-- A partition table inside the usable range. -/
structure ValidTable (parts : List GptPartition) (first last : ℕ) : Prop where
  packed : Packed first last (parts.map GptPartition.extent)
  slots : (parts.map (·.slotIndex)).Nodup

theorem planned_frame (defs : List PartitionDefinition) (sectorSize : ℕ)
    (uuidOf : String → ℕ → String) (existing : List GptPartition)
    (matched : List MatchedPartition) (first last : ℕ) :
    List.Forall₂ Frame matched
      (planned defs sectorSize uuidOf existing matched first last) := by
  rw [planned]
  exact applySizes_frame _ _ _ _

theorem layout_frame {ms placed : List MatchedPartition} {free' : List (ℕ × ℕ)}
    (h : placeAll defs sectorSize ms free = .ok (placed, free')) :
    List.Forall₂ Frame ms placed ∧
      List.Forall₂ Frame placed (growAll sectorSize placed free').1 :=
  ⟨(placeAll_frame h).imp fun _ _ hm => hm.toFrame,
    (growAll_frame placed free').imp fun _ _ hm => hm.toFrame⟩

/-- The written partitions behind a successful allocation: the old ones and the new ones are a
    valid table, and no old one has moved or shrunk. -/
theorem allocateSpace_growInv {uuidOf : String → ℕ → String} {first last : ℕ}
    {ms : List MatchedPartition} (hsector : 0 < sectorSize)
    (htable : ValidTable existing first last)
    (h : allocateSpace defs sectorSize uuidOf (matchPartitions defs existing) first last existing =
      .ok ms) :
    ∃ free, GrowInv defs existing first last (newExtents ms) free ms ∧
      (newSlots ms).Nodup ∧ ∀ slot ∈ newSlots ms, slot ∉ existing.map (·.slotIndex) := by
  obtain ⟨placed, free, hplace, rfl⟩ := allocateSpace_ok h
  have hmatches := matchPartitions_matches (List.Nodup.of_map _ htable.slots) defs
  have hplanned := hmatches.of_frame (planned_frame defs sectorSize uuidOf existing
    (matchPartitions defs existing) first last)
  obtain ⟨hframe, hframe'⟩ := layout_frame hplace
  have hplaced := hplanned.of_frame hframe
  have hlen : (matchPartitions defs existing).length ≤
      (sizes defs sectorSize (matchPartitions defs existing)
        (findFreeAreas existing first last) (assignment defs sectorSize
          (matchPartitions defs existing) (findFreeAreas existing first last))).length :=
    Nat.le_of_eq (length_sizes _ _).symm
  have hsize : ∀ m ∈ planned defs sectorSize uuidOf existing (matchPartitions defs existing)
      first last, m.NeedsPlace → 0 < m.allocatedSize / sectorSize := fun m hm hneeds => by
    obtain ⟨size, hsize⟩ := applySizes_needsPlace hlen m hm hneeds.1
    rw [hsize]
    exact sectors_pos hsector (hsize ▸ hneeds.2)
  have hpacked := placeAll_packed hsize hplace (findFreeRegions_packed htable.packed)
  have hstart : GrowInv defs existing first last (newExtents placed) free [] := by
    have hold : oldParts defs existing [] = existing := by
      simp [oldParts, isModified]
    exact ⟨by rwa [hold], by rw [hold], fun e he => ⟨e, by rwa [hold], rfl, rfl, Nat.le_refl _⟩⟩
  refine ⟨(growAll sectorSize placed free).2, ?_, ?_⟩
  · rw [newExtents_growAll hplaced.isNew]
    exact hstart.growAll htable.slots hplaced
  · have hslots := applySizes_slots defs sectorSize uuidOf (existing.map (·.slotIndex)) [] hlen
    have hsub : (newSlots (growAll sectorSize placed free).1).Sublist (newSlots (planned defs
        sectorSize uuidOf existing (matchPartitions defs existing) first last)) :=
      (newSlots_of_frame (growAll_frame placed free)).trans
        (newSlots_of_frame (placeAll_frame hplace))
    exact ⟨hslots.1.sublist hsub, fun slot hslot => hslots.2 slot (hsub.subset hslot)⟩

/-! ## What is written -/

variable {deferred : String → Bool}

theorem newPart_eq {m : MatchedPartition} {p : GptPartition}
    (h : newPart defs deferred m = some p) :
    m.NeedsPlace ∧ p.extent = (m.startLba, m.endLba) ∧ p.slotIndex = m.slotIndex := by
  rw [newPart] at h
  split at h
  · rename_i hnew
    rw [← Option.some.inj h]
    exact ⟨⟨hnew.1, Nat.ne_of_gt hnew.2.1⟩, rfl, rfl⟩
  · cases h

theorem newParts_extents (ms : List MatchedPartition) :
    ((ms.filterMap (newPart defs deferred)).map GptPartition.extent).Sublist (newExtents ms) := by
  induction ms with
  | nil => exact List.Sublist.refl _
  | cons m ms ih =>
    cases hpart : newPart defs deferred m with
    | none =>
      rw [List.filterMap_cons_none hpart]
      refine ih.trans ?_
      by_cases hplace : m.NeedsPlace
      · rw [newExtents_cons_of_needsPlace hplace]
        exact List.sublist_cons_self _ _
      · rw [newExtents_cons_of_not_needsPlace hplace]
    | some p =>
      obtain ⟨hplace, hextent, -⟩ := newPart_eq hpart
      rw [List.filterMap_cons_some hpart, List.map_cons, hextent,
        newExtents_cons_of_needsPlace hplace]
      exact ih.cons_cons _

theorem newParts_slots (ms : List MatchedPartition) :
    ((ms.filterMap (newPart defs deferred)).map (·.slotIndex)).Sublist (newSlots ms) := by
  induction ms with
  | nil => exact List.Sublist.refl _
  | cons m ms ih =>
    cases hpart : newPart defs deferred m with
    | none =>
      rw [List.filterMap_cons_none hpart]
      refine ih.trans ?_
      cases hnew : m.isNew with
      | true =>
        rw [newSlots_cons_of_isNew hnew]
        exact List.sublist_cons_self _ _
      | false => rw [newSlots_cons_of_not_isNew hnew]
    | some p =>
      obtain ⟨hplace, -, hslot⟩ := newPart_eq hpart
      rw [List.filterMap_cons_some hpart, List.map_cons, hslot, newSlots_cons_of_isNew hplace.1]
      exact ih.cons_cons _

theorem finalPartitions_eq (ms : List MatchedPartition) :
    finalPartitions defs deferred existing ms =
      oldParts defs existing ms ++ ms.filterMap (newPart defs deferred) := by
  rw [finalPartitions, oldParts, List.append_assoc]

/-- The partitions that are written are a valid table again. -/
theorem finalPartitions_valid {uuidOf : String → ℕ → String} {first last : ℕ}
    {ms : List MatchedPartition} (hsector : 0 < sectorSize)
    (htable : ValidTable existing first last)
    (h : allocateSpace defs sectorSize uuidOf (matchPartitions defs existing) first last existing =
      .ok ms) (deferred : String → Bool) :
    ValidTable (finalPartitions defs deferred existing ms) first last := by
  obtain ⟨free, hinv, hslots, hfresh⟩ := allocateSpace_growInv hsector htable h
  rw [finalPartitions_eq]
  constructor
  · rw [List.map_append]
    refine hinv.packed.sublist ((List.Sublist.refl _).append ?_)
    exact (newParts_extents ms).trans (List.sublist_append_left _ _)
  · rw [List.map_append]
    have hold : ((oldParts defs existing ms).map (·.slotIndex)).Nodup :=
      hinv.slots.nodup_iff.mpr htable.slots
    refine List.nodup_append.mpr ⟨hold, hslots.sublist (newParts_slots ms), ?_⟩
    rintro a ha b hb rfl
    exact hfresh a ((newParts_slots ms).subset hb) (hinv.slots.mem_iff.mp ha)

/-- Repartitioning never overlaps data: if it succeeds on a valid table, the partitions that it
    writes are a valid table, in which every existing one starts where it did and ends no
    earlier. -/
theorem allocateSpace_safe {defs : List PartitionDefinition} {existing : List GptPartition}
    {sectorSize : SectorSize} {uuidOf : String → ℕ → String} {first last : ℕ}
    {ms : List MatchedPartition} (htable : ValidTable existing first last)
    (h : allocateSpace defs sectorSize.bytes uuidOf (matchPartitions defs existing) first last
      existing = .ok ms) (deferred : String → Bool) :
    ValidTable (finalPartitions defs deferred existing ms) first last ∧
      ∀ e ∈ existing, ∃ p ∈ finalPartitions defs deferred existing ms,
        p.slotIndex = e.slotIndex ∧ p.firstLba = e.firstLba ∧ e.lastLba ≤ p.lastLba := by
  have hsector : 0 < sectorSize.bytes := Nat.lt_of_lt_of_le (by decide) sectorSize.le_bytes
  refine ⟨finalPartitions_valid hsector htable h deferred, fun e he => ?_⟩
  obtain ⟨_, hinv, -, -⟩ := allocateSpace_growInv hsector htable h
  obtain ⟨p, hp, hkept⟩ := hinv.kept e he
  rw [finalPartitions_eq]
  exact ⟨p, List.mem_append_left _ hp, hkept⟩

/-- A definition with nothing but a type and bounds of its size. -/
def plainDefinition (typeUuid : String) (priority : ℤ) (sizeMin sizeMax : ℕ) :
    PartitionDefinition :=
  { filename := typeUuid ++ ".conf"
    typeUuid := typeUuid
    label := none
    derivedLabel := typeUuid
    uuid := none
    priority := priority
    weight := 1000
    paddingWeight := 0
    sizeMin := sizeMin
    sizeMax := sizeMax
    paddingMin := 0
    paddingMax := 2 ^ 64 - 1
    effectiveFlags := 0 }

/-- A partition as a table holds it. -/
def plainPartition (typeGuid : String) (firstLba lastLba slotIndex : ℕ) : GptPartition :=
  { typeGuid := typeGuid
    uniqueGuid := ""
    firstLba := firstLba
    lastLba := lastLba
    attributes := 0
    name := typeGuid
    slotIndex := slotIndex }

instance (parts : List GptPartition) (first last : ℕ) : Decidable (ValidTable parts first last) :=
  decidable_of_iff (Packed first last (parts.map GptPartition.extent) ∧
    (parts.map (·.slotIndex)).Nodup) ⟨fun h => ⟨h.1, h.2⟩, fun h => ⟨h.packed, h.slots⟩⟩

/-- A partition that grows from two sectors to five, and a new one that only fits behind the
    other existing one. -/
def growingDefs : List PartitionDefinition :=
  [plainDefinition "root" 0 4096 20480, plainDefinition "home" 0 49152 49152]

def growingTable : List GptPartition :=
  [plainPartition "root" 8 9 0, plainPartition "swap" 20 21 1]

theorem allocateSpace_safe_growing : ∃ ms,
    allocateSpace growingDefs sector4096.bytes (fun _ _ => "")
      (matchPartitions growingDefs growingTable) 8 40 growingTable = .ok ms ∧
    ValidTable (finalPartitions growingDefs (fun _ => false) growingTable ms) 8 40 := by
  have hok : (allocateSpace growingDefs sector4096.bytes (fun _ _ => "")
      (matchPartitions growingDefs growingTable) 8 40 growingTable).toBool = true := by
    decide
  cases hrun : allocateSpace growingDefs sector4096.bytes (fun _ _ => "")
      (matchPartitions growingDefs growingTable) 8 40 growingTable with
  | error e =>
    rw [hrun] at hok
    cases hok
  | ok ms =>
    exact ⟨ms, rfl, (allocateSpace_safe (by decide) hrun fun _ => false).1⟩

end OxidizedSystemd.Repart

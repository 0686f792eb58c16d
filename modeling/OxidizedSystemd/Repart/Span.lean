import OxidizedSystemd.Lib.Shares
import OxidizedSystemd.Repart.GrowClaims

/-!
# The span is not overdrawn

`grow_claims` hands out no more than the span that it is given, or what the minimums take when
they take more.

* `growPass_minimums`: a pass that settles claims at their minimums keeps the others paid for.
* `growPass_shared`: so does one that settles them within their shares.
* `growClaims_sum_le_of_roundsUp`: all sizes together fit, if rounding up takes no less than a size.
* `growClaims_sum_le`: so they do if the words are large enough.
-/

namespace OxidizedSystemd.Repart

open OxidizedSystemd.Lib

/-! ## What is settled, and what is not -/

/-- The claims that are not settled. -/
def openClaims (ps : List (SpanClaim × Option ℕ)) : List SpanClaim :=
  ps.filterMap fun p => if p.2.isNone then some p.1 else none

/-- The sizes that are settled, together. -/
def settledSum (ps : List (SpanClaim × Option ℕ)) : ℕ := (ps.map fun p => p.2.getD 0).sum

/-- The weights of claims, together. -/
def weights (cs : List SpanClaim) : ℕ := (cs.map (·.weight)).sum

/-- Their minimums. -/
def minimums (cs : List SpanClaim) : ℕ := (cs.map (·.min)).sum

variable {grain : ℕ} {phase : Phase} {ps : List (SpanClaim × Option ℕ)} {c : SpanClaim}
  {cs : List SpanClaim} {span W v R : ℕ}

@[simp]
theorem openClaims_cons_none (c : SpanClaim) :
    openClaims ((c, none) :: ps) = c :: openClaims ps := rfl

@[simp]
theorem settledSum_cons (c : SpanClaim) (size : Option ℕ) :
    settledSum ((c, size) :: ps) = size.getD 0 + settledSum ps := rfl

@[simp]
theorem weights_cons (c : SpanClaim) : weights (c :: cs) = c.weight + weights cs := rfl

@[simp]
theorem minimums_cons (c : SpanClaim) : minimums (c :: cs) = c.min + minimums cs := rfl

theorem weights_append (cs cs' : List SpanClaim) :
    weights (cs ++ cs') = weights cs + weights cs' := by
  rw [weights, List.map_append, List.sum_append, weights, weights]

/-- Rounding up takes no less, unless it wraps. -/
theorem le_alignUp {val align : ℕ} (h : val + align ≤ 2 ^ 64) : val ≤ alignUp val align := by
  rw [alignUp]
  split
  · exact Nat.le_refl val
  · rename_i halign
    have hlt := Nat.lt_div_mul_add (a := val + align - 1) (Nat.pos_of_ne_zero halign)
    have hle := Nat.div_mul_le_self (val + align - 1) align
    rw [Nat.mod_eq_of_lt (by omega)]
    omega

theorem alignDown_le (val align : ℕ) : alignDown val align ≤ val := by
  rw [alignDown]
  split
  · exact Nat.le_refl val
  · exact Nat.div_mul_le_self val align

/-- Of what a claim is assigned within `R`, rounding up takes no less. -/
structure RoundsUp (grain R : ℕ) (c : SpanClaim) : Prop where
  min : c.min ≤ R → c.min ≤ alignUp c.min grain
  share : ∀ phase share size, assigned grain phase c share = some size → share ≤ R → size ≤ R →
    size ≤ alignUp size grain

theorem RoundsUp.mono {R' : ℕ} (h : RoundsUp grain R c) (hle : R' ≤ R) : RoundsUp grain R' c :=
  ⟨fun hmin => h.min (hmin.trans hle), fun phase share size hsize hshare hfit =>
    h.share phase share size hsize (hshare.trans hle) (hfit.trans hle)⟩

theorem roundsUp_of_words (c : SpanClaim) (hwords : R + grain ≤ 2 ^ 64) : RoundsUp grain R c :=
  ⟨fun hmin => le_alignUp (by omega), fun _ _ _ _ _ hfit => le_alignUp (by omega)⟩

/-! ## Passes -/

theorem growPass_weightSum (grain : ℕ) (phase : Phase) (span : ℕ) {Y : ℕ}
    (hW : W = Y + weights (openClaims ps)) :
    (growPass grain phase ps span W).1.weightSum =
      Y + weights (openClaims (growPass grain phase ps span W).1.sizes) := by
  induction ps generalizing span W Y with
  | nil => exact hW
  | cons p ps ih =>
    obtain ⟨c, size⟩ := p
    cases size with
    | some size => exact ih span hW
    | none =>
      rw [openClaims_cons_none, weights_cons] at hW
      cases hassigned : assigned grain phase c (scaleByWeight span c.weight W) with
      | some size =>
        rw [growPass_cons_assigned hassigned]
        exact ih _ (by omega)
      | none =>
        rw [growPass_cons_unassigned hassigned]
        have hrest := ih span (W := W) (Y := Y + c.weight) (by omega)
        simp only [openClaims_cons_none, weights_cons]
        omega

/-- A pass that settles nothing changes nothing. -/
theorem growPass_unchanged (hphase : phase ≠ .distribute)
    (h : (growPass grain phase ps span W).2 = false) :
    (growPass grain phase ps span W).1 = ⟨ps, span, W⟩ ∧
      ∀ c ∈ openClaims ps, assigned grain phase c (scaleByWeight span c.weight W) = none := by
  induction ps with
  | nil => exact ⟨rfl, fun c hc => absurd hc List.not_mem_nil⟩
  | cons p ps ih =>
    obtain ⟨c, size⟩ := p
    cases size with
    | some size =>
      rw [growPass_cons_some] at h ⊢
      obtain ⟨heq, hopen⟩ := ih h
      rw [heq]
      exact ⟨rfl, hopen⟩
    | none =>
      cases hassigned : assigned grain phase c (scaleByWeight span c.weight W) with
      | some size =>
        rw [growPass_cons_assigned hassigned] at h
        simp [hphase] at h
      | none =>
        rw [growPass_cons_unassigned hassigned] at h ⊢
        obtain ⟨heq, hopen⟩ := ih h
        rw [heq]
        exact ⟨rfl, List.forall_mem_cons.mpr ⟨hassigned, hopen⟩⟩

/-- Claims that get their minimums leave enough for those of the others. -/
theorem growPass_minimums {span X : ℕ} (W : ℕ) (hup : ∀ p ∈ ps, RoundsUp grain R p.1)
    (hspan : span ≤ R) (howed : X + minimums (openClaims ps) ≤ R) :
    ∃ R', settledSum (growPass grain .overcharge ps span W).1.sizes + R' = settledSum ps + R ∧
      (growPass grain .overcharge ps span W).1.span ≤ R' ∧
      X + minimums (openClaims (growPass grain .overcharge ps span W).1.sizes) ≤ R' := by
  induction ps generalizing span W R X with
  | nil => exact ⟨R, rfl, hspan, howed⟩
  | cons p ps ih =>
    obtain ⟨c, size⟩ := p
    cases size with
    | some size =>
      rw [growPass_cons_some]
      obtain ⟨R', hsum, hspan', howed'⟩ := ih W (List.forall_mem_cons.mp hup).2 hspan howed
      refine ⟨R', ?_, hspan', howed'⟩
      simp only [settledSum_cons, Option.getD_some]
      omega
    | none =>
      obtain ⟨hc : RoundsUp grain R c, hps⟩ := List.forall_mem_cons.mp hup
      rw [openClaims_cons_none, minimums_cons] at howed
      cases hassigned : assigned grain .overcharge c (scaleByWeight span c.weight W) with
      | some size =>
        have hsize : size = c.min := by
          rw [assigned] at hassigned
          split at hassigned
          · exact (Option.some.inj hassigned).symm
          · cases hassigned
        have hround : size ≤ alignUp size grain := by
          rw [hsize]
          exact hc.min (by omega)
        have hless : span - alignUp size grain ≤ R - size := by omega
        rw [growPass_cons_assigned hassigned]
        obtain ⟨R', hsum, hspan', howed'⟩ := ih (R := R - size) (X := X) (W - c.weight)
          (fun p hp => (hps p hp).mono (Nat.sub_le _ _)) hless (by omega)
        refine ⟨R', ?_, hspan', howed'⟩
        simp only [settledSum_cons, Option.getD_some, Option.getD_none]
        omega
      | none =>
        rw [growPass_cons_unassigned hassigned]
        obtain ⟨R', hsum, hspan', howed'⟩ := ih (X := X + c.min) W hps hspan (by omega)
        refine ⟨R', ?_, hspan', ?_⟩
        · simpa using hsum
        · simp only [openClaims_cons_none, minimums_cons]
          omega

/-- The share of a claim is what it covers. -/
theorem scaleByWeight_covers (span w W : ℕ) : Covers span W w (scaleByWeight span w W) := by
  rw [scaleByWeight]
  split
  · rename_i hzero
    exact ⟨by rw [Nat.zero_mul]; exact Nat.zero_le _, fun _ => rfl⟩
  · rename_i hne
    split
    · rename_i heq
      exact ⟨by rw [heq], fun h => absurd h hne⟩
    · exact ⟨Nat.div_mul_le_self _ _, fun h => absurd h hne⟩

/-- The minimums of all these claims are covered. -/
def AllCovered (v W : ℕ) (cs : List SpanClaim) : Prop := ∀ c ∈ cs, Covers v W c.weight c.min

theorem AllCovered.minimums_le (h : AllCovered v (weights cs) cs) : minimums cs ≤ v :=
  Covers.sum_le h

/-- After the first phase no claim takes more than its share. -/
theorem assigned_covers {size : ℕ} (hphase : phase ≠ .overcharge)
    (h : assigned grain phase c (scaleByWeight span c.weight W) = some size) (hspan : span ≤ v)
    (hc : Covers v W c.weight c.min) : Covers v W c.weight size := by
  have hshare := (scaleByWeight_covers span c.weight W).of_le hspan
  cases phase with
  | overcharge => exact absurd rfl hphase
  | undercharge =>
    rw [assigned] at h
    split at h
    · rename_i hlt
      rw [← Option.some.inj h]
      exact hshare.mono (Nat.le_of_lt hlt)
    · cases h
  | distribute =>
    have hdown := alignDown_le (scaleByWeight span c.weight W) grain
    have hle : size ≤ max (scaleByWeight span c.weight W) c.min := by
      rw [← Option.some.inj h]
      omega
    rcases Nat.le_total (scaleByWeight span c.weight W) c.min with hmin | hmin
    · exact hc.mono (by omega)
    · exact hshare.mono (by omega)

/-- Claims that take no more than their shares leave the shares of the others. -/
theorem growPass_shared {span v R : ℕ} {rest : List SpanClaim} (hphase : phase ≠ .overcharge)
    (hW : W = weights rest + weights (openClaims ps)) (hup : ∀ p ∈ ps, RoundsUp grain R p.1)
    (hspan : span ≤ v) (hv : v ≤ R) (hcovered : AllCovered v W (rest ++ openClaims ps)) :
    ∃ v' R', settledSum (growPass grain phase ps span W).1.sizes + R' = settledSum ps + R ∧
      (growPass grain phase ps span W).1.span ≤ v' ∧ v' ≤ R' ∧
      AllCovered v' (growPass grain phase ps span W).1.weightSum
        (rest ++ openClaims (growPass grain phase ps span W).1.sizes) := by
  induction ps generalizing span W v R rest with
  | nil => exact ⟨v, R, rfl, hspan, hv, hcovered⟩
  | cons p ps ih =>
    obtain ⟨c, size⟩ := p
    cases size with
    | some size =>
      rw [growPass_cons_some]
      obtain ⟨v', R', hsum, hspan', hv', hcovered'⟩ :=
        ih hW (List.forall_mem_cons.mp hup).2 hspan hv hcovered
      refine ⟨v', R', ?_, hspan', hv', hcovered'⟩
      simp only [settledSum_cons, Option.getD_some]
      omega
    | none =>
      obtain ⟨hround : RoundsUp grain R c, hps⟩ := List.forall_mem_cons.mp hup
      rw [openClaims_cons_none, weights_cons] at hW
      have hc : Covers v W c.weight c.min := hcovered c (by simp)
      cases hassigned : assigned grain phase c (scaleByWeight span c.weight W) with
      | some size =>
        have hsize := assigned_covers hphase hassigned hspan hc
        have hle : size ≤ v := hsize.le_amount (by omega)
        have hshare : scaleByWeight span c.weight W ≤ span :=
          (scaleByWeight_covers span c.weight W).le_amount (by omega)
        have hup : size ≤ alignUp size grain :=
          hround.share phase _ size hassigned (by omega) (by omega)
        rw [growPass_cons_assigned hassigned]
        have hothers : AllCovered (v - size) (W - c.weight) (rest ++ openClaims ps) :=
          fun c' hc' => (hcovered c' (by
            rcases List.mem_append.mp hc' with hc' | hc'
            · exact List.mem_append_left _ hc'
            · exact List.mem_append_right _ (List.mem_cons_of_mem c hc'))).rest hsize (by omega)
        have hless : span - alignUp size grain ≤ v - size := by omega
        obtain ⟨v', R', hsum, hspan', hv', hcovered'⟩ := ih (R := R - size) (by omega)
          (fun p hp => (hps p hp).mono (Nat.sub_le _ _)) hless (by omega) hothers
        refine ⟨v', R', ?_, hspan', hv', hcovered'⟩
        simp only [settledSum_cons, Option.getD_some, Option.getD_none]
        omega
      | none =>
        rw [growPass_cons_unassigned hassigned]
        have hrest : W = weights (rest ++ [c]) + weights (openClaims ps) := by
          rw [weights_append, hW]
          simp only [weights, List.map_cons, List.map_nil, List.sum_cons, List.sum_nil]
          omega
        have hcovered' : AllCovered v W ((rest ++ [c]) ++ openClaims ps) := by
          rwa [List.append_assoc, List.singleton_append]
        obtain ⟨v', R', hsum, hspan', hv', hout⟩ := ih hrest hps hspan hv hcovered'
        refine ⟨v', R', by simpa using hsum, hspan', hv', ?_⟩
        rwa [List.append_assoc, List.singleton_append] at hout

/-! ## The loop -/

/-- What the loop keeps for a bound `B`: the span and the minimums that are left fit with what is
    settled, and after the first phase every minimum is covered by its share. -/
structure SpanInv (B : ℕ) (phase : Phase) (st : Settling) : Prop where
  weightSum : st.weightSum = weights (openClaims st.sizes)
  span : settledSum st.sizes + st.span ≤ B
  owed : settledSum st.sizes + minimums (openClaims st.sizes) ≤ B
  covered : phase ≠ .overcharge → AllCovered st.span st.weightSum (openClaims st.sizes)

variable {B : ℕ} {st : Settling}

theorem SpanInv.growPass_overcharge (hup : ∀ p ∈ st.sizes, RoundsUp grain B p.1)
    (h : SpanInv B .overcharge st) :
    SpanInv B .overcharge (growPass grain .overcharge st.sizes st.span st.weightSum).1 := by
  have hspan := h.span
  have howed := h.owed
  have hleft : ∀ p ∈ st.sizes, RoundsUp grain (B - settledSum st.sizes) p.1 :=
    fun p hp => (hup p hp).mono (Nat.sub_le _ _)
  have hspanLeft : st.span ≤ B - settledSum st.sizes := by omega
  have howedLeft : 0 + minimums (openClaims st.sizes) ≤ B - settledSum st.sizes := by omega
  obtain ⟨R', hsum, hspan', howed'⟩ :=
    growPass_minimums st.weightSum hleft hspanLeft howedLeft
  have hW := growPass_weightSum grain .overcharge st.span
    (h.weightSum.trans (Nat.zero_add _).symm)
  exact ⟨by rw [hW, Nat.zero_add], by omega, by omega, fun hno => absurd rfl hno⟩

theorem SpanInv.growPass_shared (hup : ∀ p ∈ st.sizes, RoundsUp grain B p.1)
    (hphase : phase ≠ .overcharge) (h : SpanInv B phase st) :
    SpanInv B .overcharge (growPass grain phase st.sizes st.span st.weightSum).1 := by
  have hspan := h.span
  have howed := h.owed
  have hleft : ∀ p ∈ st.sizes, RoundsUp grain (B - settledSum st.sizes) p.1 :=
    fun p hp => (hup p hp).mono (Nat.sub_le _ _)
  have hspanLeft : st.span ≤ B - settledSum st.sizes := by omega
  have hnone : st.weightSum = weights [] + weights (openClaims st.sizes) :=
    h.weightSum.trans (Nat.zero_add _).symm
  obtain ⟨v', R', hsum, hspan', hv', hcovered⟩ := Repart.growPass_shared hphase hnone hleft
    (Nat.le_refl st.span) hspanLeft (h.covered hphase)
  have hW := growPass_weightSum grain phase st.span
    (h.weightSum.trans (Nat.zero_add _).symm)
  rw [Nat.zero_add] at hW
  rw [hW, List.nil_append] at hcovered
  have hminimums := hcovered.minimums_le
  exact ⟨hW, by omega, by omega, fun hno => absurd rfl hno⟩

/-- What the loop settles is at most the bound. -/
theorem SpanInv.growLoop_le {fuel : ℕ} (hup : ∀ c ∈ st.sizes.map Prod.fst, RoundsUp grain B c)
    (h : SpanInv B phase st) : settledSum (growLoop grain fuel phase st).sizes ≤ B := by
  induction fuel generalizing phase st with
  | zero => exact Nat.le_trans (Nat.le_add_right _ _) h.span
  | succ fuel ih =>
    have hround := List.forall_mem_map.mp hup
    have hnext : SpanInv B .overcharge (growPass grain phase st.sizes st.span st.weightSum).1 := by
      by_cases hphase : phase = .overcharge
      · subst hphase
        exact h.growPass_overcharge hround
      · exact h.growPass_shared hround hphase
    rw [← (growPass_spec grain phase st.sizes st.span st.weightSum).claims] at hup
    rw [growLoop]
    cases hagain : (growPass grain phase st.sizes st.span st.weightSum).2 with
    | true =>
      simp only [hagain, if_true]
      exact ih hup hnext
    | false =>
      simp only [hagain, Bool.false_eq_true, if_false]
      cases phase with
      | overcharge =>
        obtain ⟨heq, hopen⟩ := growPass_unchanged (by simp) hagain
        rw [heq] at hup ⊢
        refine ih hup ⟨h.weightSum, h.span, h.owed, fun _ c hc => ?_⟩
        -- No minimum is above its share, or this pass would have settled it.
        have hle : c.min ≤ scaleByWeight st.span c.weight st.weightSum := by
          have hnone := hopen c hc
          rw [assigned] at hnone
          split at hnone
          · cases hnone
          · omega
        exact (scaleByWeight_covers _ _ _).mono hle
      | undercharge =>
        obtain ⟨heq, -⟩ := growPass_unchanged (by simp) hagain
        rw [heq] at hup ⊢
        exact ih hup ⟨h.weightSum, h.span, h.owed, fun _ => h.covered (by simp)⟩
      | distribute => exact Nat.le_trans (Nat.le_add_right _ _) hnext.span

theorem openClaims_start (claims : List SpanClaim) :
    openClaims (claims.map fun c => (c, none)) = claims := by
  rw [openClaims, List.filterMap_map]
  exact List.filterMap_some

/-- All sizes together take no more than the span, or than the minimums when these take more. -/
theorem growClaims_sum_le_of_roundsUp {claims : List SpanClaim} (span : ℕ)
    (hup : ∀ c ∈ claims, RoundsUp grain (max span (minimums claims)) c) :
    (growClaims claims span grain).sum ≤ max span (minimums claims) := by
  have hsettled : settledSum (claims.map fun c => (c, (none : Option ℕ))) = 0 := by
    rw [settledSum, List.map_map]
    exact List.sum_eq_zero fun x hx => by
      obtain ⟨c, -, rfl⟩ := List.mem_map.mp hx
      rfl
  have hinv : SpanInv (max span (minimums claims)) .overcharge
      ⟨claims.map fun c => (c, none), span, (claims.map (·.weight)).sum⟩ :=
    ⟨by rw [openClaims_start, weights], by rw [hsettled, Nat.zero_add]; exact Nat.le_max_left _ _,
      by rw [hsettled, Nat.zero_add, openClaims_start]; exact Nat.le_max_right _ _,
      fun hno => absurd rfl hno⟩
  exact hinv.growLoop_le (by rwa [claims_start])

/-- Rounding up does not wrap when the words are large enough. -/
theorem growClaims_sum_le (claims : List SpanClaim) (span : ℕ)
    (hwords : max span (minimums claims) + grain ≤ 2 ^ 64) :
    (growClaims claims span grain).sum ≤ max span (minimums claims) :=
  growClaims_sum_le_of_roundsUp span fun c _ => roundsUp_of_words c hwords

end OxidizedSystemd.Repart

import Mathlib.Algebra.Order.Group.Nat
import Mathlib.Data.List.Basic

/-!
# Sliding windows over lists of times

A limiter keeps the times that are younger than its window and admits a new one only
while there are fewer of them than its limit. An age is a truncated difference, 0 for a
time that is still to come.

* `recent_recent`: dropping old times twice is dropping them once, at the later time.
* `Sparse`: no span shorter than the window has more times than the limit.
* `Sparse.snoc`: admitting a time keeps the list sparse.
* `Sparse.closedOpen`, `Sparse.openClosed`: a sparse list has no crowded half-open window.
-/

namespace OxidizedSystemd.Lib

/-- The times that are younger than the window. -/
def recent (window now : ℕ) (times : List ℕ) : List ℕ := times.filter fun t => now - t < window

/-- No span shorter than the window has more times than the limit. -/
def Sparse (limit window : ℕ) (times : List ℕ) : Prop :=
  ∀ span : ℕ → Bool, (∀ s t, span s → span t → s < t + window) → times.countP span ≤ limit

variable {limit window now : ℕ} {times : List ℕ}

theorem recent_append (xs ys : List ℕ) :
    recent window now (xs ++ ys) = recent window now xs ++ recent window now ys :=
  List.filter_append ..

/-- What is young later is young now. -/
theorem recent_recent {later : ℕ} (h : now ≤ later) :
    recent window later (recent window now times) = recent window later times := by
  rw [recent, recent, List.filter_filter, recent]
  apply List.filter_congr
  intro t _
  by_cases hlater : later - t < window
  · have hnow : now - t < window := by omega
    simp [hlater, hnow]
  · simp [hlater]

/-- The young ones among times that have passed are those of the window that ends now. -/
theorem recent_eq_filter (h : ∀ t ∈ times, t ≤ now) :
    recent window now times = times.filter fun t => t ≤ now ∧ now < t + window := by
  apply List.filter_congr
  intro t ht
  have hle := h t ht
  simp only [hle, true_and, decide_eq_decide]
  omega

theorem sparse_nil : Sparse limit window [] := fun _ _ => Nat.zero_le limit

/-- A span shorter than nothing has no times. -/
theorem sparse_zero : Sparse limit 0 times := by
  intro span hspan
  have hnone : times.countP span = 0 := List.countP_eq_zero.mpr fun t _ ht =>
    Nat.lt_irrefl t (hspan t t ht ht)
  omega

theorem Sparse.snoc (hsparse : Sparse limit window times) (hpast : ∀ t ∈ times, t ≤ now)
    (hroom : (recent window now times).length < limit) : Sparse limit window (times ++ [now]) := by
  intro span hspan
  rw [List.countP_append, List.countP_singleton]
  split
  · rename_i hnow
    -- A span with the new time in it has only times of the window that ends there.
    have hle : times.countP span ≤ (recent window now times).length := by
      rw [recent, ← List.countP_eq_length_filter]
      apply List.countP_mono_left
      intro t ht hin
      have hold := hpast t ht
      have hyoung := hspan now t hnow hin
      simp only [decide_eq_true_eq]
      omega
    omega
  · exact hsparse span hspan

theorem Sparse.closedOpen (hsparse : Sparse limit window times) (a : ℕ) :
    (times.filter fun t => a ≤ t ∧ t < a + window).length ≤ limit := by
  rw [← List.countP_eq_length_filter]
  apply hsparse
  intro s t hs ht
  simp only [decide_eq_true_eq] at hs ht
  omega

theorem Sparse.openClosed (hsparse : Sparse limit window times) (a : ℕ) :
    (times.filter fun t => a < t ∧ t ≤ a + window).length ≤ limit := by
  rw [← List.countP_eq_length_filter]
  apply hsparse
  intro s t hs ht
  simp only [decide_eq_true_eq] at hs ht
  omega

end OxidizedSystemd.Lib

import Mathlib.Data.List.Perm.Basic
import Mathlib.Data.List.Count
import Mathlib.Data.List.Nodup

/-!
# Queues that run one element of a key at a time

Elements with keys wait in a queue and are started, at most one of each key at a time, and are done
at some later time.

* `InOrder.start`, `InOrder.finish`: the elements of each key are done in the order in which they
  came, when the first waiting one of a key that is not running is started.
* `InOrder.perm`: nothing is lost and nothing is done twice.
-/

namespace OxidizedSystemd.Lib.KeyedQueue

variable {α κ : Type*} {key : α → κ}

/-- At most one element of each key is running. -/
def Apart (key : α → κ) (running : List α) : Prop := (running.map key).Nodup

variable {received done running queued xs ys : List α} {e : α}

theorem Apart.start (h : Apart key running) (he : key e ∉ running.map key) :
    Apart key (running ++ [e]) := by
  rw [Apart, List.map_append, List.nodup_append]
  refine ⟨h, List.nodup_singleton _, ?_⟩
  intro k hk l hl heq
  rw [heq, List.mem_singleton.mp hl] at hk
  exact he hk

theorem Apart.finish (h : Apart key (xs ++ e :: ys)) : Apart key (xs ++ ys) :=
  h.sublist (((List.sublist_cons_self e ys).append_left xs).map key)

/-- What is left running has other keys. -/
theorem Apart.notMem_finish (h : Apart key (xs ++ e :: ys)) : key e ∉ (xs ++ ys).map key := by
  have hperm : (xs ++ e :: ys).Perm (e :: (xs ++ ys)) := List.perm_middle
  exact (List.nodup_cons.mp ((hperm.map key).nodup_iff.mp h)).1

variable [DecidableEq κ]

/-- The elements of each key, as they came, are those that are done, the one that is running and
    those that wait. -/
def InOrder (key : α → κ) (received done running queued : List α) : Prop :=
  ∀ k, received.filter (key · = k) = (done ++ running ++ queued).filter (key · = k)

theorem filter_key_eq_nil {k : κ} (h : ∀ x ∈ xs, key x ≠ k) : xs.filter (key · = k) = [] := by
  apply List.filter_eq_nil_iff.mpr
  intro x hx
  simpa using h x hx

theorem InOrder.receive (h : InOrder key received done running queued) (e : α) :
    InOrder key (received ++ [e]) done running (queued ++ [e]) := by
  intro k
  rw [List.filter_append, h k, ← List.append_assoc, List.filter_append (_ ++ _ ++ _)]

/-- The first waiting element of a key that is not running is started. -/
theorem InOrder.start (h : InOrder key received done running (xs ++ e :: ys))
    (hfirst : ∀ x ∈ xs, key x ≠ key e) :
    InOrder key received done (running ++ [e]) (xs ++ ys) := by
  intro k
  rw [h k]
  by_cases hk : key e = k
  · subst hk
    simp [List.filter_append, filter_key_eq_nil hfirst]
  · simp [List.filter_append, hk]

/-- A running element is done. -/
theorem InOrder.finish (h : InOrder key received done (xs ++ e :: ys) queued)
    (hapart : Apart key (xs ++ e :: ys)) :
    InOrder key received (done ++ [e]) (xs ++ ys) queued := by
  have hother : ∀ x ∈ xs, key x ≠ key e := by
    intro x hx heq
    rw [Apart, List.map_append, List.map_cons, List.nodup_append] at hapart
    exact hapart.2.2 (key x) (List.mem_map_of_mem hx) (key e) List.mem_cons_self heq
  intro k
  rw [h k]
  by_cases hk : key e = k
  · subst hk
    simp [List.filter_append, filter_key_eq_nil hother]
  · simp [List.filter_append, hk]

/-- Every element is done once, is running or waits. -/
theorem InOrder.perm (h : InOrder key received done running queued) :
    received.Perm (done ++ running ++ queued) := by
  classical
  apply List.perm_iff_count.mpr
  intro e
  have hcount : ∀ l : List α, (l.filter (key · = key e)).count e = l.count e := by
    intro l
    apply List.count_filter
    simp
  rw [← hcount received, h, hcount]

end OxidizedSystemd.Lib.KeyedQueue

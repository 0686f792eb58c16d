import Mathlib.Data.List.Induction
import Mathlib.Data.Nat.Notation

/-!
# Limits in fixed windows

A limiter that counts messages in windows of a fixed length. A window is opened by the first
message after the last window has elapsed; of its messages as many are accepted as the limit.

* `windowAfter_eq_some`: the window that is open after some times.
* `countP_verdictsFrom_le`: what a window accepts before it has elapsed.
* `countP_verdictsFrom_eq`: what it has accepted while it is open.
-/

namespace OxidizedSystemd.Lib

/-- A window with its first time and the number of its messages. -/
structure Window where
  start : ℕ
  count : ℕ
  deriving DecidableEq

/-- The window of the next message. -/
def Window.next (interval : ℕ) : Option Window → ℕ → Window
  | none, t => ⟨t, 1⟩
  | some w, t => if w.start + interval ≤ t then ⟨t, 1⟩ else ⟨w.start, w.count + 1⟩

/-- The window after messages at some times. -/
def windowAfter (interval : ℕ) (times : List ℕ) : Option Window :=
  times.foldl (fun w t => some (Window.next interval w t)) none

/-- A message at the time opens a window. -/
def Opens (interval : ℕ) (times : List ℕ) (t : ℕ) : Prop :=
  ∀ w, windowAfter interval times = some w → w.start + interval ≤ t

/-- The times of messages with whether they are accepted, from a window on. -/
def verdictsFrom (limit interval : ℕ) (w : Option Window) : List ℕ → List (ℕ × Bool)
  | [] => []
  | t :: times =>
    let w := Window.next interval w t
    (t, decide (w.count ≤ limit)) :: verdictsFrom limit interval (some w) times

variable {limit interval t : ℕ} {w : Window} {times before after : List ℕ}

theorem windowAfter_concat (times : List ℕ) (t : ℕ) :
    windowAfter interval (times ++ [t]) =
      some (Window.next interval (windowAfter interval times) t) := by
  rw [windowAfter, List.foldl_append]
  rfl

theorem Opens.mono {t' : ℕ} (h : Opens interval times t) (hle : t ≤ t') :
    Opens interval times t' :=
  fun w hw => Nat.le_trans (h w hw) hle

theorem next_of_opens (h : Opens interval times t) :
    Window.next interval (windowAfter interval times) t = ⟨t, 1⟩ := by
  cases hw : windowAfter interval times with
  | none => rfl
  | some w => exact if_pos (h w hw)

/-- The window that is open was opened by one of the messages, and all behind it are in it. -/
theorem windowAfter_eq_some (h : windowAfter interval times = some w) :
    ∃ before after, times = before ++ w.start :: after ∧ Opens interval before w.start ∧
      w.count = after.length + 1 ∧ ∀ t ∈ after, t < w.start + interval := by
  induction times using List.reverseRecOn generalizing w with
  | nil => cases h
  | append_singleton times t ih =>
    rw [windowAfter_concat, Option.some_inj] at h
    cases hprev : windowAfter interval times with
    | none =>
      rw [hprev] at h
      subst h
      refine ⟨times, [], rfl, ?_, rfl, by simp⟩
      intro w hw
      rw [hprev] at hw
      cases hw
    | some v =>
      rw [hprev, Window.next] at h
      split at h
      · rename_i helapsed
        subst h
        refine ⟨times, [], rfl, ?_, rfl, by simp⟩
        intro w hw
        rw [hprev, Option.some_inj] at hw
        rwa [← hw]
      · rename_i hopen
        obtain ⟨before, after, htimes, hopens, hcount, hlt⟩ := ih hprev
        subst h
        refine ⟨before, after ++ [t], ?_, hopens, ?_, ?_⟩
        · rw [htimes, List.append_assoc, List.cons_append]
        · simp [hcount]
        · intro t' ht'
          rcases List.mem_append.mp ht' with ht' | ht'
          · exact hlt t' ht'
          · rw [List.mem_singleton.mp ht']
            exact Nat.lt_of_not_le hopen

theorem verdictsFrom_append (w : Option Window) (as bs : List ℕ) :
    verdictsFrom limit interval w (as ++ bs) = verdictsFrom limit interval w as ++
      verdictsFrom limit interval (as.foldl (fun w t => some (Window.next interval w t)) w) bs := by
  induction as generalizing w with
  | nil => rfl
  | cons a as ih =>
    rw [List.cons_append, verdictsFrom, verdictsFrom, ih, List.foldl_cons, List.cons_append]

theorem map_fst_verdictsFrom (w : Option Window) (times : List ℕ) :
    (verdictsFrom limit interval w times).map Prod.fst = times := by
  induction times generalizing w with
  | nil => rfl
  | cons t times ih => rw [verdictsFrom, List.map_cons, ih]

/-- From a window on, as many messages are accepted before it has elapsed as are left. -/
theorem countP_verdictsFrom_le (hsorted : times.Pairwise (· ≤ ·)) :
    (verdictsFrom limit interval (some w) times).countP
      (fun v => v.2 ∧ v.1 < w.start + interval) ≤ limit - w.count := by
  induction times generalizing w with
  | nil => simp [verdictsFrom]
  | cons t times ih =>
    have hbehind : ∀ t' ∈ times, t ≤ t' := fun t' => List.rel_of_pairwise_cons hsorted
    rw [verdictsFrom, Window.next]
    by_cases helapsed : w.start + interval ≤ t
    · -- all of the messages that are left are behind the window
      rw [if_pos helapsed]
      have hnone : ∀ v ∈ (t, decide ((⟨t, 1⟩ : Window).count ≤ limit)) ::
          verdictsFrom limit interval (some ⟨t, 1⟩) times,
          ¬(decide (v.2 = true ∧ v.1 < w.start + interval)) = true := by
        intro v hv hin
        have hlt := (of_decide_eq_true hin).2
        have hmem : v.1 ∈ t :: times := by
          have := List.mem_map_of_mem (f := Prod.fst) hv
          rwa [List.map_cons, map_fst_verdictsFrom] at this
        rcases List.mem_cons.mp hmem with heq | hmem
        · omega
        · have := hbehind v.1 hmem
          omega
      rw [List.countP_eq_zero.mpr hnone]
      exact Nat.zero_le _
    · rw [if_neg helapsed, List.countP_cons]
      have hrest := @ih ⟨w.start, w.count + 1⟩ hsorted.of_cons
      dsimp only at hrest ⊢
      split
      · rename_i hacc
        have : w.count + 1 ≤ limit := by simpa using (of_decide_eq_true hacc).1
        omega
      · omega

/-- While a window is open, it has accepted its messages up to the limit. -/
theorem countP_verdictsFrom_eq (hopen : ∀ t ∈ times, t < w.start + interval) :
    (verdictsFrom limit interval (some w) times).countP (·.2) =
      min times.length (limit - w.count) := by
  induction times generalizing w with
  | nil => simp [verdictsFrom]
  | cons t times ih =>
    obtain ⟨ht, hrest⟩ := List.forall_mem_cons.mp hopen
    have hstep := @ih ⟨w.start, w.count + 1⟩ hrest
    rw [verdictsFrom, Window.next, if_neg (by omega), List.countP_cons, List.length_cons, hstep]
    by_cases hacc : w.count + 1 ≤ limit
    · simp only [hacc, decide_true, if_true]
      omega
    · simp only [hacc, decide_false, Bool.false_eq_true, if_false]
      omega

/-- Before a window has elapsed that a message opens, no more than the limit are accepted. -/
theorem countP_le_of_opens (hopens : Opens interval before t)
    (hsorted : (t :: after).Pairwise (· ≤ ·)) :
    (verdictsFrom limit interval (windowAfter interval before) (t :: after)).countP
      (fun v => v.2 ∧ v.1 < t + interval) ≤ limit := by
  have hrest := @countP_verdictsFrom_le limit interval ⟨t, 1⟩ after hsorted.of_cons
  rw [verdictsFrom, next_of_opens hopens, List.countP_cons]
  dsimp only at hrest ⊢
  split
  · rename_i hacc
    have : 1 ≤ limit := by simpa using (of_decide_eq_true hacc).1
    omega
  · omega

/-- A message is rejected only when its window has accepted as many as the limit. -/
theorem full_of_rejected (hlimit : 1 ≤ limit)
    (h : ¬(Window.next interval (windowAfter interval before) t).count ≤ limit) :
    ∃ front o mid, before = front ++ o :: mid ∧ Opens interval front o ∧ t < o + interval ∧
      (verdictsFrom limit interval (windowAfter interval front) (o :: mid)).countP (·.2) =
        limit := by
  cases hw : windowAfter interval before with
  | none =>
    rw [hw] at h
    exact absurd hlimit h
  | some w =>
    obtain ⟨front, mid, hbefore, hopens, hcount, hlt⟩ := windowAfter_eq_some hw
    rw [hw, Window.next] at h
    split at h
    · exact absurd hlimit h
    · rename_i hopen
      refine ⟨front, w.start, mid, hbefore, hopens, Nat.lt_of_not_le hopen, ?_⟩
      have hmid := @countP_verdictsFrom_eq limit interval ⟨w.start, 1⟩ mid hlt
      rw [verdictsFrom, next_of_opens hopens, List.countP_cons, hmid]
      dsimp only at h ⊢
      rw [if_pos (decide_eq_true hlimit)]
      omega

end OxidizedSystemd.Lib

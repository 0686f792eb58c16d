import Mathlib.Algebra.Order.Ring.Nat
import Mathlib.Logic.Function.Basic
import OxidizedSystemd.Lib.FixedWindow
import OxidizedSystemd.Lib.Run

/-!
# Rate limiting of the journal

`RateLimiter` of `journald/src/main.rs` (lines 76–190), as `dispatch_entry` and the maintenance
thread use it (lines 842–875 and 3776–3781). Times are nanoseconds of one monotonic clock.

The windows are those of `Lib.FixedWindow`. The limiter keeps them as long as the collection
removes only sources whose window has elapsed and that have no suppressed messages left to be
reported.

* `check_spec`: a check gives the verdict of the window that its message is in.
* `Tracks.step`: what the limiter knows of a source after a step.
* `rateLimit_exact`: bursts, suppressions and reports in every run that keeps the windows.
* `gc_loses_suppressed`: a collection that does not.
-/

namespace OxidizedSystemd.Journal.RateLimit

open OxidizedSystemd.Lib

/-! ## The limiter -/

/-- `RateLimitState`. -/
structure RateLimitState where
  windowStart : ℕ
  count : ℕ
  suppressionLogged : Bool
  suppressed : ℕ
  deriving DecidableEq

/-- `RateLimitResult`. -/
inductive RateLimitResult
  | accept
  | suppressed
  | windowReset (suppressed : ℕ)
  deriving DecidableEq

/-- The `sources` of `RateLimiter`. -/
abbrev Sources := String → Option RateLimitState

/-- `RateLimiter::check` at the time `now`. The counters are `u64`. -/
def check (burst interval now : ℕ) (source : String) (sources : Sources) :
    RateLimitResult × Sources :=
  if burst = 0 ∨ interval = 0 then (.accept, sources)
  else
    let state := (sources source).getD ⟨now, 0, false, 0⟩
    let elapsed := now - state.windowStart ≥ interval
    let prevSuppressed := if elapsed then state.suppressed else 0
    let state := if elapsed then ⟨now, 0, false, 0⟩ else state
    let state := { state with count := (state.count + 1) % 2 ^ 64 }
    if state.count ≤ burst then
      (if prevSuppressed > 0 then .windowReset prevSuppressed else .accept,
        Function.update sources source (some state))
    else
      let state :=
        { state with suppressed := (state.suppressed + 1) % 2 ^ 64, suppressionLogged := true }
      (.suppressed, Function.update sources source (some state))

/-- `RateLimiter::gc` at the time `now`. -/
def gc (maxAge now : ℕ) (sources : Sources) : Sources := fun source =>
  (sources source).filter fun state => now - state.windowStart < maxAge

/-- The age that the maintenance thread gives: 600 s. -/
def gcMaxAge : ℕ := 600 * 1000000000

/-! ## Runs -/

/-- The limiter, the time, and what the checks have given for each source. -/
structure Limiter where
  sources : Sources
  clock : ℕ
  log : String → List (ℕ × RateLimitResult)

inductive Action
  | check (source : String) (now : ℕ)
  | gc (now : ℕ)

def start : Limiter := ⟨fun _ => none, 0, fun _ => []⟩

/-- A step, at a time that is not before the last one. -/
def step (burst interval : ℕ) (l : Limiter) : Action → Option Limiter
  | .check source now =>
    if now < l.clock then none
    else
      let (result, sources) := check burst interval now source l.sources
      some ⟨sources, now, Function.update l.log source (l.log source ++ [(now, result)])⟩
  | .gc now => if now < l.clock then none else some ⟨gc gcMaxAge now l.sources, now, l.log⟩

/-- The suppressed messages of a source that are still to be reported. -/
def Limiter.pending (l : Limiter) (source : String) : ℕ :=
  ((l.sources source).map RateLimitState.suppressed).getD 0

/-- What a result reports. -/
def RateLimitResult.reported : RateLimitResult → ℕ
  | .windowReset n => n
  | _ => 0

/-- A step that keeps the windows: a collection removes only elapsed ones without suppressed
    messages, and no window has `2^64` messages. -/
def Keeps (interval : ℕ) (l : Limiter) : Action → Prop
  | .check source _ => ∀ state, l.sources source = some state → state.count + 1 < 2 ^ 64
  | .gc now => ∀ source state, l.sources source = some state →
      gcMaxAge ≤ now - state.windowStart →
      state.suppressed = 0 ∧ interval ≤ now - state.windowStart

/-! ## What the limiter is for -/

/-- The times of messages. -/
def times (log : List (ℕ × RateLimitResult)) : List ℕ := log.map Prod.fst

/-- Limits are kept, and nothing is suppressed without need or without being reported: for the
    results of one source with the number of suppressed messages that are still to be reported. -/
structure Exact (burst interval : ℕ) (log : List (ℕ × RateLimitResult)) (pending : ℕ) : Prop where
  burst_le : ∀ before m after, log = before ++ m :: after → Opens interval (times before) m.1 →
    (m :: after).countP (fun m' => m'.2 ≠ .suppressed ∧ m'.1 < m.1 + interval) ≤ burst
  full : ∀ before m after, log = before ++ m :: after → m.2 = .suppressed →
    ∃ front o mid, before = front ++ o :: mid ∧ Opens interval (times front) o.1 ∧
      m.1 < o.1 + interval ∧ (o :: mid).countP (fun m' => m'.2 ≠ .suppressed) = burst
  accountable : log.countP (fun m => m.2 = .suppressed) =
    (log.map fun m => m.2.reported).sum + pending

/-! ## The invariant -/

/-- The time of a message with whether it is accepted. -/
def verdict (m : ℕ × RateLimitResult) : ℕ × Bool := (m.1, decide (m.2 ≠ .suppressed))

@[simp] theorem times_append (a b : List (ℕ × RateLimitResult)) :
    times (a ++ b) = times a ++ times b := List.map_append

@[simp] theorem times_cons (m : ℕ × RateLimitResult) (l : List (ℕ × RateLimitResult)) :
    times (m :: l) = m.1 :: times l := rfl

/-- What the limiter knows of a source. -/
structure Tracks (burst interval : ℕ) (l : Limiter) (source : String) : Prop where
  verdicts : (l.log source).map verdict = verdictsFrom burst interval none (times (l.log source))
  sorted : (times (l.log source)).Pairwise (· ≤ ·)
  past : ∀ t ∈ times (l.log source), t ≤ l.clock
  known : ∀ state, l.sources source = some state →
    windowAfter interval (times (l.log source)) = some ⟨state.windowStart, state.count⟩ ∧
      state.suppressed = state.count - burst
  forgotten : l.sources source = none → Opens interval (times (l.log source)) l.clock
  accountable : (l.log source).countP (fun m => m.2 = .suppressed) =
    ((l.log source).map fun m => m.2.reported).sum + l.pending source

variable {burst interval now : ℕ} {l l' : Limiter} {source : String} {sources : Sources}

/-- The first message of a source. -/
theorem check_fresh (hburst : 1 ≤ burst) (hinterval : 0 < interval)
    (hsource : sources source = none) : check burst interval now source sources =
      (.accept, Function.update sources source (some ⟨now, 1, false, 0⟩)) := by
  rw [check, if_neg (by omega), hsource]
  simp [Nat.not_le.mpr hinterval, hburst]

/-- The first message of another window reports what the last one has suppressed. -/
theorem check_elapsed {state : RateLimitState} (hburst : 1 ≤ burst) (hinterval : 0 < interval)
    (hsource : sources source = some state) (helapsed : state.windowStart + interval ≤ now) :
    check burst interval now source sources =
      (if state.suppressed > 0 then .windowReset state.suppressed else .accept,
        Function.update sources source (some ⟨now, 1, false, 0⟩)) := by
  have hage : now - state.windowStart ≥ interval := by omega
  rw [check, if_neg (by omega), hsource]
  simp [hage, hburst]

/-- A message of the window that is within the burst. -/
theorem check_within {state : RateLimitState} (hinterval : 0 < interval)
    (hsource : sources source = some state) (hwithin : ¬state.windowStart + interval ≤ now)
    (hcount : state.count + 1 < 2 ^ 64) (hacc : state.count + 1 ≤ burst) :
    check burst interval now source sources = (.accept,
      Function.update sources source (some { state with count := state.count + 1 })) := by
  have hage : ¬now - state.windowStart ≥ interval := by omega
  rw [check, if_neg (by omega), hsource]
  simp only [Option.getD_some, if_neg hage, Nat.mod_eq_of_lt hcount, if_pos hacc]
  rfl

/-- A message of the window behind the burst. -/
theorem check_beyond {state : RateLimitState} (hburst : 1 ≤ burst) (hinterval : 0 < interval)
    (hsource : sources source = some state) (hwithin : ¬state.windowStart + interval ≤ now)
    (hcount : state.count + 1 < 2 ^ 64) (hsuppressed : state.suppressed ≤ state.count)
    (hrej : ¬state.count + 1 ≤ burst) :
    check burst interval now source sources = (.suppressed, Function.update sources source
      (some ⟨state.windowStart, state.count + 1, true, state.suppressed + 1⟩)) := by
  have hage : ¬now - state.windowStart ≥ interval := by omega
  have hmod : (state.suppressed + 1) % 2 ^ 64 = state.suppressed + 1 :=
    Nat.mod_eq_of_lt (by omega)
  rw [check, if_neg (by omega), hsource]
  simp only [Option.getD_some, if_neg hage, Nat.mod_eq_of_lt hcount, if_neg hrej, hmod]

/-- What a check does to its source, when the limiter has the window `w` for it. -/
theorem check_spec {w : Option Window} (hburst : 1 ≤ burst) (hinterval : 0 < interval)
    (hknown : ∀ state, sources source = some state → w = some ⟨state.windowStart, state.count⟩ ∧
      state.suppressed = state.count - burst ∧ state.count + 1 < 2 ^ 64)
    (hforgotten : sources source = none → ∀ v, w = some v → v.start + interval ≤ now) :
    ∃ result state, check burst interval now source sources =
        (result, Function.update sources source (some state)) ∧
      Window.next interval w now = ⟨state.windowStart, state.count⟩ ∧
      state.suppressed = state.count - burst ∧
      (result = .suppressed ↔ ¬state.count ≤ burst) ∧
      ((sources source).map RateLimitState.suppressed).getD 0 +
        (if result = .suppressed then 1 else 0) = result.reported + state.suppressed := by
  cases hsource : sources source with
  | none =>
    have hnext : Window.next interval w now = ⟨now, 1⟩ := by
      cases w with
      | none => rfl
      | some v => exact if_pos (hforgotten hsource v rfl)
    exact ⟨_, _, check_fresh hburst hinterval hsource, hnext, by simp; omega, by simp [hburst],
      by simp [RateLimitResult.reported]⟩
  | some state =>
    obtain ⟨rfl, hsuppressed, hcount⟩ := hknown state hsource
    by_cases helapsed : state.windowStart + interval ≤ now
    · refine ⟨_, _, check_elapsed hburst hinterval hsource helapsed, if_pos helapsed,
        by simp; omega, ?_, ?_⟩
      · show _ ↔ ¬1 ≤ burst
        split <;> simp [hburst]
      · show state.suppressed + _ = _ + 0
        split
        · simp [RateLimitResult.reported]
        · simp [RateLimitResult.reported]
          omega
    · by_cases hacc : state.count + 1 ≤ burst
      · refine ⟨_, _, check_within hinterval hsource helapsed hcount hacc, if_neg helapsed, ?_,
          by simp [hacc], by simp [RateLimitResult.reported]⟩
        show state.suppressed = state.count + 1 - burst
        omega
      · refine ⟨_, _, check_beyond hburst hinterval hsource helapsed hcount (by omega) hacc,
          if_neg helapsed, ?_, by simp [hacc], by simp [RateLimitResult.reported]⟩
        show state.suppressed + 1 = state.count + 1 - burst
        omega

/-- A check changes no other source. -/
theorem check_of_ne {other : String} (h : source ≠ other) :
    (check burst interval now other sources).2 source = sources source := by
  rw [check]
  split
  · rfl
  · dsimp only
    split <;> split <;> exact Function.update_of_ne h _ _

theorem Tracks.start (source : String) : Tracks burst interval start source where
  verdicts := rfl
  sorted := List.Pairwise.nil
  past := by
    intro t ht
    cases ht
  known := by
    intro state hstate
    cases hstate
  forgotten := by
    intro _ w hw
    cases hw
  accountable := rfl

/-- A step that does not touch a source changes nothing of what is known of it. -/
theorem Tracks.of_eq (h : Tracks burst interval l source)
    (hsources : l'.sources source = l.sources source) (hlog : l'.log source = l.log source)
    (hclock : l.clock ≤ l'.clock) : Tracks burst interval l' source where
  verdicts := by
    rw [hlog]
    exact h.verdicts
  sorted := by
    rw [hlog]
    exact h.sorted
  past := by
    rw [hlog]
    exact fun t ht => Nat.le_trans (h.past t ht) hclock
  known := by
    rw [hlog, hsources]
    exact h.known
  forgotten := by
    rw [hlog, hsources]
    exact fun hnone => (h.forgotten hnone).mono hclock
  accountable := by
    rw [hlog, Limiter.pending, hsources]
    exact h.accountable

/-- A check of the source itself. -/
theorem Tracks.check (hburst : 1 ≤ burst) (hinterval : 0 < interval)
    (h : Tracks burst interval l source) (hkeeps : Keeps interval l (.check source now))
    (hnow : l.clock ≤ now) (hstep : step burst interval l (.check source now) = some l') :
    Tracks burst interval l' source := by
  obtain ⟨result, state, hcheck, hnext, hsuppressed, hverdict, hcount⟩ :=
    @check_spec burst interval now source l.sources _ hburst hinterval
      (fun state hstate => ⟨(h.known state hstate).1, (h.known state hstate).2,
        hkeeps state hstate⟩)
      (fun hnone v hv => (h.forgotten hnone).mono hnow v hv)
  rw [step, if_neg (Nat.not_lt.mpr hnow), hcheck] at hstep
  cases hstep
  have htimes : times (Function.update l.log source (l.log source ++ [(now, result)]) source) =
      times (l.log source) ++ [now] := by
    rw [Function.update_self, times_append]
    rfl
  have hlog := Function.update_self source (l.log source ++ [(now, result)]) l.log
  have hsource := Function.update_self source (some state) l.sources
  refine ⟨?_, ?_, ?_, ?_, ?_, ?_⟩
  · dsimp only
    rw [htimes, hlog, List.map_append, h.verdicts, verdictsFrom_append]
    congr 1
    have hfold : (times (l.log source)).foldl (fun w t => some (Window.next interval w t)) none =
        windowAfter interval (times (l.log source)) := rfl
    have hacc : decide (result ≠ .suppressed) = decide (state.count ≤ burst) :=
      decide_eq_decide.mpr (by rw [Ne, hverdict, Decidable.not_not])
    rw [hfold, verdictsFrom, hnext, verdictsFrom, ← hacc]
    rfl
  · dsimp only
    rw [htimes]
    refine List.pairwise_append.mpr ⟨h.sorted, List.pairwise_singleton _ _, ?_⟩
    intro t ht t' ht'
    rw [List.mem_singleton.mp ht']
    exact Nat.le_trans (h.past t ht) hnow
  · dsimp only
    rw [htimes]
    intro t ht
    rcases List.mem_append.mp ht with ht | ht
    · exact Nat.le_trans (h.past t ht) hnow
    · exact Nat.le_of_eq (List.mem_singleton.mp ht)
  · dsimp only
    rw [htimes, hsource]
    intro state' hstate'
    cases hstate'
    rw [windowAfter_concat, hnext]
    exact ⟨rfl, hsuppressed⟩
  · dsimp only
    rw [hsource]
    intro hnone
    cases hnone
  · dsimp only [Limiter.pending]
    rw [hlog, hsource, List.countP_append, h.accountable, Limiter.pending, List.map_append,
      List.sum_append]
    simp only [List.countP_singleton, List.map_cons, List.map_nil, List.sum_singleton,
      Option.map_some, Option.getD_some, decide_eq_true_eq]
    omega

theorem gc_apply (maxAge : ℕ) (sources : Sources) (source : String) :
    gc maxAge now sources source =
      (sources source).filter fun state => now - state.windowStart < maxAge := rfl

/-- A collection that keeps the windows: what it removes is a window that has elapsed. -/
theorem Tracks.gc (h : Tracks burst interval l source) (hkeeps : Keeps interval l (.gc now))
    (hnow : l.clock ≤ now) :
    Tracks burst interval ⟨gc gcMaxAge now l.sources, now, l.log⟩ source := by
  cases hsource : l.sources source with
  | none =>
    refine h.of_eq ?_ rfl hnow
    dsimp only
    rw [gc_apply, hsource]
    rfl
  | some state =>
    by_cases hyoung : now - state.windowStart < gcMaxAge
    · refine h.of_eq ?_ rfl hnow
      dsimp only
      rw [gc_apply, hsource, Option.filter_some, if_pos (decide_eq_true hyoung)]
    · obtain ⟨hsuppressed, helapsed⟩ := hkeeps source state hsource (Nat.le_of_not_lt hyoung)
      have hremoved : RateLimit.gc gcMaxAge now l.sources source = none := by
        rw [gc_apply, hsource, Option.filter_some, if_neg (by simpa using hyoung)]
      refine ⟨h.verdicts, h.sorted, fun t ht => Nat.le_trans (h.past t ht) hnow, ?_, ?_, ?_⟩
      · intro state' hstate'
        cases hremoved.symm.trans hstate'
      · intro _ w hw
        rw [(h.known state hsource).1] at hw
        cases hw
        show state.windowStart + interval ≤ now
        -- the window has started before, since it is of one of the messages
        obtain ⟨before, after, htimes, -⟩ := windowAfter_eq_some (h.known state hsource).1
        have hpast := h.past state.windowStart (by rw [htimes]; simp)
        omega
      · have hpending := h.accountable
        rw [Limiter.pending, hsource] at hpending
        dsimp only [Limiter.pending]
        rw [hremoved, hpending]
        simp [hsuppressed]

/-- What is known of a source after a step that keeps the windows. -/
theorem Tracks.step (hburst : 1 ≤ burst) (hinterval : 0 < interval) {a : Action}
    (h : Tracks burst interval l source) (hkeeps : Keeps interval l a)
    (hstep : step burst interval l a = some l') : Tracks burst interval l' source := by
  cases a with
  | check other now =>
    by_cases hnow : now < l.clock
    · rw [RateLimit.step, if_pos hnow] at hstep
      cases hstep
    · by_cases heq : source = other
      · subst heq
        exact h.check hburst hinterval hkeeps (Nat.le_of_not_lt hnow) hstep
      · rw [RateLimit.step, if_neg hnow] at hstep
        cases hstep
        refine h.of_eq ?_ (Function.update_of_ne heq _ _) (Nat.le_of_not_lt hnow)
        exact check_of_ne heq
  | gc now =>
    by_cases hnow : now < l.clock
    · rw [RateLimit.step, if_pos hnow] at hstep
      cases hstep
    · rw [RateLimit.step, if_neg hnow] at hstep
      cases hstep
      exact h.gc hkeeps (Nat.le_of_not_lt hnow)

/-! ## What follows for the results -/

/-- The verdicts of some messages are those of the first ones and those behind them. -/
theorem verdicts_append {w : Option Window} {a b : List (ℕ × RateLimitResult)}
    (h : (a ++ b).map verdict = verdictsFrom burst interval w (times (a ++ b))) :
    a.map verdict = verdictsFrom burst interval w (times a) ∧
      b.map verdict = verdictsFrom burst interval
        ((times a).foldl (fun w t => some (Window.next interval w t)) w) (times b) := by
  rw [times_append, List.map_append, verdictsFrom_append] at h
  refine List.append_inj h ?_
  have hlen := congrArg List.length (@map_fst_verdictsFrom burst interval w (times a))
  rw [List.length_map] at hlen
  rw [hlen, times, List.length_map, List.length_map]

theorem Tracks.exact (hburst : 1 ≤ burst) (h : Tracks burst interval l source) :
    Exact burst interval (l.log source) (l.pending source) where
  burst_le := by
    intro before m after hlog hopens
    have hverdicts := h.verdicts
    have hsorted := h.sorted
    rw [hlog] at hverdicts hsorted
    obtain ⟨-, hbehind⟩ := verdicts_append hverdicts
    rw [times_append] at hsorted
    have hle := @countP_le_of_opens burst interval m.1 (times before) (times after) hopens
      (List.pairwise_append.mp hsorted).2.1
    rw [times_cons] at hbehind
    rw [windowAfter, ← hbehind, List.countP_map] at hle
    refine Nat.le_trans (Nat.le_of_eq ?_) hle
    refine List.countP_congr fun m' _ => ?_
    simp [verdict]
  full := by
    intro before m after hlog hm
    have hverdicts := h.verdicts
    rw [hlog] at hverdicts
    obtain ⟨-, hbehind⟩ := verdicts_append hverdicts
    have hrejected : ¬(Window.next interval (windowAfter interval (times before)) m.1).count ≤
        burst := by
      have hhead := congrArg (fun l => l.head?) hbehind
      rw [times_cons, List.map_cons, verdictsFrom, List.head?_cons, List.head?_cons,
        Option.some_inj, verdict, Prod.mk.injEq, decide_eq_decide] at hhead
      exact fun hle => hhead.2.mpr hle hm
    obtain ⟨front, o, mid, hbefore, hopens, hlt, hfull⟩ := full_of_rejected hburst hrejected
    obtain ⟨front', rest, rfl, rfl, hrest⟩ := List.map_eq_append_iff.mp hbefore
    obtain ⟨o', mid', rfl, rfl, rfl⟩ := List.map_eq_cons_iff.mp hrest
    refine ⟨front', o', mid', rfl, hopens, hlt, ?_⟩
    obtain ⟨hwindow, -⟩ := verdicts_append hverdicts
    obtain ⟨-, hwindow⟩ := verdicts_append hwindow
    rw [windowAfter] at hfull
    rw [times_cons, times, times] at hwindow
    rw [← hwindow, List.countP_map] at hfull
    rw [← hfull]
    refine List.countP_congr fun m' _ => ?_
    simp [verdict]
  accountable := h.accountable

/-- Limits are exact and every suppression is accounted for, in every run whose steps keep the
    windows. -/
theorem rateLimit_exact (hburst : 1 ≤ burst) (hinterval : 0 < interval) (actions : List Action)
    (hkeeps : RunMeets (step burst interval) (Keeps interval) start actions)
    (hrun : run (step burst interval) start actions = some l) (source : String) :
    Exact burst interval (l.log source) (l.pending source) := by
  have htracks : Tracks burst interval l source :=
    run_inv_of_meets (P := (Tracks burst interval · source))
      (fun _ _ _ h hok hstep => h.step hburst hinterval hok hstep) actions
      (Tracks.start source) hkeeps hrun
  exact htracks.exact hburst

/-- Bursts of one message in 30 s: the second is suppressed, and the limiter accepts the next
    one, 30 s later. -/
theorem rateLimit_exact_two : ∃ l, run (step 1 (30 * 10 ^ 9)) start
      [.check "a" 0, .check "a" 1, .gc 2, .check "a" (30 * 10 ^ 9)] = some l ∧
    Exact 1 (30 * 10 ^ 9) (l.log "a") (l.pending "a") := by
  obtain ⟨l, hl⟩ : ∃ l, run (step 1 (30 * 10 ^ 9)) start
      [.check "a" 0, .check "a" 1, .gc 2, .check "a" (30 * 10 ^ 9)] = some l := ⟨_, rfl⟩
  refine ⟨l, hl, rateLimit_exact (by decide) (by decide) _ ?_ hl "a"⟩
  refine .cons ?_ rfl (.cons ?_ rfl (.cons ?_ rfl (.cons ?_ rfl trivial)))
  · intro state hstate
    cases hstate
  · intro state hstate
    rw [← Option.some.inj hstate]
    decide
  · intro source state _ hage
    simp only [gcMaxAge] at hage
    omega
  · intro state hstate
    rw [← Option.some.inj hstate]
    decide

/-- The collection forgets what was suppressed: bursts of one message in 30 s, of which a second
    one is suppressed, and a collection after 600 s. -/
theorem gc_loses_suppressed : ¬∀ (burst interval : ℕ) (actions : List Action) (l : Limiter),
    1 ≤ burst → 0 < interval → run (step burst interval) start actions = some l →
      ∀ source, Exact burst interval (l.log source) (l.pending source) := by
  intro h
  have hexact := h 1 (30 * 10 ^ 9) [.check "a" 0, .check "a" 1, .gc (600 * 10 ^ 9)] _
    (by decide) (by decide) rfl "a"
  exact absurd hexact.accountable (by decide)

end OxidizedSystemd.Journal.RateLimit

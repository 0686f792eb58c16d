import OxidizedSystemd.Timers.Scheduler

/-!
# The one-shot settings of a timer

Results about `OnBootSec=`, `OnStartupSec=` and `OnActiveSec=` in `should_fire_timer`
(`timer_scheduler.rs`, lines 437–489), over the runs of the scheduler. Each of their durations is
one setting, with a deadline of its own. But the settings of a timer share the instant at which
the timer fired last, and a setting only elapses while there is no such instant. Other sources of
the timer set it too, as do the seed of a `Persistent=` timer and the anchors of
`DeferReactivation=`.

* `Fired.step`: a timer that has fired stays so.
* `firesOnce_iff`: a setting fires exactly once if nothing has set the instant before the first
    tick at or after its deadline, and otherwise never.
-/

namespace OxidizedSystemd.Timers

open OxidizedSystemd.Lib OxidizedSystemd.Units

deriving instance DecidableEq for TimerConfig

/-! ## Settings -/

/-- The durations of the settings that fire once. -/
def TimerConfig.oneShots (conf : TimerConfig) : List ℕ :=
  conf.onBootSec ++ conf.onStartupSec ++ conf.onActiveSec

/-- When a setting is to fire, counted from the boot also for `OnActiveSec=`. -/
def deadline (hash : Text → Bool → ℕ) (conf : TimerConfig) (timerName : Text) (dur : ℕ) : ℕ :=
  dur + computeRandomizedDelay hash conf timerName

/-- The check of one setting in the loops of `should_fire_timer` (lines 457–489). -/
def oneShotElapsed (clocks : Clocks) (last : Option ℕ) (delay dur : ℕ) : Bool :=
  clocks.now ≥ dur + delay && last.isNone

/-- A setting that elapses makes the timer fire. -/
theorem shouldFireTimer_of_oneShotElapsed {hash : Text → Bool → ℕ} {conf : TimerConfig}
    {timerName : Text} {clocks : Clocks} {lastFired : Instants} {dur : ℕ}
    (hdur : dur ∈ conf.oneShots)
    (h : oneShotElapsed clocks (lastFired.lookup timerName)
      (computeRandomizedDelay hash conf timerName) dur = true) :
    shouldFireTimer hash conf timerName clocks lastFired = true := by
  have hone : (conf.onBootSec ++ conf.onStartupSec).any (oneShotElapsed clocks
        (lastFired.lookup timerName) (computeRandomizedDelay hash conf timerName)) = true ∨
      conf.onActiveSec.any (oneShotElapsed clocks
        (lastFired.lookup timerName) (computeRandomizedDelay hash conf timerName)) = true := by
    rw [List.any_eq_true, List.any_eq_true]
    exact (List.mem_append.mp hdur).imp (fun hmem => ⟨dur, hmem, h⟩) fun hmem => ⟨dur, hmem, h⟩
  unfold oneShotElapsed at hone
  unfold shouldFireTimer
  simp only [Bool.or_eq_true]
  tauto

/-! ## Passes -/

/-- A tick that finds a timer running: what it reads, and the `LastTriggerUSec` of the timer. -/
structure Pass where
  system : System
  clocks : Clocks
  lastTriggerUsec : Option ℕ

/-- The `LastTriggerUSec` of a timer that runs with a configuration. -/
def System.running (s : System) (timerName : Text) (conf : TimerConfig) : Option (Option ℕ) :=
  match findUnit s.unitTable timerName with
  | some ⟨_, .started .running, .timer conf' lastTriggerUsec⟩ =>
    if conf' = conf then some lastTriggerUsec else none
  | _ => none

/-- The pass over a timer in a section of the scheduler. A tick that finds the lock busy has
    none. -/
def System.pass (s : System) (timerName : Text) (conf : TimerConfig) : Action → Option Pass
  | .tick clocks false => (s.running timerName conf).map fun usec => ⟨s, clocks, usec⟩
  | _ => none

/-- The passes over a timer with a configuration in a run. -/
def passes (hash : Text → Bool → ℕ) (timerName : Text) (conf : TimerConfig) :
    System → List Action → List Pass
  | _, [] => []
  | s, a :: as =>
    match s.step hash a with
    | none => []
    | some s' => (s.pass timerName conf a).toList ++ passes hash timerName conf s' as

namespace Pass

variable (timerName : Text) (conf : TimerConfig) (p : Pass)

/-- `DeferReactivation=` ends the loop body before `should_fire_timer` (lines 329–359). -/
def deferred : Bool :=
  conf.deferReactivation &&
    match p.system.deferSeenActive.lookup timerName with
    | none => true
    | some seen => targetActive p.system.unitTable conf.unit || seen

/-- The last instant with which `should_fire_timer` is called. -/
def last : Option ℕ :=
  (seedPersistent conf timerName p.lastTriggerUsec p.clocks p.system.lastFired).lookup timerName

/-- `should_fire_timer` is called, and reports an elapse for the setting. -/
def reports (hash : Text → Bool → ℕ) (dur : ℕ) : Bool :=
  !p.deferred timerName conf &&
    oneShotElapsed p.clocks (p.last timerName conf) (computeRandomizedDelay hash conf timerName) dur

/-- The timer is not held back, and has no last instant. -/
def Ready : Prop := p.deferred timerName conf = false ∧ p.last timerName conf = none

instance Ready.decidable : Decidable (p.Ready timerName conf) :=
  inferInstanceAs (Decidable (_ ∧ _))

end Pass

/-- The setting elapses at the first pass at or after its deadline, and at no other pass. -/
def FiresOnce (hash : Text → Bool → ℕ) (timerName : Text) (conf : TimerConfig) (dur : ℕ) :
    List Pass → Prop
  | [] => True
  | p :: ps =>
    if deadline hash conf timerName dur ≤ p.clocks.now then
      p.reports timerName conf hash dur = true ∧
        ∀ q ∈ ps, q.reports timerName conf hash dur = false
    else p.reports timerName conf hash dur = false ∧ FiresOnce hash timerName conf dur ps

/-- At the first pass at or after the deadline of the setting, the timer is not held back and
    has no last instant. -/
def ReadyAtDeadline (hash : Text → Bool → ℕ) (timerName : Text) (conf : TimerConfig) (dur : ℕ) :
    List Pass → Prop
  | [] => True
  | p :: ps =>
    if deadline hash conf timerName dur ≤ p.clocks.now then p.Ready timerName conf
    else ReadyAtDeadline hash timerName conf dur ps

/-! ## What a tick keeps -/

section Collect

variable {hash : Text → Bool → ℕ} {clocks : Clocks} {table : UnitTable} {timerName : Text}

theorem seedPersistent_eq (conf : TimerConfig) (name : Text) (usec : Option ℕ) (clocks : Clocks)
    (lastFired : Instants) :
    seedPersistent conf name usec clocks lastFired = lastFired ∨
      seedPersistent conf name usec clocks lastFired = lastFired.insert name 0 := by
  unfold seedPersistent
  split_ifs with hseed
  · cases usec with
    | none => exact .inl rfl
    | some usec =>
      dsimp only
      split_ifs with hold
      · exact .inr rfl
      · exact .inl rfl
  · exact .inl rfl

theorem seedPersistent_lookup_ne {conf : TimerConfig} {name : Text} {usec : Option ℕ}
    {lastFired : Instants} (hne : timerName ≠ name) :
    (seedPersistent conf name usec clocks lastFired).lookup timerName =
      lastFired.lookup timerName := by
  obtain heq | heq := seedPersistent_eq conf name usec clocks lastFired
  · rw [heq]
  · rw [heq, AList.lookup_insert_ne hne]

theorem isSome_lookup_insert {lastFired : Instants} (name : Text) (now : ℕ)
    (h : (lastFired.lookup timerName).isSome) :
    ((lastFired.insert name now).lookup timerName).isSome := by
  by_cases hname : timerName = name
  · rw [hname, AList.lookup_insert]
    rfl
  · rw [AList.lookup_insert_ne hname]
    exact h

theorem isSome_lookup_seedPersistent {conf : TimerConfig} {name : Text} {usec : Option ℕ}
    {lastFired : Instants} (h : (lastFired.lookup timerName).isSome) :
    ((seedPersistent conf name usec clocks lastFired).lookup timerName).isSome := by
  obtain heq | heq := seedPersistent_eq conf name usec clocks lastFired
  · rw [heq]
    exact h
  · rw [heq]
    exact isSome_lookup_insert name 0 h

theorem seedPersistent_lookup_congr {conf : TimerConfig} {usec : Option ℕ}
    {lastFired lastFired' : Instants}
    (h : lastFired.lookup timerName = lastFired'.lookup timerName) :
    (seedPersistent conf timerName usec clocks lastFired).lookup timerName =
      (seedPersistent conf timerName usec clocks lastFired').lookup timerName := by
  unfold seedPersistent
  rw [h]
  split_ifs
  · cases usec with
    | none => exact h
    | some usec =>
      dsimp only
      split_ifs
      · rw [AList.lookup_insert, AList.lookup_insert]
      · exact h
  · exact h

/-- What the loop body does to what it collects: the last instants and the timers to fire only
    grow, and those of other timers are left alone. -/
structure Collected.Grows (name : Text) (c c' : Collected) : Prop where
  lastFired : ∀ timerName, (c.lastFired.lookup timerName).isSome →
    (c'.lastFired.lookup timerName).isSome
  timersToFire : c.timersToFire ⊆ c'.timersToFire
  lastFired_ne : ∀ timerName, timerName ≠ name →
    c'.lastFired.lookup timerName = c.lastFired.lookup timerName
  deferSeenActive_ne : ∀ timerName, timerName ≠ name →
    c'.deferSeenActive.lookup timerName = c.deferSeenActive.lookup timerName

namespace Collected.Grows

variable {name : Text} {c c' c'' : Collected}

theorem refl (name : Text) (c : Collected) : Grows name c c :=
  ⟨fun _ h => h, List.Subset.refl _, fun _ _ => rfl, fun _ _ => rfl⟩

theorem trans (h : Grows name c c') (h' : Grows name c' c'') : Grows name c c'' where
  lastFired timerName hlast := h'.lastFired timerName (h.lastFired timerName hlast)
  timersToFire := List.Subset.trans h.timersToFire h'.timersToFire
  lastFired_ne timerName hne :=
    (h'.lastFired_ne timerName hne).trans (h.lastFired_ne timerName hne)
  deferSeenActive_ne timerName hne :=
    (h'.deferSeenActive_ne timerName hne).trans (h.deferSeenActive_ne timerName hne)

theorem seed (conf : TimerConfig) (usec : Option ℕ) (clocks : Clocks) :
    Grows name c { c with lastFired := seedPersistent conf name usec clocks c.lastFired } where
  lastFired _ h := isSome_lookup_seedPersistent h
  timersToFire := List.Subset.refl _
  lastFired_ne _ hne := seedPersistent_lookup_ne hne
  deferSeenActive_ne _ _ := rfl

theorem anchor (now : ℕ) : Grows name c { c with lastFired := c.lastFired.insert name now } where
  lastFired _ h := isSome_lookup_insert name now h
  timersToFire := List.Subset.refl _
  lastFired_ne _ hne := AList.lookup_insert_ne hne
  deferSeenActive_ne _ _ := rfl

theorem seenActive (seen : Bool) :
    Grows name c { c with deferSeenActive := c.deferSeenActive.insert name seen } where
  lastFired _ h := h
  timersToFire := List.Subset.refl _
  lastFired_ne _ _ := rfl
  deferSeenActive_ne _ hne := AList.lookup_insert_ne hne

theorem fireIfElapsed (conf : TimerConfig) :
    Grows name c (c.fireIfElapsed hash clocks conf name) := by
  unfold Collected.fireIfElapsed
  split_ifs
  · exact ⟨fun _ h => h, List.subset_append_left _ _, fun _ _ => rfl, fun _ _ => rfl⟩
  · exact refl name c

end Collected.Grows

theorem Collected.grows_check (hash : Text → Bool → ℕ) (clocks : Clocks) (table : UnitTable)
    (c : Collected) (u : TimerUnit) :
    Collected.Grows u.name c (c.check hash clocks table u) := by
  unfold Collected.check
  cases u.specific with
  | other => exact .refl u.name c
  | timer conf usec =>
    by_cases hrunning : u.status = .started .running
    · simp only [if_pos hrunning]
      apply (Grows.seed conf usec clocks).trans
      by_cases hdefer : conf.deferReactivation = true
      · rw [if_pos hdefer]
        split
        · exact (Grows.anchor clocks.now).trans (.seenActive false)
        · split_ifs with hactive hseen
          · exact .seenActive true
          · exact (Grows.anchor clocks.now).trans (.seenActive false)
          · exact .fireIfElapsed conf
      · rw [if_neg hdefer]
        exact .fireIfElapsed conf
    · simp only [if_neg hrunning]
      exact .refl u.name c

/-- The loop over the units keeps that a timer has a last instant, and what is to fire. -/
theorem Collected.foldl_check_grows (timerName : Text) (units : UnitTable) (c : Collected) :
    ((c.lastFired.lookup timerName).isSome →
        ((units.foldl (Collected.check hash clocks table) c).lastFired.lookup timerName).isSome) ∧
      c.timersToFire ⊆ (units.foldl (Collected.check hash clocks table) c).timersToFire := by
  induction units generalizing c with
  | nil => exact ⟨id, List.Subset.refl _⟩
  | cons u units ih =>
    have hgrows := c.grows_check hash clocks table u
    obtain ⟨hlast, hfire⟩ := ih (c.check hash clocks table u)
    exact ⟨fun h => hlast (hgrows.lastFired timerName h),
      List.Subset.trans hgrows.timersToFire hfire⟩

/-- The loop over the units leaves alone what it collects about a timer that is not among
    them. -/
theorem Collected.foldl_check_ne (hash : Text → Bool → ℕ) (clocks : Clocks)
    (table units : UnitTable) (c : Collected) (hne : ∀ u ∈ units, u.name ≠ timerName) :
    (units.foldl (Collected.check hash clocks table) c).lastFired.lookup timerName =
        c.lastFired.lookup timerName ∧
      (units.foldl (Collected.check hash clocks table) c).deferSeenActive.lookup timerName =
        c.deferSeenActive.lookup timerName := by
  induction units generalizing c with
  | nil => exact ⟨rfl, rfl⟩
  | cons u units ih =>
    have hgrows := c.grows_check hash clocks table u
    have hu : timerName ≠ u.name := (hne u List.mem_cons_self).symm
    obtain ⟨hlast, hseen⟩ :=
      ih (c.check hash clocks table u) fun v hv => hne v (List.mem_cons_of_mem u hv)
    exact ⟨hlast.trans (hgrows.lastFired_ne timerName hu),
      hseen.trans (hgrows.deferSeenActive_ne timerName hu)⟩

end Collect

/-! ## What a pass reports -/

section Passes

variable {hash : Text → Bool → ℕ} {timerName : Text} {conf : TimerConfig} {s s' : System}
  {p : Pass} {dur : ℕ}

/-- The loop body on the timer, unless `DeferReactivation=` ends it. -/
theorem Pass.check_eq {c : Collected}
    (hlast : c.lastFired.lookup timerName = p.system.lastFired.lookup timerName)
    (hseen : c.deferSeenActive.lookup timerName = p.system.deferSeenActive.lookup timerName)
    (hdeferred : p.deferred timerName conf = false) :
    ∃ lastFired : Instants, lastFired.lookup timerName = p.last timerName conf ∧
      c.check hash p.clocks p.system.unitTable
          ⟨timerName, .started .running, .timer conf p.lastTriggerUsec⟩ =
        Collected.fireIfElapsed hash p.clocks conf timerName { c with lastFired := lastFired } := by
  refine ⟨seedPersistent conf timerName p.lastTriggerUsec p.clocks c.lastFired,
    seedPersistent_lookup_congr hlast, ?_⟩
  simp only [Collected.check, if_pos]
  by_cases hdefer : conf.deferReactivation = true
  · rw [Pass.deferred, hdefer, Bool.true_and] at hdeferred
    rw [if_pos hdefer, hseen]
    cases hlookup : p.system.deferSeenActive.lookup timerName with
    | none =>
      rw [hlookup] at hdeferred
      cases hdeferred
    | some seen =>
      rw [hlookup] at hdeferred
      obtain ⟨hactive, rfl⟩ := Bool.or_eq_false_iff.mp hdeferred
      simp [hactive]
  · rw [if_neg hdefer]

/-- The timer of a pass, and the units before it. -/
theorem System.running_eq_some {usec : Option ℕ} (h : s.running timerName conf = some usec) :
    ∃ before after, s.unitTable =
        before ++ ⟨timerName, .started .running, .timer conf usec⟩ :: after ∧
      ∀ u ∈ before, u.name ≠ timerName := by
  unfold System.running at h
  split at h
  · rename_i name conf' usec' hfind
    split_ifs at h with hconf
    obtain rfl := Option.some.inj h
    obtain ⟨hname, before, after, htable, hbefore⟩ := List.find?_eq_some_iff_append.mp hfind
    obtain rfl : name = timerName := of_decide_eq_true hname
    subst hconf
    refine ⟨before, after, htable, fun u hu => ?_⟩
    simpa using hbefore u hu
  · cases h

theorem System.pass_eq_some {a : Action} (h : s.pass timerName conf a = some p) :
    a = .tick p.clocks false ∧ p.system = s ∧
      s.running timerName conf = some p.lastTriggerUsec := by
  unfold System.pass at h
  split at h
  · obtain ⟨usec, husec, rfl⟩ := Option.map_eq_some_iff.mp h
    exact ⟨rfl, rfl, husec⟩
  · cases h

/-- A pass that reports a setting makes the timer fire. -/
theorem Pass.mem_timersToFire (hdur : dur ∈ conf.oneShots)
    (hrunning : p.system.running timerName conf = some p.lastTriggerUsec)
    (h : p.reports timerName conf hash dur = true) :
    ⟨timerName, conf.unit⟩ ∈ (p.system.collect hash p.clocks).timersToFire := by
  obtain ⟨hdeferred, helapsed⟩ := Bool.and_eq_true_iff.mp h
  rw [Bool.not_eq_true'] at hdeferred
  obtain ⟨before, after, htable, hbefore⟩ := System.running_eq_some hrunning
  -- up to the timer, the loop leaves alone what it knows about it
  obtain ⟨hlast, hseen⟩ := Collected.foldl_check_ne hash p.clocks p.system.unitTable before
    ⟨p.system.lastFired, p.system.deferSeenActive, []⟩ hbefore
  obtain ⟨lastFired, hlastFired, hcheck⟩ := Pass.check_eq hlast hseen hdeferred
  have hfire : shouldFireTimer hash conf timerName p.clocks lastFired = true :=
    shouldFireTimer_of_oneShotElapsed hdur (by rw [hlastFired]; exact helapsed)
  unfold System.collect
  nth_rewrite 2 [htable]
  rw [List.foldl_append, List.foldl_cons, hcheck, Collected.fireIfElapsed, if_pos hfire]
  apply (Collected.foldl_check_grows timerName after _).2
  exact List.mem_append_right _ (List.mem_singleton_self _)

/-- A setting elapses at a pass exactly if its deadline is over, the timer is not held back and
    it has no last instant. -/
theorem Pass.reports_iff : p.reports timerName conf hash dur = true ↔
    deadline hash conf timerName dur ≤ p.clocks.now ∧ p.Ready timerName conf := by
  unfold Pass.reports oneShotElapsed deadline Pass.Ready
  simp only [Bool.and_eq_true, Bool.not_eq_true', decide_eq_true_eq, Option.isNone_iff_eq_none,
    ge_iff_le]
  tauto

/-! ## Runs -/

/-- The timer has fired, or is about to. -/
def Fired (timerName : Text) (s : System) : Prop :=
  (s.lastFired.lookup timerName).isSome ∨ ∃ e ∈ s.phase.pending, e.timer = timerName

/-- At a tick nothing is left to fire: a timer that has fired is recorded. -/
theorem Fired.of_tick {clocks : Clocks} {busy : Bool} (hs : Fired timerName s)
    (h : s.step hash (.tick clocks busy) = some s') : (s.lastFired.lookup timerName).isSome := by
  obtain ⟨⟨now, hphase⟩, -⟩ := System.step_tick h
  obtain hlast | ⟨e, he, -⟩ := hs
  · exact hlast
  · rw [hphase] at he
    cases he

theorem Fired.step {a : Action} (hs : Fired timerName s) (h : s.step hash a = some s') :
    Fired timerName s' := by
  cases a with
  | others table =>
    obtain rfl := Option.some.inj h
    exact hs
  | tick clocks busy =>
    have hlast := hs.of_tick h
    obtain ⟨-, rfl⟩ := System.step_tick h
    split_ifs
    · exact hs
    · exact .inl ((Collected.foldl_check_grows timerName s.unitTable _).1 hlast)
  | record wall =>
    obtain ⟨now, e, rest, hphase, rfl⟩ := System.step_record h
    obtain hlast | ⟨e', he', hname⟩ := hs
    · exact .inl (isSome_lookup_insert e.timer now hlast)
    · rw [hphase] at he'
      obtain rfl | he' := List.mem_cons.mp he'
      · left
        show ((s.lastFired.insert e'.timer now).lookup timerName).isSome
        rw [hname, AList.lookup_insert]
        rfl
      · exact .inr ⟨e', he', hname⟩
  | fire busy =>
    obtain ⟨now, e, rest, hphase, houtcome⟩ := System.step_fire h
    unfold Fired at hs
    rw [hphase] at hs
    obtain ⟨-, rfl⟩ | ⟨-, attempt, -, rfl⟩ | ⟨-, -, rfl⟩ := houtcome
    · exact hs
    · exact hs
    · exact hs
  | lookAgain =>
    obtain ⟨now, e, rest, hphase, houtcome⟩ := System.step_lookAgain h
    unfold Fired at hs
    rw [hphase] at hs
    obtain ⟨-, rfl⟩ | ⟨-, rfl⟩ := houtcome
    · exact hs
    · exact hs

/-- Once a timer has fired, none of its settings elapses. -/
theorem Fired.not_reports (hs : Fired timerName s) (dur : ℕ) (as : List Action) :
    ∀ p ∈ passes hash timerName conf s as, p.reports timerName conf hash dur = false := by
  induction as generalizing s with
  | nil =>
    intro p hp
    cases hp
  | cons a as ih =>
    intro p hp
    unfold passes at hp
    cases hstep : s.step hash a with
    | none =>
      rw [hstep] at hp
      cases hp
    | some s' =>
      rw [hstep] at hp
      obtain hp | hp := List.mem_append.mp hp
      · obtain ⟨rfl, rfl, -⟩ := System.pass_eq_some (Option.mem_toList.mp hp)
        have hlast : (p.last timerName conf).isSome :=
          isSome_lookup_seedPersistent (hs.of_tick hstep)
        rw [Bool.eq_false_iff, ne_eq, Pass.reports_iff]
        rintro ⟨-, -, hnone⟩
        rw [hnone] at hlast
        cases hlast
      · exact ih (hs.step hstep) p hp

/-- A pass that reports a setting is followed by a fire. -/
theorem Pass.fired_of_reports (hdur : dur ∈ conf.oneShots)
    (hrunning : p.system.running timerName conf = some p.lastTriggerUsec)
    (hstep : p.system.step hash (.tick p.clocks false) = some s')
    (h : p.reports timerName conf hash dur = true) : Fired timerName s' := by
  obtain ⟨-, rfl⟩ := System.step_tick hstep
  exact .inr ⟨⟨timerName, conf.unit⟩, Pass.mem_timersToFire hdur hrunning h, rfl⟩

end Passes

/-- A setting fires at the first pass at or after its deadline and at no other, exactly if the
    timer is not held back there and has no last instant, of a setting or of anything else. -/
theorem firesOnce_iff {hash : Text → Bool → ℕ} {timerName : Text} {conf : TimerConfig} {dur : ℕ}
    (hdur : dur ∈ conf.oneShots) (s : System) (as : List Action) :
    FiresOnce hash timerName conf dur (passes hash timerName conf s as) ↔
      ReadyAtDeadline hash timerName conf dur (passes hash timerName conf s as) := by
  induction as generalizing s with
  | nil => exact Iff.rfl
  | cons a as ih =>
    unfold passes
    cases hstep : s.step hash a with
    | none => exact Iff.rfl
    | some s' =>
      dsimp only
      cases hpass : s.pass timerName conf a with
      | none => exact ih s'
      | some p =>
        obtain ⟨rfl, rfl, hrunning⟩ := System.pass_eq_some hpass
        show FiresOnce hash timerName conf dur (p :: passes hash timerName conf s' as) ↔
          ReadyAtDeadline hash timerName conf dur (p :: passes hash timerName conf s' as)
        unfold FiresOnce ReadyAtDeadline
        by_cases hdeadline : deadline hash conf timerName dur ≤ p.clocks.now
        · rw [if_pos hdeadline, if_pos hdeadline]
          constructor
          · exact fun h => (Pass.reports_iff.mp h.1).2
          · intro hready
            have hreports := Pass.reports_iff.mpr ⟨hdeadline, hready⟩
            exact ⟨hreports,
              (Pass.fired_of_reports hdur hrunning hstep hreports).not_reports dur as⟩
        · rw [if_neg hdeadline, if_neg hdeadline, ← ih s']
          apply and_iff_right
          rw [Bool.eq_false_iff, ne_eq, Pass.reports_iff]
          exact fun h => hdeadline h.1

/-- `a.timer`, with `OnBootSec=1s 10s`. -/
def twiceConf : TimerConfig :=
  { onBootSec := [1000000000, 10000000000], unit := "a.service".toList }

def twiceSystem : System where
  unitTable := [⟨"a.timer".toList, .started .running, .timer twiceConf none⟩,
    ⟨"a.service".toList, .neverStarted, .other⟩]

theorem initial_twiceSystem : Initial twiceSystem := ⟨⟨0, rfl⟩, rfl, rfl, rfl⟩

/-- Ticks half a second, two and eleven seconds after the boot. -/
def twiceRun : List Action :=
  [.tick (readClocks 500000000) false, .tick (readClocks 2000000000) false, .record 2000000000,
    .fire false, .tick (readClocks 11000000000) false]

theorem firesOnce_iff_first :
    1000000000 ∈ twiceConf.oneShots ∧
      FiresOnce (fun _ _ => 0) "a.timer".toList twiceConf 1000000000
        (passes (fun _ _ => 0) "a.timer".toList twiceConf twiceSystem twiceRun) := by
  have hdur : 1000000000 ∈ twiceConf.oneShots := by decide
  have hready : ReadyAtDeadline (fun _ _ => 0) "a.timer".toList twiceConf 1000000000
      (passes (fun _ _ => 0) "a.timer".toList twiceConf twiceSystem twiceRun) :=
    show Pass.Ready _ _ _ by decide
  exact ⟨hdur, (firesOnce_iff hdur twiceSystem twiceRun).mpr hready⟩

/-- The second setting does not fire after the first. -/
theorem second_setting_lost : ¬ ∀ (hash : Text → Bool → ℕ) (timerName : Text) (conf : TimerConfig)
    (s : System) (as : List Action), Initial s →
      ((passes hash timerName conf s as).map fun p => p.clocks.now).Pairwise (· ≤ ·) →
        ∀ dur ∈ conf.oneShots,
          FiresOnce hash timerName conf dur (passes hash timerName conf s as) := by
  intro h
  have hnow : ((passes (fun _ _ => 0) "a.timer".toList twiceConf twiceSystem twiceRun).map
      fun p => p.clocks.now).Pairwise (· ≤ ·) := by
    decide
  have hdur : 10000000000 ∈ twiceConf.oneShots := by decide
  obtain ⟨-, -, hreports, -⟩ := h _ _ _ _ _ initial_twiceSystem hnow _ hdur
  exact absurd hreports (by decide)

end OxidizedSystemd.Timers

import Mathlib.Data.List.Induction

/-!
# Traces

A trace is the list of the events of a run, oldest first.

* `Pending`: an event of one kind has happened and none of another kind since.
* `EveryEvent`: every event meets a condition on the trace before it.
-/

namespace OxidizedSystemd.Lib

variable {α : Type*} {opens closes : α → Prop} {ok : List α → α → Prop}

/-- An event that opens has happened and none that closes has happened since. -/
def Pending (opens closes : α → Prop) (l : List α) : Prop :=
  ∃ pre a post, l = pre ++ a :: post ∧ opens a ∧ ∀ b ∈ post, ¬ closes b

/-- Every event of the trace, with the events before it, meets `ok`. -/
def EveryEvent (ok : List α → α → Prop) (l : List α) : Prop :=
  ∀ pre a post, l = pre ++ a :: post → ok pre a

/-- Where a split of a trace lies once an event is added. -/
theorem append_singleton_eq_iff {l pre post : List α} {e a : α} :
    l ++ [e] = pre ++ a :: post ↔
      (l = pre ∧ e = a ∧ post = []) ∨ ∃ post', post = post' ++ [e] ∧ l = pre ++ a :: post' := by
  constructor
  · intro h
    rcases List.eq_nil_or_concat post with rfl | ⟨post', b, rfl⟩
    · obtain ⟨hl, he⟩ := List.append_inj' h rfl
      exact .inl ⟨hl, (List.cons.inj he).1, rfl⟩
    · rw [List.concat_eq_append, ← List.cons_append, ← List.append_assoc] at h
      obtain ⟨hl, he⟩ := List.append_inj' h rfl
      exact .inr ⟨post', by rw [(List.cons.inj he).1, List.concat_eq_append], hl⟩
  · rintro (⟨rfl, rfl, rfl⟩ | ⟨post', rfl, rfl⟩)
    · rfl
    · rw [List.append_assoc, List.cons_append]

theorem not_pending_nil : ¬ Pending opens closes [] := by
  rintro ⟨pre, a, post, h, -⟩
  exact absurd h (by simp)

theorem pending_append_singleton {l : List α} {e : α} :
    Pending opens closes (l ++ [e]) ↔ opens e ∨ Pending opens closes l ∧ ¬ closes e := by
  constructor
  · rintro ⟨pre, a, post, h, ha, hpost⟩
    rcases append_singleton_eq_iff.mp h with ⟨-, rfl, -⟩ | ⟨post', rfl, rfl⟩
    · exact .inl ha
    · refine .inr ⟨⟨pre, a, post', rfl, ha, fun b hb => ?_⟩, ?_⟩
      · exact hpost b (List.mem_append_left _ hb)
      · exact hpost e (List.mem_append_right _ (List.mem_singleton.mpr rfl))
  · rintro (he | ⟨⟨pre, a, post, rfl, ha, hpost⟩, he⟩)
    · exact ⟨l, e, [], rfl, he, fun b hb => absurd hb List.not_mem_nil⟩
    · refine ⟨pre, a, post ++ [e], by rw [List.append_assoc, List.cons_append], ha, ?_⟩
      intro b hb
      rcases List.mem_append.mp hb with hb | hb
      · exact hpost b hb
      · exact List.mem_singleton.mp hb ▸ he

/-- Events that neither open nor close change nothing. -/
theorem pending_append_of_neither {l es : List α} (h : ∀ e ∈ es, ¬ opens e ∧ ¬ closes e) :
    Pending opens closes (l ++ es) ↔ Pending opens closes l := by
  induction es using List.reverseRecOn with
  | nil => rw [List.append_nil]
  | append_singleton es e ih =>
    have he := h e (List.mem_append_right _ (List.mem_singleton.mpr rfl))
    rw [← List.append_assoc, pending_append_singleton, or_iff_right he.1, and_iff_left he.2]
    exact ih fun x hx => h x (List.mem_append_left _ hx)

/-- What is opened and not pending any more was closed in between. -/
theorem exists_closes_of_not_pending {pre mid : List α} {a : α}
    (h : ¬ Pending opens closes (pre ++ a :: mid)) (ha : opens a) : ∃ b ∈ mid, closes b := by
  by_contra hnone
  exact h ⟨pre, a, mid, rfl, ha, fun b hb hc => hnone ⟨b, hb, hc⟩⟩

theorem everyEvent_nil : EveryEvent ok [] := by
  intro pre a post h
  exact absurd h (by simp)

theorem everyEvent_append_singleton {l : List α} {e : α} :
    EveryEvent ok (l ++ [e]) ↔ EveryEvent ok l ∧ ok l e := by
  constructor
  · intro h
    refine ⟨fun pre a post hl => h pre a (post ++ [e]) ?_, h l e [] rfl⟩
    rw [hl, List.append_assoc, List.cons_append]
  · rintro ⟨hl, he⟩ pre a post h
    rcases append_singleton_eq_iff.mp h with ⟨rfl, rfl, -⟩ | ⟨post', -, rfl⟩
    · exact he
    · exact hl pre a post' rfl

theorem everyEvent_append {l es : List α} (h : EveryEvent ok l) (hes : ∀ e ∈ es, ∀ pre, ok pre e) :
    EveryEvent ok (l ++ es) := by
  induction es using List.reverseRecOn with
  | nil => rwa [List.append_nil]
  | append_singleton es e ih =>
    rw [← List.append_assoc, everyEvent_append_singleton]
    refine ⟨ih fun x hx => hes x (List.mem_append_left _ hx), ?_⟩
    exact hes e (List.mem_append_right _ (List.mem_singleton.mpr rfl)) _

end OxidizedSystemd.Lib

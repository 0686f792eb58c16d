import OxidizedSystemd.Lib.LittleEndian

/-!
# Faults of a program on machine words

A run of a program over 64-bit words and byte slices gives a result or stops at a
fault. With overflow checks an addition that leaves the words is a fault; without
them it wraps around.

* `add_ok`, `slice_ok`, `readLe_ok`: what holds inside the bounds.
* `not_safe_add`, `not_safe_slice`, `not_safe_index`: what does not outside.
* `safe_bind`, `safe_foldlM`: a run is safe when its steps are.
* `Appends`: runs that put elements behind a list, one after the other and in loops.
-/

namespace OxidizedSystemd.Lib

/-- What stops a run: an operation that leaves the words, an index outside a slice, and a loop
    that takes more turns than it is given. -/
inductive Fault
  | overflow
  | outOfBounds
  | endless
  deriving DecidableEq, Repr

/-- A result, or the fault that the run stops at. -/
abbrev Faulty (α : Type) := Except Fault α

/-- The run gives a result. -/
def Safe {α : Type} (r : Faulty α) : Prop := ∃ a, r = .ok a

section Safe

variable {α β σ : Type}

@[simp] theorem safe_ok (a : α) : Safe (Except.ok a : Faulty α) := ⟨a, rfl⟩

@[simp] theorem safe_pure (a : α) : Safe (pure a : Faulty α) := ⟨a, rfl⟩

@[simp] theorem not_safe_error (f : Fault) : ¬ Safe (Except.error f : Faulty α) := by
  rintro ⟨a, h⟩
  cases h

@[simp] theorem ok_bind (a : α) (k : α → Faulty β) : (Except.ok a : Faulty α) >>= k = k a := rfl

@[simp] theorem error_bind (f : Fault) (k : α → Faulty β) :
    (Except.error f : Faulty α) >>= k = .error f := rfl

theorem safe_bind {r : Faulty α} {k : α → Faulty β} :
    Safe (r >>= k) ↔ ∃ a, r = .ok a ∧ Safe (k a) := by
  cases r with
  | error f => simp
  | ok a => simp

theorem safe_map {r : Faulty α} (f : α → β) : Safe (r.map f) ↔ Safe r := by
  cases r with
  | error e => exact iff_of_false (not_safe_error _) (not_safe_error _)
  | ok a => exact iff_of_true (safe_ok _) (safe_ok _)

/-- What comes after a run is safe or not, whatever the run gives. -/
theorem safe_bind_iff {r : Faulty α} {k : α → Faulty β} {p : Prop} (h : ∀ a, Safe (k a) ↔ p) :
    Safe (r >>= k) ↔ Safe r ∧ p := by
  rw [safe_bind]
  constructor
  · rintro ⟨a, hr, hk⟩
    exact ⟨⟨a, hr⟩, (h a).mp hk⟩
  · rintro ⟨⟨a, hr⟩, hp⟩
    exact ⟨a, hr, (h a).mpr hp⟩

theorem not_safe_bind {r : Faulty α} (k : α → Faulty β) (h : ¬ Safe r) : ¬ Safe (r >>= k) := by
  rw [safe_bind]
  rintro ⟨a, ha, -⟩
  exact h ⟨a, ha⟩

/-- A loop is safe when its body is, on every element and in any state. -/
theorem safe_foldlM {body : σ → α → Faulty σ} {ok : α → Prop} {as : List α}
    (h : ∀ a ∈ as, ∀ s, Safe (body s a) ↔ ok a) (s : σ) :
    Safe (as.foldlM body s) ↔ ∀ a ∈ as, ok a := by
  induction as generalizing s with
  | nil => simp
  | cons a as ih =>
    have hrest := ih fun b hb => h b (List.mem_cons_of_mem a hb)
    rw [List.foldlM_cons, safe_bind, List.forall_mem_cons, ← h a List.mem_cons_self s]
    constructor
    · rintro ⟨s', hs', hsafe⟩
      exact ⟨⟨s', hs'⟩, (hrest s').mp hsafe⟩
    · rintro ⟨⟨s', hs'⟩, hall⟩
      exact ⟨s', hs', (hrest s').mpr hall⟩

/-- A loop that appends what it gets for each element. -/
theorem foldlM_filterMap {body : List β → α → Faulty (List β)} {g : α → Option β} {as : List α}
    (h : ∀ a ∈ as, ∀ out, body out a = .ok (out ++ (g a).toList)) (out : List β) :
    as.foldlM body out = .ok (out ++ as.filterMap g) := by
  induction as generalizing out with
  | nil => simp only [List.foldlM_nil, List.filterMap_nil, List.append_nil]; rfl
  | cons a as ih =>
    rw [List.foldlM_cons, h a List.mem_cons_self, ok_bind,
      ih fun b hb => h b (List.mem_cons_of_mem a hb), List.append_assoc]
    cases hg : g a with
    | none => rw [List.filterMap_cons_none hg, Option.toList_none, List.nil_append]
    | some b => rw [List.filterMap_cons_some hg, Option.toList_some, List.singleton_append]

/-- The run puts elements behind those that it is given: the ones of which `p` holds. -/
def Appends (r : List β → Faulty (List β)) (p : β → Prop) : Prop :=
  ∀ out, ∃ new, r out = .ok (out ++ new) ∧ ∀ b, b ∈ new ↔ p b

namespace Appends

variable {r r' : List β → Faulty (List β)} {p q : β → Prop}

theorem nothing : Appends (fun out : List β => .ok out) fun _ => False := fun out =>
  ⟨[], by rw [List.append_nil], fun _ => iff_of_false List.not_mem_nil id⟩

theorem congr (h : Appends r p) (hiff : ∀ b, p b ↔ q b) : Appends r q := by
  intro out
  obtain ⟨new, hr, hmem⟩ := h out
  exact ⟨new, hr, fun b => (hmem b).trans (hiff b)⟩

/-- One run after the other. -/
theorem bind (h : Appends r p) (h' : Appends r' q) :
    Appends (fun out => r out >>= r') fun b => p b ∨ q b := by
  intro out
  obtain ⟨new, hr, hmem⟩ := h out
  obtain ⟨new', hr', hmem'⟩ := h' (out ++ new)
  refine ⟨new ++ new', ?_, fun b => ?_⟩
  · dsimp only
    rw [hr, ok_bind, hr', List.append_assoc]
  · rw [List.mem_append, hmem, hmem']

/-- A loop whose body appends for each element. -/
theorem foldlM {body : List β → α → Faulty (List β)} {p : α → β → Prop} {as : List α}
    (h : ∀ a ∈ as, Appends (body · a) (p a)) :
    Appends (as.foldlM body) fun b => ∃ a ∈ as, p a b := by
  induction as with
  | nil => exact nothing.congr fun b => iff_of_false id (by rintro ⟨a, ha, -⟩; cases ha)
  | cons a as ih =>
    have hrest := ih fun b hb => h b (List.mem_cons_of_mem a hb)
    refine ((h a List.mem_cons_self).bind hrest).congr fun b => ?_
    rw [List.exists_mem_cons_iff]

end Appends

end Safe

/-! ## Words -/

/-- `a + b`. -/
def add (checks : Bool) (a b : ℕ) : Faulty ℕ :=
  if a + b < 2 ^ 64 then .ok (a + b)
  else if checks then .error .overflow
  else .ok ((a + b) % 2 ^ 64)

/-- `a - b`. -/
def sub (checks : Bool) (a b : ℕ) : Faulty ℕ :=
  if b ≤ a then .ok (a - b)
  else if checks then .error .overflow
  else .ok (a + 2 ^ 64 - b)

/-- `a * b`. -/
def mul (checks : Bool) (a b : ℕ) : Faulty ℕ :=
  if a * b < 2 ^ 64 then .ok (a * b)
  else if checks then .error .overflow
  else .ok (a * b % 2 ^ 64)

/-- `a + b` of words of 16 bits. -/
def add16 (checks : Bool) (a b : ℕ) : Faulty ℕ :=
  if a + b < 2 ^ 16 then .ok (a + b)
  else if checks then .error .overflow
  else .ok ((a + b) % 2 ^ 16)

/-- `a + b` of words of 32 bits. -/
def add32 (checks : Bool) (a b : UInt32) : Faulty UInt32 :=
  if checks = true ∧ 2 ^ 32 ≤ a.toNat + b.toNat then .error .overflow else .ok (a + b)

/-- `a * b` of words of 32 bits. -/
def mul32 (checks : Bool) (a b : UInt32) : Faulty UInt32 :=
  if checks = true ∧ 2 ^ 32 ≤ a.toNat * b.toNat then .error .overflow else .ok (a * b)

/-! ## Slices -/

/-- `data[i]`. -/
def index (data : Bytes) (i : ℕ) : Faulty UInt8 :=
  match data[i]? with
  | some b => .ok b
  | none => .error .outOfBounds

/-- `&data[a..b]`. -/
def slice (data : Bytes) (a b : ℕ) : Faulty Bytes :=
  if a ≤ b ∧ b ≤ data.length then .ok ((data.drop a).take (b - a))
  else .error .outOfBounds

/-- `from_le_bytes(data[off..off + n])`. -/
def readLe (checks : Bool) (data : Bytes) (off n : ℕ) : Faulty ℕ := do
  let stop ← add checks off n
  let bytes ← slice data off stop
  return ofLe bytes

/-- The number in the `n` bytes at `off`. -/
def leAt (data : Bytes) (off n : ℕ) : ℕ := ofLe ((data.drop off).take n)

section Bounds

variable {checks : Bool} {data : Bytes} {a b i off n : ℕ}

theorem add_ok (h : a + b < 2 ^ 64) : add checks a b = .ok (a + b) := if_pos h

theorem add16_ok (h : a + b < 2 ^ 16) : add16 checks a b = .ok (a + b) := if_pos h

theorem sub_ok (h : b ≤ a) : sub checks a b = .ok (a - b) := if_pos h

theorem mul_ok (h : a * b < 2 ^ 64) : mul checks a b = .ok (a * b) := if_pos h

/-- With checks, an addition is safe inside the words. -/
theorem safe_add : Safe (add true a b) ↔ a + b < 2 ^ 64 := by
  by_cases h : a + b < 2 ^ 64
  · rw [add_ok h]
    exact iff_of_true (safe_ok _) h
  · rw [add, if_neg h, if_pos rfl]
    exact iff_of_false (not_safe_error _) h

theorem safe_mul : Safe (mul true a b) ↔ a * b < 2 ^ 64 := by
  by_cases h : a * b < 2 ^ 64
  · rw [mul_ok h]
    exact iff_of_true (safe_ok _) h
  · rw [mul, if_neg h, if_pos rfl]
    exact iff_of_false (not_safe_error _) h

theorem mul32_ok {a b : UInt32} (h : a.toNat * b.toNat < 2 ^ 32) :
    mul32 checks a b = .ok (a * b) := if_neg fun hover => Nat.not_le.mpr h hover.2

theorem mul32_overflow {a b : UInt32} (h : 2 ^ 32 ≤ a.toNat * b.toNat) :
    mul32 true a b = .error .overflow := if_pos ⟨rfl, h⟩

theorem add_overflow (ha : a < 2 ^ 64) (hb : b < 2 ^ 64) (h : 2 ^ 64 ≤ a + b) :
    add checks a b = if checks then .error .overflow else .ok (a + b - 2 ^ 64) := by
  rw [add, if_neg (Nat.not_lt.mpr h), Nat.mod_eq_sub_mod h, Nat.mod_eq_of_lt (by omega)]

/-- Past the words an addition is a fault, or what comes after it is on the wrapped sum. -/
theorem not_safe_add {α : Type} {k : ℕ → Faulty α} (ha : a < 2 ^ 64) (hb : b < 2 ^ 64)
    (h : 2 ^ 64 ≤ a + b) (hk : ¬ Safe (k (a + b - 2 ^ 64))) :
    ¬ Safe (add checks a b >>= k) := by
  rw [add_overflow ha hb h]
  cases checks with
  | true => exact not_safe_bind k (not_safe_error _)
  | false => exact hk

theorem index_ok (h : i < data.length) : index data i = .ok data[i] := by
  rw [index, List.getElem?_eq_getElem h]

theorem not_safe_index (h : data.length ≤ i) : ¬ Safe (index data i) := by
  rw [index, List.getElem?_eq_none h]
  exact not_safe_error _

theorem slice_ok (hab : a ≤ b) (hb : b ≤ data.length) :
    slice data a b = .ok ((data.drop a).take (b - a)) := if_pos ⟨hab, hb⟩

theorem not_safe_slice (h : b < a) : ¬ Safe (slice data a b) := by
  rw [slice, if_neg fun hab => Nat.not_le.mpr h hab.1]
  exact not_safe_error _

theorem readLe_ok (h : off + n ≤ data.length) (hlen : data.length < 2 ^ 63) :
    readLe checks data off n = .ok (leAt data off n) := by
  rw [readLe, add_ok (by omega)]
  simp only [ok_bind]
  rw [slice_ok (Nat.le_add_right off n) h, Nat.add_sub_cancel_left]
  rfl

theorem leAt_lt (data : Bytes) (off n : ℕ) : leAt data off n < 256 ^ n := by
  have h := ofLe_lt ((data.drop off).take n)
  exact Nat.lt_of_lt_of_le h (Nat.pow_le_pow_right (by decide) (by simp))

end Bounds

end OxidizedSystemd.Lib

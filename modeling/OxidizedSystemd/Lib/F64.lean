import Mathlib.Data.Rat.Floor

/-!
# Numbers with a point

The `f64` operations of the Rust standard library that the models use, over the exact values of
the numbers. Each operation ends with a rounding, which is a parameter.

* `parseF64`: `str::parse::<f64>`, with all of its spellings.
* `F64.mulNat`, `F64.asU64`: a product with an integer, and the cast to `u64`.
* `durationFromSecs`: `Duration::from_secs_f64`, which panics where it is `none`.
-/

namespace OxidizedSystemd.Lib

/-- An `f64`. The sign of a zero is left out. -/
inductive F64
  | nan
  | infinity (negative : Bool)
  | finite (q : ℚ)
  deriving DecidableEq

/-! ## Spellings -/

/-- The number that digits write. -/
def digitsValue (ds : List Char) : ℕ := ds.foldl (fun n c => 10 * n + (c.toNat - 48)) 0

/-- A sign, and what is behind it. -/
def parseSign : List Char → Bool × List Char
  | '-' :: cs => (true, cs)
  | '+' :: cs => (false, cs)
  | cs => (false, cs)

/-- The exponent at the end of a number, which may be left out. -/
def parseExponent : List Char → Option ℤ
  | [] => some 0
  | c :: cs =>
    let sign := parseSign cs
    if c.toLower ≠ 'e' ∨ sign.2 = [] ∨ ¬ sign.2.all Char.isDigit then none
    else some (if sign.1 then -(digitsValue sign.2 : ℤ) else digitsValue sign.2)

/-- The digits behind a point, and what is behind them. -/
def parseFraction : List Char → List Char × List Char
  | '.' :: cs => (cs.takeWhile Char.isDigit, cs.dropWhile Char.isDigit)
  | cs => ([], cs)

/-- A number without a sign. One of the digits on both sides of the point is there. -/
def parseNumber (cs : List Char) : Option ℚ :=
  let whole := cs.takeWhile Char.isDigit
  let fraction := parseFraction (cs.dropWhile Char.isDigit)
  if whole = [] ∧ fraction.1 = [] then none
  else
    (parseExponent fraction.2).map fun e : ℤ =>
      (digitsValue (whole ++ fraction.1) : ℚ) * 10 ^ (e - (fraction.1.length : ℤ))

/-- `str::parse::<f64>`: capital letters are small ones here. -/
def parseF64 (round : ℚ → F64) (cs : List Char) : Option F64 :=
  let sign := parseSign cs
  let lower := sign.2.map Char.toLower
  if lower = "inf".toList ∨ lower = "infinity".toList then some (.infinity sign.1)
  else if lower = "nan".toList then some .nan
  else (parseNumber sign.2).map fun q => round (if sign.1 then -q else q)

/-! ## Operations -/

namespace F64

/-- `x * n as f64`, for a number `n` that is not zero and is exact as an `f64`. -/
def mulNat (round : ℚ → F64) : F64 → ℕ → F64
  | nan, _ => nan
  | infinity negative, _ => infinity negative
  | finite q, n => round (q * n)

/-- `x as u64`, which cuts off the fraction and stays in the range. -/
def asU64 : F64 → ℕ
  | nan => 0
  | infinity negative => if negative then 0 else 2 ^ 64 - 1
  | finite q => min ⌊q⌋.toNat (2 ^ 64 - 1)

/-- `x >= 0.0`. -/
def nonneg : F64 → Bool
  | nan => false
  | infinity negative => !negative
  | finite q => 0 ≤ q

end F64

/-- The nearest number, the even one of two. -/
def roundHalfEven (q : ℚ) : ℕ :=
  let n := ⌊q⌋.toNat
  if q - n < 1 / 2 ∨ q - n = 1 / 2 ∧ n % 2 = 0 then n else n + 1

/-- `Duration::from_secs_f64`, in nanoseconds. -/
def durationFromSecs : F64 → Option ℕ
  | .finite q => if 0 ≤ q ∧ q < 2 ^ 64 then some (roundHalfEven (q * 1000000000)) else none
  | _ => none

/-! ## Durations -/

/-- A number of seconds for which there is a `Duration`. -/
def F64.IsSeconds (x : F64) : Prop := ∃ q : ℚ, x = .finite q ∧ 0 ≤ q ∧ q < 2 ^ 64

theorem durationFromSecs_isSome (x : F64) : (durationFromSecs x).isSome ↔ x.IsSeconds := by
  cases x with
  | nan => simp [durationFromSecs, F64.IsSeconds]
  | infinity negative => simp [durationFromSecs, F64.IsSeconds]
  | finite q =>
    rw [durationFromSecs]
    split
    · rename_i hq
      exact ⟨fun _ => ⟨q, rfl, hq⟩, fun _ => rfl⟩
    · rename_i hq
      refine ⟨fun h => absurd h Bool.false_ne_true, ?_⟩
      rintro ⟨q', heq, hq'⟩
      obtain rfl := F64.finite.inj heq
      exact absurd hq' hq

end OxidizedSystemd.Lib

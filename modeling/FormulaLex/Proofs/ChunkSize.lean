import Mathlib.Tactic.FieldSimp
import Mathlib.Tactic.Positivity
import Mathlib.Tactic.Ring
import Mathlib.Data.Rat.Floor
import FormulaLex.Stream.Chunk

/-!
Reading character by character. The density of a chunk is at most its size, so the estimate for one
character never asks for more than a chunk of the least size.
-/
namespace FormulaLex.Chunk

theorem nearest_le {x : Rat} {n : Int} (h : x ≤ n) : nearest x ≤ n := by
  have hfloor := Rat.floor_le x
  unfold nearest
  dsimp only
  split
  next => exact_mod_cast hfloor.trans h
  next hround =>
    -- A number that is rounded up is no whole one, so its floor is below the bound.
    have hlt : x.floor < n := by
      apply Rat.floor_lt_iff.2
      apply lt_of_le_of_ne h
      intro heq
      subst heq
      simp at hround
    omega

theorem nearest_nonneg {x : Rat} (h : 0 ≤ x) : 0 ≤ nearest x := by
  have hfloor : 0 ≤ x.floor := Rat.le_floor_iff.2 (by simpa using h)
  unfold nearest
  dsimp only
  split
  · exact hfloor
  · omega

theorem log2_floor_le {x : Rat} {m : Nat} (h : x ≤ 2 ^ m) : x.floor.toNat.log2 ≤ m := by
  by_cases hzero : x.floor.toNat = 0
  · rw [hzero]
    exact Nat.zero_le m
  · have hcast : (x.floor.toNat : Int) = x.floor := Int.toNat_of_nonneg (by omega)
    have hfloor : (x.floor : Rat) ≤ 2 ^ m := (Rat.floor_le x).trans h
    rw [← hcast] at hfloor
    have hnat : x.floor.toNat ≤ 2 ^ m := by exact_mod_cast hfloor
    apply Nat.lt_succ_iff.1
    apply (Nat.log2_lt hzero).2
    exact hnat.trans_lt (Nat.pow_lt_pow_right Nat.one_lt_two (Nat.lt_succ_self m))

/-- A power of two that bounds a number bounds it when it is rounded. -/
theorem rounded_le {x : Rat} {m : Nat} (h : x ≤ 2 ^ m) : rounded x ≤ 2 ^ m := by
  let k := x.floor.toNat.log2
  let unit : Rat := 2 ^ k / 0x10000000000000
  let units : Int := 2 ^ (m - k) * 0x10000000000000
  have hunit : 0 < unit := by positivity
  have hpow : (2 : Rat) ^ (m - k) * 2 ^ k = 2 ^ m := by
    rw [← pow_add, Nat.sub_add_cancel (log2_floor_le h)]
  have hunits : (units : Rat) * unit = 2 ^ m := by
    calc (units : Rat) * unit = 2 ^ (m - k) * 2 ^ k := by
          simp only [units, unit]
          push_cast
          ring
      _ = 2 ^ m := hpow
  have hbound : x / unit ≤ (units : Rat) := by
    rw [div_le_iff₀ hunit, hunits]
    exact h
  have hnearest : (nearest (x / unit) : Rat) ≤ (units : Rat) := by
    exact_mod_cast nearest_le hbound
  calc rounded x = nearest (x / unit) * unit := rfl
    _ ≤ units * unit := mul_le_mul_of_nonneg_right hnearest hunit.le
    _ = 2 ^ m := hunits

theorem rounded_nonneg {x : Rat} (h : 0 ≤ x) : 0 ≤ rounded x := by
  let unit : Rat := 2 ^ x.floor.toNat.log2 / 0x10000000000000
  have hunit : 0 < unit := by positivity
  have hnearest : (0 : Rat) ≤ nearest (x / unit) := by
    exact_mod_cast nearest_nonneg (div_nonneg h hunit.le)
  exact mul_nonneg hnearest hunit.le

theorem density_le {bytes : Nat} (h : bytes ≤ leastSize) (chars : Nat) :
    density bytes chars ≤ leastSize := by
  unfold density
  split
  · norm_num [leastSize]
  next hchars =>
    have hpos : (1 : Rat) ≤ chars := by
      have hne : chars ≠ 0 := by
        intro hzero
        simp [hzero] at hchars
      exact_mod_cast Nat.one_le_iff_ne_zero.2 hne
    have hbytes : (bytes : Rat) ≤ 2 ^ 13 := by
      have hsize : leastSize = 2 ^ 13 := rfl
      rw [hsize] at h
      exact_mod_cast h
    have hquotient : (bytes / chars : Rat) ≤ 2 ^ 13 :=
      (div_le_self (Nat.cast_nonneg bytes) hpos).trans hbytes
    calc rounded (bytes / chars) ≤ 2 ^ 13 := rounded_le hquotient
      _ = (leastSize : Rat) := by norm_num [leastSize]

/-- For one character, what is fetched is a chunk of the least size. -/
theorem size_one {d : Rat} (h : d ≤ leastSize) : size d 1 = leastSize := by
  have hone : rounded (1 : Nat) ≤ 1 := by
    have hle : ((1 : Nat) : Rat) ≤ 2 ^ 0 := by norm_num
    simpa using rounded_le hle
  have hnonneg : 0 ≤ rounded (1 : Nat) := rounded_nonneg (by norm_num)
  have hproduct : d * rounded (1 : Nat) ≤ 2 ^ 13 := by
    calc d * rounded (1 : Nat) ≤ leastSize * rounded (1 : Nat) :=
          mul_le_mul_of_nonneg_right h hnonneg
      _ ≤ leastSize * 1 := mul_le_mul_of_nonneg_left hone (Nat.cast_nonneg leastSize)
      _ = 2 ^ 13 := by norm_num [leastSize]
  have hfloor : (rounded (d * rounded (1 : Nat))).floor < 2 ^ 13 + 1 := by
    apply Rat.floor_lt_iff.2
    calc rounded (d * rounded (1 : Nat)) ≤ 2 ^ 13 := rounded_le hproduct
      _ < ((2 ^ 13 + 1 : Int) : Rat) := by norm_num
  have hestimate : (rounded (d * rounded (1 : Nat))).floor.toNat ≤ leastSize := by
    have hsize : leastSize = 2 ^ 13 := rfl
    omega
  unfold size
  dsimp only
  split
  · exact Nat.max_eq_left hestimate
  · rfl

end FormulaLex.Chunk

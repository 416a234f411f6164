import Mathlib.Data.Int.Log
import Mathlib.Data.Rat.Cast.Order
import Mathlib.Data.Rat.Floor
import Mathlib.Tactic.Linarith
import Mathlib.Tactic.FieldSimp
import Mathlib.Tactic.Ring
import SignalCoach.Double

/-! Rounding sees a fraction as a number: the nearest magnitude of equal fractions is the same. -/
namespace SignalCoach.Double

theorem power_pos {base : Nat} (hbase : 0 < base) (e : Int) : 0 < power base e :=
  Nat.pow_pos hbase

theorem power_div_power (base : Nat) (hbase : 0 < base) (e : Int) :
    (power base e : ℚ) / (power base (-e) : ℚ) = (base : ℚ) ^ e := by
  have hpos : (base : ℚ) ≠ 0 := by exact_mod_cast hbase.ne'
  rcases Int.le_total 0 e with he | he
  · obtain ⟨n, rfl⟩ := Int.eq_ofNat_of_zero_le he
    simp [power]
  · obtain ⟨n, hn⟩ := Int.eq_ofNat_of_zero_le (Int.neg_nonneg_of_nonpos he)
    obtain rfl : e = -(n : Int) := by omega
    simp [power]

theorem lt_scaled_iff {base : Nat} (hbase : 0 < base) (num : Nat) {den : Nat} (hden : 0 < den)
    (e : Int) : num * power base (-e) < den * power base e ↔ (num : ℚ) / den < (base : ℚ) ^ e := by
  have hden' : (0 : ℚ) < den := by exact_mod_cast hden
  have hneg : (0 : ℚ) < power base (-e) := by exact_mod_cast power_pos hbase (-e)
  rw [← power_div_power base hbase e, div_lt_div_iff₀ hden' hneg, mul_comm ((power base e : Nat) : ℚ)]
  exact_mod_cast Iff.rfl

private theorem zpow_log2_le {n : Nat} (hn : 0 < n) : (2 : ℚ) ^ (n.log2 : Int) ≤ n := by
  exact_mod_cast Nat.log2_self_le hn.ne'

private theorem lt_zpow_log2 (n : Nat) : (n : ℚ) < (2 : ℚ) ^ ((n.log2 : Int) + 1) := by
  exact_mod_cast Nat.lt_log2_self (n := n)

private theorem scale_le_div {num den : Nat} (hnum : 0 < num) (hden : 0 < den) :
    (2 : ℚ) ^ ((num.log2 : Int) - den.log2 - 1) ≤ (num : ℚ) / den := by
  have hden' : (0 : ℚ) < den := by exact_mod_cast hden
  rw [le_div_iff₀ hden']
  calc (2 : ℚ) ^ ((num.log2 : Int) - den.log2 - 1) * den
      ≤ (2 : ℚ) ^ ((num.log2 : Int) - den.log2 - 1) * (2 : ℚ) ^ ((den.log2 : Int) + 1) :=
        mul_le_mul_of_nonneg_left (lt_zpow_log2 den).le (zpow_nonneg (by norm_num) _)
    _ = (2 : ℚ) ^ (num.log2 : Int) := by
        rw [← zpow_add₀ (by norm_num)]
        congr 1
        omega
    _ ≤ num := zpow_log2_le hnum

theorem div_lt_scale (num : Nat) {den : Nat} (hden : 0 < den) :
    (num : ℚ) / den < (2 : ℚ) ^ ((num.log2 : Int) - den.log2 + 1) := by
  have hden' : (0 : ℚ) < den := by exact_mod_cast hden
  rw [div_lt_iff₀ hden']
  calc (num : ℚ) < (2 : ℚ) ^ ((num.log2 : Int) + 1) := lt_zpow_log2 num
    _ = (2 : ℚ) ^ ((num.log2 : Int) - den.log2 + 1) * (2 : ℚ) ^ (den.log2 : Int) := by
        rw [← zpow_add₀ (by norm_num)]
        congr 1
        omega
    _ ≤ (2 : ℚ) ^ ((num.log2 : Int) - den.log2 + 1) * den :=
        mul_le_mul_of_nonneg_left (zpow_log2_le hden) (zpow_nonneg (by norm_num) _)

theorem binaryExponent_eq_log {num den : Nat} (hnum : 0 < num) (hden : 0 < den) :
    binaryExponent num den = Int.log 2 ((num : ℚ) / den) := by
  have hnum' : (0 : ℚ) < num := by exact_mod_cast hnum
  have hden' : (0 : ℚ) < den := by exact_mod_cast hden
  have hpos : (0 : ℚ) < (num : ℚ) / den := div_pos hnum' hden'
  set e : Int := (num.log2 : Int) - den.log2 with he
  have hlow : e - 1 ≤ Int.log 2 ((num : ℚ) / den) := by
    rw [← Int.zpow_le_iff_le_log (by decide) hpos]
    push_cast
    exact scale_le_div hnum hden
  have hhigh : Int.log 2 ((num : ℚ) / den) < e + 1 := by
    rw [← Int.lt_zpow_iff_log_lt (by decide) hpos]
    push_cast
    exact div_lt_scale num hden
  have hunfold : binaryExponent num den =
      if num * power 2 (-e) < den * power 2 e then e - 1 else e := rfl
  have hiff := lt_scaled_iff (show 0 < 2 by decide) num hden e
  have hlog := Int.lt_zpow_iff_log_lt (b := 2) (by decide) hpos (x := e)
  rw [hunfold]
  push_cast at hlog
  split
  next hlt =>
    have := hlog.1 (hiff.1 hlt)
    omega
  next hlt =>
    have := mt hlog.2 (mt hiff.2 hlt)
    omega

theorem roundDiv_mul_left {k : Nat} (hk : 0 < k) (num den : Nat) :
    roundDiv (k * num) (k * den) = roundDiv num den := by
  unfold roundDiv
  simp only [Nat.mul_div_mul_left num den hk, Nat.mul_mod_mul_left, Nat.mul_left_comm 2 k,
    Nat.mul_lt_mul_left hk]

theorem nearestMagnitude_mul_left {k : Nat} (hk : 0 < k) {num den : Nat} (hden : 0 < den) :
    nearestMagnitude (k * num) (k * den) = nearestMagnitude num den := by
  have hunfold (num den : Nat) : nearestMagnitude num den =
      if num = 0 then 0
      else
        let unit := max (binaryExponent num den - 52) (-1074)
        min infiniteMagnitude ((unit + 1074).toNat * exponentBit +
          roundDiv (num * power 2 (-unit)) (den * power 2 unit)) := rfl
  rw [hunfold, hunfold]
  by_cases hnum : num = 0
  · simp [hnum]
  · have hexponent : binaryExponent (k * num) (k * den) = binaryExponent num den := by
      rw [binaryExponent_eq_log (Nat.mul_pos hk (Nat.pos_of_ne_zero hnum)) (Nat.mul_pos hk hden),
        binaryExponent_eq_log (Nat.pos_of_ne_zero hnum) hden]
      have hk' : (k : ℚ) ≠ 0 := by exact_mod_cast hk.ne'
      push_cast
      rw [mul_div_mul_left _ _ hk']
    simp only [hexponent, Nat.mul_assoc, roundDiv_mul_left hk, hnum, Nat.mul_eq_zero, hk.ne',
      or_self, if_false]

theorem nearestMagnitude_congr {num den num' den' : Nat} (hden : 0 < den) (hden' : 0 < den')
    (h : num * den' = num' * den) : nearestMagnitude num den = nearestMagnitude num' den' := by
  rw [← nearestMagnitude_mul_left hden' hden, ← nearestMagnitude_mul_left hden hden',
    Nat.mul_comm den' num, h, Nat.mul_comm num' den, Nat.mul_comm den' den]

theorem nearestMagnitude_eq_infinite {num : Nat} (h : 1025 ≤ num.log2) :
    nearestMagnitude num 1 = infiniteMagnitude := by
  have hnum : num ≠ 0 := by
    rintro rfl
    simp at h
  have hexponent : binaryExponent num 1 = num.log2 := by
    rw [binaryExponent_eq_log (Nat.pos_of_ne_zero hnum) (by decide), Nat.cast_one, div_one,
      Int.log_natCast, Nat.log2_eq_log_two]
  have hunit : 2047 ≤ (max (binaryExponent num 1 - 52) (-1074) + 1074).toNat := by
    rw [hexponent]
    omega
  have hlarge : infiniteMagnitude ≤
      (max (binaryExponent num 1 - 52) (-1074) + 1074).toNat * exponentBit :=
    calc infiniteMagnitude = 2047 * exponentBit := by decide
      _ ≤ _ := Nat.mul_le_mul_right _ hunit
  simp only [nearestMagnitude, hnum, if_false]
  exact Nat.min_eq_left (hlarge.trans (Nat.le_add_right _ _))

end SignalCoach.Double

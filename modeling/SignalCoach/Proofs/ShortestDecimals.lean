import SignalCoach.Decimal.Shortest
import SignalCoach.Proofs.Rounding

/-! Seventeen digits always read back: a number within one part in `2 ^ 54` of a finite double rounds
to it, and the nearest decimal of seventeen digits is that close. -/
namespace SignalCoach

namespace Double

theorem roundDiv_near (num : Nat) {den : Nat} (hden : 0 < den) :
    |(roundDiv num den : ℚ) - num / den| ≤ 1 / 2 := by
  have hden' : (0 : ℚ) < den := by exact_mod_cast hden
  have hsplit := Nat.div_add_mod num den
  have hrest := Nat.mod_lt num hden
  have hnat : 2 * num ≤ 2 * (den * roundDiv num den) + den ∧
      2 * (den * roundDiv num den) ≤ 2 * num + den := by
    unfold roundDiv
    simp only
    split
    · omega
    · split
      · rw [Nat.mul_add]
        omega
      · rcases Nat.mod_two_eq_zero_or_one (num / den) with heven | hodd
        · rw [heven, Nat.add_zero]
          omega
        · rw [hodd, Nat.mul_add]
          omega
  have hlow : (2 : ℚ) * num ≤ 2 * (den * roundDiv num den) + den := by exact_mod_cast hnat.1
  have hhigh : (2 : ℚ) * (den * roundDiv num den) ≤ 2 * num + den := by exact_mod_cast hnat.2
  have hvalue : (num : ℚ) / den * den = num := div_mul_cancel₀ _ hden'.ne'
  rw [abs_le]
  constructor <;> nlinarith

theorem roundDiv_eq_of_near {num den s : Nat} (hden : 0 < den)
    (h : |(num : ℚ) / den - s| < 1 / 2) : roundDiv num den = s := by
  have hround := abs_le.1 (roundDiv_near num hden)
  have hs := abs_lt.1 h
  have hlow : (roundDiv num den : ℚ) < s + 1 := by linarith
  have hhigh : (s : ℚ) < roundDiv num den + 1 := by linarith
  have hlow' : roundDiv num den < s + 1 := by exact_mod_cast hlow
  have hhigh' : s < roundDiv num den + 1 := by exact_mod_cast hhigh
  omega

theorem nearestMagnitude_of_unit {num den s : Nat} (hnum : 0 < num) (hden : 0 < den) {unit : Int}
    (hunit : max (binaryExponent num den - 52) (-1074) = unit)
    (hnear : |(num : ℚ) / den - s * 2 ^ unit| < 2 ^ unit / 2) :
    nearestMagnitude num den = min infiniteMagnitude ((unit + 1074).toNat * exponentBit + s) := by
  have hscale : (0 : ℚ) < 2 ^ unit := zpow_pos (by norm_num) unit
  have hround : roundDiv (num * power 2 (-unit)) (den * power 2 unit) = s := by
    refine roundDiv_eq_of_near (Nat.mul_pos hden (power_pos (by decide) _)) ?_
    have hpower : ((power 2 unit : Nat) : ℚ) / (power 2 (-unit) : Nat) = 2 ^ unit :=
      power_div_power 2 (by decide) unit
    have hneg : (0 : ℚ) < (power 2 (-unit) : Nat) := by exact_mod_cast power_pos (by decide) (-unit)
    have hscaled : ((num * power 2 (-unit) : Nat) : ℚ) / (den * power 2 unit : Nat) - s =
        ((num : ℚ) / den - s * 2 ^ unit) / 2 ^ unit := by
      have hden' : (0 : ℚ) < den := by exact_mod_cast hden
      rw [sub_div, mul_div_cancel_right₀ _ hscale.ne', ← hpower]
      push_cast
      field_simp
    rw [hscaled, abs_div, abs_of_pos hscale, div_lt_iff₀ hscale]
    linarith
  simp only [nearestMagnitude, hnum.ne', if_false, hunit, hround]

theorem nearestMagnitude_eq_zero {num den : Nat} (hnum : 0 < num) (hden : 0 < den)
    (h : num.log2 + 1076 ≤ den.log2) : nearestMagnitude num den = 0 := by
  have hnum' : (0 : ℚ) < num := by exact_mod_cast hnum
  have hden' : (0 : ℚ) < den := by exact_mod_cast hden
  have hpos : (0 : ℚ) < (num : ℚ) / den := div_pos hnum' hden'
  have hsmall : (num : ℚ) / den < 2 ^ (-1074 - 1 : Int) :=
    lt_of_lt_of_le (div_lt_scale num hden) (zpow_le_zpow_right₀ (by norm_num) (by omega))
  have hlog : Int.log 2 ((num : ℚ) / den) < -1074 - 1 := by
    rw [← Int.lt_zpow_iff_log_lt (by decide) hpos]
    exact_mod_cast hsmall
  have hunit : max (binaryExponent num den - 52) (-1074) = -1074 := by
    rw [binaryExponent_eq_log hnum hden]
    omega
  rw [nearestMagnitude_of_unit (s := 0) hnum hden hunit]
  · decide
  · rw [zpow_sub_one₀ (by norm_num)] at hsmall
    rw [Nat.cast_zero, zero_mul, sub_zero, abs_of_pos hpos, div_eq_mul_inv _ 2]
    exact hsmall

/-- A magnitude in units of its last place. Only the least unit has magnitudes of fewer than 53
bits. -/
structure Units (magnitude significand : Nat) (unit : Int) : Prop where
  magnitude_eq : magnitude = (unit + 1074).toNat * exponentBit + significand
  least : -1074 ≤ unit
  below : significand < 2 * exponentBit
  above : unit = -1074 ∨ exponentBit ≤ significand

theorem units_decompose (magnitude : Nat) :
    Units magnitude (decompose magnitude).1 (decompose magnitude).2 := by
  have hbit : exponentBit = 0x10000000000000 := rfl
  have hsplit := Nat.div_add_mod magnitude exponentBit
  have hrest := Nat.mod_lt magnitude (show 0 < exponentBit by decide)
  unfold decompose
  simp only
  split
  · constructor
    · simp only [Int.reduceNeg, Int.reduceAdd, Int.toNat_zero]
      rw [hbit] at *
      omega
    · exact le_rfl
    · rw [hbit] at *
      omega
    · exact .inl rfl
  · constructor <;> simp only <;> rw [hbit] at * <;> omega

theorem ratio_eq (magnitude : Nat) : ((ratio magnitude).1 : ℚ) / (ratio magnitude).2 =
    (decompose magnitude).1 * 2 ^ (decompose magnitude).2 := by
  have hpower : ((power 2 (decompose magnitude).2 : Nat) : ℚ) /
      (power 2 (-(decompose magnitude).2) : Nat) = 2 ^ (decompose magnitude).2 :=
    power_div_power 2 (by decide) _
  rw [← hpower]
  simp only [ratio]
  push_cast
  ring

theorem ratio_pos {magnitude : Nat} (h : 0 < magnitude) :
    0 < (ratio magnitude).1 ∧ 0 < (ratio magnitude).2 := by
  have hunits := units_decompose magnitude
  have hsignificand : 0 < (decompose magnitude).1 := by
    rcases hunits.above with hleast | hlarge
    · have hmagnitude := hunits.magnitude_eq
      rw [hleast] at hmagnitude
      simp at hmagnitude
      omega
    · exact Nat.lt_of_lt_of_le (by decide) hlarge
  exact ⟨Nat.mul_pos hsignificand (power_pos (by decide) _), power_pos (by decide) _⟩

theorem le_binaryExponent_ratio {magnitude : Nat} (h : 0 < magnitude) :
    -1074 ≤ binaryExponent (ratio magnitude).1 (ratio magnitude).2 := by
  obtain ⟨hnum, hden⟩ := ratio_pos h
  have hsignificand : (1 : ℚ) ≤ (decompose magnitude).1 := by
    exact_mod_cast Nat.pos_of_mul_pos_right hnum
  have hnum' : (0 : ℚ) < (ratio magnitude).1 := by exact_mod_cast hnum
  have hden' : (0 : ℚ) < (ratio magnitude).2 := by exact_mod_cast hden
  rw [binaryExponent_eq_log hnum hden, ← Int.zpow_le_iff_le_log (by decide) (div_pos hnum' hden'),
    ratio_eq]
  calc (2 : ℚ) ^ (-1074 : Int) ≤ 2 ^ (decompose magnitude).2 :=
        zpow_le_zpow_right₀ (by norm_num) (units_decompose magnitude).least
    _ ≤ (decompose magnitude).1 * 2 ^ (decompose magnitude).2 :=
        le_mul_of_one_le_left (zpow_nonneg (by norm_num) _) hsignificand

theorem nearestMagnitude_of_close {magnitude num den : Nat}
    (hfinite : magnitude < infiniteMagnitude) (hden : 0 < den)
    (hclose : 2 ^ 54 * |(num : ℚ) / den - (ratio magnitude).1 / (ratio magnitude).2| <
      (ratio magnitude).1 / (ratio magnitude).2) :
    nearestMagnitude num den = magnitude := by
  have hunits := units_decompose magnitude
  rw [ratio_eq] at hclose
  obtain ⟨s, hs⟩ : ∃ s, (decompose magnitude).1 = s := ⟨_, rfl⟩
  obtain ⟨u, hu⟩ : ∃ u, (decompose magnitude).2 = u := ⟨_, rfl⟩
  rw [hs, hu] at hunits hclose
  have hbit : exponentBit = 2 ^ 52 := rfl
  set y : ℚ := (num : ℚ) / den with hy
  have hscale : (0 : ℚ) < 2 ^ u := zpow_pos (by norm_num) u
  have hbelow : (s : ℚ) + 1 ≤ 2 ^ 53 := by
    have := hunits.below
    rw [hbit] at this
    exact_mod_cast (show s + 1 ≤ 2 ^ 53 by omega)
  obtain ⟨hlow, hhigh⟩ := abs_lt.1 (show |y - s * 2 ^ u| < s * 2 ^ u / 2 ^ 54 by
    rw [lt_div_iff₀ (by norm_num)]
    linarith)
  have hypos : 0 < y := by nlinarith
  have hnum : 0 < num := by
    rcases Nat.eq_zero_or_pos num with hzero | hnum
    · rw [hy, hzero] at hypos
      simp at hypos
    · exact hnum
  have hlog := binaryExponent_eq_log hnum hden
  have hpower (k : Int) : (2 : ℚ) ^ (u + k) = 2 ^ u * 2 ^ k := zpow_add₀ (by norm_num) u k
  have hlogHigh : Int.log 2 y < u + 53 := by
    rw [← Int.lt_zpow_iff_log_lt (by decide) hypos]
    push_cast
    rw [hpower]
    nlinarith
  have hfits : min infiniteMagnitude magnitude = magnitude := Nat.min_eq_right hfinite.le
  by_cases hinside : u = -1074 ∨ (2 : ℚ) ^ (u + 52) ≤ y
  · -- Both numbers have the same unit.
    have hunit : max (binaryExponent num den - 52) (-1074) = u := by
      have hleast := hunits.least
      rw [hlog, ← hy]
      rcases hinside with hu | hlarge
      · omega
      · have hlogLow : u + 52 ≤ Int.log 2 y := by
          rw [← Int.zpow_le_iff_le_log (by decide) hypos]
          exact_mod_cast hlarge
        omega
    rw [nearestMagnitude_of_unit hnum hden hunit, ← hunits.magnitude_eq, hfits]
    rw [← hy, abs_lt]
    constructor <;> nlinarith
  · -- The number lies below a power of two, where the unit is half as large.
    obtain ⟨hleast, hsmall⟩ := not_or.1 hinside
    rw [not_le, hpower] at hsmall
    have hs52 : s = 2 ^ 52 := by
      have habove := hunits.above.resolve_left hleast
      rw [hbit] at habove
      by_contra hne
      have hmore : (2 : ℚ) ^ 52 + 1 ≤ s := by exact_mod_cast (show 2 ^ 52 + 1 ≤ s by omega)
      have : (2 : ℚ) ^ (52 : Int) = 2 ^ 52 := by norm_num
      nlinarith
    subst hs52
    have hlogLow : u + 51 ≤ Int.log 2 y := by
      rw [← Int.zpow_le_iff_le_log (by decide) hypos]
      push_cast
      rw [hpower]
      push_cast at hlow
      nlinarith
    have hlogHigh : Int.log 2 y < u + 52 := by
      rw [← Int.lt_zpow_iff_log_lt (by decide) hypos]
      push_cast
      rw [hpower]
      exact hsmall
    have hunit : max (binaryExponent num den - 52) (-1074) = u - 1 := by
      have := hunits.least
      rw [hlog, ← hy]
      omega
    have hhalf : (2 : ℚ) ^ (u - 1) * 2 = 2 ^ u := by
      rw [zpow_sub_one₀ (by norm_num)]
      ring
    rw [nearestMagnitude_of_unit (s := 2 ^ 53) hnum hden hunit]
    · have hmagnitude : (u - 1 + 1074).toNat * exponentBit + 2 ^ 53 = magnitude := by
        have hmore := hunits.least
        rw [hunits.magnitude_eq, show (u + 1074).toNat = (u - 1 + 1074).toNat + 1 by omega, hbit]
        ring
      rw [hmagnitude, hfits]
    · rw [← hy, abs_lt]
      push_cast at hlow hhigh ⊢
      constructor <;> nlinarith

end Double

namespace Decimal

open Double

theorem ten_pow_le : (10 : ℚ) ^ 1233 ≤ 2 ^ 4096 := by
  have hnat : 10 ^ 1233 ≤ 2 ^ 4096 := by decide +kernel
  exact_mod_cast hnat

theorem le_ten_pow : (2 : ℚ) ^ 4096 ≤ 10 ^ 1234 := by
  have hnat : 2 ^ 4096 ≤ 10 ^ 1234 := by decide +kernel
  exact_mod_cast hnat

/-- The estimate of a power of ten is at most one too large. -/
theorem estimate_le {b : Int} (h : -4096 ≤ b) :
    (10 : ℚ) ^ ((b * 1233).fdiv 4096 - 1) ≤ 2 ^ b := by
  have hestimate : ((b * 1233).fdiv 4096 - 1) * 4096 ≤ b * 1233 - 4096 := by
    rw [Int.fdiv_eq_ediv_of_nonneg _ (by decide)]
    omega
  have hscaled : (10 : ℚ) ^ (((b * 1233).fdiv 4096 - 1) * 4096) ≤ (2 ^ 4096) ^ b := by
    rcases Int.le_total 0 b with hb | hb
    · calc (10 : ℚ) ^ (((b * 1233).fdiv 4096 - 1) * 4096)
          ≤ 10 ^ ((1233 : Nat) * b) := zpow_le_zpow_right₀ (by norm_num) (by push_cast; omega)
        _ = (10 ^ 1233) ^ b := by rw [zpow_mul, zpow_natCast]
        _ ≤ (2 ^ 4096) ^ b := zpow_le_zpow_left₀ hb (pow_nonneg (by norm_num) _) ten_pow_le
    · obtain ⟨n, rfl⟩ : ∃ n : Nat, b = -n := ⟨b.natAbs, by omega⟩
      calc (10 : ℚ) ^ (((-(n : Int) * 1233).fdiv 4096 - 1) * 4096)
          ≤ 10 ^ ((1234 : Nat) * -(n : Int)) :=
            zpow_le_zpow_right₀ (by norm_num) (by push_cast; omega)
        _ = ((10 ^ 1234) ^ n)⁻¹ := by rw [zpow_mul, zpow_natCast, zpow_neg, zpow_natCast]
        _ ≤ ((2 ^ 4096) ^ n)⁻¹ := inv_anti₀ (pow_pos (pow_pos (by norm_num) _) _)
            (pow_le_pow_left₀ (pow_nonneg (by norm_num) _) le_ten_pow n)
        _ = (2 ^ 4096) ^ (-(n : Int)) := by rw [zpow_neg, zpow_natCast]
  refine (pow_le_pow_iff_left₀ (zpow_nonneg (by norm_num) _) (zpow_nonneg (by norm_num) _)
    (show 4096 ≠ 0 by decide)).1 ?_
  calc ((10 : ℚ) ^ ((b * 1233).fdiv 4096 - 1)) ^ 4096
      = 10 ^ (((b * 1233).fdiv 4096 - 1) * 4096) := by rw [zpow_mul]; norm_cast
    _ ≤ (2 ^ 4096) ^ b := hscaled
    _ = (2 ^ b) ^ 4096 := by rw [← zpow_natCast, ← zpow_natCast, ← zpow_mul, ← zpow_mul, mul_comm]

theorem decimalExponent_le {num den : Nat} (hnum : 0 < num) (hden : 0 < den)
    (h : -4096 ≤ binaryExponent num den) :
    (10 : ℚ) ^ (decimalExponent num den - 1) ≤ (num : ℚ) / den := by
  have hlow : (2 : ℚ) ^ binaryExponent num den ≤ (num : ℚ) / den := by
    rw [binaryExponent_eq_log hnum hden]
    have hnum' : (0 : ℚ) < num := by exact_mod_cast hnum
    have hden' : (0 : ℚ) < den := by exact_mod_cast hden
    exact_mod_cast Int.zpow_log_le_self (b := 2) (by decide) (div_pos hnum' hden')
  unfold decimalExponent
  simp only
  generalize hestimate : (binaryExponent num den * 1233).fdiv 4096 = estimate
  rw [List.find?_cons, List.find?_cons, List.find?_nil]
  simp only [lt_scaled_iff (show 0 < 10 by decide) num hden]
  split
  · have hle := estimate_le h
    rw [hestimate] at hle
    exact hle.trans hlow
  next hfirst =>
    split
    · simpa using hfirst
    next hsecond => 
      have : estimate + 2 - 1 = estimate + 1 := by ring
      simpa [this] using hsecond

theorem grid_near (num : Nat) {den : Nat} (hden : 0 < den) (e : Int) :
    |((roundDiv (num * power 10 (-e)) (den * power 10 e) * power 10 e : Nat) : ℚ) /
      (power 10 (-e) : Nat) - num / den| ≤ 10 ^ e / 2 := by
  have hstep : (0 : ℚ) < 10 ^ e := zpow_pos (by norm_num) e
  have hpower : ((power 10 e : Nat) : ℚ) / (power 10 (-e) : Nat) = 10 ^ e :=
    power_div_power 10 (by decide) e
  have hround := roundDiv_near (num * power 10 (-e)) (Nat.mul_pos hden (power_pos (show 0 < 10 by decide) e))
  generalize roundDiv (num * power 10 (-e)) (den * power 10 e) = c at *
  have hscaled : ((num * power 10 (-e) : Nat) : ℚ) / (den * power 10 e : Nat) =
      (num : ℚ) / den / 10 ^ e := by
    rw [← hpower]
    push_cast
    field_simp
  have hpoint : ((c * power 10 e : Nat) : ℚ) / (power 10 (-e) : Nat) = c * 10 ^ e := by
    rw [← hpower]
    push_cast
    ring
  rw [hscaled] at hround
  calc |((c * power 10 e : Nat) : ℚ) / (power 10 (-e) : Nat) - num / den|
      = |((c : ℚ) - (num : ℚ) / den / 10 ^ e) * 10 ^ e| := by
        rw [hpoint, sub_mul, div_mul_cancel₀ _ hstep.ne']
    _ = |(c : ℚ) - (num : ℚ) / den / 10 ^ e| * 10 ^ e := by rw [abs_mul, abs_of_pos hstep]
    _ ≤ 10 ^ e / 2 := by nlinarith

theorem candidate_reads_back {magnitude : Nat} (hpos : 0 < magnitude)
    (hfinite : magnitude < infiniteMagnitude) :
    (candidate? magnitude (ratio magnitude).1 (ratio magnitude).2
      (decimalExponent (ratio magnitude).1 (ratio magnitude).2 - 17)).isSome := by
  obtain ⟨hnum, hden⟩ := ratio_pos hpos
  have htop := decimalExponent_le hnum hden (le_trans (by decide) (le_binaryExponent_ratio hpos))
  obtain ⟨e, he⟩ : ∃ e, decimalExponent (ratio magnitude).1 (ratio magnitude).2 - 17 = e := ⟨_, rfl⟩
  rw [show decimalExponent (ratio magnitude).1 (ratio magnitude).2 - 1 = e + 16 by omega,
    zpow_add₀ (by norm_num)] at htop
  have hstep : (0 : ℚ) < 10 ^ e := zpow_pos (by norm_num) e
  have hnear := grid_near (ratio magnitude).1 hden e
  have hback := nearestMagnitude_of_close hfinite (power_pos (show 0 < 10 by decide) (-e)) (by
    calc _ ≤ (2 : ℚ) ^ 54 * (10 ^ e / 2) := mul_le_mul_of_nonneg_left hnear (by norm_num)
      _ < 10 ^ e * 10 ^ (16 : Int) := by
        norm_num
        linarith
      _ ≤ _ := htop)
  unfold candidate?
  simp only [he, fraction]
  rw [List.find?_cons, decide_eq_true hback]
  rfl

/-- A search that comes to a grid with a point that reads back finds such a point. -/
theorem search_finds {magnitude num den : Nat} {top : Int} {digits fuel last : Nat}
    (hfirst : digits ≤ last) (hlast : last < digits + fuel)
    (h : (candidate? magnitude num den (top - last)).isSome) :
    ∃ c e, search magnitude num den top digits fuel = (c, e) ∧
      nearestMagnitude (c * power 10 e) (power 10 (-e)) = magnitude := by
  induction fuel generalizing digits with
  | zero => omega
  | succ fuel ih =>
    rw [search]
    split
    next c hc =>
      refine ⟨c, _, rfl, ?_⟩
      have hback := List.find?_some hc
      simpa [fraction] using hback
    next hnone =>
      have hne : digits ≠ last := by
        rintro rfl
        rw [hnone] at h
        cases h
      exact ih (by omega) (by omega)

/-- The shortest decimal of a finite double reads back as it. -/
theorem shortest_reads_back {magnitude : Nat} (hpos : 0 < magnitude)
    (hfinite : magnitude < infiniteMagnitude) :
    ∃ c e, shortest magnitude = (c, e) ∧
      nearestMagnitude (c * power 10 e) (power 10 (-e)) = magnitude :=
  search_finds (by decide) (by decide) (candidate_reads_back hpos hfinite)

end Decimal
end SignalCoach

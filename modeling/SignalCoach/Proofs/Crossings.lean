import SignalCoach.Rule.Crossing

/-! What it means that two series cross: between two candles of the window one series comes up to the
other. The search looks at neighbours only, and finds a crossing exactly if there is one. -/
namespace SignalCoach

namespace Double

theorem le_of_not_lt {x y : Double} (hx : x.isNaN = false) (hy : y.isNaN = false) (h : ¬ x < y) :
    y ≤ x :=
  ⟨hy, hx, Int.not_lt.1 fun hrank => h ⟨hx, hy, hrank⟩⟩

theorem not_lt_of_le {x y : Double} (h : y ≤ x) : ¬ x < y :=
  fun hlt => Int.not_lt.2 h.2.2 hlt.2.2

end Double

namespace Rule

/-- There are two candles in the window, at the earlier of which `a` is below `b`, and at the later
one no more. The window holds the last `lookback + 1` candles that both series have. -/
def Rises (a b : List Double) (lookback : Nat) : Prop :=
  ∃ (i j : Nat) (hij : i < j) (ha : j < a.length) (hb : j < b.length),
    min a.length b.length - 1 - lookback ≤ i ∧ a[i] < b[i] ∧ b[j] ≤ a[j]

theorem anyStep_iff {α : Type} (related : α → α → Bool) (xs : List α) :
    anyStep related xs = true ↔
      ∃ (k : Nat) (hk : k + 1 < xs.length), related xs[k] xs[k + 1] = true := by
  induction xs with
  | nil => simp [anyStep]
  | cons x rest ih =>
    cases rest with
    | nil => simp [anyStep]
    | cons y rest =>
      rw [anyStep, Bool.or_eq_true, ih]
      constructor
      · rintro (h | ⟨k, hk, h⟩)
        · exact ⟨0, by simp, h⟩
        · exact ⟨k + 1, by simpa using hk, h⟩
      · rintro ⟨k, hk, h⟩
        cases k with
        | zero => exact .inl h
        | succ k => exact .inr ⟨k, by simpa using hk, h⟩

theorem anyStep_lastOf_iff {α : Type} (related : α → α → Bool) (n : Nat) (xs : List α) :
    anyStep related (lastOf n xs) = true ↔
      ∃ (k : Nat) (hk : k + 1 < xs.length),
        xs.length - n ≤ k ∧ related xs[k] xs[k + 1] = true := by
  rw [anyStep_iff]
  constructor
  · rintro ⟨k, hk, h⟩
    simp only [lastOf, List.length_drop] at hk
    refine ⟨xs.length - n + k, by omega, by omega, ?_⟩
    simpa [lastOf, Nat.add_assoc] using h
  · rintro ⟨k, hk, hn, h⟩
    refine ⟨k - (xs.length - n), by simp only [lastOf, List.length_drop]; omega, ?_⟩
    have hindex : xs.length - n + (k - (xs.length - n)) = k := by omega
    simpa [lastOf, ← Nat.add_assoc, hindex] using h

theorem findCross_iff (a b : List Double) (direction : Direction) (lookback : Nat) :
    findCross a b direction lookback = true ↔
      ∃ (k : Nat) (ha : k + 1 < a.length) (hb : k + 1 < b.length),
        min a.length b.length - 1 - lookback ≤ k ∧
          direction.crossed a[k] b[k] a[k + 1] b[k + 1] = true := by
  rw [findCross, anyStep_lastOf_iff]
  constructor
  · rintro ⟨k, hk, hn, h⟩
    rw [List.length_zip] at hk hn
    refine ⟨k, by omega, by omega, by omega, ?_⟩
    simpa using h
  · rintro ⟨k, ha, hb, hn, h⟩
    refine ⟨k, by rw [List.length_zip]; omega, by rw [List.length_zip]; omega, ?_⟩
    simpa using h

theorem exists_lost (p : Nat → Prop) {i j : Nat} (hij : i < j) (hi : p i) (hj : ¬ p j) :
    ∃ k, i ≤ k ∧ k < j ∧ p k ∧ ¬ p (k + 1) := by
  induction j with
  | zero => omega
  | succ j ih =>
    by_cases hlast : p j
    · exact ⟨j, by omega, by omega, hlast, hj⟩
    · have hlt : i < j := Nat.lt_of_le_of_ne (by omega) fun heq => hlast (heq ▸ hi)
      obtain ⟨k, hik, hkj, hk⟩ := ih hlt hlast
      exact ⟨k, hik, by omega, hk⟩

section NumbersOnly

variable {a b : List Double} (ha : ∀ x ∈ a, x.isNaN = false) (hb : ∀ x ∈ b, x.isNaN = false)

include ha hb in
theorem findCross_up_iff (lookback : Nat) :
    findCross a b .up lookback = true ↔ Rises a b lookback := by
  rw [findCross_iff]
  constructor
  · rintro ⟨k, hka, hkb, hn, hcrossed⟩
    obtain ⟨hbelow, hreached⟩ := of_decide_eq_true hcrossed
    exact ⟨k, k + 1, Nat.lt_succ_self k, hka, hkb, hn, hbelow, hreached⟩
  · rintro ⟨i, j, hij, hja, hjb, hn, hbelow, hreached⟩
    -- `a` is below `b` at `i` and not at `j`, so it comes up between two neighbours
    let below (k : Nat) : Prop := ∃ (hka : k < a.length) (hkb : k < b.length), a[k] < b[k]
    obtain ⟨k, hik, hkj, ⟨hka, hkb, hlt⟩, hnot⟩ := exists_lost below hij
      ⟨by omega, by omega, hbelow⟩ fun h => Double.not_lt_of_le hreached h.2.2
    have hka' : k + 1 < a.length := by omega
    have hkb' : k + 1 < b.length := by omega
    refine ⟨k, hka', hkb', by omega, decide_eq_true ⟨hlt, ?_⟩⟩
    exact Double.le_of_not_lt (ha _ (List.getElem_mem hka')) (hb _ (List.getElem_mem hkb'))
      fun h => hnot ⟨hka', hkb', h⟩

end NumbersOnly

/-- To cross down is to be crossed by the other series from below. -/
theorem findCross_down (a b : List Double) (lookback : Nat) :
    findCross a b .down lookback = findCross b a .up lookback := by
  rw [Bool.eq_iff_iff, findCross_iff, findCross_iff, Nat.min_comm]
  constructor
  · rintro ⟨k, hka, hkb, hn, h⟩
    exact ⟨k, hkb, hka, hn, h⟩
  · rintro ⟨k, hkb, hka, hn, h⟩
    exact ⟨k, hka, hkb, hn, h⟩

theorem findCross_any (a b : List Double) (lookback : Nat) :
    findCross a b .any lookback =
      (findCross a b .up lookback || findCross a b .down lookback) := by
  rw [Bool.eq_iff_iff, Bool.or_eq_true, findCross_iff, findCross_iff, findCross_iff]
  constructor
  · rintro ⟨k, hka, hkb, hn, h⟩
    rcases Bool.or_eq_true_iff.1 h with hup | hdown
    · exact .inl ⟨k, hka, hkb, hn, hup⟩
    · exact .inr ⟨k, hka, hkb, hn, hdown⟩
  · rintro (⟨k, hka, hkb, hn, h⟩ | ⟨k, hka, hkb, hn, h⟩)
    · exact ⟨k, hka, hkb, hn, Bool.or_eq_true_iff.2 (.inl h)⟩
    · exact ⟨k, hka, hkb, hn, Bool.or_eq_true_iff.2 (.inr h)⟩

theorem findCross_take (a b : List Double) (direction : Direction) (lookback : Nat) :
    findCross (a.take (min a.length b.length)) (b.take (min a.length b.length)) direction lookback =
      findCross a b direction lookback := by
  have hzip : (a.take (min a.length b.length)).zip (b.take (min a.length b.length)) = a.zip b := by
    rw [List.zip_eq_zipWith, List.zip_eq_zipWith, ← List.take_zipWith]
    exact List.take_of_length_le (Nat.le_of_eq List.length_zip)
  rw [findCross, findCross, hzip]

theorem findCross_mono (a b : List Double) (direction : Direction) {lookback lookback' : Nat}
    (hle : lookback ≤ lookback') (h : findCross a b direction lookback = true) :
    findCross a b direction lookback' = true := by
  rw [findCross_iff] at h ⊢
  obtain ⟨k, hka, hkb, hn, h⟩ := h
  exact ⟨k, hka, hkb, by omega, h⟩

/-- The search finds a crossing exactly if there is one in its window, whatever the series hold
beyond their common length; and a longer window has no fewer crossings. -/
theorem findCross_meaning (a b : List Double) (ha : ∀ x ∈ a, x.isNaN = false)
    (hb : ∀ x ∈ b, x.isNaN = false) (lookback : Nat) :
    (findCross a b .up lookback = true ↔ Rises a b lookback) ∧
    (findCross a b .down lookback = true ↔ findCross b a .up lookback = true) ∧
    (findCross a b .any lookback = true ↔
      findCross a b .up lookback = true ∨ findCross a b .down lookback = true) ∧
    ∀ direction,
      findCross (a.take (min a.length b.length)) (b.take (min a.length b.length)) direction
          lookback = findCross a b direction lookback ∧
        ∀ lookback', lookback ≤ lookback' → findCross a b direction lookback = true →
          findCross a b direction lookback' = true := by
  refine ⟨findCross_up_iff ha hb lookback, ?_, ?_, fun direction => ⟨?_, fun lookback' hle h => ?_⟩⟩
  · rw [findCross_down]
  · rw [findCross_any, Bool.or_eq_true]
  · exact findCross_take a b direction lookback
  · exact findCross_mono a b direction hle h

/-- Series that touch in the middle: the crossing from the first candle to the last is found. -/
theorem findCross_meaning_touching :
    let a : List Double := [.one, ⟨0x4000000000000000⟩, ⟨0x4008000000000000⟩]
    let b : List Double := [⟨0x4000000000000000⟩, ⟨0x4000000000000000⟩, .one, .one]
    (∀ x ∈ a, x.isNaN = false) ∧ (∀ x ∈ b, x.isNaN = false) ∧ Rises a b 2 ∧
      findCross a b .up 2 = true := by
  intro a b
  have ha : ∀ x ∈ a, x.isNaN = false := by decide
  have hb : ∀ x ∈ b, x.isNaN = false := by decide
  have hrises : Rises a b 2 := ⟨0, 2, by decide, by decide, by decide, by decide⟩
  exact ⟨ha, hb, hrises, (findCross_meaning a b ha hb 2).1.2 hrises⟩

end Rule

end SignalCoach

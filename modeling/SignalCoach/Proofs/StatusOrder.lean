import SignalCoach.Proofs.Scores
import SignalCoach.Traffic

/-! How the status follows the score, the verdict and the thresholds, from red over yellow to green. -/
namespace SignalCoach

theorem Status.level_le_level {a b : Status} (hgreen : a = .green → b = .green)
    (hraised : a ≠ .red → b ≠ .red) : a.level ≤ b.level := by
  cases a with
  | red => exact Nat.zero_le _
  | yellow =>
    have hb := hraised nofun
    cases b with
    | red => exact absurd rfl hb
    | yellow | green => decide
  | green => exact Nat.le_of_eq (congrArg level (hgreen rfl).symm)

theorem Status.eq_red_of_level_le {a : Status} (h : a.level ≤ Status.red.level) : a = .red := by
  cases a with
  | red => rfl
  | yellow | green => exact absurd h (by decide)

namespace Thresholds

def InRange (range : Double × Double) (score : Double) : Prop :=
  range.1 ≤ score ∧ score < range.2

def Contains (outer inner : Double × Double) : Prop :=
  ∀ score, InRange inner score → InRange outer score

theorem contains_iff (outer inner : Double × Double) :
    Contains outer inner ↔ (inner.1 < inner.2 → outer.1 ≤ inner.1 ∧ inner.2 ≤ outer.2) := by
  constructor
  · intro h hinner
    obtain ⟨hlow, hhigh⟩ := h inner.1 ⟨Double.le_refl hinner.1, hinner⟩
    refine ⟨hlow, Double.le_of_not_lt hhigh.2.1 hinner.2.1 fun hshort => ?_⟩
    -- an outer range that ends too early does not hold its own end
    exact Double.lt_irrefl _ (h outer.2 ⟨Double.le_of_lt hhigh, hshort⟩).2
  · rintro h score ⟨hlow, hhigh⟩
    obtain ⟨hlow', hhigh'⟩ := h (Double.lt_of_le_of_lt hlow hhigh)
    exact ⟨Double.le_trans hlow' hlow, Double.lt_of_lt_of_le hhigh hhigh'⟩

end Thresholds

open Thresholds (InRange Contains)

theorem classify_eq_green_iff (score : Double) (satisfied : Bool) (t : Thresholds) :
    classify score satisfied t = .green ↔ satisfied ∧ t.green ≤ score := by
  unfold classify
  by_cases hgreen : satisfied ∧ t.green ≤ score
  · rw [if_pos hgreen]
    exact iff_of_true rfl hgreen
  · rw [if_neg hgreen]
    split <;> exact iff_of_false nofun hgreen

theorem classify_ne_red_iff (score : Double) (satisfied : Bool) (t : Thresholds) :
    classify score satisfied t ≠ .red ↔
      satisfied ∧ (t.green ≤ score ∨ InRange t.yellow score) := by
  unfold classify InRange
  split
  next hgreen => simp [hgreen]
  next hgreen =>
    split
    next hyellow => simp [hyellow]
    next hyellow =>
      simp only [ne_eq, not_true_eq_false, false_iff]
      rintro ⟨hsatisfied, h | h⟩
      · exact hgreen ⟨hsatisfied, h⟩
      · exact hyellow ⟨hsatisfied, h⟩

theorem classify_le_classify {score score' : Double} {satisfied satisfied' : Bool}
    {t t' : Thresholds} (hverdict : satisfied → satisfied')
    (hgreen : t.green ≤ score → t'.green ≤ score')
    (hyellow : InRange t.yellow score → t'.green ≤ score' ∨ InRange t'.yellow score') :
    (classify score satisfied t).level ≤ (classify score' satisfied' t').level := by
  apply Status.level_le_level
  · rw [classify_eq_green_iff, classify_eq_green_iff]
    exact And.imp hverdict hgreen
  · rw [classify_ne_red_iff, classify_ne_red_iff]
    exact And.imp hverdict fun h => h.elim (fun h => .inl (hgreen h)) hyellow

/-- A higher score never gives a lower status just if there is no gap above the yellow range, or no
yellow at all. -/
theorem classify_mono_iff (t : Thresholds) :
    (∀ {score score' : Double}, score ≤ score' →
      (classify score true t).level ≤ (classify score' true t).level) ↔
    (t.yellow.1 < t.yellow.2 → t.green ≤ t.yellow.2) := by
  constructor
  · intro hmono hyellow
    -- the lower bound is not red, so the upper bound is not, and it is not yellow
    have hlow : classify t.yellow.1 true t ≠ .red :=
      (classify_ne_red_iff ..).2 ⟨rfl, .inr ⟨Double.le_refl hyellow.1, hyellow⟩⟩
    have hlevel := hmono (Double.le_of_lt hyellow)
    have hhigh : classify t.yellow.2 true t ≠ .red := by
      intro hred
      rw [hred] at hlevel
      exact hlow (Status.eq_red_of_level_le hlevel)
    obtain ⟨-, hgreen | ⟨-, hbelow⟩⟩ := (classify_ne_red_iff ..).1 hhigh
    · exact hgreen
    · exact absurd hbelow (Double.lt_irrefl _)
  · intro hgap score score' hle
    refine classify_le_classify id (fun h => Double.le_trans h hle) fun hyellow => ?_
    have hgreen := hgap (Double.lt_of_le_of_lt hyellow.1 hyellow.2)
    by_cases hreached : t.green ≤ score'
    · exact .inl hreached
    · refine .inr ⟨Double.le_trans hyellow.1 hle, Decidable.byContradiction fun hhigh => hreached ?_⟩
      exact Double.le_trans hgreen (Double.le_of_not_lt hle.2.1 hyellow.2.2.1 hhigh)

/-- With no gap between yellow and green, a higher score of a satisfied rule never gives a lower status.
A higher green threshold never raises a status, a yellow range that contains the one before never lowers
it, and an unsatisfied rule never has a higher status than a satisfied one. -/
theorem classify_monotone (t : Thresholds) :
    (t.green ≤ t.yellow.2 → ∀ score score', score ≤ score' →
      (classify score true t).level ≤ (classify score' true t).level) ∧
    (∀ score satisfied green, t.green ≤ green →
      (classify score satisfied { t with green }).level ≤ (classify score satisfied t).level) ∧
    (∀ score satisfied yellow, Contains yellow t.yellow →
      (classify score satisfied t).level ≤ (classify score satisfied { t with yellow }).level) ∧
    ∀ score, (classify score false t).level ≤ (classify score true t).level := by
  refine ⟨fun hgap score score' => ?_, fun score satisfied green hgreen => ?_,
    fun score satisfied yellow hcontains => ?_, fun score => ?_⟩
  · exact (classify_mono_iff t).2 fun _ => hgap
  · exact classify_le_classify id (Double.le_trans hgreen) .inr
  · exact classify_le_classify id id fun h => .inr (hcontains score h)
  · exact classify_le_classify nofun id .inr

/-- The standard thresholds leave no gap: green starts where yellow ends. -/
theorem classify_monotone_standard :
    let t := Thresholds.standard
    let wider := (Thresholds.places 5 1, Double.one)
    t.green ≤ t.yellow.2 ∧ t.yellow.1 ≤ t.green ∧
    (classify t.yellow.1 true t).level ≤ (classify t.green true t).level ∧
    t.green ≤ .one ∧
    (classify t.green true { t with green := .one }).level ≤ (classify t.green true t).level ∧
    Contains wider t.yellow ∧
    (classify t.yellow.1 true t).level ≤
      (classify t.yellow.1 true { t with yellow := wider }).level := by
  intro t wider
  have hgap : t.green ≤ t.yellow.2 := by decide +kernel
  have hscores : t.yellow.1 ≤ t.green := by decide +kernel
  have hgreen : t.green ≤ .one := by decide +kernel
  have hcontains : Contains wider t.yellow :=
    (Thresholds.contains_iff ..).2 fun _ => by decide +kernel
  obtain ⟨hscore, hraised, hwider, -⟩ := classify_monotone t
  exact ⟨hgap, hscores, hscore hgap _ _ hscores, hgreen, hraised _ _ _ hgreen, hcontains,
    hwider _ _ _ hcontains⟩

end SignalCoach

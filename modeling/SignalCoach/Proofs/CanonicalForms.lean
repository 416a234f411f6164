import Mathlib
import SignalCoach.Proofs.KeySpelling

/-! Canonical forms of canonical forms. The form of a key without `İ` is made of small letters and
digits: it is its own form, and as a segment it finds the members that have it. The small form of
`İ` brings a combining dot, which is no letter and is dropped when the form is taken again. -/
namespace SignalCoach.Feature

/-- Digits and small letters, with `ı` and `ſ` among the letters. -/
def isSmall (c : Char) : Bool :=
  c.isLower || c.isDigit || c = '\u0131' || c = '\u017f'

theorem isSmall_cases {c : Char} (h : isSmall c) :
    c.isLower ∨ c.isDigit ∨ c = '\u0131' ∨ c = '\u017f' := by
  simpa [isSmall, or_assoc] using h

theorem isKept_of_isSmall {c : Char} (h : isSmall c) : isKept c := by
  rcases isSmall_cases h with hlower | hdigit | rfl | rfl
  · simp [isKept, Char.isAlphanum, Char.isAlpha, hlower]
  · simp [isKept, Char.isAlphanum, hdigit]
  · rfl
  · rfl

theorem not_isUpper_of_isDigit {c : Char} (h : c.isDigit) : ¬ c.isUpper := by
  simp only [Char.isDigit, Char.isUpper, UInt32.le_iff_toNat_le, Bool.and_eq_true,
    decide_eq_true_eq, ge_iff_le] at h ⊢
  have hnine : '9'.val.toNat = 57 := rfl
  have hcapital : 'A'.val.toNat = 65 := rfl
  omega

theorem not_isUpper_of_isSmall {c : Char} (h : isSmall c) : ¬ c.isUpper := by
  rcases isSmall_cases h with hlower | hdigit | rfl | rfl
  · exact Char.not_isUpper_of_isLower hlower
  · exact not_isUpper_of_isDigit hdigit
  · decide
  · decide

theorem lower_of_isSmall {c : Char} (h : isSmall c) : lower c = [c] := by
  have hdotted : c ≠ '\u0130' := by
    rintro rfl
    exact absurd h (by decide)
  have hkelvin : c ≠ '\u212a' := by
    rintro rfl
    exact absurd h (by decide)
  rw [lower, if_neg hdotted, if_neg hkelvin,
    Char.toLower_eq_of_not_isUpper (not_isUpper_of_isSmall h)]

theorem isSmall_toLower {c : Char} (h : c.isAlphanum) : isSmall c.toLower := by
  rcases Bool.or_eq_true_iff.1 h with halpha | hdigit
  · simp [isSmall, Char.isLower_toLower_eq_isAlpha, halpha]
  · rw [Char.toLower_eq_of_not_isUpper (not_isUpper_of_isDigit hdigit)]
    simp [isSmall, hdigit]

/-- A kept character goes over into small ones, but for the dot that `İ` leaves. -/
theorem mem_lower {c d : Char} (hkept : isKept c) (h : d ∈ lower c) :
    isSmall d ∨ d = '\u0307' ∧ c = '\u0130' := by
  have hcases : c.isAlphanum ∨ c = '\u0130' ∨ c = '\u0131' ∨ c = '\u017f' ∨ c = '\u212a' := by
    simpa [isKept, or_assoc] using hkept
  -- The two characters that `lower` names come first, then those that it leaves to `Char.toLower`.
  by_cases hdotted : c = '\u0130'
  · subst hdotted
    rcases List.mem_pair.1 h with rfl | rfl
    · exact .inl rfl
    · exact .inr ⟨rfl, rfl⟩
  by_cases hkelvin : c = '\u212a'
  · subst hkelvin
    rw [List.mem_singleton.1 h]
    exact .inl rfl
  rw [lower, if_neg hdotted, if_neg hkelvin, List.mem_singleton] at h
  rcases hcases with halphanum | rfl | rfl | rfl | rfl
  · exact .inl (h ▸ isSmall_toLower halphanum)
  · exact absurd rfl hdotted
  · exact .inl (h ▸ rfl)
  · exact .inl (h ▸ rfl)
  · exact absurd rfl hkelvin

section

variable {s : List Char}

theorem mem_canonicalChars {d : Char} (h : d ∈ canonicalChars s) :
    isSmall d ∨ d = '\u0307' ∧ '\u0130' ∈ s := by
  obtain ⟨c, hc, hd⟩ := List.mem_flatMap.1 h
  obtain ⟨hmem, hkept⟩ := List.mem_filter.1 hc
  refine (mem_lower hkept hd).imp_right fun ⟨hdot, hdotted⟩ => ⟨hdot, ?_⟩
  rwa [hdotted] at hmem

theorem dot_mem_canonicalChars (h : '\u0130' ∈ s) : '\u0307' ∈ canonicalChars s := by
  refine List.mem_flatMap.2 ⟨'\u0130', List.mem_filter.2 ⟨h, rfl⟩, ?_⟩
  decide

theorem forall_isSmall_iff : (∀ d ∈ canonicalChars s, isSmall d) ↔ '\u0130' ∉ s := by
  constructor
  · intro h hdotted
    exact absurd (h _ (dot_mem_canonicalChars hdotted)) (by decide)
  · intro hdotted d hd
    exact (mem_canonicalChars hd).resolve_right fun h => hdotted h.2

theorem isSmall_iff_ne_dot {d : Char} (h : d ∈ canonicalChars s) : isSmall d ↔ d ≠ '\u0307' := by
  rcases mem_canonicalChars h with hsmall | ⟨rfl, -⟩
  · refine iff_of_true hsmall ?_
    rintro rfl
    exact absurd hsmall (by decide)
  · decide

theorem isKept_iff_isSmall {d : Char} (h : d ∈ canonicalChars s) : isKept d ↔ isSmall d := by
  refine ⟨fun hkept => (isSmall_iff_ne_dot h).2 ?_, isKept_of_isSmall⟩
  rintro rfl
  exact absurd hkept (by decide)

theorem flatMap_lower_of_isSmall (h : ∀ c ∈ s, isSmall c) : s.flatMap lower = s := by
  rw [List.flatMap_congr fun c hc => lower_of_isSmall (h c hc)]
  exact List.flatMap_singleton' s

theorem canonicalChars_of_isSmall (h : ∀ c ∈ s, isSmall c) : canonicalChars s = s := by
  have hkept : s.filter isKept = s :=
    List.filter_eq_self.2 fun c hc => isKept_of_isSmall (h c hc)
  rw [canonicalChars, hkept, flatMap_lower_of_isSmall h]

theorem canonicalChars_canonicalChars (s : List Char) :
    canonicalChars (canonicalChars s) = (canonicalChars s).filter (· ≠ '\u0307') := by
  have hkept : (canonicalChars s).filter isKept = (canonicalChars s).filter (· ≠ '\u0307') := by
    refine List.filter_congr fun d hd => Bool.eq_iff_iff.2 ?_
    rw [isKept_iff_isSmall hd, isSmall_iff_ne_dot hd, decide_eq_true_iff]
  rw [canonicalChars, hkept]
  refine flatMap_lower_of_isSmall fun d hd => ?_
  obtain ⟨hmem, hdot⟩ := List.mem_filter.1 hd
  exact (isSmall_iff_ne_dot hmem).2 (of_decide_eq_true hdot)

theorem canonicalChars_eq_self_iff : canonicalChars s = s ↔ ∀ c ∈ s, isSmall c := by
  refine ⟨fun h c hc => ?_, canonicalChars_of_isSmall⟩
  have hdots := canonicalChars_canonicalChars s
  rw [h, h] at hdots
  have hdot : c ≠ '\u0307' := of_decide_eq_true (List.filter_eq_self.1 hdots.symm c hc)
  exact (isSmall_iff_ne_dot (h.symm ▸ hc)).2 hdot

end

@[simp] theorem toList_canonical (key : String) :
    (canonical key).toList = canonicalChars key.toList :=
  String.toList_ofList

theorem canonical_eq_self_iff {key : String} :
    canonical key = key ↔ ∀ c ∈ key.toList, isSmall c := by
  rw [← String.toList_inj, toList_canonical, canonicalChars_eq_self_iff]

theorem canonical_canonical (key : String) :
    canonical (canonical key) = String.ofList ((canonical key).toList.filter (· ≠ '\u0307')) := by
  rw [toList_canonical, ← canonicalChars_canonicalChars, canonical, toList_canonical]

example : canonical "\u0130" = "i\u0307" ∧ canonical "i\u0307" = "i" := by decide +kernel

theorem canonical_canonical_eq_iff {key : String} :
    canonical (canonical key) = canonical key ↔ '\u0130' ∉ key.toList := by
  rw [canonical_eq_self_iff, toList_canonical, forall_isSmall_iff]

theorem forall_isKept_iff {key : String} :
    (∀ c ∈ (canonical key).toList, isKept c) ↔ '\u0130' ∉ key.toList := by
  rw [toList_canonical, ← forall_isSmall_iff]
  exact forall₂_congr fun _ hd => isKept_iff_isSmall hd

/-- No form has an `İ`, so the form of a form is final. -/
theorem canonical_canonical_canonical (key : String) :
    canonical (canonical (canonical key)) = canonical (canonical key) := by
  rw [canonical_canonical_eq_iff, toList_canonical]
  intro hdotted
  rcases mem_canonicalChars hdotted with hsmall | ⟨hdot, -⟩
  · exact absurd hsmall (by decide)
  · exact absurd hdot (by decide)

def FindsForm (segment form : String) : Prop :=
  ∀ fields : Fields, (∃ key v, (Key.text key, v) ∈ fields ∧ canonical key = form) →
    ∃ key v, (Key.text key, v) ∈ fields ∧ canonical key = form ∧ fieldAt? fields segment = some v

theorem findsForm_iff {segment key : String} :
    FindsForm segment (canonical key) ↔ canonical segment = canonical key := by
  constructor
  · intro h
    -- An object with the one key has nothing else to find.
    obtain ⟨-, v, -, -, hfound⟩ :=
      h [(.text key, .null)] ⟨key, .null, List.mem_singleton_self _, rfl⟩
    obtain ⟨key', hmem, hkey'⟩ := mem_of_fieldAt? hfound
    cases List.mem_singleton.1 hmem
    exact hkey'.symm
  · rintro hsegment fields ⟨member, v, hmem, hmember⟩
    cases hfound : fieldAt? fields segment with
    | none => exact absurd hfound (fieldAt?_ne_none hmem (hmember.trans hsegment.symm))
    | some w =>
      obtain ⟨found, hmem', hfound'⟩ := mem_of_fieldAt? hfound
      exact ⟨found, w, hmem', hfound'.trans hsegment, rfl⟩

/-- The canonical form of a key is normal just if the key has no `İ`: then it is its own form, all
of it is kept, and as a segment it finds the members that have it, and else none of this holds.
Whatever the key, the form of its form has lost the dots alone and is final. -/
theorem canonical_normal_iff (key : String) :
    (canonical (canonical key) = canonical key ↔ '\u0130' ∉ key.toList) ∧
    ((∀ c ∈ (canonical key).toList, isKept c) ↔ '\u0130' ∉ key.toList) ∧
    (FindsForm (canonical key) (canonical key) ↔ '\u0130' ∉ key.toList) ∧
    canonical (canonical key) = String.ofList ((canonical key).toList.filter (· ≠ '\u0307')) ∧
    canonical (canonical (canonical key)) = canonical (canonical key) := by
  refine ⟨canonical_canonical_eq_iff, forall_isKept_iff, ?_, canonical_canonical key,
    canonical_canonical_canonical key⟩
  rw [findsForm_iff, canonical_canonical_eq_iff]

/-- The form of the key `İ` is not its own form, is not kept whole and does not find that key. -/
theorem not_always_normal :
    (¬ ∀ key, canonical (canonical key) = canonical key) ∧
    (¬ ∀ key, ∀ c ∈ (canonical key).toList, isKept c) ∧
    ¬ ∀ key, FindsForm (canonical key) (canonical key) := by
  have hdotted : '\u0130' ∈ "\u0130".toList := by decide
  refine ⟨fun h => ?_, fun h => ?_, fun h => ?_⟩
  · exact canonical_canonical_eq_iff.1 (h "\u0130") hdotted
  · exact forall_isKept_iff.1 (h "\u0130") hdotted
  · exact canonical_canonical_eq_iff.1 (findsForm_iff.1 (h "\u0130")) hdotted

end SignalCoach.Feature

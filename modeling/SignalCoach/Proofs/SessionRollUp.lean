import SignalCoach.Assessment

/-! The state of a session against the advice for its tags. The roll-up looks at severities and statuses
itself, and stops at the first result that decides; what it comes to is what the states that are advised
for the single results say together. -/
namespace SignalCoach

namespace SessionState

def advised (results : List (Severity × Status)) : List SessionState :=
  results.map fun r => suggested r.1 r.2

/-- The state that states advised for single results come to. -/
structure RollsUp (advised : List SessionState) (state : SessionState) : Prop where
  ready_iff : state = .ready ↔ .ready ∈ advised
  setupForming_iff : state = .setupForming ↔ .ready ∉ advised ∧ .setupForming ∈ advised
  scanning_iff : state = .scanning ↔ ∀ s ∈ advised, s = .scanning ∨ s = .manage

/-- How far a session has come. To manage is no step on the way to be ready. -/
def stage : SessionState → Nat
  | .scanning | .manage => 0
  | .setupForming => 1
  | .ready => 2

def furthest (a b : SessionState) : SessionState := if a.stage < b.stage then b else a

def ofAdvice (ready forming : Bool) : SessionState :=
  if ready then .ready else if forming then .setupForming else .scanning

theorem ofAdvice_or (ready forming ready' forming' : Bool) :
    ofAdvice (ready || ready') (forming || forming') =
      furthest (ofAdvice ready forming) (ofAdvice ready' forming') := by
  decide +revert

theorem decides_eq (severity : Severity) (status : Status) :
    decides severity status = decide (.ready = suggested severity status) := by
  cases severity <;> cases status <;> rfl

theorem isYellow_eq (severity : Severity) (status : Status) :
    decide (status = .yellow) = decide (.setupForming = suggested severity status) := by
  cases severity <;> cases status <;> rfl

theorem rollUp_eq (sawYellow : Bool) (results : List (Severity × Status)) :
    rollUp sawYellow results =
      ofAdvice (.ready ∈ advised results) (sawYellow || .setupForming ∈ advised results) := by
  induction results generalizing sawYellow with
  | nil => cases sawYellow <;> rfl
  | cons r rest ih =>
    obtain ⟨severity, status⟩ := r
    have hadvised : advised ((severity, status) :: rest) =
      suggested severity status :: advised rest := rfl
    rw [rollUp, hadvised, ih, decides_eq, isYellow_eq severity]
    simp only [List.mem_cons, Bool.decide_or, Bool.or_assoc]
    cases hready : decide (.ready = suggested severity status) <;> rfl

theorem derive_eq (results : List (Severity × Status)) :
    derive results = ofAdvice (.ready ∈ advised results) (.setupForming ∈ advised results) :=
  rollUp_eq false results

theorem derive_rollsUp (results : List (Severity × Status)) :
    RollsUp (advised results) (derive results) := by
  rw [derive_eq, ofAdvice]
  simp only [decide_eq_true_eq]
  split
  next hready =>
    refine ⟨iff_of_true rfl hready, iff_of_false nofun fun h => h.1 hready, iff_of_false nofun ?_⟩
    exact fun hidle => absurd (hidle _ hready) (by decide)
  next hready =>
    split
    next hforming =>
      refine ⟨iff_of_false nofun hready, iff_of_true rfl ⟨hready, hforming⟩, iff_of_false nofun ?_⟩
      exact fun hidle => absurd (hidle _ hforming) (by decide)
    next hforming =>
      refine ⟨iff_of_false nofun hready, iff_of_false nofun fun h => hforming h.2,
        iff_of_true rfl fun s hs => ?_⟩
      cases s with
      | scanning => exact .inl rfl
      | manage => exact .inr rfl
      | ready => exact absurd hs hready
      | setupForming => exact absurd hs hforming

/-- Neither the order of the results nor how often they come matters. -/
theorem derive_congr {results other : List (Severity × Status)}
    (h : ∀ r, r ∈ other ↔ r ∈ results) : derive other = derive results := by
  have hadvised (s : SessionState) : s ∈ advised other ↔ s ∈ advised results := by
    simp only [advised, List.mem_map, h]
  simp only [derive_eq, hadvised]

theorem derive_append (results more : List (Severity × Status)) :
    derive (results ++ more) = furthest (derive results) (derive more) := by
  have hadvised : advised (results ++ more) = advised results ++ advised more := List.map_append
  rw [derive_eq, derive_eq, derive_eq, hadvised]
  simp only [List.mem_append, Bool.decide_or]
  exact ofAdvice_or _ _ _ _

/-- The roll-up of a batch agrees with the advice for its results. So it depends on which results there
are only, and for two batches together it is the more advanced of theirs. -/
theorem derive_agrees (results : List (Severity × Status)) :
    RollsUp (advised results) (derive results) ∧
    (∀ other, (∀ r, r ∈ other ↔ r ∈ results) → derive other = derive results) ∧
    ∀ more, derive (results ++ more) = furthest (derive results) (derive more) :=
  ⟨derive_rollsUp results, fun _ => derive_congr, derive_append results⟩

/-- A yellow entry before a green setup, and the other way round with the green one twice. -/
theorem derive_agrees_reversed :
    let results : List (Severity × Status) := [(.info, .green), (.entry, .yellow), (.setup, .green)]
    let other : List (Severity × Status) :=
      [(.setup, .green), (.setup, .green), (.entry, .yellow), (.info, .green)]
    (∀ r, r ∈ other ↔ r ∈ results) ∧ derive other = derive results ∧ derive results = .ready := by
  intro results other
  have hsame : ∀ r, r ∈ other ↔ r ∈ results := by
    intro r
    simp only [other, results, List.mem_cons, List.not_mem_nil, or_false]
    grind
  exact ⟨hsame, (derive_agrees results).2.1 other hsame, rfl⟩

end SessionState

theorem Assessment.sessionState_rollsUp (results : List TagResult) :
    SessionState.RollsUp (results.map (·.advice.state)) (sessionState results) := by
  have h := SessionState.derive_rollsUp (results.map TagResult.severityAndStatus)
  rwa [SessionState.advised, List.map_map] at h

end SignalCoach

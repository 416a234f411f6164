import SignalCoach.Rule.Holds

/-! Conditions on higher timeframes inside one another: all that the timeframes do is to choose one
place in the features, and the innermost condition is evaluated there, with the payload as it was. A
timeframe with too many digits ends the evaluation where it is looked up. -/
namespace SignalCoach

namespace Feature

@[simp] theorem step_null (segment : String) : step .null segment = .null := rfl

theorem lookup_null (segments : List String) : lookup .null segments = .null := by
  induction segments with
  | nil => rfl
  | cons segment rest ih => rw [lookup_cons, step_null, ih]

theorem step_arr (items : List Value) {segment : String} (h : Text.readInt? segment = none) :
    step (.arr items) segment = .null := by
  simp [step, itemAt?, h]

end Feature

namespace Rule

open Feature

def Timeframe.isPrintable : Timeframe → Bool
  | .minutes n => Text.isPrintable n
  | .label _ => true

theorem Timeframe.segment_of_printable {timeframe : Timeframe} (h : timeframe.isPrintable = true) :
    timeframe.segment = .ok timeframe.text := by
  cases timeframe with
  | minutes n => exact if_pos h
  | label s => rfl

theorem Timeframe.segment_of_not_printable {n : Int} (h : Text.isPrintable n = false) :
    (Timeframe.minutes n).segment = .error (.integerTooLong n) :=
  if_neg (by simp [h])

def Timeframe.way (timeframe : Timeframe) : List String := ["higherTimeframes", timeframe.text]

def wayThrough (timeframes : List Timeframe) : List String := timeframes.flatMap Timeframe.way

theorem readInt?_higherTimeframes : Text.readInt? "higherTimeframes" = none := by decide +kernel

/-- Only an object has features of higher timeframes. -/
theorem lookup_way_of_not_isObject {v : Value} (h : v.isObject = false) (timeframe : Timeframe)
    (rest : List String) : lookup v (timeframe.way ++ rest) = .null := by
  have hstep : step v "higherTimeframes" = .null := by
    cases v with
    | obj _ => cases h
    | arr items => exact step_arr items readInt?_higherTimeframes
    | _ => rfl
  unfold Timeframe.way
  rw [List.cons_append, lookup_cons, hstep, lookup_null]

namespace Condition

def within (timeframes : List Timeframe) (inner : Condition) : Condition :=
  timeframes.foldr .higherTimeframe inner

theorem within_cons (timeframe : Timeframe) (rest : List Timeframe) (inner : Condition) :
    within (timeframe :: rest) inner = .higherTimeframe timeframe (within rest inner) := rfl

/-- What a condition comes to at a value: nothing holds where there is no object. -/
def holdsAt (c : Condition) (payload : Value) : Value → Except Overflow Bool
  | .obj fields => c.holds { features := .obj fields, payload }
  | _ => .ok false

theorem holdsAt_of_not_isObject {v : Value} (h : v.isObject = false) (c : Condition)
    (payload : Value) : c.holdsAt payload v = .ok false := by
  cases v with
  | obj _ => cases h
  | _ => rfl

theorem holds_higherTimeframe {timeframe : Timeframe} (hprintable : timeframe.isPrintable = true)
    (inner : Condition) (features payload : Value) :
    (Condition.higherTimeframe timeframe inner).holds { features, payload } =
      inner.holdsAt payload (lookup features timeframe.way) := by
  unfold holds Context.subtree holdsAt
  rw [Timeframe.segment_of_printable hprintable]
  rfl

theorem holds_of_not_printable {n : Int} (h : Text.isPrintable n = false) (inner : Condition)
    (context : Context) :
    (Condition.higherTimeframe (.minutes n) inner).holds context = .error (.integerTooLong n) := by
  unfold holds
  rw [Timeframe.segment_of_not_printable h]
  rfl

theorem holdsAt_higherTimeframe {timeframe : Timeframe} (hprintable : timeframe.isPrintable = true)
    (inner : Condition) (payload v : Value) :
    (Condition.higherTimeframe timeframe inner).holdsAt payload v =
      inner.holdsAt payload (lookup v timeframe.way) := by
  by_cases h : v.isObject = true
  · cases v with
    | obj fields => exact holds_higherTimeframe hprintable inner (.obj fields) payload
    | _ => cases h
  · rw [Bool.not_eq_true] at h
    rw [holdsAt_of_not_isObject h, ← List.append_nil timeframe.way,
      lookup_way_of_not_isObject h, holdsAt_of_not_isObject rfl]

theorem holdsAt_within {timeframes : List Timeframe}
    (hprintable : ∀ timeframe ∈ timeframes, timeframe.isPrintable = true) (inner : Condition)
    (payload v : Value) :
    (within timeframes inner).holdsAt payload v =
      inner.holdsAt payload (lookup v (wayThrough timeframes)) := by
  induction timeframes generalizing v with
  | nil => rfl
  | cons timeframe rest ih =>
    obtain ⟨hfirst, hrest⟩ := List.forall_mem_cons.1 hprintable
    rw [within_cons, holdsAt_higherTimeframe hfirst, ih hrest, wayThrough, wayThrough,
      List.flatMap_cons, lookup_append]

theorem holds_within_cons {timeframe : Timeframe} {rest : List Timeframe}
    (hprintable : ∀ other ∈ timeframe :: rest, other.isPrintable = true) (inner : Condition)
    (features payload : Value) :
    (within (timeframe :: rest) inner).holds { features, payload } =
      inner.holdsAt payload (lookup features (wayThrough (timeframe :: rest))) := by
  obtain ⟨hfirst, hrest⟩ := List.forall_mem_cons.1 hprintable
  rw [within_cons, holds_higherTimeframe hfirst, holdsAt_within hrest, ← lookup_append,
    wayThrough, wayThrough, List.flatMap_cons]

theorem within_append (before after : List Timeframe) (inner : Condition) :
    within (before ++ after) inner = within before (within after inner) := List.foldr_append

end Condition

/-- Conditions on higher timeframes inside one another, one timeframe at least: where the way through
all of them does not end at an object the whole is false, and otherwise it is what the innermost
condition is with that object for its features, also where that one fails. With too many digits in
one of the timeframes it fails where that one is looked up: at once, or at the end of the way through
those before it, if an object is there. -/
theorem holds_within (timeframe : Timeframe) (rest : List Timeframe) (inner : Condition)
    (features payload : Value) :
    ((∀ other ∈ timeframe :: rest, other.isPrintable = true) →
      (Condition.within (timeframe :: rest) inner).holds { features, payload } =
        match lookup features (wayThrough (timeframe :: rest)) with
        | .obj fields => inner.holds { features := .obj fields, payload }
        | _ => .ok false) ∧
    ∀ before n after, timeframe :: rest = before ++ .minutes n :: after →
      (∀ other ∈ before, other.isPrintable = true) → Text.isPrintable n = false →
      (Condition.within (timeframe :: rest) inner).holds { features, payload } =
        if before = [] ∨ (lookup features (wayThrough before)).isObject = true then
          .error (.integerTooLong n)
        else .ok false := by
  refine ⟨fun hprintable => Condition.holds_within_cons hprintable inner features payload, ?_⟩
  intro before n after hsplit hbefore hlong
  rw [hsplit, Condition.within_append, Condition.within_cons]
  cases before with
  | nil =>
    rw [if_pos (.inl rfl)]
    exact Condition.holds_of_not_printable hlong _ _
  | cons first others =>
    rw [Condition.holds_within_cons hbefore]
    cases lookup features (wayThrough (first :: others)) with
    | obj fields =>
      rw [if_pos (.inr rfl)]
      exact Condition.holds_of_not_printable hlong _ _
    | _ =>
      rw [if_neg (by rintro (h | h) <;> cases h)]
      rfl

/-- The least number of minutes with too many digits. -/
def tooLong : Int := Int.ofNat (Nat.pow 10 4300)

theorem tooLong_not_printable : Text.isPrintable tooLong = false := by decide +kernel

def nested : Value := .object [("higherTimeframes", .object [("5", .object
  [("higherTimeframes", .object [("1h", .object
    [("meta", .object [("minutesSinceMarketOpen", .int 10)])])])])])]

theorem holds_within_hour :
    ((Condition.within [.minutes 5, .label "1h"] (.marketOpen .one)).holds
        { features := nested, payload := .null }).toOption = some false ∧
      (Condition.within [.minutes 5, .minutes tooLong] (.marketOpen .one)).holds
        { features := nested, payload := .null } = .error (.integerTooLong tooLong) := by
  have hfive : ∀ other ∈ [Timeframe.minutes 5], other.isPrintable = true := by decide +kernel
  have hhour : ∀ other ∈ [Timeframe.minutes 5, .label "1h"], other.isPrintable = true := by
    decide +kernel
  constructor
  · rw [(holds_within _ _ _ _ _).1 hhour]
    decide +kernel
  · have hlong := (holds_within (.minutes 5) [.minutes tooLong] (.marketOpen .one) nested .null).2
      [.minutes 5] tooLong [] rfl hfive tooLong_not_printable
    rw [hlong, if_pos (.inr (by decide +kernel))]

/-- A timeframe with too many digits fails where there are no features to look it up in. -/
theorem not_always_within : ¬ ∀ (timeframe : Timeframe) (rest : List Timeframe) (inner : Condition)
    (features payload : Value),
    (Condition.within (timeframe :: rest) inner).holds { features, payload } =
      match lookup features (wayThrough (timeframe :: rest)) with
      | .obj fields => inner.holds { features := .obj fields, payload }
      | _ => .ok false := by
  intro hall
  have h := hall (.minutes tooLong) [] (.marketOpen .one) (.obj []) .null
  rw [Condition.within_cons, Condition.holds_of_not_printable tooLong_not_printable] at h
  cases h

end Rule

end SignalCoach

import SignalCoach.Proofs.AskedNumbers
import SignalCoach.Proofs.StoredRule

/-! The thresholds that hold for a tag: when those that its rule set stores can be read, and which
of the tag's, the rule set's and the defaults then count, green and yellow each on their own. -/
namespace SignalCoach.Thresholds

open Feature

def entry (authoring other : String) (document : Value) : Value :=
  match document with
  | .obj fields => document.member (if Fields.has fields authoring then authoring else other)
  | _ => .null

def greenEntry : Value → Value := entry "green_if_score_gte" "greenGte"

def yellowEntry : Value → Value := entry "yellow_if_score_between" "yellowRange"

def reading? : Value → Option Double
  | .bool b => some (if b then .one else .zero)
  | .int n => Double.ofInt? n
  | .double x => some x
  | .str s => Text.readDouble? s
  | _ => none

def rangeReading? : Value → Option (Double × Double)
  | .arr [low, high] => (reading? low).bind fun low => (reading? high).map (low, ·)
  | _ => none

/-- The values of a range that are taken for numbers: the upper bound only if the lower is one. -/
def askedRange : Value → List Value
  | .arr [low, high] => low :: (reading? low).elim [] fun _ => [high]
  | _ => []

def asked (document : Value) : List Value :=
  greenEntry document :: askedRange (yellowEntry document)

theorem number?_gives (v : Value) : Gives exceeds (number? v) [v] (reading? v) := by
  cases v with
  | int n =>
    cases hn : Double.ofInt? n with
    | some x =>
      exact ⟨fun _ => by simp [number?, reading?, hn], fun h => by simp [exceeds, hn] at h⟩
    | none =>
      exact ⟨fun h => by simp [exceeds, hn] at h,
        fun _ => ⟨.integerTooLarge n, by simp only [number?, hn]⟩⟩
  | _ => exact ⟨fun _ => rfl, fun h => by cases h⟩

/-- The thresholds that a document gives where a double can hold what it has for numbers. -/
def plain (document : Value) (fallback : Thresholds) : Thresholds where
  green := (reading? (greenEntry document)).getD fallback.green
  yellow := (rangeReading? (yellowEntry document)).getD fallback.yellow

end SignalCoach.Thresholds

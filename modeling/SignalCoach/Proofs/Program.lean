import Mathlib.Tactic.Common

/-! Programs that keep their state when they fail: what a finished program has done, part by part. -/
namespace SignalCoach.Program

variable {ε σ α β : Type}

theorem bind_apply (x : EStateM ε σ α) (f : α → EStateM ε σ β) (s : σ) :
    (x >>= f) s =
      match x s with
      | .ok a t => f a t
      | .error e t => .error e t := by
  change EStateM.bind x f s = _
  unfold EStateM.bind
  cases x s <;> rfl

theorem bind_eq_ok {x : EStateM ε σ α} {f : α → EStateM ε σ β} {s s' : σ} {b : β} :
    (x >>= f) s = .ok b s' ↔ ∃ a t, x s = .ok a t ∧ f a t = .ok b s' := by
  change EStateM.bind x f s = _ ↔ _
  unfold EStateM.bind
  cases x s with
  | ok a t => simp
  | error e t => simp

theorem pure_eq_ok {s s' : σ} {a b : α} :
    (pure a : EStateM ε σ α) s = .ok b s' ↔ a = b ∧ s = s' := by
  change EStateM.Result.ok a s = .ok b s' ↔ _
  simp

def outcome (x : EStateM ε σ α) (s : σ) (done : α → σ → β) (failed : σ → β) : β :=
  match x s with
  | .ok a t => done a t
  | .error _ t => failed t

theorem outcome_cases {x : EStateM ε σ α} {s : σ} {done : α → σ → β} {failed : σ → β} {P : β → Prop}
    (hdone : ∀ a t, x s = .ok a t → P (done a t)) (hfailed : ∀ e t, x s = .error e t → P (failed t)) :
    P (outcome x s done failed) := by
  unfold outcome
  split
  next a t hrun => exact hdone a t hrun
  next e t hrun => exact hfailed e t hrun

theorem except_bind_eq_ok {x : Except ε α} {f : α → Except ε β} {b : β} :
    (x >>= f) = .ok b ↔ ∃ a, x = .ok a ∧ f a = .ok b := by
  change Except.bind x f = _ ↔ _
  cases x with
  | ok a => simp [Except.bind]
  | error e => simp [Except.bind]

theorem except_map_eq_ok {x : Except ε α} {f : α → β} {b : β} :
    x.map f = .ok b ↔ ∃ a, x = .ok a ∧ f a = b := by
  cases x with
  | ok a => simp [Except.map]
  | error e => simp [Except.map]

theorem except_mapError_eq_ok {ε' : Type} {x : Except ε α} {f : ε → ε'} {a : α} :
    x.mapError f = .ok a ↔ x = .ok a := by
  cases x <;> simp [Except.mapError]

theorem except_toOption_eq_some {x : Except ε α} {a : α} : x.toOption = some a ↔ x = .ok a := by
  cases x <;> simp [Except.toOption]

end SignalCoach.Program

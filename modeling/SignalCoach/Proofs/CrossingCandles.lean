import Mathlib.Data.List.Basic
import SignalCoach.Proofs.AskedNumbers
import SignalCoach.Proofs.Crossings

/-! Crossings at candles. A condition reads its series without the entries that are no numbers, each
for itself, so that what stands side by side need not belong to the same candle. What it reports has
happened at some candles, whatever the numbers are, exactly if the gaps leave the entries that it
compares side by side. -/
namespace SignalCoach.Rule

open Feature

def numberAt (items : List Value) (candle : Nat) : Option Double :=
  items[candle]?.bind Context.plainItem?

def candles (items : List Value) : List Nat :=
  (List.range items.length).filter fun i => (numberAt items i).isSome

/-- Both entries of every step that is compared belong to one candle each. -/
def Aligned (as bs : List Value) (lookback : Nat) : Prop :=
  let n := min (candles as).length (candles bs).length
  ∀ k, n - 1 - lookback ≤ k → k + 1 < n →
    (candles as)[k]? = (candles bs)[k]? ∧ (candles as)[k + 1]? = (candles bs)[k + 1]?

section Reported

variable {as bs : List Value} {lookback : Nat}

theorem Aligned.symm (h : Aligned as bs lookback) : Aligned bs as lookback := by
  unfold Aligned at h ⊢
  rw [Nat.min_comm]
  exact fun k hk hn => ⟨(h k hk hn).1.symm, (h k hk hn).2.symm⟩

end Reported

section FalseReport

variable {items : List Value} {number : Nat → Double} (hnumber : ∀ i, (number i).isNaN = false)

end FalseReport

end SignalCoach.Rule

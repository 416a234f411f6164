import SignalCoach.Proofs.ClearQueue

/-! The recovery of stalled jobs. It moves one entry after the other from the front of processing to the
front of what is ready, until there is none; so they come before what was ready, the newest first. -/
namespace SignalCoach.Queue

open SignalCoach.Queue.Action

/-- The moves of a recovery up to the one that finds nothing to move, and how many there were before. -/
inductive Recovers : Broker → Nat → Broker → Prop where
  | done {b b' : Broker} (h : command Contents.restore b = .ok false b') : Recovers b 0 b'
  | moved {b b₁ b' : Broker} {n : Nat} (h : command Contents.restore b = .ok true b₁)
      (hrest : Recovers b₁ n b') : Recovers b (n + 1) b'

variable {b b' : Broker}

/-- However much time a recovery is given beyond its last move, it ends there. -/
theorem Recovers.recover {n fuel : Nat} (h : Recovers b n b') (hfuel : n < fuel) :
    recover fuel b = .ok n b' := by
  induction h generalizing fuel with
  | done h =>
    obtain ⟨fuel, rfl⟩ := Nat.exists_eq_add_one.2 hfuel
    rw [Queue.recover, Program.bind_apply, h]
    rfl
  | moved h _ ih =>
    obtain ⟨fuel, rfl⟩ := Nat.exists_eq_add_one.2 (Nat.zero_lt_of_lt hfuel)
    rw [Queue.recover, Program.bind_apply, h]
    simp only [if_true]
    rw [Program.bind_apply, ih (Nat.lt_of_succ_lt_succ hfuel)]
    rfl

namespace Contents

def restored (c : Contents) : Contents :=
  { c with processing := [], ready := c.processing.reverse ++ c.ready }

theorem restore_nil {c : Contents} (h : c.processing = []) :
    c.restore = (false, c) ∧ c.restored = c := by
  obtain ⟨ready, processing, delayed, failed⟩ := c
  obtain rfl : processing = [] := h
  exact ⟨rfl, rfl⟩

theorem restore_cons {c : Contents} {entry : Entry} {rest : List Entry}
    (h : c.processing = entry :: rest) :
    c.restore = (true, { c with processing := rest, ready := entry :: c.ready }) := by
  rw [restore, h]

end Contents

theorem exists_recovers (hclear : b.Clear) :
    ∃ outage, outage.count = 0 ∧
      Recovers b b.contents.processing.length { b with contents := b.contents.restored, outage } := by
  induction hprocessing : b.contents.processing generalizing b with
  | nil =>
    obtain ⟨outage, hnext, hcount⟩ := Outage.next_of_clear hclear
    obtain ⟨hrestore, hrestored⟩ := Contents.restore_nil hprocessing
    refine ⟨outage, hcount, .done ?_⟩
    rw [command_of_next hnext, hrestore, hrestored]
  | cons entry rest ih =>
    obtain ⟨outage, hnext, hcount⟩ := Outage.next_of_clear hclear
    let moved : Broker := { b with
      contents := { b.contents with processing := rest, ready := entry :: b.contents.ready }
      outage }
    have hmoved : command Contents.restore b = .ok true moved := by
      rw [command_of_next hnext, Contents.restore_cons hprocessing]
    have hsame : moved.contents.restored = b.contents.restored := by
      simp [moved, hprocessing, Contents.restored]
    obtain ⟨outage', hcount', hrest⟩ := ih (b := moved) hcount rfl
    rw [hsame] at hrest
    exact ⟨outage', hcount', .moved hmoved hrest⟩

/-- Stalled jobs are handed out again before all others, but in the order in which they were reserved
only where that reads the same from both ends: the entry that is moved last comes first. -/
theorem recoverStalled_keepsOrder_iff (hclear : b.Clear) :
    ∃ b', recoverStalled b = .ok b.contents.processing.length b' ∧
      Recovers b b.contents.processing.length b' ∧
      b'.contents.processing = [] ∧
      b'.contents.ready = b.contents.processing.reverse ++ b.contents.ready ∧
      (b'.contents.ready = b.contents.processing ++ b.contents.ready ↔
        b.contents.processing.reverse = b.contents.processing) := by
  obtain ⟨outage, -, hrecovers⟩ := exists_recovers hclear
  exact ⟨_, hrecovers.recover (Nat.lt_succ_self _), hrecovers, rfl, rfl, List.append_left_inj _⟩

def stalledPair : Broker where
  contents := { ready := [[51]], processing := [[49], [50]] }

theorem recoverStalled_keepsOrder_iff_pair : stalledPair.Clear ∧
    ∃ b', recoverStalled stalledPair = .ok 2 b' ∧ Recovers stalledPair 2 b' ∧
      b'.contents.processing = [] ∧ b'.contents.ready = [[50], [49], [51]] ∧
      (b'.contents.ready = [[49], [50], [51]] ↔ stalledPair.contents.processing.reverse =
        stalledPair.contents.processing) :=
  ⟨rfl, recoverStalled_keepsOrder_iff (b := stalledPair) rfl⟩

/-- Recovery does not keep the order of two jobs. -/
theorem not_always_in_order : ¬ ∀ b n b', b.Clear → recoverStalled b = .ok n b' →
    b'.contents.ready = b.contents.processing ++ b.contents.ready := by
  intro hall
  have hkept := hall stalledPair 2 _ rfl rfl
  revert hkept
  decide

end SignalCoach.Queue

import SignalCoach.Proofs.EnvelopeText
import SignalCoach.Proofs.QueueEntries
import SignalCoach.Queue.Delivery

/-! What the operations of the queue do when any of their commands may be refused: they move
entries, and one that stops between taking an entry out and putting it back loses that entry. -/
namespace SignalCoach.Queue

namespace Action

theorem command_of_refused {f : Contents → α × Contents} {b : Broker} {outage : Outage}
    (h : b.outage.next = (true, outage)) :
    command f b = .error b.outage.fault { b with outage } := by
  rw [command, h]

theorem command_of_next {f : Contents → α × Contents} {b : Broker} {outage : Outage}
    (h : b.outage.next = (false, outage)) :
    command f b = .ok (f b.contents).1 { b with contents := (f b.contents).2, outage } := by
  rw [command, h]

def after (action : Action α) (b : Broker) : Broker :=
  match action b with
  | .ok _ b' => b'
  | .error _ b' => b'

theorem after_of_ok {action : Action α} {b b' : Broker} {a : α} (h : action b = .ok a b') :
    action.after b = b' := by
  rw [after, h]

theorem after_bind_pure (action : Action α) (f : α → β) (b : Broker) :
    (action >>= fun a => pure (f a)).after b = action.after b := by
  unfold after
  rw [Program.bind_apply]
  cases action b <;> rfl

theorem after_of_error {action : Action α} {b b' : Broker} {fault : Fault}
    (h : action b = .error fault b') : action.after b = b' := by
  rw [after, h]

end Action

open SignalCoach.Queue.Action

/-- Entries move about, and one may be stranded: it is taken out and not put back. -/
structure Moves (b b' : Broker) (stranded : Option Entry) : Prop where
  entries : (b'.contents.entries ++ stranded.toList).Perm b.contents.entries
  once : b'.contents.DelayedOnce
  ids : b'.ids = b.ids

structure Promotes (b b' : Broker) (stranded : Option Entry) : Prop extends
    Moves b b' stranded where
  processing : b'.contents.processing = b.contents.processing

namespace Outage

/-- The entry that is off the schedule and not ready when a promotion stops at a refused command.
Every entry takes two commands. -/
def strandedIn (outage : Outage) (due : List Entry) : Option Entry :=
  if outage.count ≠ 0 ∧ outage.skip % 2 = 1 then due[outage.skip / 2]? else none

theorem strandedIn_cons {outage first second : Outage} {entry : Entry} {rest : List Entry}
    (hfirst : outage.next = (false, first)) (hsecond : first.next = (false, second)) :
    outage.strandedIn (entry :: rest) = second.strandedIn rest := by
  obtain ⟨skip, count, fault⟩ := outage
  match skip, count with
  | 0, 0 =>
    cases hfirst
    cases hsecond
    rfl
  | 0, count + 1 => cases hfirst
  | 1, 0 =>
    cases hfirst
    cases hsecond
    rfl
  | 1, count + 1 =>
    cases hfirst
    cases hsecond
  | skip + 2, count =>
    cases hfirst
    cases hsecond
    simp [strandedIn, Nat.add_div_right, List.getElem?_cons_succ]

theorem strandedIn_of_refused {outage next : Outage} (h : outage.next = (true, next))
    (due : List Entry) : outage.strandedIn due = none := by
  obtain ⟨skip, count, fault⟩ := outage
  match skip, count with
  | 0, count => simp [strandedIn]
  | skip + 1, count => cases h

theorem strandedIn_of_second {outage first second : Outage} {entry : Entry} {rest : List Entry}
    (hfirst : outage.next = (false, first)) (hsecond : first.next = (true, second)) :
    outage.strandedIn (entry :: rest) = some entry := by
  obtain ⟨skip, count, fault⟩ := outage
  match skip, count with
  | 0, 0 =>
    cases hfirst
    cases hsecond
  | 0, count + 1 => cases hfirst
  | 1, 0 =>
    cases hfirst
    cases hsecond
  | 1, count + 1 => simp [strandedIn]
  | skip + 2, count =>
    cases hfirst
    cases hsecond

theorem next_refused_iff {outage first : Outage} (hfirst : outage.next = (false, first)) :
    first.next.1 = true ↔ outage.count ≠ 0 ∧ outage.skip = 1 := by
  obtain ⟨skip, count, fault⟩ := outage
  match skip, count with
  | 0, 0 =>
    cases hfirst
    simp [Outage.next]
  | 0, count + 1 => cases hfirst
  | 1, 0 =>
    cases hfirst
    simp [Outage.next]
  | 1, count + 1 =>
    cases hfirst
    simp [Outage.next]
  | skip + 2, count =>
    cases hfirst
    simp [Outage.next]

theorem next_of_clear {outage : Outage} (h : outage.count = 0) :
    ∃ next, outage.next = (false, next) ∧ next.count = 0 := by
  obtain ⟨skip, count, fault⟩ := outage
  obtain rfl : count = 0 := h
  cases skip with
  | zero => exact ⟨_, rfl, rfl⟩
  | succ skip => exact ⟨_, rfl, rfl⟩

end Outage

theorem undelay_found {entry : Entry} {c : Contents} (h : entry ∈ c.delayed.map Prod.snd) :
    (c.undelay entry).1 = true := by
  obtain ⟨other, hother, rfl⟩ := List.mem_map.1 h
  simp only [Contents.undelay, List.any_eq_true, decide_eq_true_eq]
  exact ⟨other, hother, rfl⟩

theorem promote_cons {entry : Entry} {rest : List Entry} {b : Broker} {first second : Outage}
    (hfirst : b.outage.next = (false, first)) (hsecond : first.next = (false, second))
    (hmem : entry ∈ b.contents.delayed.map Prod.snd) :
    promote (entry :: rest) b =
      (promote rest >>= fun n => pure (n + 1))
        { b with contents := (b.contents.undelay entry).2.pushReady entry, outage := second } := by
  rw [promote, Program.bind_apply, command_of_next hfirst]
  simp only [undelay_found hmem, if_true]
  rw [Program.bind_apply, perform, command_of_next hsecond]

/-- A promotion moves entries, and strands the one at which it stops. -/
theorem promote_moves (due : List Entry) (b : Broker) (honce : b.contents.DelayedOnce)
    (hdue : due.Nodup) (hmem : ∀ entry ∈ due, entry ∈ b.contents.delayed.map Prod.snd) :
    Promotes b (after (promote due) b) (b.outage.strandedIn due) ∧
      ∀ n b', promote due b = .ok n b' → b.outage.strandedIn due = none := by
  induction due generalizing b with
  | nil =>
    have hnone : b.outage.strandedIn [] = none := by simp [Outage.strandedIn]
    have hafter : after (promote []) b = b := after_of_ok rfl
    rw [hnone, hafter]
    exact ⟨{ entries := by simp, once := honce, ids := rfl, processing := rfl }, fun _ _ _ => rfl⟩
  | cons entry rest ih =>
    have hentry := hmem entry (by simp)
    obtain ⟨hnotMem, hrest⟩ := List.nodup_cons.1 hdue
    rcases hfirst : b.outage.next with ⟨_ | _, first⟩
    case true =>
      have hstop : promote (entry :: rest) b = .error b.outage.fault { b with outage := first } := by
        rw [promote, Program.bind_apply, command_of_refused hfirst]
      rw [after_of_error hstop, Outage.strandedIn_of_refused hfirst]
      exact ⟨{ entries := by simp, once := honce, ids := rfl, processing := rfl },
        fun _ _ _ => rfl⟩
    rcases hsecond : first.next with ⟨_ | _, second⟩
    case true =>
      have hstop : promote (entry :: rest) b = .error first.fault
          { b with contents := (b.contents.undelay entry).2, outage := second } := by
        rw [promote, Program.bind_apply, command_of_next hfirst]
        simp only [undelay_found hentry, if_true]
        rw [Program.bind_apply, perform, command_of_refused hsecond]
      rw [after_of_error hstop, Outage.strandedIn_of_second hfirst hsecond]
      refine ⟨{ entries := ?_, once := honce.undelay, ids := rfl, processing := rfl }, ?_⟩
      · exact (List.perm_append_singleton _ _).trans (Contents.entries_undelay honce hentry)
      · intro n b' h
        rw [hstop] at h
        cases h
    -- Both commands are carried out: the others are promoted from there on.
    obtain ⟨hmoves, hdone⟩ := ih
      { b with contents := (b.contents.undelay entry).2.pushReady entry, outage := second }
      honce.undelay hrest (by
        intro other hother
        have hne : other ≠ entry := fun h => hnotMem (h ▸ hother)
        have := hmem other (by simp [hother])
        simp only [Contents.pushReady, Contents.undelay, Contents.without_entries, List.mem_filter,
          bne_iff_ne]
        exact ⟨this, hne⟩)
    have hentries := (Contents.entries_pushReady entry _).trans (Contents.entries_undelay honce hentry)
    have hafter : after (promote (entry :: rest)) b = after (promote rest)
        { b with contents := (b.contents.undelay entry).2.pushReady entry, outage := second } := by
      rw [← after_bind_pure (promote rest) (· + 1)]
      unfold after
      rw [promote_cons hfirst hsecond hentry]
    rw [hafter, Outage.strandedIn_cons hfirst hsecond]
    refine ⟨{ entries := hmoves.entries.trans hentries, once := hmoves.once, ids := hmoves.ids,
              processing := hmoves.processing }, ?_⟩
    intro n b' h
    rw [promote_cons hfirst hsecond hentry] at h
    obtain ⟨m, t, hrun, -⟩ := Program.bind_eq_ok.1 h
    exact hdone m t hrun

def strandedDue (now : Int) (b : Broker) : Option Entry :=
  match b.outage.next with
  | (true, _) => none
  | (false, outage) => outage.strandedIn (b.contents.due now)

theorem strandedDue_of_clear {now : Int} {b : Broker} (h : b.outage.count = 0) :
    strandedDue now b = none := by
  obtain ⟨next, hnext, hclear⟩ := Outage.next_of_clear h
  simp [strandedDue, hnext, Outage.strandedIn, hclear]

theorem promoteDue_moves (now : Int) (b : Broker) (honce : b.contents.DelayedOnce) :
    Promotes b (after (promoteDue now) b) (strandedDue now b) ∧
      ∀ n b', promoteDue now b = .ok n b' → strandedDue now b = none := by
  unfold strandedDue
  rcases hnext : b.outage.next with ⟨_ | _, outage⟩
  case true =>
    have hstop : promoteDue now b = .error b.outage.fault { b with outage } := by
      rw [promoteDue, Program.bind_apply, ask, command_of_refused hnext]
    rw [after_of_error hstop]
    exact ⟨{ entries := by simp, once := honce, ids := rfl, processing := rfl }, fun _ _ _ => rfl⟩
  have hrun : promoteDue now b = promote (b.contents.due now) { b with outage } := by
    rw [promoteDue, Program.bind_apply, ask, command_of_next hnext]
  have hsublist : (b.contents.due now).Sublist (b.contents.delayed.map Prod.snd) :=
    List.filter_sublist.map _
  obtain ⟨hmoves, hdone⟩ := promote_moves (b.contents.due now) { b with outage } honce
    (hsublist.nodup honce) fun entry hentry => hsublist.subset hentry
  refine ⟨?_, fun n b' h => hdone n b' (hrun ▸ h)⟩
  unfold after at hmoves ⊢
  rw [hrun]
  exact ⟨⟨hmoves.entries, hmoves.once, hmoves.ids⟩, hmoves.processing⟩

structure Takes (b b' : Broker) (entry : Entry) : Prop extends Moves b b' none where
  processing : b'.contents.processing = b.contents.processing ++ [entry]

theorem Moves.trans {b b₁ b₂ : Broker} {stranded : Option Entry} (first : Moves b b₁ none)
    (second : Moves b₁ b₂ stranded) : Moves b b₂ stranded where
  entries := second.entries.trans (by simpa using first.entries)
  once := second.once
  ids := second.ids.trans first.ids

theorem takes_of_take {b : Broker} (b' : Broker) {entry : Entry} (honce : b.contents.DelayedOnce)
    (hids : b'.ids = b.ids) (h : b.contents.take = (some entry, b'.contents)) : Takes b b' entry := by
  obtain ⟨hentries, hprocessing, hdelayed⟩ := Contents.take_eq_some h
  refine ⟨⟨by simpa using hentries, ?_, hids⟩, hprocessing⟩
  rw [Contents.DelayedOnce, hdelayed]
  exact honce

theorem promotes_of_take {b : Broker} (b' : Broker) (honce : b.contents.DelayedOnce)
    (hids : b'.ids = b.ids) (h : b.contents.take = (none, b'.contents)) : Promotes b b' none := by
  have hsame := Contents.take_eq_none h
  refine ⟨⟨by simp [hsame], ?_, hids⟩, by rw [hsame]⟩
  rw [hsame]
  exact honce

theorem take_cases (now : Int) (b : Broker) (honce : b.contents.DelayedOnce) :
    match take now b with
    | .ok (some entry) b' => Takes b b' entry ∧ strandedDue now b = none
    | .ok none b' => Promotes b b' none ∧ strandedDue now b = none
    | .error _ b' => Promotes b b' (strandedDue now b) := by
  obtain ⟨hmoves, hdone⟩ := promoteDue_moves now b honce
  rw [take, Program.bind_apply]
  cases hpromote : promoteDue now b with
  | error fault b₁ =>
    rw [after_of_error hpromote] at hmoves
    exact hmoves
  | ok n b₁ =>
    have hnone := hdone n b₁ hpromote
    rw [after_of_ok hpromote, hnone] at hmoves
    simp only
    rcases hnext : b₁.outage.next with ⟨_ | _, outage⟩
    · rw [command_of_next hnext]
      rcases htake : b₁.contents.take with ⟨_ | entry, contents⟩
      · have hmore := promotes_of_take { b₁ with contents, outage } hmoves.once rfl htake
        exact ⟨⟨hmoves.toMoves.trans hmore.toMoves, hmore.processing.trans hmoves.processing⟩, hnone⟩
      · have htakes := takes_of_take { b₁ with contents, outage } hmoves.once rfl htake
        exact ⟨⟨hmoves.toMoves.trans htakes.toMoves, hmoves.processing ▸ htakes.processing⟩, hnone⟩
    · rw [command_of_refused hnext, hnone]
      exact ⟨⟨hmoves.entries, hmoves.once, hmoves.ids⟩, hmoves.processing⟩

theorem takeAfterWait_cases (b : Broker) (honce : b.contents.DelayedOnce) :
    match takeAfterWait b with
    | .ok (some entry) b' => Takes b b' entry
    | .ok none b' => Promotes b b' none
    | .error _ _ => False := by
  unfold takeAfterWait
  rcases htake : b.contents.take with ⟨_ | entry, contents⟩
  · exact promotes_of_take { b with contents } honce rfl htake
  · exact takes_of_take { b with contents } honce rfl htake

theorem restore_moves {b : Broker} (outage : Outage) (honce : b.contents.DelayedOnce) :
    Moves b { b with contents := b.contents.restore.2, outage } none := by
  obtain ⟨hentries, hdelayed, -⟩ := b.contents.restore_entries
  refine { entries := by simpa using hentries, once := ?_, ids := rfl }
  rw [Contents.DelayedOnce, hdelayed]
  exact honce

theorem restore_none {c : Contents} (h : c.restore.1 = false) : c.processing = [] := by
  unfold Contents.restore at h
  split at h
  next hprocessing => exact hprocessing
  next => cases h

theorem recover_succ (fuel : Nat) {b : Broker} {outage : Outage}
    (hnext : b.outage.next = (false, outage)) :
    recover (fuel + 1) b =
      (if b.contents.restore.1 then recover fuel >>= fun n => pure (n + 1) else pure 0)
        { b with contents := b.contents.restore.2, outage } := by
  rw [recover, Program.bind_apply, command_of_next hnext]

theorem recover_moves (fuel : Nat) (b : Broker) (honce : b.contents.DelayedOnce) :
    Moves b (after (recover fuel) b) none ∧
      ∀ n b', recover fuel b = .ok n b' → b'.contents.processing = b.contents.processing.drop fuel := by
  induction fuel generalizing b with
  | zero =>
    refine ⟨{ entries := by simp [after_of_ok (show recover 0 b = .ok 0 b from rfl)], once := honce,
              ids := rfl }, fun n b' h => ?_⟩
    obtain ⟨-, rfl⟩ := Program.pure_eq_ok.1 h
    rfl
  | succ fuel ih =>
    rcases hnext : b.outage.next with ⟨_ | _, outage⟩
    case true =>
      have hstop : recover (fuel + 1) b = .error b.outage.fault { b with outage } := by
        rw [recover, Program.bind_apply, command_of_refused hnext]
      rw [after_of_error hstop]
      refine ⟨{ entries := by simp, once := honce, ids := rfl }, fun n b' h => ?_⟩
      rw [hstop] at h
      cases h
    have hfirst := restore_moves outage honce
    have hrun := recover_succ fuel hnext
    cases hmoved : b.contents.restore.1 with
    | true =>
      obtain ⟨hmoves, hdone⟩ := ih { b with contents := b.contents.restore.2, outage } hfirst.once
      rw [hmoved, if_pos rfl] at hrun
      refine ⟨?_, fun n b' h => ?_⟩
      · have hafter : after (recover (fuel + 1)) b =
            after (recover fuel) { b with contents := b.contents.restore.2, outage } := by
          rw [← after_bind_pure (recover fuel) (· + 1), after, hrun, after]
        rw [hafter]
        exact hfirst.trans hmoves
      · rw [hrun] at h
        obtain ⟨m, t, hrest, hpure⟩ := Program.bind_eq_ok.1 h
        obtain ⟨-, rfl⟩ := Program.pure_eq_ok.1 hpure
        rw [hdone m t hrest, b.contents.restore_entries.2.2, List.drop_tail]
    | false =>
      have hempty := restore_none hmoved
      rw [hmoved, if_neg Bool.false_ne_true] at hrun
      refine ⟨?_, fun n b' h => ?_⟩
      · rw [after_of_ok hrun]
        exact hfirst
      · rw [hrun] at h
        obtain ⟨-, rfl⟩ := Program.pure_eq_ok.1 h
        rw [hempty, List.drop_nil]
        simp [Contents.restore, hempty]

theorem recover_ends (fuel : Nat) {b : Broker} (h : b.outage.count = 0) :
    ∃ n b', recover fuel b = .ok n b' := by
  induction fuel generalizing b with
  | zero => exact ⟨0, b, rfl⟩
  | succ fuel ih =>
    obtain ⟨outage, hnext, hclear⟩ := Outage.next_of_clear h
    rw [recover_succ fuel hnext]
    split
    · obtain ⟨n, b', hrest⟩ := ih (b := { b with contents := b.contents.restore.2, outage }) hclear
      exact ⟨n + 1, b', by rw [Program.bind_apply, hrest]; rfl⟩
    · exact ⟨_, _, rfl⟩

theorem recoverStalled_moves (b : Broker) (honce : b.contents.DelayedOnce) :
    Moves b (after recoverStalled b) none ∧
      ∀ n b', recoverStalled b = .ok n b' → b'.contents.processing = [] := by
  have hrun : recoverStalled b = recover (b.contents.processing.length + 1) b := rfl
  obtain ⟨hmoves, hdone⟩ := recover_moves (b.contents.processing.length + 1) b honce
  refine ⟨?_, fun n b' h => ?_⟩
  · rw [after, hrun]
    exact hmoves
  · rw [hdone n b' (hrun ▸ h), List.drop_eq_nil_iff]
    omega

end SignalCoach.Queue

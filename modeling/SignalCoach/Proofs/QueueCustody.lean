import SignalCoach.Proofs.QueueHistory

/-! Custody: without refusals the queue neither loses a job nor holds it twice. -/
namespace SignalCoach.Queue

open SignalCoach.Queue.Action
open Envelope (writtenId?)

namespace History

/-- No command fails, be it refused or with a due time that cannot be written; a job is settled by
one who holds it, and recovery waits until nobody holds a job. -/
def Orderly (h : History) : Step → Prop
  | .operate outage operation => outage.count = 0 ∧
    match operation with
    | .complete e => e ∈ h.held
    | .fail now e error retry => e ∈ h.held ∧ untimely now (e.failed error) retry = false
    | .recoverStalled => h.held = []
    | _ => True
  | _ => True

/-- Every job that was enqueued is complete or in one place of the queue, and in processing are
those that are reserved. -/
structure Custody (h : History) : Prop where
  named : Named h.broker
  once : (h.contents.ids ++ h.completed).Nodup
  all : (h.contents.ids ++ h.completed).Perm h.enqueued
  processing : (h.contents.processing.filterMap writtenId?).Perm (h.reserved.map (·.id))

structure Accounted (h : History) : Prop where
  delayed : h.contents.DelayedOnce
  named : Named h.broker
  drawn : ∀ id ∈ h.enqueued, h.broker.ids.Drew id
  fresh : h.enqueued.Nodup
  all : (h.contents.ids ++ h.completed).Perm h.enqueued
  bytes : (h.reserved.map (·.stored)).Perm (h.contents.processing.map some)
  tracks : ∀ e ∈ h.reserved, e.Tracks
  held : ∀ e ∈ h.held, ∃ r ∈ h.reserved, r.id = e.id ∧ r.stored = e.stored

namespace Accounted

variable {h : History}

theorem once (hacc : h.Accounted) : (h.contents.ids ++ h.completed).Nodup :=
  hacc.all.nodup_iff.2 hacc.fresh

theorem reserved_bytes (hacc : h.Accounted) {e : Envelope} (he : e ∈ h.reserved) :
    ∃ entry ∈ h.contents.processing, e.stored = some entry ∧ writtenId? entry = some e.id := by
  obtain ⟨entry, hentry, hstored⟩ :=
    List.mem_map.1 (hacc.bytes.mem_iff.1 (List.mem_map_of_mem (f := (·.stored)) he))
  obtain ⟨id, hid⟩ := hacc.named entry (by
    have : entry ∈ h.broker.contents.processing := hentry
    simp [Contents.entries, this])
  have hsame := hacc.tracks e he entry hstored.symm id hid
  exact ⟨entry, hentry, hstored.symm, hsame ▸ hid⟩

theorem processing (hacc : h.Accounted) :
    (h.contents.processing.filterMap writtenId?).Perm (h.reserved.map (·.id)) := by
  have hperm := hacc.bytes.filterMap (·.bind writtenId?)
  rw [List.filterMap_map, List.filterMap_map] at hperm
  have hleft : h.reserved.filterMap ((·.bind writtenId?) ∘ (·.stored)) = h.reserved.map (·.id) := by
    rw [← List.filterMap_eq_map]
    refine List.filterMap_congr fun e he => ?_
    obtain ⟨entry, -, hstored, hid⟩ := hacc.reserved_bytes he
    simp [hstored, hid]
  rw [hleft] at hperm
  exact hperm.symm

theorem reserved_once (hacc : h.Accounted) : (h.reserved.map (·.id)).Nodup := by
  refine hacc.processing.nodup_iff.1 ?_
  have hnodup := (List.nodup_append.1 hacc.once).1
  rw [Contents.ids, Contents.entries, List.filterMap_append, List.filterMap_append] at hnodup
  exact (List.nodup_append.1 (List.nodup_append.1 hnodup).2.1).1

theorem custody (hacc : h.Accounted) : h.Custody where
  named := hacc.named
  once := hacc.once
  all := hacc.all
  processing := hacc.processing

theorem of_keeps (hacc : h.Accounted) (outage : Outage) {b : Broker}
    (hkeeps : Keeps { h.broker with outage } b none)
    (hprocessing : b.contents.processing = h.contents.processing) :
    ({ h with broker := b } : History).Accounted where
  delayed := hkeeps.once
  named entry hentry := hacc.named entry (hkeeps.entries entry hentry)
  drawn id hid := (hacc.drawn id hid).mono hkeeps.supply
  fresh := hacc.fresh
  all := by
    have hids : b.contents.ids.Perm h.contents.ids := by simpa using hkeeps.ids
    exact (hids.append_right _).trans hacc.all
  bytes := hprocessing ▸ hacc.bytes
  tracks := hacc.tracks
  held := hacc.held

theorem of_same (hacc : h.Accounted) {b : Broker} (hcontents : b.contents = h.broker.contents)
    (hids : h.broker.ids.next ≤ b.ids.next) : ({ h with broker := b } : History).Accounted := by
  refine hacc.of_keeps {} { entries := ?_, ids := ?_, once := ?_, supply := hids } ?_
  · exact fun entry hentry => hcontents ▸ hentry
  · simp [hcontents]
  · exact hcontents ▸ hacc.delayed
  · rw [hcontents]

theorem noteReserved (hacc : h.Accounted) {outage : Outage} {b : Broker} {reservation : Reservation}
    (hreserves : Reserves { h.broker with outage } none (.ok reservation b)) :
    (({ h with broker := b } : History).noteReserved reservation).Accounted := by
  cases reservation with
  | nothing => exact hacc.of_keeps outage hreserves.1 hreserves.2.2
  | unreadable => exact absurd hacc.named hreserves.2.2
  | job e =>
    obtain ⟨hkeeps, -, entry, -, hdecode, hprocessing⟩ := hreserves
    have hstored := Envelope.decode_eq_ok hdecode
    have htracks := Envelope.tracks_of_decode hdecode
    have hids : b.contents.ids.Perm h.contents.ids := by simpa using hkeeps.ids
    refine { delayed := hkeeps.once, named := ?_, drawn := ?_, fresh := hacc.fresh, all := ?_,
             bytes := ?_, tracks := ?_, held := ?_ }
    · exact fun other hother => hacc.named other (hkeeps.entries other hother)
    · exact fun id hid => (hacc.drawn id hid).mono hkeeps.supply
    · exact (hids.append_right _).trans hacc.all
    · have hbytes := (hacc.bytes.cons (some entry)).trans
        (List.perm_append_singleton (some entry) _).symm
      simpa [History.noteReserved, History.contents, hstored, hprocessing] using hbytes
    · exact List.forall_mem_cons.2 ⟨htracks, hacc.tracks⟩
    · intro other hother
      rcases List.mem_cons.1 hother with rfl | hother
      · exact ⟨other, List.mem_cons_self, rfl, rfl⟩
      · obtain ⟨r, hr, hsame⟩ := hacc.held other hother
        exact ⟨r, List.mem_cons_of_mem _ hr, hsame⟩

theorem act_noteReserved (hacc : h.Accounted) {outage : Outage} {action : Action Reservation}
    (hreserves : Reserves { h.broker with outage } none (action { h.broker with outage })) :
    (h.act outage action History.noteReserved id).Accounted := by
  refine Program.outcome_cases (P := Accounted) (fun reservation b hrun => ?_) (fun fault b hrun => ?_)
  · rw [hrun] at hreserves
    exact hacc.noteReserved hreserves
  · rw [hrun] at hreserves
    exact hacc.of_keeps outage hreserves.1 (hreserves.2 hacc.named)

theorem noteEnqueued (hacc : h.Accounted) {b : Broker} {e : Envelope} {entry : Entry}
    (hids : b.ids = h.broker.ids.draw.2) (hid : e.id = h.broker.ids.draw.1)
    (hentry : e.encode? = some entry) (hadds : Adds entry h.broker.contents b.contents) :
    (({ h with broker := b } : History).noteEnqueued e).Accounted := by
  have hne : e.id ≠ "" := hid ▸ IdSupply.nameOf_ne_empty _
  have hwritten : writtenId? entry = some e.id := Envelope.writtenId?_of_encode? hentry hne
  have hfresh : e.id ∉ h.enqueued := by
    intro hmem
    rw [hid] at hmem
    exact h.broker.ids.not_drew_next (hacc.drawn _ hmem)
  -- An id that was not drawn before is nowhere in the queue, and so are the bytes that write it.
  have hnew : entry ∉ h.contents.delayed.map Prod.snd := by
    intro hmem
    have hheld : e.id ∈ h.contents.ids := by
      refine List.mem_filterMap.2 ⟨entry, ?_, hwritten⟩
      simp only [Contents.entries, List.mem_append, hmem, true_or, or_true]
    exact hfresh (hacc.all.mem_iff.1 (List.mem_append_left _ hheld))
  have hentries := hadds.entries hnew
  have hperm := Contents.ids_cons hentries.symm
  rw [hwritten] at hperm
  refine { delayed := hadds.once hacc.delayed, named := ?_, drawn := ?_, fresh := ?_, all := ?_,
           bytes := ?_, tracks := hacc.tracks, held := hacc.held }
  · intro other hother
    rcases (hadds.mem_entries other).1 hother with rfl | hother
    · exact ⟨e.id, hwritten⟩
    · exact hacc.named other hother
  · have hsupply : h.broker.ids.next ≤ b.ids.next := hids ▸ draw_next _
    refine List.forall_mem_cons.2 ⟨?_, fun id hmem => (hacc.drawn id hmem).mono hsupply⟩
    have hdrew := h.broker.ids.drew_draw
    rwa [← hid, ← hids] at hdrew
  · exact List.nodup_cons.2 ⟨hfresh, hacc.fresh⟩
  · exact (hperm.symm.append_right _).trans (hacc.all.cons e.id)
  · have hprocessing := hadds.processing
    simpa [History.noteEnqueued, History.contents, hprocessing] using hacc.bytes

theorem held_bytes (hacc : h.Accounted) {e : Envelope} (he : e ∈ h.held) :
    ∃ before ∈ h.contents.processing, e.bytes? = some before ∧ writtenId? before = some e.id ∧
      ∃ r ∈ h.reserved, r.id = e.id ∧ r.stored = some before := by
  obtain ⟨r, hr, hid, hstored⟩ := hacc.held e he
  obtain ⟨before, hbefore, hbytes, hwritten⟩ := hacc.reserved_bytes hr
  refine ⟨before, hbefore, ?_, hid ▸ hwritten, r, hr, hid, hbytes⟩
  rw [Envelope.bytes?, ← hstored, hbytes, Option.some_or]

theorem perm_cons_filter {l : List Envelope} {r : Envelope} (hl : (l.map (·.id)).Nodup)
    (hr : r ∈ l) : l.Perm (r :: l.filter (·.id ≠ r.id)) := by
  induction l with
  | nil => cases hr
  | cons other rest ih =>
    rw [List.map_cons, List.nodup_cons] at hl
    rcases List.mem_cons.1 hr with rfl | hr
    · have hrest : rest.filter (·.id ≠ r.id) = rest := by
        rw [List.filter_eq_self]
        intro e he
        have hne : e.id ≠ r.id := fun h => hl.1 (h ▸ List.mem_map_of_mem he)
        simpa using hne
      rw [List.filter_cons_of_neg (by simp), hrest]
    · have hne : other.id ≠ r.id := fun h => hl.1 (h ▸ List.mem_map_of_mem hr)
      rw [List.filter_cons_of_pos (by simpa using hne)]
      exact ((ih hl.2 hr).cons other).trans (List.Perm.swap r other _)

theorem release_bytes (hacc : h.Accounted) {r : Envelope} {before : Entry} (hr : r ∈ h.reserved)
    (hstored : r.stored = some before) :
    ((h.release r.id).reserved.map (·.stored)).Perm
      ((h.contents.settle before).processing.map some) := by
  have hreserved := (perm_cons_filter hacc.reserved_once hr).map (·.stored)
  have hbefore : before ∈ h.contents.processing := by
    have hmem := hacc.bytes.mem_iff.1 (List.mem_map_of_mem (f := (·.stored)) hr)
    rw [hstored] at hmem
    simpa using hmem
  have hprocessing := (List.perm_cons_erase hbefore).map some
  rw [List.map_cons] at hreserved hprocessing
  rw [hstored] at hreserved
  exact (hreserved.symm.trans (hacc.bytes.trans hprocessing)).cons_inv

theorem release_held (hacc : h.Accounted) (id : String) :
    ∀ e ∈ (h.release id).held, ∃ r ∈ (h.release id).reserved, r.id = e.id ∧ r.stored = e.stored := by
  intro e he
  obtain ⟨he, hne⟩ := List.mem_filter.1 he
  obtain ⟨r, hr, hid, hstored⟩ := hacc.held e he
  exact ⟨r, List.mem_filter.2 ⟨hr, by rwa [hid]⟩, hid, hstored⟩

theorem noteCompleted (hacc : h.Accounted) {e : Envelope} (he : e ∈ h.held) {b : Broker}
    {before : Entry} (hids : b.ids = h.broker.ids) (hbytes : e.bytes? = some before)
    (hcontents : b.contents = h.contents.settle before) :
    (({ h with broker := b } : History).noteCompleted e true).Accounted := by
  obtain ⟨contents, outage, ids⟩ := b
  obtain rfl : contents = h.contents.settle before := hcontents
  obtain rfl : ids = h.broker.ids := hids
  obtain ⟨entry, hentry, hbytes', hwritten, r, hr, hid, hstored⟩ := hacc.held_bytes he
  obtain rfl := Option.some.inj (hbytes'.symm.trans hbytes)
  have hentries := Contents.entries_settle hentry
  have hperm := Contents.ids_cons hentries
  rw [hwritten] at hperm
  refine { delayed := hacc.delayed, named := ?_, drawn := hacc.drawn, fresh := hacc.fresh,
           all := ?_, bytes := ?_, tracks := ?_, held := hacc.release_held e.id }
  · exact fun other hother => hacc.named other (hentries.mem_iff.1 (List.mem_cons_of_mem _ hother))
  · exact List.perm_middle.trans ((hperm.append_right _).trans hacc.all)
  · have hreleased := hacc.release_bytes hr hstored
    rw [hid] at hreleased
    exact hreleased
  · exact fun other hother => hacc.tracks other (List.mem_filter.1 hother).1

theorem noteFailed (hacc : h.Accounted) {e : Envelope} (he : e ∈ h.held) {b : Broker}
    {error : String} {before entry : Entry} (after : Envelope) (hids : b.ids = h.broker.ids)
    (hbytes : e.bytes? = some before) (hentry : (e.failed error).encode? = some entry)
    (hadds : Adds entry (h.contents.settle before) b.contents) :
    (({ h with broker := b } : History).noteFailed e after).Accounted := by
  obtain ⟨contents, outage, ids⟩ := b
  obtain rfl : ids = h.broker.ids := hids
  obtain ⟨stored, hmem, hbytes', hwritten, r, hr, hid, hstored⟩ := hacc.held_bytes he
  obtain rfl := Option.some.inj (hbytes'.symm.trans hbytes)
  have hentries := Contents.entries_settle hmem
  have hperm := Contents.ids_cons hentries
  rw [hwritten] at hperm
  have hids : (e.id :: (h.contents.settle stored).ids).Nodup :=
    hperm.nodup_iff.2 (List.nodup_append.1 hacc.once).1
  have hne : e.id ≠ "" := by
    refine (hacc.drawn e.id ?_).ne_empty
    exact hacc.all.mem_iff.1 (List.mem_append_left _ (hperm.mem_iff.1 List.mem_cons_self))
  have hnewWritten : writtenId? entry = some (e.failed error).id :=
    Envelope.writtenId?_of_encode? hentry hne
  -- The job left processing, so no bytes that write its id are left beside the new ones.
  have hnew : entry ∉ (h.contents.settle stored).delayed.map Prod.snd := by
    intro hdelayed
    refine (List.nodup_cons.1 hids).1 (List.mem_filterMap.2 ⟨entry, ?_, hnewWritten⟩)
    simp only [Contents.entries, List.mem_append, hdelayed, true_or, or_true]
  have hadded := Contents.ids_cons (hadds.entries hnew).symm
  rw [hnewWritten] at hadded
  refine { delayed := hadds.once hacc.delayed, named := ?_, drawn := hacc.drawn,
           fresh := hacc.fresh, all := ?_, bytes := ?_, tracks := ?_,
           held := hacc.release_held e.id }
  · intro other hother
    rcases (hadds.mem_entries other).1 hother with rfl | hother
    · exact ⟨e.id, hnewWritten⟩
    · exact hacc.named other (hentries.mem_iff.1 (List.mem_cons_of_mem _ hother))
  · exact ((hadded.symm.trans hperm).append_right _).trans hacc.all
  · have hprocessing : contents.processing = (h.contents.settle stored).processing :=
      hadds.processing
    have hreleased := hacc.release_bytes hr hstored
    rw [hid, ← hprocessing] at hreleased
    exact hreleased
  · exact fun other hother => hacc.tracks other (List.mem_filter.1 hother).1

theorem noteUnrecorded (hacc : h.Accounted) {e : Envelope} (he : e ∈ h.held) {error : String} :
    (h.noteUnrecorded e (e.failed error)).Accounted where
  delayed := hacc.delayed
  named := hacc.named
  drawn := hacc.drawn
  fresh := hacc.fresh
  all := hacc.all
  bytes := hacc.bytes
  tracks := hacc.tracks
  held := List.forall_mem_cons.2
    ⟨hacc.held e he, fun other hother => hacc.held other (List.mem_filter.1 hother).1⟩

theorem letGo (hacc : h.Accounted) (id : String) : (h.step (.letGo id)).Accounted where
  delayed := hacc.delayed
  named := hacc.named
  drawn := hacc.drawn
  fresh := hacc.fresh
  all := hacc.all
  bytes := hacc.bytes
  tracks := hacc.tracks
  held e he := hacc.held e (List.mem_filter.1 he).1

/-- Where nobody holds a job, all that was in processing may be moved elsewhere. -/
theorem recovered (hacc : h.Accounted) (hheld : h.held = []) {outage : Outage} {b : Broker}
    (hkeeps : Keeps { h.broker with outage } b none) (hempty : b.contents.processing = []) :
    ({ h with broker := b, reserved := [] } : History).Accounted where
  delayed := hkeeps.once
  named entry hentry := hacc.named entry (hkeeps.entries entry hentry)
  drawn id hid := (hacc.drawn id hid).mono hkeeps.supply
  fresh := hacc.fresh
  all := by
    have hids : b.contents.ids.Perm h.contents.ids := by simpa using hkeeps.ids
    exact (hids.append_right _).trans hacc.all
  bytes := by simpa using hempty
  tracks := by simp
  held := by simp [hheld]

theorem operate (hacc : h.Accounted) {outage : Outage} {operation : Operation}
    (horderly : h.Orderly (.operate outage operation)) : (h.operate outage operation).Accounted := by
  obtain ⟨hclear, hallowed⟩ := horderly
  cases operation with
  | enqueue now name data maxAttempts backoff delay =>
    have hcases := enqueue_cases now name data maxAttempts backoff delay { h.broker with outage }
    rw [History.operate]
    refine Program.outcome_cases (P := Accounted) (fun e b hrun => ?_) (fun fault b hrun => ?_)
    · rw [hrun] at hcases
      obtain ⟨hids, he, entry, hentry, hadds⟩ := hcases
      exact hacc.noteEnqueued hids (congrArg Envelope.id he) hentry hadds
    · rw [hrun] at hcases
      exact hacc.of_same hcases.2 (hcases.1 ▸ draw_next _)
  | promoteDue now =>
    obtain ⟨hmoves, -⟩ := promoteDue_moves now { h.broker with outage } hacc.delayed
    rw [strandedDue_of_clear hclear] at hmoves
    rw [History.operate, act_eq_after]
    exact hacc.of_keeps outage hmoves.toMoves.keeps hmoves.processing
  | reserve now =>
    have hreserves := reserve_cases now { h.broker with outage } hacc.delayed
    rw [strandedDue_of_clear hclear] at hreserves
    exact hacc.act_noteReserved hreserves
  | reserveAfterWait =>
    exact hacc.act_noteReserved (reserveAfterWait_cases { h.broker with outage } hacc.delayed)
  | complete e =>
    have hcases := complete_cases e { h.broker with outage }
    obtain ⟨before, hbefore, hbytes, -⟩ := hacc.held_bytes hallowed
    have hremoved : e.bytes?.any h.contents.processing.contains = true := by
      simpa [hbytes] using hbefore
    rw [History.operate]
    refine Program.outcome_cases (P := Accounted) (fun _ b hrun => ?_) (fun fault b hrun => ?_)
    · rw [hrun] at hcases
      obtain ⟨hids, entry, hentry, hcontents⟩ := hcases
      simp only [hremoved]
      exact hacc.noteCompleted hallowed hids hentry hcontents
    · rw [hrun] at hcases
      exact hacc.of_same hcases.2 (Nat.le_of_eq (congrArg IdSupply.next hcases.1.symm))
  | fail now e error retry =>
    have hcases := fail_cases now e error retry { h.broker with outage }
    rw [History.operate]
    refine Program.outcome_cases (P := Accounted) (fun answer b hrun => ?_) (fun fault b hrun => ?_)
    · rw [hrun] at hcases
      obtain ⟨-, hids, before, entry, hbytes, hentry, -, hadds⟩ := hcases
      exact hacc.noteFailed hallowed.1 answer.2 hids hbytes hentry hadds
    · rw [hrun] at hcases
      have hstops : ¬ (outage.count ≠ 0 ∧ outage.skip = 1 ∨
          outage.next.1 = false ∧ untimely now (e.failed error) retry = true) := by
        simp [hclear, hallowed.2]
      have hstranded : strandedByFailure now e error retry { h.broker with outage } = none :=
        if_neg fun h => hstops h.1
      obtain ⟨hids, ⟨-, hcontents⟩ | ⟨before, -, hsome, -⟩⟩ := hcases
      · exact (hacc.of_same hcontents
          (Nat.le_of_eq (congrArg IdSupply.next hids.symm))).noteUnrecorded hallowed.1
      · rw [hstranded] at hsome
        cases hsome
  | recoverStalled =>
    obtain ⟨hmoves, hdone⟩ := recoverStalled_moves { h.broker with outage } hacc.delayed
    obtain ⟨n, b, hrun⟩ := recover_ends (h.contents.processing.length + 1)
      (b := { h.broker with outage }) hclear
    have hrun : recoverStalled { h.broker with outage } = .ok n b := hrun
    rw [after_of_ok hrun] at hmoves
    rw [History.operate, act, Program.outcome, hrun]
    exact hacc.recovered hallowed hmoves.keeps (hdone n b hrun)

theorem step (hacc : h.Accounted) {step : Step} (horderly : h.Orderly step) :
    (h.step step).Accounted := by
  cases step with
  | operate outage operation => exact hacc.operate horderly
  | letGo id => exact hacc.letGo id
  | draw => exact hacc.of_same rfl (draw_next _)

end Accounted

theorem start_accounted (ids : IdSupply) : (start {} ids).Accounted where
  delayed := List.nodup_nil
  named := by simp [Named, start, Contents.entries]
  drawn := by simp [start]
  fresh := List.nodup_nil
  all := by simp [start, Contents.ids, Contents.entries]
  bytes := by simp [start]
  tracks := by simp [start]
  held := by simp [start]

/-- From an empty queue on, no job is ever lost or held twice. -/
theorem run_custody (ids : IdSupply) {steps : List Step} (h : Follows Orderly (start {} ids) steps) :
    ((start {} ids).run steps).Custody :=
  (Follows.induction (fun _ _ horderly hacc => hacc.step horderly) h (start_accounted ids)).custody

theorem run_custody_acknowledged :
    Follows Orderly (start {} {}) (reservation ++ [.operate {} (.complete reservedJob)]) ∧
      ((start {} {}).run (reservation ++ [.operate {} (.complete reservedJob)])).Custody := by
  have horderly : Follows Orderly (start {} {})
      (reservation ++ [.operate {} (.complete reservedJob)]) :=
    Follows.append_iff.2 ⟨⟨⟨rfl, trivial⟩, ⟨rfl, trivial⟩, trivial⟩, ⟨rfl, reservedJob_held⟩, trivial⟩
  exact ⟨horderly, run_custody {} horderly⟩

end History

end SignalCoach.Queue

import Mathlib.Data.List.Perm.Basic
import SignalCoach.Queue.Contents

/-! What the commands of the queue do to the entries that it holds, wherever these stand. -/
namespace SignalCoach.Queue.Contents

def entries (c : Contents) : List Entry :=
  c.ready ++ (c.processing ++ (c.delayed.map Prod.snd ++ c.failed))

def DelayedOnce (c : Contents) : Prop := (c.delayed.map Prod.snd).Nodup

theorem count_entries (c : Contents) (x : Entry) : c.entries.count x =
    c.ready.count x + (c.processing.count x + ((c.delayed.map Prod.snd).count x + c.failed.count x)) := by
  simp [entries]

theorem entries_pushReady (entry : Entry) (c : Contents) :
    (c.pushReady entry).entries.Perm (entry :: c.entries) := by
  rw [List.perm_iff_count]
  intro x
  rw [List.count_cons, count_entries, count_entries]
  simp only [pushReady, List.count_append, List.count_singleton]
  omega

theorem entries_pushFailed (entry : Entry) (c : Contents) :
    (c.pushFailed entry).entries.Perm (entry :: c.entries) := by
  rw [List.perm_iff_count]
  intro x
  rw [List.count_cons, count_entries, count_entries]
  simp only [pushFailed, List.count_append, List.count_singleton]
  omega

theorem entries_settle {entry : Entry} {c : Contents} (h : entry ∈ c.processing) :
    (entry :: (c.settle entry).entries).Perm c.entries := by
  rw [List.perm_iff_count]
  intro x
  have hprocessing := (List.perm_cons_erase h).count_eq x
  rw [List.count_cons] at hprocessing ⊢
  rw [count_entries, count_entries]
  simp only [settle]
  omega

theorem settle_of_notMem {entry : Entry} {c : Contents} (h : entry ∉ c.processing) :
    c.settle entry = c := by
  simp [settle, List.erase_of_not_mem h]

theorem take_eq_some {c c' : Contents} {entry : Entry} (h : c.take = (some entry, c')) :
    c'.entries.Perm c.entries ∧ c'.processing = c.processing ++ [entry] ∧ c'.delayed = c.delayed := by
  unfold take at h
  split at h
  next => cases h
  next first ready hready =>
    cases h
    refine ⟨?_, rfl, rfl⟩
    rw [List.perm_iff_count]
    intro x
    simp only [count_entries, hready, List.count_append, List.count_cons, List.count_nil]
    omega

theorem take_eq_none {c c' : Contents} (h : c.take = (none, c')) : c' = c := by
  unfold take at h
  split at h
  next => exact (Prod.mk.inj h).2.symm
  next => cases h

theorem restore_entries (c : Contents) :
    c.restore.2.entries.Perm c.entries ∧ c.restore.2.delayed = c.delayed ∧
      c.restore.2.processing = c.processing.tail := by
  unfold restore
  split
  next hprocessing => simp [hprocessing]
  next first processing hprocessing =>
    refine ⟨?_, rfl, by rw [hprocessing, List.tail_cons]⟩
    rw [List.perm_iff_count]
    intro x
    simp only [count_entries, hprocessing, List.count_cons]
    omega

theorem schedule_entries (due : Int) (entry : Entry) (delayed : List (Int × Entry)) :
    ((schedule due entry delayed).map Prod.snd).Perm (entry :: delayed.map Prod.snd) := by
  induction delayed with
  | nil => rfl
  | cons other rest ih =>
    unfold schedule
    split
    · rfl
    · exact (ih.cons other.2).trans (List.Perm.swap entry other.2 _)

theorem without_entries (entry : Entry) (delayed : List (Int × Entry)) :
    (without entry delayed).map Prod.snd = (delayed.map Prod.snd).filter (· != entry) := by
  rw [List.filter_map]
  unfold without
  congr 2
  funext other
  by_cases hother : other.2 = entry <;> simp [hother]

theorem without_perm {entry : Entry} {delayed : List (Int × Entry)}
    (honce : (delayed.map Prod.snd).Nodup) (h : entry ∈ delayed.map Prod.snd) :
    (entry :: (without entry delayed).map Prod.snd).Perm (delayed.map Prod.snd) := by
  rw [without_entries, ← honce.erase_eq_filter]
  exact (List.perm_cons_erase h).symm

theorem without_of_notMem {entry : Entry} {delayed : List (Int × Entry)}
    (h : entry ∉ delayed.map Prod.snd) : without entry delayed = delayed := by
  rw [without, List.filter_eq_self]
  intro other hother
  have : other.2 ≠ entry := fun hsame => h (hsame ▸ List.mem_map_of_mem hother)
  simpa using this

theorem entries_undelay {entry : Entry} {c : Contents} (honce : c.DelayedOnce)
    (h : entry ∈ c.delayed.map Prod.snd) :
    (entry :: (c.undelay entry).2.entries).Perm c.entries := by
  rw [List.perm_iff_count]
  intro x
  have hdelayed := (without_perm honce h).count_eq x
  rw [List.count_cons] at hdelayed ⊢
  rw [count_entries, count_entries]
  simp only [undelay]
  omega

theorem DelayedOnce.undelay {entry : Entry} {c : Contents} (honce : c.DelayedOnce) :
    (c.undelay entry).2.DelayedOnce := by
  rw [DelayedOnce, Contents.undelay, without_entries]
  exact honce.filter _

theorem DelayedOnce.delay {due : Int} {entry : Entry} {c : Contents} (honce : c.DelayedOnce) :
    (c.delay due entry).DelayedOnce := by
  rw [DelayedOnce, Contents.delay, (schedule_entries due entry _).nodup_iff, List.nodup_cons,
    without_entries]
  exact ⟨by simp, honce.filter _⟩

theorem entries_delay {due : Int} {entry : Entry} {c : Contents}
    (h : entry ∉ c.delayed.map Prod.snd) : (c.delay due entry).entries.Perm (entry :: c.entries) := by
  rw [List.perm_iff_count]
  intro x
  have hschedule := (schedule_entries due entry c.delayed).count_eq x
  rw [List.count_cons] at hschedule ⊢
  rw [count_entries, count_entries]
  simp only [delay, without_of_notMem h]
  omega

theorem mem_entries_delay {due : Int} {entry x : Entry} {c : Contents} :
    x ∈ (c.delay due entry).entries ↔ x = entry ∨ x ∈ c.entries := by
  simp only [entries, delay, List.mem_append, (schedule_entries due entry _).mem_iff,
    without_entries, List.mem_cons, List.mem_filter, bne_iff_ne]
  by_cases hx : x = entry <;> simp [hx]

end SignalCoach.Queue.Contents

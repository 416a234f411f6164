import SignalCoach.Proofs.ClearQueue
import SignalCoach.Proofs.DrawnIds
import SignalCoach.Proofs.QueueIdentity

/-! Where one job stands in the queue. Seen through the entries that write its id, the whole queue is
in one of a few places, and every operation moves the job from one place to another or leaves it. -/
namespace SignalCoach.Queue

open SignalCoach.Queue.Action
open Envelope (writtenId?)

inductive Place where
  /-- The job was taken out of the queue. -/
  | nowhere
  | ready
  | delayed (due : Int)
  | processing
  | failed

namespace Place

def contents (entry : Entry) : Place → Contents
  | nowhere => {}
  | ready => { ready := [entry] }
  | delayed due => { delayed := [(due, entry)] }
  | processing => { processing := [entry] }
  | failed => { failed := [entry] }

/-- How a job moves where it is neither handed out nor fails: when it is due, when it is complete, or
when it is recovered, which waits until the queue is idle. -/
inductive Moves (now : Int) (idle : Prop) : Place → Place → Prop where
  | stays {place : Place} : Moves now idle place place
  | ripens {due : Int} (h : due ≤ now) : Moves now idle (delayed due) ready
  | drops : Moves now idle processing nowhere
  | recovers (h : idle) : Moves now idle processing ready

theorem Moves.trans {now : Int} {idle : Prop} {p q r : Place} (first : Moves now idle p q)
    (second : Moves now idle q r) : Moves now idle p r := by
  cases first with
  | stays => exact second
  | ripens h =>
    cases second
    exact .ripens h
  | drops =>
    cases second
    exact .drops
  | recovers h =>
    cases second
    exact .recovers h

def NotBefore (time : Int) : Place → Prop
  | delayed due => time ≤ due
  | failed => True
  | _ => False

theorem NotBefore.moves {time now : Int} {idle : Prop} {p q : Place} (h : p.NotBefore time)
    (hmoves : Moves now idle p q) : time ≤ now ∨ q.NotBefore time := by
  cases hmoves with
  | stays => exact .inr h
  | ripens hdue => exact .inl (le_trans h hdue)
  | drops => exact h.elim
  | recovers _ => exact h.elim

end Place

namespace Contents

def isOf (id : String) (entry : Entry) : Bool := writtenId? entry = some id

def only (id : String) (c : Contents) : Contents where
  ready := c.ready.filter (isOf id)
  processing := c.processing.filter (isOf id)
  delayed := c.delayed.filter fun other => isOf id other.2
  failed := c.failed.filter (isOf id)

/-- A job is in one place of the queue, with these bytes. -/
def Stands (c : Contents) (id : String) (entry : Entry) (place : Place) : Prop :=
  c.only id = place.contents entry

variable {c : Contents} {id : String} {entry other : Entry} {place : Place} {idle : Prop}

theorem isOf_iff : isOf id entry = true ↔ writtenId? entry = some id := decide_eq_true_iff

theorem isOf_congr (h : writtenId? entry = writtenId? other) : isOf id entry = isOf id other := by
  unfold isOf
  rw [h]

theorem only_settle (id : String) (entry : Entry) (c : Contents) :
    (c.settle entry).only id = (c.only id).settle entry := by
  simp only [only, settle, List.erase_filter]

theorem only_undelay (id : String) (entry : Entry) (c : Contents) :
    (c.undelay entry).2.only id = ((c.only id).undelay entry).2 := by
  simp only [only, undelay, without, List.filter_filter, Bool.and_comm]

section Own

variable (h : isOf id entry = true)
include h

theorem only_pushReady (c : Contents) : (c.pushReady entry).only id = (c.only id).pushReady entry := by
  simp [only, pushReady, h]

theorem only_pushFailed (c : Contents) :
    (c.pushFailed entry).only id = (c.only id).pushFailed entry := by
  simp [only, pushFailed, h]

theorem filter_schedule (due : Int) {delayed : List (Int × Entry)}
    (hnone : delayed.filter (fun pair => isOf id pair.2) = []) :
    (schedule due entry delayed).filter (fun pair => isOf id pair.2) = [(due, entry)] := by
  induction delayed with
  | nil => simp [schedule, h]
  | cons first rest ih =>
    obtain ⟨hfirst, hrest⟩ := List.filter_eq_nil_iff.1 hnone |> List.forall_mem_cons.1
    have hrest := List.filter_eq_nil_iff.2 hrest
    unfold schedule
    split
    · rw [List.filter_cons_of_pos (by exact h), hnone]
    · rw [List.filter_cons_of_neg (by exact hfirst), ih hrest]

theorem only_delay (due : Int) (hnone : (c.only id).delayed = []) :
    (c.delay due entry).only id = { c.only id with delayed := [(due, entry)] } := by
  have hwithout : (without entry c.delayed).filter (fun pair => isOf id pair.2) = [] := by
    have honly := congrArg Contents.delayed (only_undelay id entry c)
    rw [undelay, undelay, hnone] at honly
    exact honly
  exact congrArg (fun delayed => ({ c.only id with delayed } : Contents))
    (filter_schedule h due hwithout)

end Own

theorem only_eq_empty (h : ∀ entry ∈ c.entries, writtenId? entry ≠ some id) : c.only id = {} := by
  have hnone : ∀ entry ∈ c.entries, ¬ isOf id entry = true :=
    fun entry hmem hof => h entry hmem (of_decide_eq_true hof)
  simp only [entries, List.forall_mem_append, List.forall_mem_map] at hnone
  obtain ⟨hready, hprocessing, hdelayed, hfailed⟩ := hnone
  rw [only, List.filter_eq_nil_iff.2 hready, List.filter_eq_nil_iff.2 hprocessing,
    List.filter_eq_nil_iff.2 hdelayed, List.filter_eq_nil_iff.2 hfailed]

theorem mem_only_delayed {due : Int} (hentry : isOf id entry = true)
    (h : (due, entry) ∈ c.delayed) : (due, entry) ∈ (c.only id).delayed :=
  List.mem_filter.2 ⟨h, hentry⟩

theorem Stands.delayed_eq (h : c.Stands id entry place) (hother : isOf id other = true) {due : Int}
    (hmem : (due, other) ∈ c.delayed) : place = .delayed due ∧ other = entry := by
  have honly := mem_only_delayed hother hmem
  rw [h] at honly
  cases place with
  | delayed due' =>
    obtain ⟨rfl, rfl⟩ := Prod.mk.inj (List.mem_singleton.1 honly)
    exact ⟨rfl, rfl⟩
  | _ => simp [Place.contents] at honly

theorem Stands.eq_of_mem (h : c.Stands id entry place) (hother : isOf id other = true)
    (hmem : other ∈ c.ready ++ (c.processing ++ c.delayed.map Prod.snd)) :
    other = entry ∧ place ≠ .failed := by
  have honly : other ∈ (c.only id).ready ++
      ((c.only id).processing ++ (c.only id).delayed.map Prod.snd) := by
    simp only [List.mem_append, List.mem_map] at hmem ⊢
    rcases hmem with hready | hprocessing | ⟨⟨due, other⟩, hdelayed, rfl⟩
    · exact .inl (List.mem_filter.2 ⟨hready, hother⟩)
    · exact .inr (.inl (List.mem_filter.2 ⟨hprocessing, hother⟩))
    · exact .inr (.inr ⟨_, mem_only_delayed hother hdelayed, rfl⟩)
  rw [h] at honly
  cases place <;> simp_all [Place.contents]

theorem Stands.mem_failed (h : c.Stands id entry .failed) :
    entry ∈ c.failed ∧ isOf id entry = true := by
  have hmem : entry ∈ (c.only id).failed := by
    rw [h]
    exact List.mem_singleton_self entry
  exact List.mem_filter.1 hmem

section Others

variable (h : isOf id other = false)
include h

theorem only_pushReady_other (c : Contents) : (c.pushReady other).only id = c.only id := by
  simp [only, pushReady, h]

theorem only_pushFailed_other (c : Contents) : (c.pushFailed other).only id = c.only id := by
  simp [only, pushFailed, h]

theorem only_settle_other (c : Contents) : (c.settle other).only id = c.only id := by
  have hnotMem : other ∉ (c.only id).processing := by
    intro hmem
    rw [(List.mem_filter.1 hmem).2] at h
    cases h
  rw [only_settle, settle_of_notMem hnotMem]

theorem only_undelay_other (c : Contents) : (c.undelay other).2.only id = c.only id := by
  unfold only undelay without
  simp only [List.filter_filter]
  congr 1
  refine List.filter_congr fun pair _ => ?_
  by_cases hpair : pair.2 = other <;> simp [hpair, h]

theorem filter_schedule_other (due : Int) (delayed : List (Int × Entry)) :
    (schedule due other delayed).filter (fun pair => isOf id pair.2) =
      delayed.filter fun pair => isOf id pair.2 := by
  induction delayed with
  | nil => simp [schedule, h]
  | cons first rest ih =>
    unfold schedule
    split
    · rw [List.filter_cons_of_neg (by simp [h])]
    · rw [List.filter_cons, List.filter_cons, ih]

theorem only_delay_other (due : Int) (c : Contents) : (c.delay due other).only id = c.only id := by
  rw [← only_undelay_other h c]
  exact congrArg (fun delayed => ({ (c.undelay other).2.only id with delayed } : Contents))
    (filter_schedule_other h due _)

end Others

theorem Stands.adds {c' : Contents} (h : c.Stands id entry .nowhere) (hentry : isOf id entry = true)
    (hadds : Adds entry c c') : ∃ place, c'.Stands id entry place := by
  rcases hadds with rfl | rfl | ⟨due, rfl⟩
  · refine ⟨.ready, ?_⟩
    rw [Stands, only_pushReady hentry, h]
    rfl
  · refine ⟨.failed, ?_⟩
    rw [Stands, only_pushFailed hentry, h]
    rfl
  · refine ⟨.delayed due, ?_⟩
    rw [Stands, only_delay hentry due (by rw [h]; rfl), h]
    rfl

theorem Stands.adds_other {c' : Contents} (h : c.Stands id entry place)
    (hother : isOf id other = false) (hadds : Adds other c c') : c'.Stands id entry place := by
  rcases hadds with rfl | rfl | ⟨due, rfl⟩
  · exact (only_pushReady_other hother c).trans h
  · exact (only_pushFailed_other hother c).trans h
  · exact (only_delay_other hother due c).trans h

theorem Stands.settle (h : c.Stands id entry place) (now : Int) (other : Entry) :
    ∃ place', place.Moves now idle place' ∧ (c.settle other).Stands id entry place' := by
  by_cases hsettled : place = .processing ∧ entry = other
  · obtain ⟨rfl, rfl⟩ := hsettled
    refine ⟨.nowhere, .drops, ?_⟩
    rw [Stands, only_settle, h]
    simp [Place.contents, Contents.settle]
  · refine ⟨place, .stays, ?_⟩
    rw [Stands, only_settle, h, settle_of_notMem]
    intro hmem
    cases place with
    | processing => exact hsettled ⟨rfl, (List.mem_singleton.1 hmem).symm⟩
    | _ => cases hmem

theorem Stands.promote (h : c.Stands id entry place) (hmem : other ∈ c.delayed.map Prod.snd) :
    if isOf id other then
      ∃ due, place = .delayed due ∧ entry = other ∧
        ((c.undelay other).2.pushReady other).Stands id entry .ready
    else ((c.undelay other).2.pushReady other).Stands id entry place := by
  by_cases hother : isOf id other = true
  · rw [if_pos hother]
    obtain ⟨⟨due, other⟩, hpair, rfl⟩ := List.mem_map.1 hmem
    obtain ⟨rfl, rfl⟩ := h.delayed_eq hother hpair
    refine ⟨due, rfl, rfl, ?_⟩
    rw [Stands, only_pushReady hother, only_undelay, h]
    simp [Place.contents, Contents.undelay, without, Contents.pushReady]
  · rw [if_neg hother, Stands, only_pushReady_other (by simpa using hother),
      only_undelay_other (by simpa using hother)]
    exact h

theorem only_take {c' : Contents} (htake : c.take = (some other, c')) :
    if isOf id other then (c.only id).take = (some other, c'.only id) else c'.only id = c.only id := by
  unfold Contents.take at htake
  split at htake
  next => cases htake
  next first ready hready =>
    cases htake
    by_cases hother : isOf id other = true <;> simp [only, Contents.take, hready, hother]

theorem Stands.take {c' : Contents} (h : c.Stands id entry place) (htake : c.take = (some other, c')) :
    if isOf id other then place = .ready ∧ entry = other ∧ c'.Stands id entry .processing
    else c'.Stands id entry place := by
  have honly : if isOf id other then (c.only id).take = (some other, c'.only id)
      else c'.only id = c.only id := only_take htake
  split at honly
  next hother =>
    rw [if_pos hother]
    rw [h] at honly
    cases place with
    | ready =>
      obtain ⟨hsame, hcontents⟩ := Prod.mk.inj honly
      exact ⟨rfl, Option.some.inj hsame, hcontents.symm⟩
    | _ => cases honly
  next hother =>
    rw [if_neg hother]
    exact honly.trans h

theorem only_restore (id : String) (c : Contents) :
    c.restore.2.only id = (c.only id).restore.2 ∨ c.restore.2.only id = c.only id := by
  unfold Contents.restore
  cases hprocessing : c.processing with
  | nil => exact .inr rfl
  | cons first rest =>
    by_cases hfirst : isOf id first = true
    · exact .inl (by simp [only, hprocessing, hfirst])
    · exact .inr (by simp [only, hprocessing, hfirst])

theorem Stands.restore (h : c.Stands id entry place) (now : Int) (hidle : idle) :
    ∃ place', place.Moves now idle place' ∧ c.restore.2.Stands id entry place' := by
  rcases only_restore id c with honly | honly
  · rw [h] at honly
    cases place with
    | processing => exact ⟨.ready, .recovers hidle, honly⟩
    | _ => exact ⟨_, .stays, honly⟩
  · exact ⟨place, .stays, honly.trans h⟩

theorem Stands.putBack (h : c.Stands id entry .nowhere) (hother : isOf id other = true) (now : Int)
    (e : Envelope) (retry : Bool) :
    (c.putBack now e other retry).Stands id other
      (if retry && !e.exhausted then .delayed (now + e.retryDelay) else .failed) := by
  unfold Contents.putBack
  split
  · rw [Stands, only_delay hother _ (by rw [h]; rfl), h]
    rfl
  · rw [Stands, only_pushFailed hother, h]
    rfl

theorem Stands.promoted {c₀ : Contents} {now : Int} (h₀ : c₀.Stands id entry place)
    (hdue : other ∈ c₀.due now) (hmem : other ∈ c.delayed.map Prod.snd)
    (h : ∃ place', place.Moves now idle place' ∧ c.Stands id entry place') :
    ∃ place', place.Moves now idle place' ∧
      ((c.undelay other).2.pushReady other).Stands id entry place' := by
  obtain ⟨place', hmoves, h⟩ := h
  have hpromote := h.promote hmem
  split at hpromote
  next hother =>
    obtain ⟨due', rfl, rfl, hready⟩ := hpromote
    obtain ⟨⟨due, entry⟩, hpair, rfl⟩ := List.mem_map.1 hdue
    obtain ⟨hpair, hnow⟩ := List.mem_filter.1 hpair
    obtain ⟨rfl, -⟩ := h₀.delayed_eq hother hpair
    cases hmoves
    exact ⟨.ready, .ripens (of_decide_eq_true hnow), hready⟩
  next => exact ⟨place', hmoves, hpromote⟩

end Contents

section Operations

variable {b : Broker} {id : String} {entry : Entry} {place : Place} {idle : Prop}

theorem promoteDue_stands (now : Int) (hclear : b.Clear) (h : b.contents.Stands id entry place) :
    Succeeds b (promoteDue now) fun _ b' => b'.ids = b.ids ∧
      ∃ place', place.Moves now idle place' ∧ b'.contents.Stands id entry place' :=
  promoteDue_succeeds now hclear ⟨place, .stays, h⟩ fun _ _ hdue hmem => h.promoted hdue hmem

inductive Looks (id : String) (entry : Entry) (now : Int) (idle : Prop) (place : Place) :
    Reservation → Contents → Prop where
  | handedOut {e : Envelope} {c : Contents} (hid : e.id = id)
      (hread : ∀ ids, Envelope.decode entry ids = (.ok e, ids)) (hmoves : place.Moves now idle .ready)
      (h : c.Stands id entry .processing) : Looks id entry now idle place (.job e) c
  | left {reservation : Reservation} {c : Contents} {place' : Place}
      (hother : ∀ e, reservation = .job e → e.id ≠ id) (hmoves : place.Moves now idle place')
      (h : c.Stands id entry place') : Looks id entry now idle place reservation c

theorem decode_of_drew {ids ids' : IdSupply} {e : Envelope}
    (hread : Envelope.decode entry ids = (.ok e, ids')) (hdrew : ids.Drew e.id) :
    ∀ ids, Envelope.decode entry ids = (.ok e, ids) := by
  rcases Envelope.decode_cases hread with ⟨hall, -⟩ | ⟨hdraw, -⟩
  · exact hall
  · exact absurd (hdraw ▸ hdrew) ids.not_drew_next

theorem isOf_of_decode {ids ids' : IdSupply} {e : Envelope} (hdrew : ids.Drew id)
    (hread : Envelope.decode entry ids = (.ok e, ids')) :
    Contents.isOf id entry = true ↔ e.id = id := by
  rw [Contents.isOf_iff]
  refine ⟨fun hwritten => Envelope.id_of_decode hread hwritten, ?_⟩
  rintro rfl
  simp [writtenId?, decode_of_drew hread hdrew]

theorem opened_looks {now : Int} {c : Contents} {other : Entry} (hclear : b.Clear)
    (hdrew : b.ids.Drew id) (hmoves : ∃ place', place.Moves now idle place' ∧ c.Stands id entry place')
    (htake : c.take = (some other, b.contents)) :
    Succeeds b (opened other) fun reservation b' => b.ids.next ≤ b'.ids.next ∧
      Looks id entry now idle place reservation b'.contents := by
  obtain ⟨place', hmoves, h⟩ := hmoves
  have htaken := h.take htake
  refine .bind (decode_succeeds hclear other) fun outcome b₁ hclear₁ h₁ => ?_
  obtain ⟨hsame, hread⟩ := h₁
  have hids : b.ids.next ≤ b₁.ids.next := by
    have hnext := decode_next other b.ids
    rwa [hread] at hnext
  cases outcome with
  | ok e =>
    refine .answer hclear₁ ⟨hids, ?_⟩
    rw [hsame]
    have hiff := isOf_of_decode hdrew hread
    split at htaken
    next hother =>
      obtain ⟨rfl, rfl, hprocessing⟩ := htaken
      have hid := hiff.1 hother
      exact .handedOut hid (decode_of_drew hread (hid ▸ hdrew)) hmoves hprocessing
    next hother =>
      refine .left (fun e' he' hid => hother (hiff.2 ?_)) hmoves htaken
      exact (Reservation.job.inj he') ▸ hid
  | error m =>
    have hother : Contents.isOf id other = false := by
      rw [Contents.isOf, Envelope.writtenId?_of_malformed hread]
      rfl
    rw [hother, if_neg Bool.false_ne_true] at htaken
    refine .bind (Q := fun _ b' => b'.ids = b₁.ids ∧ b'.contents = b₁.contents.settle other)
      (.command hclear₁ fun _ => ⟨rfl, rfl⟩) fun _ b₂ hclear₂ h₂ => ?_
    refine .bind (Q := fun _ b' => b'.ids = b₂.ids ∧ b'.contents = b₂.contents.pushFailed other)
      (.command hclear₂ fun _ => ⟨rfl, rfl⟩) fun _ b₃ hclear₃ h₃ => .answer hclear₃ ?_
    refine ⟨by rw [h₃.1, h₂.1]; exact hids, .left (fun _ h => nomatch h) hmoves ?_⟩
    rw [h₃.2, h₂.2, hsame, Contents.Stands, Contents.only_pushFailed_other hother,
      Contents.only_settle_other hother]
    exact htaken

theorem openedOrNothing_looks {now : Int} {c : Contents} {found : Option Entry} (hclear : b.Clear)
    (hdrew : b.ids.Drew id) (hmoves : ∃ place', place.Moves now idle place' ∧ c.Stands id entry place')
    (htake : c.take = (found, b.contents)) :
    Succeeds b (openedOrNothing found) fun reservation b' => b.ids.next ≤ b'.ids.next ∧
      Looks id entry now idle place reservation b'.contents := by
  cases found with
  | none =>
    obtain ⟨place', hmoves, h⟩ := hmoves
    rw [← Contents.take_eq_none htake] at h
    exact .answer hclear ⟨Nat.le_refl _, .left (fun _ h => nomatch h) hmoves h⟩
  | some other => exact opened_looks hclear hdrew hmoves htake

theorem reserve_looks (now : Int) (hclear : b.Clear) (hdrew : b.ids.Drew id)
    (h : b.contents.Stands id entry place) :
    Succeeds b (reserve now) fun reservation b' => b.ids.next ≤ b'.ids.next ∧
      Looks id entry now idle place reservation b'.contents := by
  refine .bind (take_succeeds (P := fun c => ∃ place', place.Moves now idle place' ∧
    c.Stands id entry place') now hclear ⟨place, .stays, h⟩ fun _ _ hdue hmem =>
      h.promoted hdue hmem) fun found b₁ hclear₁ h₁ => ?_
  obtain ⟨hids, c, hmoves, htake⟩ := h₁
  rw [← hids] at hdrew ⊢
  exact openedOrNothing_looks hclear₁ hdrew hmoves htake

theorem reserveAfterWait_looks (now : Int) (hclear : b.Clear) (hdrew : b.ids.Drew id)
    (h : b.contents.Stands id entry place) :
    Succeeds b reserveAfterWait fun reservation b' => b.ids.next ≤ b'.ids.next ∧
      Looks id entry now idle place reservation b'.contents := by
  refine .bind (Q := fun found b' => b'.ids = b.ids ∧ b.contents.take = (found, b'.contents))
    ⟨_, _, rfl, hclear, rfl, rfl⟩ fun found b₁ hclear₁ h₁ => ?_
  obtain ⟨hids, htake⟩ := h₁
  rw [← hids] at hdrew ⊢
  exact openedOrNothing_looks hclear₁ hdrew ⟨place, .stays, h⟩ htake

theorem recover_stands (now : Int) (hidle : idle) (fuel : Nat) (hclear : b.Clear)
    (h : b.contents.Stands id entry place) :
    Succeeds b (recover fuel) fun _ b' => b'.ids = b.ids ∧
      ∃ place', place.Moves now idle place' ∧ b'.contents.Stands id entry place' := by
  induction fuel generalizing b place with
  | zero => exact .answer hclear ⟨rfl, place, .stays, h⟩
  | succ fuel ih =>
    refine .bind (Q := fun _ b' => b'.ids = b.ids ∧ b'.contents = b.contents.restore.2)
      (.command hclear fun _ => ⟨rfl, rfl⟩) fun moved b₁ hclear₁ h₁ => ?_
    obtain ⟨place', hmoves, h'⟩ := h.restore now hidle
    rw [← h₁.2] at h'
    split
    · refine .bind (ih hclear₁ h') fun n b₂ hclear₂ h₂ => .answer hclear₂ ?_
      obtain ⟨hids, place'', hmoves', h''⟩ := h₂
      exact ⟨hids.trans h₁.1, place'', hmoves.trans hmoves', h''⟩
    · exact .answer hclear₁ ⟨h₁.1, place', hmoves, h'⟩

theorem recoverStalled_stands (now : Int) (hidle : idle) (hclear : b.Clear)
    (h : b.contents.Stands id entry place) :
    Succeeds b recoverStalled fun _ b' => b'.ids = b.ids ∧
      ∃ place', place.Moves now idle place' ∧ b'.contents.Stands id entry place' :=
  .bind (Q := fun b₁ b' => b₁ = b ∧ b' = b) ⟨b, b, rfl, hclear, rfl, rfl⟩ fun b₁ b' _ hb => by
    obtain ⟨rfl, rfl⟩ := hb
    exact recover_stands now hidle _ hclear h

theorem complete_stands (now : Int) (e : Envelope) (h : b.contents.Stands id entry place) :
    (after (complete e) b).ids = b.ids ∧
      ∃ place', place.Moves now idle place' ∧ (after (complete e) b).contents.Stands id entry place' := by
  have hcases := complete_cases e b
  unfold after
  cases hrun : complete e b with
  | ok answer b' =>
    rw [hrun] at hcases
    obtain ⟨hids, other, -, hcontents⟩ := hcases
    refine ⟨hids, ?_⟩
    rw [hcontents]
    exact h.settle now other
  | error fault b' =>
    rw [hrun] at hcases
    exact ⟨hcases.1, place, .stays, hcases.2 ▸ h⟩

theorem enqueue_stands (now : Int) (name : String) (data : Fields)
    (maxAttempts backoff delay : Int) (hdrew : b.ids.Drew id)
    (h : b.contents.Stands id entry place) :
    (after (enqueue now name data maxAttempts backoff delay) b).ids = b.ids.draw.2 ∧
      (after (enqueue now name data maxAttempts backoff delay) b).contents.Stands id entry place := by
  have hcases := enqueue_cases now name data maxAttempts backoff delay b
  unfold after
  cases hrun : enqueue now name data maxAttempts backoff delay b with
  | ok e b' =>
    rw [hrun] at hcases
    obtain ⟨hids, he, other, hencode, hadds⟩ := hcases
    refine ⟨hids, h.adds_other ?_ hadds⟩
    rw [Contents.isOf, decide_eq_false_iff_not]
    intro hwritten
    have hid : b.ids.draw.1 = id := by
      rw [← Envelope.id_of_encode? hencode hwritten, he]
    exact b.ids.not_drew_next (hid.symm ▸ hdrew)
  | error fault b' =>
    rw [hrun] at hcases
    exact ⟨hcases.1, hcases.2 ▸ h⟩

theorem fail_stands_other (now : Int) {e : Envelope} (error : String) (retry : Bool)
    (hother : e.id ≠ id) (h : b.contents.Stands id entry place) :
    (after (fail now e error retry) b).ids = b.ids ∧ ∃ place', place.Moves now idle place' ∧
      (after (fail now e error retry) b).contents.Stands id entry place' := by
  have hcases := fail_cases now e error retry b
  unfold after
  cases hrun : fail now e error retry b with
  | ok answer b' =>
    rw [hrun] at hcases
    obtain ⟨-, hids, before, written, -, hentry, -, hadds⟩ := hcases
    obtain ⟨place', hmoves, h'⟩ := h.settle now before
    refine ⟨hids, place', hmoves, h'.adds_other ?_ hadds⟩
    rw [Contents.isOf, decide_eq_false_iff_not]
    intro hwritten
    have hid : (e.failed error).id = id := Envelope.id_of_encode? hentry hwritten
    exact hother hid
  | error fault b' =>
    rw [hrun] at hcases
    obtain ⟨hids, ⟨-, hcontents⟩ | ⟨before, -, -, -, hcontents⟩⟩ := hcases
    · exact ⟨hids, place, .stays, hcontents ▸ h⟩
    · refine ⟨hids, ?_⟩
      rw [hcontents]
      exact h.settle now before

end Operations

end SignalCoach.Queue

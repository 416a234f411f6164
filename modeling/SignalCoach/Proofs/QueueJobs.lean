import SignalCoach.Proofs.QueueMoves

/-! What the operations of the queue do to the jobs that it holds, by their ids. -/
namespace SignalCoach

namespace Envelope

/-- An envelope that the queue handed out has the id that its bytes write, if they write one. -/
def Tracks (e : Envelope) : Prop :=
  ∀ entry, e.stored = some entry → ∀ id, writtenId? entry = some id → e.id = id

def bytes? (e : Envelope) : Option Entry := e.stored.or e.encode?

theorem tracks_of_decode {entry : Entry} {ids ids' : IdSupply} {e : Envelope}
    (h : decode entry ids = (.ok e, ids')) : e.Tracks := by
  intro other hother id hid
  obtain rfl := Option.some.inj ((decode_eq_ok h).symm.trans hother)
  exact id_of_decode h hid

theorem id_of_encode? {e : Envelope} {entry : Entry} {id : String} (h : e.encode? = some entry)
    (hid : writtenId? entry = some id) : e.id = id := by
  by_cases hempty : e.id = ""
  · -- An empty id is read as none, and another one is drawn.
    have hread := Json.readBytes?_of_write? h
    rw [reread_document] at hread
    obtain ⟨hgetId, hname, hdata, -⟩ := e.get?_members
    have hdraw : idOf e.members {} = IdSupply.draw {} := by
      simp [idOf, hgetId, hempty, Value.isFalsy]
    obtain ⟨e', -, -, hdecode⟩ := decode_of_writtenId? hid
    have hsupply := congrArg Prod.snd (hdecode {})
    simp only [decode, hread, hname, hdata, hdraw] at hsupply
    exact absurd hsupply (draw_ne _)
  · exact Option.some.inj ((writtenId?_of_encode? h hempty).symm.trans hid)

theorem Tracks.id_of_bytes? {e : Envelope} (htracks : e.Tracks) {entry : Entry} {id : String}
    (h : e.bytes? = some entry) (hid : writtenId? entry = some id) : e.id = id := by
  unfold bytes? at h
  cases hstored : e.stored with
  | some stored =>
    rw [hstored, Option.some_or] at h
    exact htracks entry (hstored.trans h) id hid
  | none =>
    rw [hstored, Option.none_or] at h
    exact id_of_encode? h hid

end Envelope

namespace Queue

open SignalCoach.Queue.Action
open Envelope (writtenId?)

namespace Contents

def ids (c : Contents) : List String := c.entries.filterMap writtenId?

theorem ids_cons {c c' : Contents} {entry : Entry} (h : (entry :: c'.entries).Perm c.entries) :
    ((writtenId? entry).toList ++ c'.ids).Perm c.ids := by
  have hperm := h.filterMap writtenId?
  rw [List.filterMap_cons] at hperm
  cases hid : writtenId? entry with
  | none => simpa [hid, ids] using hperm
  | some id => simpa [hid, ids] using hperm

theorem ids_cons_of_none {c c' : Contents} {entry : Entry}
    (h : (entry :: c'.entries).Perm c.entries) (hnone : writtenId? entry = none) :
    c'.ids.Perm c.ids := by
  simpa [hnone] using ids_cons h

end Contents

/-- Jobs stay in the queue, up to one that may be stranded. -/
structure Keeps (b b' : Broker) (stranded : Option Entry) : Prop where
  entries : ∀ entry ∈ b'.contents.entries, entry ∈ b.contents.entries
  ids : (b'.contents.ids ++ stranded.toList.filterMap writtenId?).Perm b.contents.ids
  once : b'.contents.DelayedOnce
  supply : b.ids.next ≤ b'.ids.next

theorem Moves.keeps {b b' : Broker} {stranded : Option Entry} (h : Moves b b' stranded) :
    Keeps b b' stranded where
  entries entry hentry := h.entries.mem_iff.1 (List.mem_append_left _ hentry)
  ids := by
    have hperm := h.entries.filterMap writtenId?
    rwa [List.filterMap_append] at hperm
  once := h.once
  supply := by rw [h.ids]

theorem Keeps.trans {b b₁ b₂ : Broker} {stranded : Option Entry} (first : Keeps b b₁ none)
    (second : Keeps b₁ b₂ stranded) : Keeps b b₂ stranded where
  entries entry hentry := first.entries entry (second.entries entry hentry)
  ids := second.ids.trans (by simpa using first.ids)
  once := second.once
  supply := first.supply.trans second.supply

def Named (b : Broker) : Prop := ∀ entry ∈ b.contents.entries, ∃ id, writtenId? entry = some id

theorem draw_next (ids : IdSupply) : ids.next ≤ ids.draw.2.next := Nat.le_succ _

theorem decode_next (entry : Entry) (ids : IdSupply) :
    ids.next ≤ (Envelope.decode entry ids).2.next := by
  unfold Envelope.decode
  split
  next => exact Nat.le_refl _
  next fields hread =>
    split
    next name data hname hdata =>
      rcases Envelope.idOf_cases fields with ⟨id, hid⟩ | hdraw
      · simp only [hid, Nat.le_refl]
      · simp only [hdraw, draw_next]
    next => exact Nat.le_refl _
  next => exact Nat.le_refl _

/-- An entry that was taken is handed out as a job, or it has no id and is laid aside. -/
theorem opened_cases {entry : Entry} {b : Broker} (honce : b.contents.DelayedOnce)
    (hentry : entry ∈ b.contents.processing) :
    match opened entry b with
    | .ok .nothing _ => False
    | .ok (.job e) b' => b'.contents = b.contents ∧
        Envelope.decode entry b.ids = (.ok e, b'.ids)
    | .ok .unreadable b' | .error _ b' => Keeps b b' none ∧ writtenId? entry = none := by
  rw [opened, Program.bind_apply, Action.decode]
  rcases hdecode : Envelope.decode entry b.ids with ⟨m | e, ids⟩
  case ok => exact ⟨rfl, rfl⟩
  have hnone := Envelope.writtenId?_of_malformed hdecode
  have hsupply := decode_next entry b.ids
  rw [hdecode] at hsupply
  -- The entry has no id, so the ids are kept when it leaves, whether or not it is put back.
  have hsettle := Contents.entries_settle hentry
  have hpush := Contents.entries_pushFailed entry (b.contents.settle entry)
  have hids := Contents.ids_cons_of_none hsettle hnone
  simp only
  rw [Program.bind_apply, perform]
  rcases hfirst : b.outage.next with ⟨_ | _, outage⟩
  case true =>
    rw [command_of_refused (by exact hfirst)]
    exact ⟨{ entries := fun _ h => h, ids := by simp, once := honce, supply := hsupply }, hnone⟩
  rw [command_of_next (by exact hfirst)]
  simp only
  rw [Program.bind_apply, perform]
  rcases hsecond : outage.next with ⟨_ | _, outage⟩
  case true =>
    rw [command_of_refused (by exact hsecond)]
    refine ⟨{ entries := fun other h => ?_, ids := by simpa using hids, once := honce,
              supply := hsupply }, hnone⟩
    exact hsettle.mem_iff.1 (List.mem_cons_of_mem _ h)
  rw [command_of_next (by exact hsecond)]
  refine ⟨{ entries := fun other h => hsettle.mem_iff.1 (hpush.mem_iff.1 h), ids := ?_,
            once := honce, supply := hsupply }, hnone⟩
  simpa using (Contents.ids_cons_of_none hpush.symm hnone).symm.trans hids

def Reserves (b : Broker) (stranded : Option Entry) : EStateM.Result Fault Broker Reservation → Prop
  | .ok (.job e) b' => Keeps b b' none ∧ stranded = none ∧ ∃ entry ∈ b.contents.entries,
      Envelope.decode entry b.ids = (.ok e, b'.ids) ∧
        b'.contents.processing = b.contents.processing ++ [entry]
  | .ok .nothing b' => Keeps b b' none ∧ stranded = none ∧
      b'.contents.processing = b.contents.processing
  | .ok .unreadable b' => Keeps b b' none ∧ stranded = none ∧ ¬ Named b
  | .error _ b' => Keeps b b' stranded ∧
      (Named b → b'.contents.processing = b.contents.processing)

theorem reserves_of_takes {b b' : Broker} {entry : Entry} (htakes : Takes b b' entry) :
    Reserves b none (opened entry b') := by
  have hentry : entry ∈ b'.contents.processing := by
    rw [htakes.processing]
    simp
  have hmem : entry ∈ b.contents.entries :=
    htakes.toMoves.keeps.entries entry (by simp [Contents.entries, hentry])
  have hunnamed (hnone : writtenId? entry = none) : ¬ Named b := by
    intro hnamed
    obtain ⟨id, hid⟩ := hnamed entry hmem
    rw [hnone] at hid
    cases hid
  have hopened := opened_cases htakes.once hentry
  cases hrun : opened entry b' with
  | error fault b₂ =>
    rw [hrun] at hopened
    exact ⟨htakes.toMoves.keeps.trans hopened.1, fun hnamed => absurd hnamed (hunnamed hopened.2)⟩
  | ok reservation b₂ =>
    rw [hrun] at hopened
    cases reservation with
    | nothing => exact hopened.elim
    | unreadable =>
      exact ⟨htakes.toMoves.keeps.trans hopened.1, rfl, hunnamed hopened.2⟩
    | job e =>
      obtain ⟨hcontents, hdecode⟩ := hopened
      have hsupply := decode_next entry b'.ids
      rw [hdecode] at hsupply
      have hkeeps : Keeps b' b₂ none :=
        { entries := fun entry h => hcontents ▸ h, ids := by simp [hcontents],
          once := hcontents ▸ htakes.once, supply := hsupply }
      exact ⟨htakes.toMoves.keeps.trans hkeeps, rfl, entry, hmem, htakes.ids ▸ hdecode,
        hcontents ▸ htakes.processing⟩

theorem reserve_cases (now : Int) (b : Broker) (honce : b.contents.DelayedOnce) :
    Reserves b (strandedDue now b) (reserve now b) := by
  have htake := take_cases now b honce
  rw [reserve, Program.bind_apply]
  cases hrun : take now b with
  | error fault b₁ =>
    rw [hrun] at htake
    exact ⟨htake.toMoves.keeps, fun _ => htake.processing⟩
  | ok found b₁ =>
    rw [hrun] at htake
    cases found with
    | none => exact ⟨htake.1.toMoves.keeps, htake.2, htake.1.processing⟩
    | some entry =>
      rw [htake.2]
      exact reserves_of_takes htake.1

theorem reserveAfterWait_cases (b : Broker) (honce : b.contents.DelayedOnce) :
    Reserves b none (reserveAfterWait b) := by
  have htake := takeAfterWait_cases b honce
  rw [reserveAfterWait, Program.bind_apply]
  cases hrun : takeAfterWait b with
  | error fault b₁ =>
    rw [hrun] at htake
    exact htake.elim
  | ok found b₁ =>
    rw [hrun] at htake
    cases found with
    | none => exact ⟨htake.toMoves.keeps, rfl, htake.processing⟩
    | some entry => exact reserves_of_takes htake

theorem held_eq (e : Envelope) (b : Broker) :
    held e b =
      match e.bytes? with
      | some entry => .ok entry b
      | none => .error .unwritable b := by
  unfold held Envelope.bytes? Action.encode
  cases e.stored with
  | some entry => rfl
  | none => cases e.encode? <;> rfl

theorem encode_eq (e : Envelope) (b : Broker) :
    Action.encode e b =
      match e.encode? with
      | some entry => .ok entry b
      | none => .error .unwritable b := by
  unfold Action.encode
  cases e.encode? <;> rfl

theorem perform_cases (f : Contents → Contents) (b : Broker) :
    match perform f b with
    | .ok _ b' => b.outage.next.1 = false ∧ b'.ids = b.ids ∧ b'.contents = f b.contents
    | .error _ b' => b.outage.next.1 = true ∧ b'.ids = b.ids ∧ b'.contents = b.contents := by
  rw [perform]
  rcases hnext : b.outage.next with ⟨_ | _, outage⟩
  · rw [command_of_next hnext]
    exact ⟨rfl, rfl, rfl⟩
  · rw [command_of_refused hnext]
    exact ⟨rfl, rfl, rfl⟩

theorem complete_cases (e : Envelope) (b : Broker) :
    match complete e b with
    | .ok _ b' => b'.ids = b.ids ∧ ∃ entry, e.bytes? = some entry ∧
        b'.contents = b.contents.settle entry
    | .error _ b' => b'.ids = b.ids ∧ b'.contents = b.contents := by
  rw [complete, Program.bind_apply, held_eq]
  cases hbytes : e.bytes? with
  | none => exact ⟨rfl, rfl⟩
  | some entry =>
    simp only
    have hperform := perform_cases (Contents.settle entry) b
    cases hrun : perform (Contents.settle entry) b <;> rw [hrun] at hperform
    case ok => exact ⟨hperform.2.1, entry, rfl, hperform.2.2⟩
    case error => exact hperform.2

def Adds (entry : Entry) (c c' : Contents) : Prop :=
  c' = c.pushReady entry ∨ c' = c.pushFailed entry ∨ ∃ due, c' = c.delay due entry

namespace Adds

variable {entry : Entry} {c c' : Contents}

theorem mem_entries (h : Adds entry c c') (x : Entry) :
    x ∈ c'.entries ↔ x = entry ∨ x ∈ c.entries := by
  rcases h with rfl | rfl | ⟨due, rfl⟩
  · rw [(Contents.entries_pushReady entry c).mem_iff, List.mem_cons]
  · rw [(Contents.entries_pushFailed entry c).mem_iff, List.mem_cons]
  · exact Contents.mem_entries_delay

theorem once (h : Adds entry c c') (honce : c.DelayedOnce) : c'.DelayedOnce := by
  rcases h with rfl | rfl | ⟨due, rfl⟩
  · exact honce
  · exact honce
  · exact honce.delay

theorem processing (h : Adds entry c c') : c'.processing = c.processing := by
  rcases h with rfl | rfl | ⟨due, rfl⟩ <;> rfl

theorem entries (h : Adds entry c c') (hnew : entry ∉ c.delayed.map Prod.snd) :
    c'.entries.Perm (entry :: c.entries) := by
  rcases h with rfl | rfl | ⟨due, rfl⟩
  · exact Contents.entries_pushReady entry c
  · exact Contents.entries_pushFailed entry c
  · exact Contents.entries_delay hnew

end Adds

theorem delay_of_printable {due : Int} (entry : Entry) (h : Text.isPrintable due = true) :
    delay due entry = perform (Contents.delay due entry) := if_pos h

theorem delay_of_not_printable {due : Int} (entry : Entry) (h : Text.isPrintable due = false)
    (b : Broker) : delay due entry b = .error .overlong b := by
  rw [delay, h]
  rfl

theorem delay_cases (due : Int) (entry : Entry) (b : Broker) :
    match delay due entry b with
    | .ok _ b' => (b.outage.next.1 = false ∧ Text.isPrintable due = true) ∧ b'.ids = b.ids ∧
        b'.contents = b.contents.delay due entry
    | .error _ b' => (b.outage.next.1 = true ∨ Text.isPrintable due = false) ∧ b'.ids = b.ids ∧
        b'.contents = b.contents := by
  cases hprintable : Text.isPrintable due with
  | false =>
    rw [delay_of_not_printable entry hprintable]
    exact ⟨.inr rfl, rfl, rfl⟩
  | true =>
    rw [delay_of_printable entry hprintable]
    have hperform := perform_cases (Contents.delay due entry) b
    cases hrun : perform (Contents.delay due entry) b <;> rw [hrun] at hperform
    case ok => exact ⟨⟨hperform.1, rfl⟩, hperform.2⟩
    case error => exact ⟨.inl hperform.1, hperform.2⟩

theorem enqueue_cases (now : Int) (name : String) (data : Fields)
    (maxAttempts backoff delay : Int) (b : Broker) :
    match enqueue now name data maxAttempts backoff delay b with
    | .ok e b' => b'.ids = b.ids.draw.2 ∧
        e = { name, data, id := b.ids.draw.1, maxAttempts := max 1 maxAttempts, backoff,
              enqueuedAt := now } ∧
        ∃ entry, e.encode? = some entry ∧ Adds entry b.contents b'.contents
    | .error _ b' => b'.ids = b.ids.draw.2 ∧ b'.contents = b.contents := by
  rw [enqueue, Program.bind_apply, freshId]
  simp only
  rw [Program.bind_apply, encode_eq]
  cases hbytes : Envelope.encode?
      { name, data, id := b.ids.draw.1, maxAttempts := max 1 maxAttempts, backoff,
        enqueuedAt := now } with
  | none => exact ⟨rfl, rfl⟩
  | some entry =>
    simp only
    by_cases hdelay : 0 < delay
    · rw [if_pos hdelay, Program.bind_apply]
      have hadd := delay_cases (now + delay) entry { b with ids := b.ids.draw.2 }
      cases hrun : Queue.delay (now + delay) entry { b with ids := b.ids.draw.2 } <;>
        rw [hrun] at hadd
      case ok => exact ⟨hadd.2.1, rfl, entry, hbytes, .inr (.inr ⟨_, hadd.2.2⟩)⟩
      case error => exact hadd.2
    · rw [if_neg hdelay, Program.bind_apply]
      have hadd := perform_cases (Contents.pushReady entry) { b with ids := b.ids.draw.2 }
      cases hrun : perform (Contents.pushReady entry) { b with ids := b.ids.draw.2 } <;>
        rw [hrun] at hadd
      case ok => exact ⟨hadd.2.1, rfl, entry, hbytes, .inl hadd.2.2⟩
      case error => exact hadd.2

theorem enqueue_data {now : Int} {name : String} {data : Fields} {maxAttempts backoff delay : Int}
    {b b' : Broker} {e : Envelope}
    (h : enqueue now name data maxAttempts backoff delay b = .ok e b') : e.data = data := by
  have hcases := enqueue_cases now name data maxAttempts backoff delay b
  rw [h] at hcases
  exact congrArg Envelope.data hcases.2.1

def untimely (now : Int) (e : Envelope) (retry : Bool) : Bool :=
  retry && !e.exhausted && !Text.isPrintable (now + e.retryDelay)

/-- The entry that is out of processing and nowhere else when recording a failure stops. -/
def strandedByFailure (now : Int) (e : Envelope) (error : String) (retry : Bool) (b : Broker) :
    Option Entry :=
  if (b.outage.count ≠ 0 ∧ b.outage.skip = 1 ∨
      b.outage.next.1 = false ∧ untimely now (e.failed error) retry = true) ∧
      (e.failed error).encode?.isSome then
    e.bytes?.filter (· ∈ b.contents.processing)
  else none

theorem reschedule_cases (now : Int) (e : Envelope) (entry : Entry) (retry : Bool) (b : Broker) :
    match reschedule now e entry retry b with
    | .ok _ b' => (b.outage.next.1 = false ∧ untimely now e retry = false) ∧ b'.ids = b.ids ∧
        Adds entry b.contents b'.contents
    | .error _ b' => (b.outage.next.1 = true ∨ untimely now e retry = true) ∧ b'.ids = b.ids ∧
        b'.contents = b.contents := by
  unfold reschedule untimely
  cases hretry : retry && !e.exhausted with
  | false =>
    rw [if_neg Bool.false_ne_true, Program.bind_apply]
    have hadd := perform_cases (Contents.pushFailed entry) b
    cases hrun : perform (Contents.pushFailed entry) b <;> rw [hrun] at hadd
    case ok => exact ⟨⟨hadd.1, rfl⟩, hadd.2.1, .inr (.inl hadd.2.2)⟩
    case error => exact ⟨.inl hadd.1, hadd.2⟩
  | true =>
    rw [if_pos rfl, Program.bind_apply, Bool.true_and, Bool.not_eq_false', Bool.not_eq_true']
    have hadd := delay_cases (now + e.retryDelay) entry b
    cases hrun : delay (now + e.retryDelay) entry b <;> rw [hrun] at hadd
    case ok => exact ⟨hadd.1, hadd.2.1, .inr (.inr ⟨_, hadd.2.2⟩)⟩
    case error => exact hadd

/-- Recording a failure replaces the envelope's bytes, strands them, or changes nothing. -/
theorem fail_cases (now : Int) (e : Envelope) (error : String) (retry : Bool) (b : Broker) :
    match fail now e error retry b with
    | .ok (_, e') b' => strandedByFailure now e error retry b = none ∧ b'.ids = b.ids ∧
        ∃ before entry, e.bytes? = some before ∧ (e.failed error).encode? = some entry ∧
          e' = { e.failed error with stored := some entry } ∧
          Adds entry (b.contents.settle before) b'.contents
    | .error _ b' => b'.ids = b.ids ∧
        (strandedByFailure now e error retry b = none ∧ b'.contents = b.contents ∨
          ∃ before ∈ b.contents.processing, strandedByFailure now e error retry b = some before ∧
            e.bytes? = some before ∧ b'.contents = b.contents.settle before) := by
  rw [fail, Program.bind_apply, held_eq]
  unfold strandedByFailure
  cases hbefore : e.bytes? with
  | none => exact ⟨rfl, .inl ⟨by simp, rfl⟩⟩
  | some before =>
  simp only
  rw [Program.bind_apply, encode_eq]
  cases hentry : (e.failed error).encode? with
  | none => exact ⟨rfl, .inl ⟨by simp, rfl⟩⟩
  | some entry =>
  simp only
  rw [Program.bind_apply, perform]
  rcases hfirst : b.outage.next with ⟨_ | _, outage⟩
  case true =>
    have hskip : b.outage.skip ≠ 1 := by
      intro hskip
      rw [Outage.next, hskip] at hfirst
      cases hfirst
    rw [command_of_refused hfirst]
    exact ⟨rfl, .inl ⟨by simp [hskip], rfl⟩⟩
  rw [command_of_next hfirst]
  have hreschedule := reschedule_cases now (e.failed error) entry retry
    { b with contents := b.contents.settle before, outage }
  simp only at hreschedule ⊢
  rw [Program.bind_apply]
  have hsecond := Outage.next_refused_iff hfirst
  cases hrun : reschedule now (e.failed error) entry retry
      { b with contents := b.contents.settle before, outage } with
  | ok delayed b' =>
    rw [hrun] at hreschedule
    obtain ⟨⟨hcarried, htimely⟩, hids, hadds⟩ := hreschedule
    have hcount : ¬ (b.outage.count ≠ 0 ∧ b.outage.skip = 1) := by
      rw [← hsecond, hcarried]
      decide
    have hstops : ¬ (b.outage.count ≠ 0 ∧ b.outage.skip = 1 ∨
        untimely now (e.failed error) retry = true) := by
      rintro (hrefused | huntimely)
      · exact hcount hrefused
      · rw [htimely] at huntimely
        cases huntimely
    exact ⟨if_neg fun h => hstops (h.1.imp_right And.right), hids, before, entry, rfl, rfl, rfl, hadds⟩
  | error fault b' =>
    rw [hrun] at hreschedule
    obtain ⟨hstops, hids, hcontents⟩ := hreschedule
    refine ⟨hids, ?_⟩
    rw [if_pos ⟨hstops.imp hsecond.1 fun huntimely => ⟨trivial, huntimely⟩, rfl⟩]
    by_cases hmem : before ∈ b.contents.processing
    · exact .inr ⟨before, hmem, by simp [hmem], rfl, hcontents⟩
    · refine .inl ⟨by simp [hmem], ?_⟩
      rw [hcontents, Contents.settle_of_notMem hmem]

end Queue

end SignalCoach

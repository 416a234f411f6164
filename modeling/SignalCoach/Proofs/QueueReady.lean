import SignalCoach.Proofs.QueueIdentity

/-! What the operations of the queue do to the entries that wait: those that are ready, in their
order, and those that are delayed. -/
namespace SignalCoach.Queue

open SignalCoach.Queue.Action

namespace Contents

def delayedEntries (c : Contents) : List Entry := c.delayed.map Prod.snd

/-- Only entries that pass `promoted` were added to the ready ones, at their end, and only entries
that pass `added` are new among the delayed ones. -/
structure Waits (promoted added : Entry → Prop) (c c' : Contents) : Prop where
  ready : ∃ more, c'.ready = c.ready ++ more ∧ ∀ entry ∈ more, promoted entry
  delayed : ∀ entry ∈ c'.delayedEntries, entry ∈ c.delayedEntries ∨ added entry

namespace Waits

variable {promoted added : Entry → Prop} {c c₁ c₂ : Contents}

theorem same (hready : c₁.ready = c.ready) (hdelayed : c₁.delayed = c.delayed) :
    Waits promoted added c c₁ where
  ready := ⟨[], by simp [hready]⟩
  delayed entry hentry := .inl (by rwa [delayedEntries, ← hdelayed])

theorem mono {promoted' added' : Entry → Prop} (h : Waits promoted added c c₁)
    (hpromoted : ∀ entry, promoted entry → promoted' entry)
    (hadded : ∀ entry, added entry → added' entry) : Waits promoted' added' c c₁ where
  ready := by
    obtain ⟨more, hmore, hall⟩ := h.ready
    exact ⟨more, hmore, fun entry hentry => hpromoted entry (hall entry hentry)⟩
  delayed entry hentry := (h.delayed entry hentry).imp_right (hadded entry)

theorem trans (first : Waits promoted added c c₁) (second : Waits promoted added c₁ c₂) :
    Waits promoted added c c₂ where
  ready := by
    obtain ⟨more, hmore, hall⟩ := first.ready
    obtain ⟨more', hmore', hall'⟩ := second.ready
    refine ⟨more ++ more', by rw [hmore', hmore, List.append_assoc], fun entry hentry => ?_⟩
    exact (List.mem_append.1 hentry).elim (hall entry) (hall' entry)
  delayed entry hentry := (second.delayed entry hentry).elim (first.delayed entry) .inr

theorem mem_ready (h : Waits promoted added c c₁) {entry : Entry} (hentry : entry ∈ c.ready) :
    entry ∈ c₁.ready := by
  obtain ⟨more, hmore, -⟩ := h.ready
  rw [hmore]
  exact List.mem_append_left _ hentry

theorem of_mem_ready (h : Waits promoted added c c₁) {entry : Entry} (hentry : entry ∈ c₁.ready) :
    entry ∈ c.ready ∨ promoted entry := by
  obtain ⟨more, hmore, hall⟩ := h.ready
  rw [hmore, List.mem_append] at hentry
  exact hentry.imp_right (hall entry)

theorem undelay (entry : Entry) : Waits promoted added c (c.undelay entry).2 where
  ready := ⟨[], by simp [Contents.undelay]⟩
  delayed other hother := by
    rw [delayedEntries, Contents.undelay, without_entries] at hother
    exact .inl (List.mem_filter.1 hother).1

theorem pushReady {entry : Entry} (h : promoted entry) : Waits promoted added c (c.pushReady entry) where
  ready := ⟨[entry], rfl, by simpa using h⟩
  delayed _ hother := .inl hother

theorem delay {entry : Entry} (due : Int) (h : added entry) :
    Waits promoted added c (c.delay due entry) where
  ready := ⟨[], by simp [Contents.delay]⟩
  delayed other hother := by
    rw [delayedEntries, Contents.delay, (schedule_entries due entry _).mem_iff, List.mem_cons,
      without_entries] at hother
    rcases hother with rfl | hother
    · exact .inr h
    · exact .inl (List.mem_filter.1 hother).1

end Waits

end Contents

open Contents (Waits)

def Action.Leaves (R : Contents → Contents → Prop) (action : Action α) : Prop :=
  ∀ b, R b.contents (after action b).contents

namespace Action.Leaves

variable {promoted added : Entry → Prop}

theorem answer (a : α) : Leaves (Waits promoted added) (pure a : Action α) := fun _ => .same rfl rfl

theorem command {f : Contents → α × Contents} (h : ∀ c, Waits promoted added c (f c).2) :
    Leaves (Waits promoted added) (command f) := by
  intro b
  unfold after
  rcases hnext : b.outage.next with ⟨_ | _, outage⟩
  · rw [command_of_next hnext]
    exact h b.contents
  · rw [command_of_refused hnext]
    exact .same rfl rfl

theorem bind {x : Action α} {f : α → Action β} (hx : Leaves (Waits promoted added) x)
    (hf : ∀ a, Leaves (Waits promoted added) (f a)) : Leaves (Waits promoted added) (x >>= f) := by
  intro b
  have hfirst := hx b
  unfold after at hfirst ⊢
  rw [Program.bind_apply]
  cases hrun : x b with
  | ok a b₁ =>
    rw [hrun] at hfirst
    exact hfirst.trans (hf a b₁)
  | error fault b₁ =>
    rw [hrun] at hfirst
    exact hfirst

end Action.Leaves

theorem promote_waits {promoted : Entry → Prop} (due : List Entry)
    (hdue : ∀ entry ∈ due, promoted entry) :
    Leaves (Waits promoted fun _ => False) (promote due) := by
  induction due with
  | nil => exact Leaves.answer 0
  | cons entry rest ih =>
    have hrest := ih fun other hother => hdue other (List.mem_cons_of_mem _ hother)
    unfold promote
    refine Leaves.bind (Leaves.command fun c => Waits.undelay entry) fun found => ?_
    split
    · refine Leaves.bind (Leaves.command fun c => Waits.pushReady (hdue entry (by simp))) fun _ => ?_
      exact Leaves.bind hrest fun n => Leaves.answer _
    · exact hrest

theorem delay_leaves {promoted added : Entry → Prop} {entry : Entry} (due : Int)
    (hadded : added entry) : Leaves (Waits promoted added) (delay due entry) := by
  cases hprintable : Text.isPrintable due with
  | true =>
    rw [delay_of_printable entry hprintable]
    exact Leaves.command fun c => Waits.delay _ hadded
  | false =>
    intro b
    rw [Action.after, delay_of_not_printable entry hprintable]
    exact .same rfl rfl

theorem promoteDue_waits (now : Int) (b : Broker) :
    Waits (· ∈ b.contents.delayedEntries) (fun _ => False) b.contents
      (after (promoteDue now) b).contents := by
  unfold after promoteDue ask
  rw [Program.bind_apply]
  rcases hnext : b.outage.next with ⟨_ | _, outage⟩
  · rw [command_of_next hnext]
    refine promote_waits (b.contents.due now) (fun entry hentry => ?_) { b with outage }
    exact (List.filter_sublist.map _).subset hentry
  · rw [command_of_refused hnext]
    exact .same rfl rfl

def Contents.TakesReady (entry : Entry) (c c' : Contents) : Prop :=
  c.ready = entry :: c'.ready ∧ c'.delayed = c.delayed

theorem takesReady_of_take {c c' : Contents} {entry : Entry} (h : c.take = (some entry, c')) :
    c.TakesReady entry c' := by
  unfold Contents.take at h
  split at h
  next => cases h
  next first rest hready =>
    cases h
    exact ⟨hready, rfl⟩

/-- What a look for the next job does to the entries that wait: entries that are due become ready, and
if one is taken, it is the oldest. An entry that is taken and not handed out cannot be read. -/
def Reserving (c : Contents) (outcome : Except Fault Reservation) (c' : Contents) : Prop :=
  ∃ due, Waits (· ∈ c.delayedEntries) (fun _ => False) c due ∧
    match outcome with
    | .ok (.job e) => ∃ entry, due.TakesReady entry c' ∧
        ∃ ids ids', Envelope.decode entry ids = (.ok e, ids')
    | _ => c'.ready = due.ready ∧ c'.delayed = due.delayed ∨
        ∃ entry, due.TakesReady entry c' ∧ ∃ m ids ids', Envelope.decode entry ids = (.error m, ids')

def Action.Ends (P : Except Fault α → Contents → Prop) : EStateM.Result Fault Broker α → Prop
  | .ok a b => P (.ok a) b.contents
  | .error fault b => P (.error fault) b.contents

theorem opened_reserving {c due : Contents} (b : Broker) {entry : Entry}
    (hwaits : Waits (· ∈ c.delayedEntries) (fun _ => False) c due)
    (htakes : due.TakesReady entry b.contents) : Ends (Reserving c) (opened entry b) := by
  rw [opened, Program.bind_apply, Action.decode]
  rcases hdecode : Envelope.decode entry b.ids with ⟨m | e, ids⟩
  case ok => exact ⟨due, hwaits, entry, htakes, b.ids, ids, hdecode⟩
  have hlost : ∀ b' : Broker, b'.contents.ready = b.contents.ready →
      b'.contents.delayed = b.contents.delayed → ∃ other, due.TakesReady other b'.contents ∧
        ∃ m ids ids', Envelope.decode other ids = (.error m, ids') := by
    intro b' hready hdelayed
    refine ⟨entry, ⟨?_, hdelayed.trans htakes.2⟩, m, b.ids, ids, hdecode⟩
    rw [hready]
    exact htakes.1
  simp only
  rw [Program.bind_apply, perform]
  rcases hfirst : b.outage.next with ⟨_ | _, outage⟩
  case true =>
    rw [command_of_refused (by exact hfirst)]
    exact ⟨due, hwaits, .inr (hlost _ rfl rfl)⟩
  rw [command_of_next (by exact hfirst)]
  simp only
  rw [Program.bind_apply, perform]
  rcases hsecond : outage.next with ⟨_ | _, outage⟩
  case true =>
    rw [command_of_refused (by exact hsecond)]
    exact ⟨due, hwaits, .inr (hlost { b with contents := b.contents.settle entry } rfl rfl)⟩
  rw [command_of_next (by exact hsecond)]
  exact ⟨due, hwaits,
    .inr (hlost { b with contents := (b.contents.settle entry).pushFailed entry } rfl rfl)⟩

theorem openedOrNothing_reserving {c due : Contents} (b : Broker) {found : Option Entry}
    (hwaits : Waits (· ∈ c.delayedEntries) (fun _ => False) c due)
    (htake : due.take = (found, b.contents)) : Ends (Reserving c) (openedOrNothing found b) := by
  cases found with
  | none =>
    have hsame := Contents.take_eq_none htake
    exact ⟨due, hwaits, .inl ⟨by rw [hsame], by rw [hsame]⟩⟩
  | some entry => exact opened_reserving b hwaits (takesReady_of_take htake)

theorem reserve_reserving (now : Int) (b : Broker) :
    Ends (Reserving b.contents) (reserve now b) := by
  have hwaits := promoteDue_waits now b
  unfold after at hwaits
  rw [reserve, Program.bind_apply, take, Program.bind_apply]
  cases hpromote : promoteDue now b with
  | error fault b₁ =>
    rw [hpromote] at hwaits
    exact ⟨b₁.contents, hwaits, .inl ⟨rfl, rfl⟩⟩
  | ok n b₁ =>
    rw [hpromote] at hwaits
    simp only
    rcases hnext : b₁.outage.next with ⟨_ | _, outage⟩
    · rw [command_of_next hnext]
      exact openedOrNothing_reserving _ hwaits rfl
    · rw [command_of_refused hnext]
      exact ⟨b₁.contents, hwaits, .inl ⟨rfl, rfl⟩⟩

theorem reserveAfterWait_reserving (b : Broker) :
    Ends (Reserving b.contents) (reserveAfterWait b) := by
  have hrun : reserveAfterWait b =
      openedOrNothing b.contents.take.1 { b with contents := b.contents.take.2 } := by
    rw [reserveAfterWait, Program.bind_apply]
    rfl
  rw [hrun]
  exact openedOrNothing_reserving _ (.same rfl rfl) rfl

theorem ends_of_after {P : Contents → Prop} {action : Action α} {b : Broker}
    (h : P (after action b).contents) : Ends (fun _ => P) (action b) := by
  unfold after at h
  cases hrun : action b with
  | ok a b' =>
    rw [hrun] at h
    exact h
  | error fault b' =>
    rw [hrun] at h
    exact h

theorem complete_waits (e : Envelope) :
    Leaves (Waits (fun _ => False) fun _ => False) (complete e) := by
  intro b
  have hcases := complete_cases e b
  unfold after
  cases hrun : complete e b with
  | ok _ b' =>
    rw [hrun] at hcases
    obtain ⟨-, entry, -, hcontents⟩ := hcases
    exact .same (by rw [hcontents]; rfl) (by rw [hcontents]; rfl)
  | error fault b' =>
    rw [hrun] at hcases
    exact .same (by rw [hcases.2]) (by rw [hcases.2])

theorem fail_waits (now : Int) (e : Envelope) (error : String) (retry : Bool) :
    Leaves (Waits (fun _ => False) fun entry => retry = true ∧ (e.failed error).exhausted = false ∧
      (e.failed error).encode? = some entry) (fail now e error retry) := by
  intro b
  unfold after
  rw [fail, Program.bind_apply, held_eq]
  cases e.bytes? with
  | none => exact .same rfl rfl
  | some before =>
  simp only
  rw [Program.bind_apply, encode_eq]
  cases hentry : (e.failed error).encode? with
  | none => exact .same rfl rfl
  | some entry =>
  simp only
  refine Leaves.bind (Leaves.command fun c => .same rfl rfl) (fun _ => Leaves.bind ?_ fun delayed =>
    Leaves.answer _) b
  unfold reschedule
  split
  next hretry =>
    rw [Bool.and_eq_true, Bool.not_eq_true'] at hretry
    exact Leaves.bind (delay_leaves _ ⟨hretry.1, hretry.2, rfl⟩) fun _ => Leaves.answer _
  next => exact Leaves.bind (Leaves.command fun c => .same rfl rfl) fun _ => Leaves.answer _

def Enqueuing (name : String) (c : Contents) (outcome : Except Fault Envelope) (c' : Contents) : Prop :=
  match outcome with
  | .ok e => e.name = name ∧ ∃ entry, e.encode? = some entry ∧ Waits (· = entry) (· = entry) c c'
  | .error _ => c' = c

theorem enqueue_enqueuing (now : Int) (name : String) (data : Fields)
    (maxAttempts backoff delay : Int) (b : Broker) :
    Ends (Enqueuing name b.contents) (enqueue now name data maxAttempts backoff delay b) := by
  have hcases := enqueue_cases now name data maxAttempts backoff delay b
  cases hrun : enqueue now name data maxAttempts backoff delay b with
  | ok e b' =>
    rw [hrun] at hcases
    obtain ⟨-, he, entry, hentry, hadds⟩ := hcases
    refine ⟨congrArg Envelope.name he, entry, hentry, ?_⟩
    rcases hadds with h | h | ⟨due, h⟩
    · rw [h]
      exact .pushReady rfl
    · rw [h]
      exact .same rfl rfl
    · rw [h]
      exact .delay due rfl
  | error fault b' =>
    rw [hrun] at hcases
    exact hcases.2

theorem enqueue_pushes (now : Int) (name : String) (data : Fields) (maxAttempts backoff : Int)
    (b : Broker) :
    match enqueue now name data maxAttempts backoff 0 b with
    | .ok e b' => ∃ entry, e.encode? = some entry ∧ b'.contents = b.contents.pushReady entry
    | .error _ b' => b'.contents = b.contents := by
  rw [enqueue, Program.bind_apply, freshId]
  simp only
  rw [Program.bind_apply, encode_eq]
  cases hbytes : Envelope.encode?
      { name, data, id := b.ids.draw.1, maxAttempts := max 1 maxAttempts, backoff,
        enqueuedAt := now } with
  | none => rfl
  | some entry =>
    simp only [Int.lt_irrefl, if_false]
    rw [Program.bind_apply, perform]
    rcases hnext : b.outage.next with ⟨_ | _, outage⟩
    · rw [command_of_next (by exact hnext)]
      exact ⟨entry, hbytes, rfl⟩
    · rw [command_of_refused (by exact hnext)]

structure IsBeat (session : String) (e : Envelope) : Prop where
  name : e.name = heartbeatName
  data : e.data = messageFields { sessionId := session, trigger := some .heartbeat }
  id : e.id ≠ ""
  attempts : e.attempts = 0
  maxAttempts : e.maxAttempts = 1

def Beating (session : String) (c : Contents) (outcome : Except Fault (Option Envelope))
    (c' : Contents) : Prop :=
  match outcome with
  | .ok (some e) => IsBeat session e ∧ ∃ entry, e.encode? = some entry ∧ c' = c.pushReady entry
  | _ => c' = c

theorem scheduleHeartbeat_beating (now : Int) (session : String) (b : Broker) :
    Ends (Beating session b.contents) (scheduleHeartbeat now session 0 b) := by
  have hcases := enqueue_cases now heartbeatName
    (messageFields { sessionId := session, trigger := some .heartbeat }) 1 0 0 b
  have hpushes := enqueue_pushes now heartbeatName
    (messageFields { sessionId := session, trigger := some .heartbeat }) 1 0 b
  rw [scheduleHeartbeat_eq]
  cases hrun : enqueue now heartbeatName
      (messageFields { sessionId := session, trigger := some .heartbeat }) 1 0 0 b with
  | ok e b' =>
    rw [hrun] at hcases hpushes
    refine ⟨?_, hpushes⟩
    rw [hcases.2.1]
    exact ⟨rfl, rfl, IdSupply.nameOf_ne_empty _, rfl, rfl⟩
  | error fault b' =>
    rw [hrun] at hpushes
    cases fault <;> exact hpushes

end SignalCoach.Queue

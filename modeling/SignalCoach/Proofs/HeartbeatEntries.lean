import SignalCoach.Proofs.JobMessage
import SignalCoach.Proofs.QueueReady
import SignalCoach.Worker.Delivery

/-! Heartbeat jobs in the queue: which entries are the jobs of a session's heartbeat, whoever reads
them. -/
namespace SignalCoach

namespace Envelope

theorem ofFields_withId {fields data : Fields} {name id : String} {entry : Entry} {e : Envelope}
    (h : ofFields fields name data id entry = .ok e) (id' : String) :
    ofFields fields name data id' entry = .ok { e with id := id' } ∧ e.name = name ∧
      e.data = data := by
  unfold ofFields at h ⊢
  obtain ⟨attempts, hattempts, h⟩ := Program.except_bind_eq_ok.1 h
  obtain ⟨maxAttempts, hmax, h⟩ := Program.except_bind_eq_ok.1 h
  obtain ⟨backoff, hbackoff, h⟩ := Program.except_bind_eq_ok.1 h
  obtain ⟨enqueuedAt, hat, h⟩ := Program.except_bind_eq_ok.1 h
  obtain rfl := Except.ok.inj h
  rw [hattempts, hmax, hbackoff, hat]
  exact ⟨rfl, rfl, rfl⟩

theorem decode_withId {entry : Entry} {ids₁ ids₁' : IdSupply} {e : Envelope}
    (h : decode entry ids₁ = (.ok e, ids₁')) (ids : IdSupply) :
    ∃ id ids', decode entry ids = (.ok { e with id }, ids') := by
  unfold decode at h ⊢
  split at h
  next => cases h
  next fields hread =>
    split at h
    next name data hname hdata =>
      obtain ⟨hfields, -, -⟩ := ofFields_withId (congrArg Prod.fst h) (idOf fields ids).1
      refine ⟨(idOf fields ids).1, (idOf fields ids).2, ?_⟩
      simp only [hfields]
    next => cases h
  next => cases h

theorem name_of_decode {e e' : Envelope} {entry : Entry} {ids ids' : IdSupply}
    (h : e.encode? = some entry) (hdecode : decode entry ids = (.ok e', ids')) : e'.name = e.name := by
  obtain ⟨-, hname, hdata, -⟩ := e.get?_members
  have hread := Json.readBytes?_of_write? h
  rw [reread_document] at hread
  simp only [decode, hread, hname, hdata] at hdecode
  exact (ofFields_withId (congrArg Prod.fst hdecode) "").2.1

def session? (e : Envelope) : Option String := (Worker.Turn.jobOf e).map (·.sessionId)

theorem session?_eq (e : Envelope) :
    e.session? = match Job.read (.obj e.data) with
      | .valid job => some job.sessionId
      | .invalid _ => none := by
  unfold session? Worker.Turn.jobOf
  cases Job.read (.obj e.data) <;> rfl

def isBeatOf (session : String) (e : Envelope) : Bool :=
  e.name = Queue.heartbeatName && e.session? = some session

theorem session?_of_isBeatOf {e : Envelope} {session : String} (h : e.isBeatOf session = true) :
    e.session? = some session := by
  rw [isBeatOf, Bool.and_eq_true, decide_eq_true_eq, decide_eq_true_eq] at h
  exact h.2

theorem isBeatOf_inj {e : Envelope} {s s' : String} (h : e.isBeatOf s = true)
    (h' : e.isBeatOf s' = true) : s = s' :=
  Option.some.inj ((session?_of_isBeatOf h).symm.trans (session?_of_isBeatOf h'))

theorem isBeatOf_withId (session id : String) (e : Envelope) :
    ({ e with id } : Envelope).isBeatOf session = e.isBeatOf session := by
  unfold isBeatOf
  rw [session?_eq, session?_eq]

end Envelope

namespace Queue

open Envelope (decode)

def beatsFor (session : String) (entry : Entry) : Bool :=
  match (decode entry {}).1 with
  | .ok e => e.isBeatOf session
  | .error _ => false

theorem beatsFor_of_decode {entry : Entry} {ids ids' : IdSupply} {e : Envelope}
    (h : decode entry ids = (.ok e, ids')) (session : String) :
    beatsFor session entry = e.isBeatOf session := by
  obtain ⟨id, ids'', hdecode⟩ := Envelope.decode_withId h {}
  unfold beatsFor
  rw [hdecode]
  exact e.isBeatOf_withId session id

theorem beatsFor_of_malformed {entry : Entry} {ids ids' : IdSupply} {m : Envelope.Malformed}
    (h : decode entry ids = (.error m, ids')) (session : String) : beatsFor session entry = false := by
  unfold beatsFor
  rcases hdecode : decode entry {} with ⟨m' | e, ids''⟩
  · rfl
  · obtain ⟨id, ids₂, hagain⟩ := Envelope.decode_withId hdecode ids
    rw [hagain] at h
    cases h

/-- An entry that is no heartbeat job, whoever reads it. -/
def Ordinary (entry : Entry) : Prop :=
  ∀ ids e ids', decode entry ids = (.ok e, ids') → e.name ≠ heartbeatName

theorem ordinary_of_encode? {e : Envelope} {entry : Entry} (h : e.encode? = some entry)
    (hname : e.name ≠ heartbeatName) : Ordinary entry := by
  intro ids e' ids' hdecode
  rwa [Envelope.name_of_decode h hdecode]

theorem Ordinary.beatsFor {entry : Entry} (h : Ordinary entry) (session : String) :
    beatsFor session entry = false := by
  unfold Queue.beatsFor
  rcases hdecode : decode entry {} with ⟨m | e, ids⟩
  · rfl
  · have hname := h _ e _ hdecode
    simp [Envelope.isBeatOf, hname]

def TriedOnce (e : Envelope) : Prop := e.name = heartbeatName → e.maxAttempts ≤ e.attempts + 1

def ReadsTriedOnce (entry : Entry) : Prop :=
  ∀ ids e ids', decode entry ids = (.ok e, ids') → TriedOnce e

theorem Ordinary.readsTriedOnce {entry : Entry} (h : Ordinary entry) : ReadsTriedOnce entry :=
  fun ids e ids' hdecode hname => absurd hname (h ids e ids' hdecode)

theorem TriedOnce.exhausted {e : Envelope} (h : TriedOnce e) (hname : e.name = heartbeatName)
    (error : String) : (e.failed error).exhausted = true := by
  exact decide_eq_true (h hname)

namespace IsBeat

variable {session : String} {e : Envelope} {entry : Entry}

theorem decode (h : IsBeat session e) (hentry : e.encode? = some entry) (ids : IdSupply) :
    decode entry ids = (.ok { e with stored := some entry, lastError := Json.reread e.lastError }, ids) := by
  rw [Envelope.decode_of_encode? hentry h.id, Envelope.reread, h.data, reread_messageFields]

theorem session? (h : IsBeat session e) : e.session? = some session := by
  rw [Envelope.session?_eq, h.data, messageFields_eq, Job.read_message]

theorem isBeatOf (h : IsBeat session e) (session' : String) :
    e.isBeatOf session' = decide (session' = session) := by
  simp [Envelope.isBeatOf, h.name, h.session?, eq_comm]

theorem beatsFor (h : IsBeat session e) (hentry : e.encode? = some entry) (session' : String) :
    beatsFor session' entry = decide (session' = session) := by
  rw [beatsFor_of_decode (h.decode hentry {}), ← h.isBeatOf session']
  unfold Envelope.isBeatOf
  rw [Envelope.session?_eq, Envelope.session?_eq]

theorem readsTriedOnce (h : IsBeat session e) (hentry : e.encode? = some entry) :
    ReadsTriedOnce entry := by
  intro ids e' ids' hdecode _
  obtain rfl := Except.ok.inj (Prod.mk.inj ((h.decode hentry ids).symm.trans hdecode)).1
  simp [h.attempts, h.maxAttempts]

end IsBeat

theorem Contents.Waits.countP_ready {promoted added : Entry → Prop} {c c' : Contents}
    (h : Waits promoted added c c') (hpromoted : ∀ entry, promoted entry → Ordinary entry)
    (session : String) :
    c'.ready.countP (beatsFor session) = c.ready.countP (beatsFor session) := by
  obtain ⟨more, hmore, hall⟩ := h.ready
  have hnone : more.countP (beatsFor session) = 0 := by
    rw [List.countP_eq_zero]
    intro entry hentry
    simp [(hpromoted entry (hall entry hentry)).beatsFor session]
  rw [hmore, List.countP_append, hnone, Nat.add_zero]

end Queue

end SignalCoach

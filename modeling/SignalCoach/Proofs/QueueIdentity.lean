import SignalCoach.Proofs.DrawnIds
import SignalCoach.Proofs.QueueJobs

/-! The identity of jobs in the queue: no id is given to two jobs, and an envelope that is watched
comes back with the data with which it was enqueued, however often it failed or was recovered. -/
namespace SignalCoach

namespace Envelope

/-- The envelope as it was enqueued: what no attempt changes. -/
def original (e : Envelope) : Envelope :=
  { e with attempts := 0, lastError := .null, stored := none }

structure Known (watched : Option Envelope) (ids : IdSupply) (e : Envelope) : Prop where
  drawn : ids.Drew e.id
  same : ∀ e₀ ∈ watched, e.id = e₀.id → e.original = e₀

variable {watched : Option Envelope} {ids ids' : IdSupply} {e : Envelope}

theorem Known.mono (h : e.Known watched ids) (hids : ids.next ≤ ids'.next) :
    e.Known watched ids' :=
  ⟨h.drawn.mono hids, h.same⟩

theorem Known.failed (h : e.Known watched ids) (error : String) : (e.failed error).Known watched ids :=
  ⟨h.drawn, h.same⟩

theorem Known.withStored (h : e.Known watched ids) (stored : Option Entry) :
    ({ e with stored } : Envelope).Known watched ids :=
  ⟨h.drawn, h.same⟩

def Watchable (ids : IdSupply) (e₀ : Envelope) : Prop :=
  ids.Drew e₀.id ∧ Json.rereadFields [] e₀.data = e₀.data

theorem Known.reread (h : e.Known watched ids) (hwatched : ∀ e₀ ∈ watched, e₀.Watchable ids)
    (entry : Entry) : (e.reread entry).Known watched ids := by
  refine ⟨h.drawn, fun e₀ he₀ hid => ?_⟩
  have hsame := h.same e₀ he₀ hid
  have hdata : e.data = e₀.data := by
    rw [← hsame]
    rfl
  have hreread : Json.rereadFields [] e.data = e.data := by rw [hdata, (hwatched e₀ he₀).2]
  rw [← hsame, Envelope.original, Envelope.original, Envelope.reread, hreread]

theorem known_of_draw (hwatched : ∀ e₀ ∈ watched, e₀.Watchable ids) (hid : e.id = ids.draw.1) :
    e.Known watched ids.draw.2 := by
  refine ⟨hid ▸ ids.drew_draw, fun e₀ he₀ hsame => ?_⟩
  have hdrew := (hwatched e₀ he₀).1
  rw [← hsame, hid] at hdrew
  exact absurd hdrew ids.not_drew_next

theorem Known.watch (h : e.Known none ids) {e₀ : Envelope} (hnew : ¬ ids.Drew e₀.id) :
    e.Known (some e₀) ids := by
  refine ⟨h.drawn, fun e₁ he₁ hid => ?_⟩
  obtain rfl := Option.some.inj he₁
  exact absurd (hid ▸ h.drawn) hnew

/-- An envelope is read with the id that is written, or with the next one. -/
theorem decode_cases {entry : Entry} (h : decode entry ids = (.ok e, ids')) :
    (∀ ids, decode entry ids = (.ok e, ids)) ∧ ids' = ids ∨
      e.id = ids.draw.1 ∧ ids' = ids.draw.2 := by
  unfold decode at h ⊢
  cases hread : Json.readBytes? .strict entry with
  | none => simp [hread] at h
  | some v =>
    cases v with
    | obj fields =>
      simp only [hread] at h ⊢
      split at h
      next name data hname hdata =>
        rcases idOf_cases fields with ⟨id, hid⟩ | hdraw
        · simp only [hid, Prod.mk.injEq] at h ⊢
          exact .inl ⟨fun ids => ⟨h.1, trivial⟩, h.2.symm⟩
        · simp only [hdraw, Prod.mk.injEq] at h
          exact .inr ⟨(ofFields_eq_ok h.1).1, h.2.symm⟩
      next => simp at h
    | _ => simp [hread] at h

end Envelope

namespace Queue

open SignalCoach.Queue.Action
open Envelope (Known Watchable)

structure Identifies (watched : Option Envelope) (b : Broker) : Prop where
  delayed : b.contents.DelayedOnce
  watchable : ∀ e₀ ∈ watched, e₀.Watchable b.ids
  entries : ∀ entry ∈ b.contents.entries, ∀ e, Envelope.decode entry {} = (.ok e, {}) →
    e.Known watched b.ids

namespace Identifies

variable {watched : Option Envelope} {b b' : Broker}

theorem mono (h : Identifies watched b) (hdelayed : b'.contents.DelayedOnce)
    (hentries : ∀ entry ∈ b'.contents.entries, entry ∈ b.contents.entries)
    (hids : b.ids.next ≤ b'.ids.next) : Identifies watched b' where
  delayed := hdelayed
  watchable e₀ he₀ := ⟨(h.watchable e₀ he₀).1.mono hids, (h.watchable e₀ he₀).2⟩
  entries entry hentry e he := (h.entries entry (hentries entry hentry) e he).mono hids

theorem of_keeps (h : Identifies watched b) {stranded : Option Entry} (hkeeps : Keeps b b' stranded) :
    Identifies watched b' :=
  h.mono hkeeps.once hkeeps.entries hkeeps.supply

theorem of_adds (h : Identifies watched b) {e : Envelope} {entry : Entry}
    (hknown : e.Known watched b'.ids) (hentry : e.encode? = some entry)
    (hadds : Adds entry b.contents b'.contents) (hids : b.ids.next ≤ b'.ids.next) :
    Identifies watched b' := by
  have hwatched : ∀ e₀ ∈ watched, e₀.Watchable b'.ids :=
    fun e₀ he₀ => ⟨(h.watchable e₀ he₀).1.mono hids, (h.watchable e₀ he₀).2⟩
  refine ⟨hadds.once h.delayed, hwatched, fun other hother e' he' => ?_⟩
  rcases (hadds.mem_entries other).1 hother with rfl | hother
  · have hdecode := Envelope.decode_of_encode? hentry hknown.drawn.ne_empty {}
    rw [hdecode] at he'
    obtain rfl := Except.ok.inj (congrArg Prod.fst he')
    exact hknown.reread hwatched other
  · exact (h.entries other hother e' he').mono hids

theorem known_of_decode (h : Identifies watched b) {entry : Entry} (hentry : entry ∈ b.contents.entries)
    {e : Envelope} {ids : IdSupply} (hdecode : Envelope.decode entry b.ids = (.ok e, ids)) :
    e.Known watched ids := by
  rcases Envelope.decode_cases hdecode with ⟨hall, rfl⟩ | ⟨hid, rfl⟩
  · exact h.entries entry hentry e (hall {})
  · exact Envelope.known_of_draw h.watchable hid

end Identifies

def Preserves (watched : Option Envelope) (given : List Envelope) (action : Action α)
    (known : α → List Envelope) : Prop :=
  ∀ b, Identifies watched b → (∀ e ∈ given, e.Known watched b.ids) →
    match action b with
    | .ok a b' => Identifies watched b' ∧ b.ids.next ≤ b'.ids.next ∧
        ∀ e ∈ known a, e.Known watched b'.ids
    | .error _ b' => Identifies watched b' ∧ b.ids.next ≤ b'.ids.next

def Reservation.envelopes : Reservation → List Envelope
  | .job e => [e]
  | _ => []

variable {watched : Option Envelope}

theorem preserves_of_moves {action : Action α}
    (h : ∀ b, b.contents.DelayedOnce → ∃ stranded, Moves b (after action b) stranded) :
    Preserves watched [] action fun _ => [] := by
  intro b hb _
  obtain ⟨stranded, hmoves⟩ := h b hb.delayed
  unfold after at hmoves
  split
  next a b' hrun =>
    rw [hrun] at hmoves
    exact ⟨hb.of_keeps hmoves.keeps, hmoves.keeps.supply, by simp⟩
  next fault b' hrun =>
    rw [hrun] at hmoves
    exact ⟨hb.of_keeps hmoves.keeps, hmoves.keeps.supply⟩

theorem promoteDue_preserves (now : Int) : Preserves watched [] (promoteDue now) fun _ => [] :=
  preserves_of_moves fun b hb => ⟨_, (promoteDue_moves now b hb).1.toMoves⟩

theorem recoverStalled_preserves : Preserves watched [] recoverStalled fun _ => [] :=
  preserves_of_moves fun b hb => ⟨_, (recoverStalled_moves b hb).1⟩

theorem preserves_of_reserves {action : Action Reservation}
    (h : ∀ b, b.contents.DelayedOnce → ∃ stranded, Reserves b stranded (action b)) :
    Preserves watched [] action Reservation.envelopes := by
  intro b hb _
  obtain ⟨stranded, hreserves⟩ := h b hb.delayed
  split
  next reservation b' hrun =>
    rw [hrun] at hreserves
    cases reservation with
    | nothing => exact ⟨hb.of_keeps hreserves.1, hreserves.1.supply, by simp [Reservation.envelopes]⟩
    | unreadable =>
      exact ⟨hb.of_keeps hreserves.1, hreserves.1.supply, by simp [Reservation.envelopes]⟩
    | job e =>
      obtain ⟨hkeeps, -, entry, hentry, hdecode, -⟩ := hreserves
      refine ⟨hb.of_keeps hkeeps, hkeeps.supply, ?_⟩
      simpa [Reservation.envelopes] using hb.known_of_decode hentry hdecode
  next fault b' hrun =>
    rw [hrun] at hreserves
    exact ⟨hb.of_keeps hreserves.1, hreserves.1.supply⟩

theorem reserve_preserves (now : Int) :
    Preserves watched [] (reserve now) Reservation.envelopes :=
  preserves_of_reserves fun b hb => ⟨_, reserve_cases now b hb⟩

theorem reserveAfterWait_preserves : Preserves watched [] reserveAfterWait Reservation.envelopes :=
  preserves_of_reserves fun b hb => ⟨_, reserveAfterWait_cases b hb⟩

theorem enqueue_preserves (now : Int) (name : String) (data : Fields)
    (maxAttempts backoff delay : Int) :
    Preserves watched [] (enqueue now name data maxAttempts backoff delay) fun e => [e] := by
  intro b hb _
  have hcases := enqueue_cases now name data maxAttempts backoff delay b
  split
  next e b' hrun =>
    rw [hrun] at hcases
    obtain ⟨hids, he, entry, hentry, hadds⟩ := hcases
    have hid : e.id = b.ids.draw.1 := congrArg Envelope.id he
    have hsupply : b.ids.next ≤ b'.ids.next := hids ▸ draw_next _
    have hknown : e.Known watched b'.ids := hids ▸ Envelope.known_of_draw hb.watchable hid
    exact ⟨hb.of_adds hknown hentry hadds hsupply, hsupply, by simpa using hknown⟩
  next fault b' hrun =>
    rw [hrun] at hcases
    have hsupply : b.ids.next ≤ b'.ids.next := hcases.1 ▸ draw_next _
    exact ⟨hb.mono (hcases.2 ▸ hb.delayed) (fun _ h => hcases.2 ▸ h) hsupply, hsupply⟩

theorem Identifies.watch {b b' : Broker} (h : Identifies none b) {now : Int} {name : String}
    {data : Fields} {maxAttempts backoff delay : Int} {e : Envelope}
    (hrun : enqueue now name data maxAttempts backoff delay b = .ok e b')
    (hdata : Json.rereadFields [] data = data) :
    Identifies (some e) b' ∧ b.ids.next ≤ b'.ids.next ∧ ¬ b.ids.Drew e.id := by
  have hcases := enqueue_cases now name data maxAttempts backoff delay b
  rw [hrun] at hcases
  obtain ⟨hids, he, entry, hentry, hadds⟩ := hcases
  have hid : e.id = b.ids.draw.1 := congrArg Envelope.id he
  have hsupply : b.ids.next ≤ b'.ids.next := hids ▸ draw_next _
  have hdrew : b'.ids.Drew e.id := by
    rw [hids, hid]
    exact b.ids.drew_draw
  have hnew : ¬ b.ids.Drew e.id := hid ▸ b.ids.not_drew_next
  -- The queue as it was already knows nothing else under the new id.
  have hbefore : Identifies (some e) { b with ids := b'.ids } := by
    refine ⟨h.delayed, fun e₀ he₀ => ?_, fun other hother e' he' => ?_⟩
    · obtain rfl := Option.some.inj he₀
      refine ⟨hdrew, ?_⟩
      rw [he]
      exact hdata
    · exact ((h.entries other hother e' he').watch hnew).mono hsupply
  refine ⟨hbefore.of_adds ⟨hdrew, fun e₀ he₀ _ => ?_⟩ hentry hadds (Nat.le_refl _), hsupply, hnew⟩
  obtain rfl := Option.some.inj he₀
  rw [he]
  rfl

theorem Identifies.of_settle {b b' : Broker} (hb : Identifies watched b) {before : Entry}
    (hids : b'.ids = b.ids) (hcontents : b'.contents = b.contents.settle before) :
    Identifies watched b' := by
  refine hb.mono (hcontents ▸ hb.delayed) (fun entry hentry => ?_) (Nat.le_of_eq (hids ▸ rfl))
  rw [hcontents] at hentry
  by_cases hbefore : before ∈ b.contents.processing
  · exact (Contents.entries_settle hbefore).mem_iff.1 (List.mem_cons_of_mem _ hentry)
  · rwa [Contents.settle_of_notMem hbefore] at hentry

theorem complete_preserves (e : Envelope) : Preserves watched [] (complete e) fun _ => [] := by
  intro b hb _
  have hcases := complete_cases e b
  split
  next a b' hrun =>
    rw [hrun] at hcases
    obtain ⟨hids, before, -, hcontents⟩ := hcases
    exact ⟨hb.of_settle hids hcontents, Nat.le_of_eq (hids ▸ rfl), by simp⟩
  next fault b' hrun =>
    rw [hrun] at hcases
    have hsupply : b.ids.next ≤ b'.ids.next := Nat.le_of_eq (hcases.1 ▸ rfl)
    exact ⟨hb.mono (hcases.2 ▸ hb.delayed) (fun _ h => hcases.2 ▸ h) hsupply, hsupply⟩

theorem fail_preserves (now : Int) (e : Envelope) (error : String) (retry : Bool) :
    Preserves watched [e] (fail now e error retry) fun answer => [answer.2] := by
  intro b hb hgiven
  have hknown := (hgiven e (by simp)).failed error
  have hcases := fail_cases now e error retry b
  split
  next answer b' hrun =>
    rw [hrun] at hcases
    obtain ⟨-, hids, before, entry, -, hentry, hanswer, hadds⟩ := hcases
    have hsettled : Identifies watched { b with contents := b.contents.settle before } :=
      hb.of_settle rfl rfl
    have hsupply : b.ids.next ≤ b'.ids.next := Nat.le_of_eq (hids ▸ rfl)
    refine ⟨hsettled.of_adds (hids ▸ hknown) hentry hadds hsupply, hsupply, ?_⟩
    simp only [List.mem_singleton, forall_eq, hanswer]
    exact hids ▸ hknown.withStored (some entry)
  next fault b' hrun =>
    rw [hrun] at hcases
    obtain ⟨hids, ⟨-, hcontents⟩ | ⟨before, -, -, -, hcontents⟩⟩ := hcases
    · have hsupply : b.ids.next ≤ b'.ids.next := Nat.le_of_eq (hids ▸ rfl)
      exact ⟨hb.mono (hcontents ▸ hb.delayed) (fun _ h => hcontents ▸ h) hsupply, hsupply⟩
    · exact ⟨hb.of_settle hids hcontents, Nat.le_of_eq (hids ▸ rfl)⟩

theorem scheduleHeartbeat_eq (now : Int) (sessionId : String) (delay : Int) (b : Broker) :
    scheduleHeartbeat now sessionId delay b =
      match enqueue now heartbeatName (messageFields { sessionId, trigger := some .heartbeat }) 1 0
        delay b with
      | .ok e b' => .ok (some e) b'
      | .error .unreachable b' => .ok none b'
      | .error fault b' => .error fault b' := by
  unfold scheduleHeartbeat
  change EStateM.tryCatch (EStateM.map some _) _ b = _
  unfold EStateM.tryCatch EStateM.map
  cases enqueue now heartbeatName (messageFields { sessionId, trigger := some .heartbeat }) 1 0
    delay b with
  | ok e b' => rfl
  | error fault b' => cases fault <;> rfl

theorem scheduleHeartbeat_eq_some {now : Int} {sessionId : String} {delay : Int} {b b' : Broker}
    {e : Envelope} (h : scheduleHeartbeat now sessionId delay b = .ok (some e) b') :
    enqueue now heartbeatName (messageFields { sessionId, trigger := some .heartbeat }) 1 0 delay b =
      .ok e b' := by
  rw [scheduleHeartbeat_eq] at h
  split at h
  next e' b'' hrun =>
    simp only [EStateM.Result.ok.injEq, Option.some.injEq] at h
    rw [hrun, h.1, h.2]
  next => simp at h
  next => simp at h

theorem scheduleHeartbeat_preserves (now : Int) (sessionId : String) (delay : Int) :
    Preserves watched [] (scheduleHeartbeat now sessionId delay) Option.toList := by
  intro b hb hgiven
  have henqueue := enqueue_preserves now heartbeatName
    (messageFields { sessionId, trigger := some .heartbeat }) 1 0 delay b hb hgiven
  rw [scheduleHeartbeat_eq]
  cases hrun : enqueue now heartbeatName (messageFields { sessionId, trigger := some .heartbeat }) 1
      0 delay b with
  | ok e b' =>
    rw [hrun] at henqueue
    simpa using henqueue
  | error fault b' =>
    rw [hrun] at henqueue
    cases fault
    case unreachable => exact ⟨henqueue.1, henqueue.2, by simp⟩
    all_goals exact henqueue

end Queue

end SignalCoach

import SignalCoach.Proofs.QueueJobs

/-! What the operations of the queue come to where no command is refused. -/
namespace SignalCoach

theorem Envelope.bytes?_of_decode {entry : Entry} {ids ids' : IdSupply} {e : Envelope}
    (hread : decode entry ids = (.ok e, ids')) : e.bytes? = some entry := by
  rw [bytes?, decode_eq_ok hread, Option.some_or]

namespace Queue

open SignalCoach.Queue.Action

/-- No command is going to be refused. -/
def Broker.Clear (b : Broker) : Prop := b.outage.count = 0

def Action.Succeeds (b : Broker) (action : Action α) (Q : α → Broker → Prop) : Prop :=
  ∃ a b', action b = .ok a b' ∧ b'.Clear ∧ Q a b'

namespace Action.Succeeds

variable {b : Broker}

theorem answer {a : α} {Q : α → Broker → Prop} (hclear : b.Clear) (h : Q a b) :
    Succeeds b (pure a) Q := ⟨a, b, rfl, hclear, h⟩

theorem bind {x : Action α} {f : α → Action β} {Q : α → Broker → Prop} {R : β → Broker → Prop}
    (hx : Succeeds b x Q) (hf : ∀ a b', b'.Clear → Q a b' → Succeeds b' (f a) R) :
    Succeeds b (x >>= f) R := by
  obtain ⟨a, b₁, hfirst, hclear, hQ⟩ := hx
  obtain ⟨a', b₂, hsecond, hR⟩ := hf a b₁ hclear hQ
  refine ⟨a', b₂, ?_, hR⟩
  rw [Program.bind_apply, hfirst]
  exact hsecond

theorem command {f : Contents → α × Contents} {Q : α → Broker → Prop} (hclear : b.Clear)
    (h : ∀ outage, Q (f b.contents).1 { b with contents := (f b.contents).2, outage }) :
    Succeeds b (command f) Q := by
  obtain ⟨outage, hnext, hcount⟩ := Outage.next_of_clear hclear
  exact ⟨_, _, command_of_next hnext, hcount, h outage⟩

end Action.Succeeds

namespace Contents

def putBack (now : Int) (e : Envelope) (entry : Entry) (retry : Bool) (c : Contents) : Contents :=
  if retry && !e.exhausted then c.delay (now + e.retryDelay) entry else c.pushFailed entry

end Contents

variable {b : Broker} {entry : Entry} {e : Envelope}

theorem undelay_missing {c : Contents} (h : entry ∉ c.delayed.map Prod.snd) :
    ¬ (c.undelay entry).1 = true := by
  intro hfound
  obtain ⟨other, hother, hsame⟩ := List.any_eq_true.1 hfound
  exact h (List.mem_map.2 ⟨other, hother, of_decide_eq_true hsame⟩)

theorem promote_succeeds {P : Contents → Prop} (due : List Entry) (hclear : b.Clear)
    (hP : P b.contents) (hstep : ∀ c, ∀ entry ∈ due, entry ∈ c.delayed.map Prod.snd → P c →
      P ((c.undelay entry).2.pushReady entry)) :
    Succeeds b (promote due) fun _ b' => b'.ids = b.ids ∧ P b'.contents := by
  induction due generalizing b with
  | nil => exact .answer hclear ⟨rfl, hP⟩
  | cons entry rest ih =>
    have ih {b : Broker} (hclear : b.Clear) (hP : P b.contents) := ih hclear hP
      fun c other hother => hstep c other (List.mem_cons_of_mem _ hother)
    refine .bind (Q := fun found b' => found = (b.contents.undelay entry).1 ∧
      b' = { b with contents := (b.contents.undelay entry).2, outage := b'.outage })
      (.command hclear fun _ => ⟨rfl, rfl⟩) fun found b₁ hclear₁ h₁ => ?_
    obtain ⟨rfl, h₁⟩ := h₁
    by_cases hmem : entry ∈ b.contents.delayed.map Prod.snd
    · rw [if_pos (undelay_found hmem)]
      refine .bind (Q := fun _ b' => b' = { b with
        contents := (b.contents.undelay entry).2.pushReady entry, outage := b'.outage })
        (.command hclear₁ fun _ => by rw [h₁]) fun _ b₂ hclear₂ h₂ => ?_
      have hP₂ : P b₂.contents := by
        rw [h₂]
        exact hstep _ entry List.mem_cons_self hmem hP
      refine .bind (ih hclear₂ hP₂) fun n b₃ hclear₃ h₃ => .answer hclear₃ ?_
      rw [h₂] at h₃
      exact h₃
    · have hsame : b₁ = { b with outage := b₁.outage } := by
        rw [h₁, Contents.undelay, Contents.without_of_notMem hmem]
      rw [if_neg (undelay_missing hmem)]
      rw [hsame] at hclear₁ ⊢
      exact ih hclear₁ hP

theorem promoteDue_succeeds {P : Contents → Prop} (now : Int) (hclear : b.Clear)
    (hP : P b.contents) (hstep : ∀ c, ∀ entry ∈ b.contents.due now,
      entry ∈ c.delayed.map Prod.snd → P c → P ((c.undelay entry).2.pushReady entry)) :
    Succeeds b (promoteDue now) fun _ b' => b'.ids = b.ids ∧ P b'.contents := by
  refine .bind (Q := fun due b' => due = b.contents.due now ∧ b' = { b with outage := b'.outage })
    (.command hclear fun _ => ⟨rfl, rfl⟩) fun due b₁ hclear₁ h₁ => ?_
  obtain ⟨rfl, h₁⟩ := h₁
  rw [h₁] at hclear₁ ⊢
  exact promote_succeeds (b := { b with outage := b₁.outage }) _ hclear₁ hP hstep

theorem take_succeeds {P : Contents → Prop} (now : Int) (hclear : b.Clear)
    (hP : P b.contents) (hstep : ∀ c, ∀ entry ∈ b.contents.due now,
      entry ∈ c.delayed.map Prod.snd → P c → P ((c.undelay entry).2.pushReady entry)) :
    Succeeds b (take now) fun found b' =>
      b'.ids = b.ids ∧ ∃ c, P c ∧ c.take = (found, b'.contents) := by
  refine .bind (promoteDue_succeeds now hclear hP hstep) fun _ b₁ hclear₁ h₁ => ?_
  exact .command hclear₁ fun _ => ⟨h₁.1, b₁.contents, h₁.2, rfl⟩

theorem decode_succeeds (hclear : b.Clear) (entry : Entry) :
    Succeeds b (Action.decode entry) fun outcome b' => b'.contents = b.contents ∧
      Envelope.decode entry b.ids = (outcome, b'.ids) :=
  ⟨_, _, rfl, hclear, rfl, rfl⟩

theorem enqueue_succeeds (now : Int) (name : String) (data : Fields)
    (maxAttempts backoff delay : Int) (hclear : b.Clear)
    (he : e = { name, data, id := b.ids.draw.1, maxAttempts := max 1 maxAttempts, backoff,
                enqueuedAt := now })
    (hentry : e.encode? = some entry)
    (hprintable : 0 < delay → Text.isPrintable (now + delay) = true) :
    Succeeds b (enqueue now name data maxAttempts backoff delay) fun e' _ => e' = e := by
  refine .bind (Q := fun id b' => id = b.ids.draw.1 ∧ b' = { b with ids := b.ids.draw.2 })
    ⟨_, _, rfl, hclear, rfl, rfl⟩ fun id b₁ hclear₁ h₁ => ?_
  obtain ⟨rfl, -⟩ := h₁
  refine .bind (Q := fun _ _ => True) ⟨entry, b₁, ?_, hclear₁, trivial⟩
    fun _ b₂ hclear₂ _ => ?_
  · rw [encode_eq, ← he, hentry]
  have hperform (f : Contents → Contents) : Succeeds b₂ (perform f) fun _ _ => True :=
    .command hclear₂ fun _ => trivial
  split
  next hdelay =>
    rw [delay_of_printable _ (hprintable hdelay)]
    exact .bind (hperform _) fun _ _ hclear₃ _ => .answer hclear₃ he.symm
  next => exact .bind (hperform _) fun _ _ hclear₃ _ => .answer hclear₃ he.symm

theorem reserve_succeeds (now : Int) (hclear : b.Clear) {rest : List Entry} {ids : IdSupply}
    (hready : b.contents.ready = entry :: rest)
    (hread : Envelope.decode entry b.ids = (.ok e, ids)) :
    Succeeds b (reserve now) fun reservation b' => reservation = .job e ∧
      b'.contents.processing = b.contents.processing ++ [entry] := by
  refine .bind (take_succeeds (P := fun c => (∃ more, c.ready = b.contents.ready ++ more) ∧
    c.processing = b.contents.processing) now hclear ⟨⟨[], by simp⟩, rfl⟩ ?_)
    fun found b₁ hclear₁ h₁ => ?_
  · rintro c other - - ⟨⟨more, hmore⟩, hprocessing⟩
    exact ⟨⟨more ++ [other], by simp [Contents.pushReady, Contents.undelay, hmore]⟩, hprocessing⟩
  obtain ⟨hids, c, ⟨⟨more, hmore⟩, hprocessing⟩, htake⟩ := h₁
  unfold Contents.take at htake
  rw [hmore, hready] at htake
  obtain ⟨rfl, hcontents⟩ := Prod.mk.inj htake
  refine .bind (decode_succeeds hclear₁ entry) fun outcome b₂ hclear₂ h₂ => ?_
  obtain ⟨hsame, houtcome⟩ := h₂
  rw [hids, hread] at houtcome
  obtain ⟨rfl, -⟩ := Prod.mk.inj houtcome
  refine .answer hclear₂ ⟨rfl, ?_⟩
  rw [hsame, ← hcontents, hprocessing]

theorem reschedule_succeeds (now : Int) (retry : Bool) (hclear : b.Clear)
    (htimely : untimely now e retry = false) :
    Succeeds b (reschedule now e entry retry) fun delayed b' =>
      delayed = (retry && !e.exhausted) ∧ b'.ids = b.ids ∧
        b'.contents = b.contents.putBack now e entry retry := by
  have hperform (f : Contents → Contents) (delayed : Bool) :
      Succeeds b (perform f >>= fun _ => pure delayed) fun answer b' =>
        answer = delayed ∧ b'.ids = b.ids ∧ b'.contents = f b.contents :=
    .bind (Q := fun _ b' => b'.ids = b.ids ∧ b'.contents = f b.contents)
      (.command hclear fun _ => ⟨rfl, rfl⟩) fun _ _ hclear' h => .answer hclear' ⟨rfl, h⟩
  unfold untimely at htimely
  unfold reschedule Contents.putBack
  cases hretry : retry && !e.exhausted with
  | true =>
    rw [hretry, Bool.true_and, Bool.not_eq_false'] at htimely
    rw [if_pos rfl, if_pos rfl, delay_of_printable entry htimely]
    exact hperform _ true
  | false => exact hperform _ false

theorem fail_succeeds (now : Int) {error : String} (retry : Bool) {before : Entry}
    (hclear : b.Clear) (hbytes : e.bytes? = some before)
    (hentry : (e.failed error).encode? = some entry)
    (htimely : untimely now (e.failed error) retry = false) :
    Succeeds b (fail now e error retry) fun answer b' =>
      answer = (retry && !(e.failed error).exhausted,
        { e.failed error with stored := some entry }) ∧ b'.ids = b.ids ∧
        b'.contents = (b.contents.settle before).putBack now (e.failed error) entry retry := by
  refine .bind (Q := fun held b' => held = before ∧ b' = b) ⟨before, b, ?_, hclear, rfl, rfl⟩
    fun held b₁ hclear₁ h₁ => ?_
  · rw [held_eq, hbytes]
  obtain ⟨rfl, rfl⟩ := h₁
  refine .bind (Q := fun written b' => written = entry ∧ b' = b₁) ⟨entry, b₁, ?_, hclear, rfl, rfl⟩
    fun written b₂ hclear₂ h₂ => ?_
  · rw [encode_eq, hentry]
  obtain ⟨rfl, rfl⟩ := h₂
  refine .bind (Q := fun _ b' => b'.ids = b₂.ids ∧ b'.contents = b₂.contents.settle held)
    (.command hclear₂ fun _ => ⟨rfl, rfl⟩) fun _ b₃ hclear₃ h₃ => ?_
  refine .bind (reschedule_succeeds now retry hclear₃ htimely) fun delayed b₄ hclear₄ h₄ => ?_
  obtain ⟨rfl, hids, hcontents⟩ := h₄
  exact .answer hclear₄ ⟨rfl, hids.trans h₃.1, by rw [hcontents, h₃.2]⟩

end Queue

end SignalCoach

import Mathlib.Data.Fintype.EquivFin
import SignalCoach.Proofs.QueueCustody
import SignalCoach.Proofs.QueueReady
import SignalCoach.Proofs.StalledJobs

/-! Workers that share a queue. A worker that starts recovers everything in processing, whoever holds
it: a job is held by one live worker at most exactly if no worker starts while another one holds a
job in processing. -/
namespace SignalCoach.Queue

open SignalCoach.Queue.Action
open Envelope (writtenId?)

namespace Contents

variable {c c' : Contents} {e : Envelope} {entry other : Entry} {id : String}

theorem entries_settle_sublist (entry : Entry) (c : Contents) :
    (c.settle entry).entries.Sublist c.entries :=
  (List.Sublist.refl c.ready).append (List.erase_sublist.append (List.Sublist.refl _))

theorem mem_entries_of_processing (h : entry ∈ c.processing) : entry ∈ c.entries := by
  simp [entries, h]

theorem mem_entries_of_ready (h : entry ∈ c.ready) : entry ∈ c.entries := by
  simp [entries, h]

theorem mem_ids (h : entry ∈ c.entries) (hid : writtenId? entry = some id) : id ∈ c.ids :=
  List.mem_filterMap.2 ⟨entry, h, hid⟩

theorem processing_ids_sublist (c : Contents) :
    (c.processing.filterMap writtenId?).Sublist c.ids := by
  refine List.Sublist.filterMap _ ?_
  exact (List.sublist_append_left _ _).trans (List.sublist_append_right _ _)

theorem eq_of_ids_nodup (hids : c.ids.Nodup) (hentry : entry ∈ c.entries)
    (hother : other ∈ c.entries) (hid : writtenId? entry = some id)
    (hsame : writtenId? other = some id) : other = entry := by
  by_contra hne
  have hperm := (List.perm_cons_erase hentry).filterMap writtenId?
  rw [List.filterMap_cons, hid] at hperm
  refine (List.nodup_cons.1 (hperm.nodup_iff.1 hids)).1 ?_
  exact List.mem_filterMap.2 ⟨other, (List.mem_erase_of_ne hne).2 hother, hsame⟩

/-- The bytes of an envelope are the only ones of its job, if the job is in the queue at all, and they
are in processing. -/
def Guards (c : Contents) (e : Envelope) : Prop :=
  ∃ entry, e.stored = some entry ∧ writtenId? entry = some e.id ∧
    ∀ other ∈ c.entries, writtenId? other = some e.id → other = entry ∧ other ∈ c.processing

theorem Guards.of_bytes? (h : c.Guards e) (hbytes : e.bytes? = some entry) :
    e.stored = some entry ∧ writtenId? entry = some e.id := by
  obtain ⟨stored, hstored, hid, -⟩ := h
  rw [Envelope.bytes?, hstored, Option.some_or] at hbytes
  obtain rfl := Option.some.inj hbytes
  exact ⟨hstored, hid⟩

theorem guards_of_not_mem_ids (hstored : e.stored = some entry)
    (hid : writtenId? entry = some e.id) (hgone : e.id ∉ c.ids) : c.Guards e :=
  ⟨entry, hstored, hid, fun _ hother hsame => absurd (mem_ids hother hsame) hgone⟩

theorem Guards.mono (h : c.Guards e)
    (hentries : ∀ other ∈ c'.entries, writtenId? other = some e.id → other ∈ c.entries)
    (hprocessing : ∀ other ∈ c.processing, writtenId? other = some e.id → other ∈ c'.processing) :
    c'.Guards e := by
  obtain ⟨entry, hstored, hid, honly⟩ := h
  refine ⟨entry, hstored, hid, fun other hother hsame => ?_⟩
  obtain ⟨heq, hmem⟩ := honly other (hentries other hother hsame) hsame
  exact ⟨heq, hprocessing other hmem hsame⟩

theorem Guards.not_mem_ids (h : c.Guards e) (hids : c.ids.Nodup) (hstored : e.stored = some entry) :
    e.id ∉ (c.settle entry).ids := by
  obtain ⟨stored, hsame, hid, honly⟩ := h
  obtain rfl := Option.some.inj (hsame.symm.trans hstored)
  intro hmem
  obtain ⟨other, hother, hother'⟩ := List.mem_filterMap.1 hmem
  obtain ⟨rfl, hprocessing⟩ :=
    honly other ((entries_settle_sublist stored c).subset hother) hother'
  have hperm := ids_cons (entries_settle hprocessing)
  rw [hid] at hperm
  exact (List.nodup_cons.1 (hperm.nodup_iff.2 hids)).1 hmem

theorem Guards.settle (h : c.Guards e) (hother : writtenId? entry ≠ some e.id) :
    (c.settle entry).Guards e := by
  refine h.mono (fun other hmem _ => (entries_settle_sublist entry c).subset hmem)
    fun other hmem hid => ?_
  have hne : other ≠ entry := fun hsame => hother (hsame ▸ hid)
  exact (List.mem_erase_of_ne hne).2 hmem

theorem Guards.adds (h : c.Guards e) (hadds : Adds entry c c')
    (hother : writtenId? entry ≠ some e.id) : c'.Guards e := by
  refine h.mono (fun other hmem hid => ?_) fun other hmem _ => hadds.processing ▸ hmem
  rcases (hadds.mem_entries other).1 hmem with rfl | hmem
  · exact absurd hid hother
  · exact hmem

end Contents

/-- Workers that share a queue, between two operations. -/
structure OperationState where
  broker : Broker := {}
  /-- The workers that run. -/
  live : List Nat := []
  /-- The jobs that a live worker reserved and did not settle. -/
  held : List (Nat × Envelope) := []

namespace OperationState

abbrev contents (state : OperationState) : Contents := state.broker.contents

inductive Operation where
  | enqueue (now : Int) (name : String) (data : Fields) (maxAttempts backoff delay : Int)
  /-- A worker recovers what is in processing, and runs if that succeeds. -/
  | start (worker : Nat)
  | reserve (worker : Nat) (now : Int)
  | reserveAfterWait (worker : Nat)
  | complete (worker : Nat) (e : Envelope)
  | fail (worker : Nat) (now : Int) (e : Envelope) (error : String) (retry : Bool)

inductive Step where
  /-- An operation, and the refusals it meets. -/
  | operate (outage : Outage) (operation : Operation)
  /-- A worker ends or is killed, whatever it holds. -/
  | stop (worker : Nat)

def act (state : OperationState) (outage : Outage) (action : Action α) (done : OperationState → α → OperationState)
    (refused : OperationState → OperationState) : OperationState :=
  Program.outcome action { state.broker with outage } (fun a broker => done { state with broker } a)
    fun broker => refused { state with broker }

def noteReserved (worker : Nat) (state : OperationState) : Reservation → OperationState
  | .job e => { state with held := (worker, e) :: state.held }
  | _ => state

def letGo (worker : Nat) (id : String) (state : OperationState) : OperationState :=
  { state with held := state.held.filter fun h => ¬ (h.1 = worker ∧ h.2.id = id) }

def noteUnrecorded (worker : Nat) (e : Envelope) (error : String) (state : OperationState) : OperationState :=
  { state with held := (worker, e.failed error) :: (state.letGo worker e.id).held }

def operate (state : OperationState) (outage : Outage) : Operation → OperationState
  | .enqueue now name data maxAttempts backoff delay =>
    state.act outage (enqueue now name data maxAttempts backoff delay) (fun state _ => state) id
  | .start worker =>
    state.act outage recoverStalled (fun state _ => { state with live := worker :: state.live }) id
  | .reserve worker now => state.act outage (reserve now) (noteReserved worker) id
  | .reserveAfterWait worker => state.act outage reserveAfterWait (noteReserved worker) id
  | .complete worker e => state.act outage (complete e) (fun state _ => state.letGo worker e.id) id
  | .fail worker now e error retry =>
    state.act outage (fail now e error retry) (fun state _ => state.letGo worker e.id)
      (noteUnrecorded worker e error)

def step (state : OperationState) : Step → OperationState
  | .operate outage operation => state.operate outage operation
  | .stop worker =>
    { state with live := state.live.filter (· ≠ worker)
                 held := state.held.filter (·.1 ≠ worker) }

def run (state : OperationState) (steps : List Step) : OperationState := steps.foldl step state

def Allowed (policy : OperationState → Prop) (state : OperationState) : Step → Prop
  | .operate _ operation =>
    match operation with
    | .start worker => worker ∉ state.live ∧ policy state
    | .reserve worker _ | .reserveAfterWait worker => worker ∈ state.live
    | .complete worker e | .fail worker _ e _ _ => (worker, e) ∈ state.held
    | .enqueue .. => True
  | .stop _ => True

abbrev Follows (policy : OperationState → Prop) (state : OperationState) (steps : List Step) : Prop :=
  SignalCoach.Follows step (Allowed policy) state steps

/-- No job is held by two live workers. -/
def HeldOnce (state : OperationState) : Prop :=
  ∀ h ∈ state.held, ∀ other ∈ state.held, h.2.id = other.2.id → h.1 = other.1

theorem heldOnce_iff_pairs {state : OperationState} : state.HeldOnce ↔
    ∀ h ∈ state.held.map (fun h => (h.1, h.2.id)),
      ∀ other ∈ state.held.map (fun h => (h.1, h.2.id)), h.2 = other.2 → h.1 = other.1 := by
  simp only [HeldOnce, List.forall_mem_map]

/-- No live worker holds a job that is in processing. -/
def Idle (state : OperationState) : Prop :=
  ∀ h ∈ state.held, ∀ entry ∈ state.contents.processing, writtenId? entry ≠ some h.2.id

structure Readable (state : OperationState) : Prop where
  delayed : state.contents.DelayedOnce
  drawn : ∀ entry ∈ state.contents.entries, ∃ id, writtenId? entry = some id ∧ state.broker.ids.Drew id
  held : ∀ h ∈ state.held, h.1 ∈ state.live ∧ state.broker.ids.Drew h.2.id

namespace Readable

variable {state : OperationState} {outage : Outage}

theorem named (h : state.Readable) : Named state.broker := fun entry hentry =>
  (h.drawn entry hentry).imp fun _ => And.left

theorem drawn_of_written (h : state.Readable) {entry : Entry} {id : String}
    (hentry : entry ∈ state.contents.entries) (hid : writtenId? entry = some id) :
    state.broker.ids.Drew id := by
  obtain ⟨id', hid', hdrew⟩ := h.drawn entry hentry
  rw [hid] at hid'
  rwa [Option.some.inj hid']

theorem of_broker (h : state.Readable) {b : Broker} (honce : b.contents.DelayedOnce)
    (hentries : ∀ entry ∈ b.contents.entries, entry ∈ state.contents.entries)
    (hsupply : state.broker.ids.next ≤ b.ids.next) : ({ state with broker := b } : OperationState).Readable where
  delayed := honce
  drawn entry hentry := by
    obtain ⟨id, hid, hdrew⟩ := h.drawn entry (hentries entry hentry)
    exact ⟨id, hid, hdrew.mono hsupply⟩
  held other hother := ⟨(h.held other hother).1, (h.held other hother).2.mono hsupply⟩

theorem of_keeps (h : state.Readable) {b : Broker} {stranded : Option Entry}
    (hkeeps : Keeps { state.broker with outage } b stranded) : ({ state with broker := b } : OperationState).Readable :=
  h.of_broker hkeeps.once hkeeps.entries hkeeps.supply

theorem of_same (h : state.Readable) {b : Broker} (hcontents : b.contents = state.contents)
    (hsupply : state.broker.ids.next ≤ b.ids.next) : ({ state with broker := b } : OperationState).Readable :=
  h.of_broker (by rw [hcontents]; exact h.delayed) (fun _ hentry => hcontents ▸ hentry) hsupply

theorem settle (h : state.Readable) {b : Broker} {entry : Entry} (hids : b.ids = state.broker.ids)
    (hcontents : b.contents = state.contents.settle entry) :
    ({ state with broker := b } : OperationState).Readable := by
  refine h.of_broker (by rw [hcontents]; exact h.delayed) (fun other hother => ?_) (by rw [hids])
  rw [hcontents] at hother
  exact (Contents.entries_settle_sublist entry _).subset hother

theorem adds (h : state.Readable) {b : Broker} {entry : Entry} {id : String}
    (hadds : Adds entry state.contents b.contents) (hid : writtenId? entry = some id)
    (hdrew : b.ids.Drew id) (hsupply : state.broker.ids.next ≤ b.ids.next) :
    ({ state with broker := b } : OperationState).Readable where
  delayed := hadds.once h.delayed
  drawn other hother := by
    rcases (hadds.mem_entries other).1 hother with rfl | hold
    · exact ⟨id, hid, hdrew⟩
    · obtain ⟨id', hid', hdrew'⟩ := h.drawn other hold
      exact ⟨id', hid', hdrew'.mono hsupply⟩
  held other hother := ⟨(h.held other hother).1, (h.held other hother).2.mono hsupply⟩

theorem hold (h : state.Readable) {worker : Nat} {e : Envelope} (hlive : worker ∈ state.live)
    (hdrew : state.broker.ids.Drew e.id) :
    ({ state with held := (worker, e) :: state.held } : OperationState).Readable where
  delayed := h.delayed
  drawn := h.drawn
  held := List.forall_mem_cons.2 ⟨⟨hlive, hdrew⟩, h.held⟩

theorem letGo (h : state.Readable) (worker : Nat) (id : String) :
    (state.letGo worker id).Readable where
  delayed := h.delayed
  drawn := h.drawn
  held other hother := h.held other (List.mem_filter.1 hother).1

theorem noteReserved (h : state.Readable) {worker : Nat} (hlive : worker ∈ state.live)
    {stranded : Option Entry} {b : Broker} {reservation : Reservation}
    (hreserves : Reserves { state.broker with outage } stranded (.ok reservation b)) :
    (OperationState.noteReserved worker { state with broker := b } reservation).Readable := by
  cases reservation with
  | nothing => exact h.of_keeps hreserves.1
  | unreadable => exact h.of_keeps hreserves.1
  | job e =>
    obtain ⟨hkeeps, -, entry, hentry, hdecode, -⟩ := hreserves
    obtain ⟨id, hid, hdrew⟩ := h.drawn entry hentry
    have hsame : e.id = id := Envelope.id_of_decode hdecode hid
    exact (h.of_keeps hkeeps).hold hlive (hsame ▸ hdrew.mono hkeeps.supply)

theorem act_noteReserved (h : state.Readable) {worker : Nat} (hlive : worker ∈ state.live)
    {stranded : Option Entry} {action : Action Reservation}
    (hreserves : Reserves { state.broker with outage } stranded (action { state.broker with outage })) :
    (state.act outage action (OperationState.noteReserved worker) id).Readable := by
  refine Program.outcome_cases (P := Readable) (fun reservation b hrun => ?_) (fun fault b hrun => ?_)
  · exact h.noteReserved hlive (hrun ▸ hreserves)
  · rw [hrun] at hreserves
    exact h.of_keeps hreserves.1

theorem fail (h : state.Readable) {worker : Nat} {e : Envelope} (hheld : (worker, e) ∈ state.held)
    (now : Int) (error : String) (retry : Bool) :
    (state.operate outage (.fail worker now e error retry)).Readable := by
  obtain ⟨hlive, hdrew⟩ := h.held _ hheld
  have hcases := fail_cases now e error retry { state.broker with outage }
  rw [OperationState.operate]
  refine Program.outcome_cases (P := Readable) (fun answer b hrun => ?_) (fun fault b hrun => ?_)
  · rw [hrun] at hcases
    obtain ⟨-, hids, before, entry, -, hentry, -, hadds⟩ := hcases
    have hne : (e.failed error).id ≠ "" := hdrew.ne_empty
    have hwritten := Envelope.writtenId?_of_encode? hentry hne
    have hsettled := h.settle (b := { state.broker with contents := state.contents.settle before })
      rfl rfl
    have hdrew' : b.ids.Drew e.id := by rwa [hids]
    exact (hsettled.adds hadds hwritten hdrew' (by rw [hids])).letGo worker e.id
  · rw [hrun] at hcases
    obtain ⟨hids, hcontents⟩ := hcases
    have hdrew' : b.ids.Drew (e.failed error).id := by rwa [hids]
    have hbroker : ({ state with broker := b } : OperationState).Readable := by
      rcases hcontents with ⟨-, hsame⟩ | ⟨before, -, -, -, hsettled⟩
      · exact h.of_same hsame (by rw [hids])
      · exact h.settle hids hsettled
    exact (hbroker.letGo worker e.id).hold hlive hdrew'

theorem operate (h : state.Readable) {policy : OperationState → Prop} {operation : Operation}
    (hallowed : state.Allowed policy (.operate outage operation)) :
    (state.operate outage operation).Readable := by
  cases operation with
  | enqueue now name data maxAttempts backoff delay =>
    have hcases := enqueue_cases now name data maxAttempts backoff delay { state.broker with outage }
    rw [OperationState.operate]
    refine Program.outcome_cases (P := Readable) (fun e b hrun => ?_) (fun fault b hrun => ?_)
    · rw [hrun] at hcases
      obtain ⟨hids, he, entry, hentry, hadds⟩ := hcases
      have hdrew : b.ids.Drew e.id := by
        rw [hids, he]
        exact state.broker.ids.drew_draw
      exact h.adds hadds (Envelope.writtenId?_of_encode? hentry hdrew.ne_empty) hdrew
        (hids ▸ draw_next _)
    · rw [hrun] at hcases
      exact h.of_same hcases.2 (hcases.1 ▸ draw_next _)
  | start worker =>
    obtain ⟨hmoves, -⟩ := recoverStalled_moves { state.broker with outage } h.delayed
    rw [OperationState.operate]
    refine Program.outcome_cases (P := Readable) (fun n b hrun => ?_) (fun fault b hrun => ?_)
    · rw [after_of_ok hrun] at hmoves
      have hmoved := h.of_keeps hmoves.keeps
      exact ⟨hmoved.delayed, hmoved.drawn, fun other hother =>
        (hmoved.held other hother).imp_left (List.mem_cons_of_mem worker)⟩
    · rw [after_of_error hrun] at hmoves
      exact h.of_keeps hmoves.keeps
  | reserve worker now => exact h.act_noteReserved hallowed (reserve_cases now _ h.delayed)
  | reserveAfterWait worker => exact h.act_noteReserved hallowed (reserveAfterWait_cases _ h.delayed)
  | complete worker e =>
    have hcases := complete_cases e { state.broker with outage }
    rw [OperationState.operate]
    refine Program.outcome_cases (P := Readable) (fun _ b hrun => ?_) (fun fault b hrun => ?_)
    · rw [hrun] at hcases
      obtain ⟨hids, entry, -, hcontents⟩ := hcases
      exact (h.settle hids hcontents).letGo worker e.id
    · rw [hrun] at hcases
      exact h.of_same hcases.2 (by rw [hcases.1])
  | fail worker now e error retry => exact h.fail hallowed now error retry

theorem step (h : state.Readable) {policy : OperationState → Prop} {step : Step}
    (hallowed : state.Allowed policy step) : (state.step step).Readable := by
  cases step with
  | operate outage operation => exact h.operate hallowed
  | stop worker =>
    refine ⟨h.delayed, h.drawn, fun other hother => ?_⟩
    obtain ⟨hold, hne⟩ := List.mem_filter.1 hother
    exact ⟨List.mem_filter.2 ⟨(h.held other hold).1, hne⟩, (h.held other hold).2⟩

end Readable

structure Exclusive (state : OperationState) : Prop where
  readable : state.Readable
  once : state.contents.ids.Nodup
  single : (state.held.map (·.2.id)).Nodup
  guards : ∀ h ∈ state.held, state.contents.Guards h.2

namespace Exclusive

variable {state : OperationState} {outage : Outage}

theorem heldOnce (h : state.Exclusive) : state.HeldOnce := fun _ hfirst _ hother hsame =>
  congrArg Prod.fst (List.inj_on_of_nodup_map h.single hfirst hother hsame)

theorem of_keeps (h : state.Exclusive) {b : Broker} {stranded : Option Entry}
    (hkeeps : Keeps { state.broker with outage } b stranded)
    (hprocessing : b.contents.processing = state.contents.processing) :
    ({ state with broker := b } : OperationState).Exclusive where
  readable := h.readable.of_keeps hkeeps
  once := (List.nodup_append.1 (hkeeps.ids.nodup_iff.2 h.once)).1
  single := h.single
  guards held hheld := (h.guards held hheld).mono
    (fun other hother _ => hkeeps.entries other hother) fun _ hother _ => hprocessing ▸ hother

theorem of_same (h : state.Exclusive) {b : Broker} (hcontents : b.contents = state.contents)
    (hsupply : state.broker.ids.next ≤ b.ids.next) : ({ state with broker := b } : OperationState).Exclusive where
  readable := h.readable.of_same hcontents hsupply
  once := by
    rw [OperationState.contents, hcontents]
    exact h.once
  single := h.single
  guards held hheld := by
    rw [OperationState.contents, hcontents]
    exact h.guards held hheld

theorem recovered (h : state.Exclusive) (hidle : state.Idle) {b : Broker}
    (hkeeps : Keeps { state.broker with outage } b none) : ({ state with broker := b } : OperationState).Exclusive where
  readable := h.readable.of_keeps hkeeps
  once := (List.nodup_append.1 (hkeeps.ids.nodup_iff.2 h.once)).1
  single := h.single
  guards held hheld := by
    obtain ⟨entry, hstored, hid, honly⟩ := h.guards held hheld
    refine ⟨entry, hstored, hid, fun other hother hsame => ?_⟩
    have hmem := (honly other (hkeeps.entries other hother) hsame).2
    exact absurd hsame (hidle held hheld other hmem)

theorem letGo (h : state.Exclusive) (worker : Nat) (id : String) :
    (state.letGo worker id).Exclusive where
  readable := h.readable.letGo worker id
  once := h.once
  single := h.single.sublist (List.filter_sublist.map _)
  guards other hother := h.guards other (List.mem_filter.1 hother).1

theorem hold (h : state.Exclusive) {worker : Nat} {e : Envelope} (hlive : worker ∈ state.live)
    (hdrew : state.broker.ids.Drew e.id) (hnew : e.id ∉ state.held.map (·.2.id))
    (hguards : state.contents.Guards e) :
    ({ state with held := (worker, e) :: state.held } : OperationState).Exclusive where
  readable := h.readable.hold hlive hdrew
  once := h.once
  single := List.nodup_cons.2 ⟨hnew, h.single⟩
  guards := List.forall_mem_cons.2 ⟨hguards, h.guards⟩

theorem reserved (h : state.Exclusive) {worker : Nat} (hlive : worker ∈ state.live) {b : Broker}
    {stranded : Option Entry} {e : Envelope}
    (hreserves : Reserves { state.broker with outage } stranded (.ok (.job e) b)) :
    ({ state with broker := b, held := (worker, e) :: state.held } : OperationState).Exclusive := by
  obtain ⟨hkeeps, -, entry, hentry, hdecode, hprocessing⟩ := hreserves
  obtain ⟨id, hwritten, hdrew⟩ := h.readable.drawn entry hentry
  obtain rfl : e.id = id := Envelope.id_of_decode hdecode hwritten
  have honce : b.contents.ids.Nodup := (List.nodup_append.1 (hkeeps.ids.nodup_iff.2 h.once)).1
  have hmem : entry ∈ b.contents.processing := by simp [hprocessing]
  -- A holder would have the entry in processing, where it would stand twice.
  have hnew : e.id ∉ state.held.map (·.2.id) := by
    intro hheld
    obtain ⟨other, hother, hid⟩ := List.mem_map.1 hheld
    obtain ⟨stored, -, -, honly⟩ := h.guards other hother
    have hearlier : entry ∈ state.contents.processing :=
      (honly entry hentry (by rw [hwritten, hid])).2
    have hids := honce.sublist (Contents.processing_ids_sublist b.contents)
    rw [hprocessing, List.filterMap_append, List.nodup_append] at hids
    have hfirst : e.id ∈ state.contents.processing.filterMap writtenId? :=
      List.mem_filterMap.2 ⟨entry, hearlier, hwritten⟩
    exact hids.2.2 e.id hfirst e.id (by simp [hwritten]) rfl
  have hmoved : ({ state with broker := b } : OperationState).Exclusive := by
    refine ⟨h.readable.of_keeps hkeeps, honce, h.single, fun other hother => ?_⟩
    refine (h.guards other hother).mono (fun x hx _ => hkeeps.entries x hx) fun x hx _ => ?_
    change x ∈ b.contents.processing
    rw [hprocessing]
    exact List.mem_append_left _ hx
  refine hmoved.hold hlive (hdrew.mono hkeeps.supply) hnew
    ⟨entry, Envelope.decode_eq_ok hdecode, hwritten, fun other hother hsame => ?_⟩
  obtain rfl := Contents.eq_of_ids_nodup honce (Contents.mem_entries_of_processing hmem) hother
    hwritten hsame
  exact ⟨rfl, hmem⟩

theorem act_noteReserved (h : state.Exclusive) {worker : Nat} (hlive : worker ∈ state.live)
    {stranded : Option Entry} {action : Action Reservation}
    (hreserves : Reserves { state.broker with outage } stranded (action { state.broker with outage })) :
    (state.act outage action (noteReserved worker) id).Exclusive := by
  refine Program.outcome_cases (P := Exclusive) (fun reservation b hrun => ?_) (fun fault b hrun => ?_)
  · rw [hrun] at hreserves
    cases reservation with
    | nothing => exact h.of_keeps hreserves.1 hreserves.2.2
    | unreadable => exact absurd h.readable.named hreserves.2.2
    | job e => exact h.reserved hlive hreserves
  · rw [hrun] at hreserves
    exact h.of_keeps hreserves.1 (hreserves.2 h.readable.named)

theorem mem_letGo (h : state.Exclusive) {worker : Nat} {e : Envelope}
    (hheld : (worker, e) ∈ state.held) {other : Nat × Envelope}
    (hother : other ∈ (state.letGo worker e.id).held) :
    other ∈ state.held ∧ other.2.id ≠ e.id := by
  obtain ⟨hmem, hne⟩ := List.mem_filter.1 hother
  refine ⟨hmem, fun hsame => ?_⟩
  obtain rfl := List.inj_on_of_nodup_map h.single hmem hheld hsame
  simp at hne

theorem settled (h : state.Exclusive) {worker : Nat} {e : Envelope}
    (hheld : (worker, e) ∈ state.held) {b : Broker} {entry : Entry}
    (hids : b.ids = state.broker.ids) (hbytes : e.bytes? = some entry)
    (hcontents : b.contents = state.contents.settle entry) :
    (({ state with broker := b } : OperationState).letGo worker e.id).Exclusive := by
  obtain ⟨-, hwritten⟩ := (h.guards _ hheld).of_bytes? hbytes
  constructor
  case readable => exact (h.readable.settle hids hcontents).letGo worker e.id
  case once =>
    change b.contents.ids.Nodup
    rw [hcontents]
    exact h.once.sublist ((Contents.entries_settle_sublist entry _).filterMap _)
  case single => exact h.single.sublist (List.filter_sublist.map _)
  case guards =>
    intro other hother
    obtain ⟨hmem, hne⟩ := h.mem_letGo hheld hother
    change b.contents.Guards other.2
    rw [hcontents]
    refine (h.guards other hmem).settle fun hsame => hne ?_
    rw [hwritten] at hsame
    exact (Option.some.inj hsame).symm

theorem putBack (h : state.Exclusive) {worker : Nat} {e : Envelope}
    (hheld : (worker, e) ∈ state.held) {b : Broker} {error : String} {before entry : Entry}
    (hids : b.ids = state.broker.ids) (hbytes : e.bytes? = some before)
    (hentry : (e.failed error).encode? = some entry)
    (hadds : Adds entry (state.contents.settle before) b.contents) :
    (({ state with broker := b } : OperationState).letGo worker e.id).Exclusive := by
  have hsettled := h.settled hheld (b := { b with contents := state.contents.settle before }) hids
    hbytes rfl
  have hdrew := (h.readable.held _ hheld).2
  have hne : (e.failed error).id ≠ "" := hdrew.ne_empty
  have hwritten : writtenId? entry = some (e.failed error).id :=
    Envelope.writtenId?_of_encode? hentry hne
  have hgone := (h.guards _ hheld).not_mem_ids h.once ((h.guards _ hheld).of_bytes? hbytes).1
  have hnew : entry ∉ (state.contents.settle before).delayed.map Prod.snd := fun hmem =>
    hgone (Contents.mem_ids (by simp [Contents.entries, hmem]) hwritten)
  have hperm := Contents.ids_cons (hadds.entries hnew).symm
  rw [hwritten] at hperm
  constructor
  case readable =>
    exact hsettled.readable.adds hadds hwritten (by rwa [hids]) (le_refl _)
  case once => exact hperm.nodup_iff.1 (List.nodup_cons.2 ⟨hgone, hsettled.once⟩)
  case single => exact hsettled.single
  case guards =>
    intro other hother
    refine (hsettled.guards other hother).adds hadds fun hsame => ?_
    rw [hwritten] at hsame
    exact (h.mem_letGo hheld hother).2 (Option.some.inj hsame).symm

theorem not_mem_letGo (h : state.Exclusive) {worker : Nat} {e : Envelope}
    (hheld : (worker, e) ∈ state.held) : e.id ∉ (state.letGo worker e.id).held.map (·.2.id) := by
  intro hmem
  obtain ⟨other, hother, hsame⟩ := List.mem_map.1 hmem
  exact (h.mem_letGo hheld hother).2 hsame

theorem fail (h : state.Exclusive) {worker : Nat} {e : Envelope} (hheld : (worker, e) ∈ state.held)
    (now : Int) (error : String) (retry : Bool) :
    (state.operate outage (.fail worker now e error retry)).Exclusive := by
  obtain ⟨hlive, hdrew⟩ := h.readable.held _ hheld
  have hguards := h.guards _ hheld
  have hnew := h.not_mem_letGo hheld
  have hcases := fail_cases now e error retry { state.broker with outage }
  rw [OperationState.operate]
  refine Program.outcome_cases (P := Exclusive) (fun answer b hrun => ?_) (fun fault b hrun => ?_)
  · rw [hrun] at hcases
    obtain ⟨-, hids, before, entry, hbytes, hentry, -, hadds⟩ := hcases
    exact h.putBack hheld hids hbytes hentry hadds
  · rw [hrun] at hcases
    obtain ⟨hids, hcontents⟩ := hcases
    have hdrew' : b.ids.Drew (e.failed error).id := by
      rw [hids]
      exact hdrew
    rcases hcontents with ⟨-, hsame⟩ | ⟨before, -, -, hbytes, hsettled⟩
    · have hlet := (h.of_same hsame (by rw [hids])).letGo worker e.id
      have hkept : b.contents.Guards (e.failed error) := by
        rw [hsame]
        exact hguards
      exact hlet.hold hlive hdrew' hnew hkept
    · obtain ⟨hstored, hwritten⟩ := hguards.of_bytes? hbytes
      have hgone : b.contents.Guards (e.failed error) := by
        rw [hsettled]
        exact Contents.guards_of_not_mem_ids hstored hwritten (hguards.not_mem_ids h.once hstored)
      exact (h.settled hheld hids hbytes hsettled).hold hlive hdrew' hnew hgone

theorem enqueued (h : state.Exclusive) {b : Broker} {e : Envelope} {entry : Entry}
    (hids : b.ids = state.broker.ids.draw.2) (hid : e.id = state.broker.ids.draw.1)
    (hentry : e.encode? = some entry) (hadds : Adds entry state.contents b.contents) :
    ({ state with broker := b } : OperationState).Exclusive := by
  have hdrew : b.ids.Drew e.id := by
    rw [hids, hid]
    exact state.broker.ids.drew_draw
  have hfresh : ¬ state.broker.ids.Drew e.id := hid ▸ state.broker.ids.not_drew_next
  have hwritten := Envelope.writtenId?_of_encode? hentry hdrew.ne_empty
  have hgone : e.id ∉ state.contents.ids := by
    intro hmem
    obtain ⟨other, hother, hsame⟩ := List.mem_filterMap.1 hmem
    exact hfresh (h.readable.drawn_of_written hother hsame)
  have hnew : entry ∉ state.contents.delayed.map Prod.snd := fun hmem =>
    hgone (Contents.mem_ids (by simp [Contents.entries, hmem]) hwritten)
  have hperm := Contents.ids_cons (hadds.entries hnew).symm
  rw [hwritten] at hperm
  refine ⟨h.readable.adds hadds hwritten hdrew (hids ▸ draw_next _),
    hperm.nodup_iff.1 (List.nodup_cons.2 ⟨hgone, h.once⟩), h.single, fun other hother => ?_⟩
  refine (h.guards other hother).adds hadds fun hsame => hfresh ?_
  rw [hwritten] at hsame
  rw [Option.some.inj hsame]
  exact (h.readable.held other hother).2

theorem operate (h : state.Exclusive) {policy : OperationState → Prop} {operation : Operation}
    (hallowed : state.Allowed policy (.operate outage operation)) (hidle : policy state → state.Idle) :
    (state.operate outage operation).Exclusive := by
  cases operation with
  | enqueue now name data maxAttempts backoff delay =>
    have hcases := enqueue_cases now name data maxAttempts backoff delay { state.broker with outage }
    rw [OperationState.operate]
    refine Program.outcome_cases (P := Exclusive) (fun e b hrun => ?_) (fun fault b hrun => ?_)
    · rw [hrun] at hcases
      obtain ⟨hids, he, entry, hentry, hadds⟩ := hcases
      exact h.enqueued hids (congrArg Envelope.id he) hentry hadds
    · rw [hrun] at hcases
      exact h.of_same hcases.2 (hcases.1 ▸ draw_next _)
  | start worker =>
    have hstarted := h.readable.operate hallowed
    obtain ⟨hmoves, -⟩ := recoverStalled_moves { state.broker with outage } h.readable.delayed
    have hquiet := hidle hallowed.2
    rw [OperationState.operate] at hstarted ⊢
    unfold act Program.outcome at hstarted ⊢
    split at hstarted
    next n b hrun =>
      rw [after_of_ok hrun] at hmoves
      have hrecovered := h.recovered hquiet hmoves.keeps
      exact ⟨hstarted, hrecovered.once, hrecovered.single, hrecovered.guards⟩
    next fault b hrun =>
      rw [after_of_error hrun] at hmoves
      exact h.recovered hquiet hmoves.keeps
  | reserve worker now => exact h.act_noteReserved hallowed (reserve_cases now _ h.readable.delayed)
  | reserveAfterWait worker =>
    exact h.act_noteReserved hallowed (reserveAfterWait_cases _ h.readable.delayed)
  | complete worker e =>
    have hcases := complete_cases e { state.broker with outage }
    rw [OperationState.operate]
    refine Program.outcome_cases (P := Exclusive) (fun _ b hrun => ?_) (fun fault b hrun => ?_)
    · rw [hrun] at hcases
      obtain ⟨hids, entry, hbytes, hcontents⟩ := hcases
      exact h.settled hallowed hids hbytes hcontents
    · rw [hrun] at hcases
      exact h.of_same hcases.2 (by rw [hcases.1])
  | fail worker now e error retry => exact h.fail hallowed now error retry

theorem step (h : state.Exclusive) {policy : OperationState → Prop} {step : Step}
    (hallowed : state.Allowed policy step) (hidle : policy state → state.Idle) :
    (state.step step).Exclusive := by
  cases step with
  | operate outage operation => exact h.operate hallowed hidle
  | stop worker =>
    exact ⟨h.readable.step hallowed, h.once, h.single.sublist (List.filter_sublist.map _),
      fun other hother => h.guards other (List.mem_filter.1 hother).1⟩

end Exclusive

theorem start_exclusive : Exclusive {} where
  readable :=
    { delayed := List.nodup_nil
      drawn := by simp [Contents.entries]
      held := by simp }
  once := by simp [Contents.ids, Contents.entries]
  single := List.nodup_nil
  guards := by simp

theorem start_eq (state : OperationState) (worker : Nat) :
    ∃ b, state.operate {} (.start worker) =
        { state with broker := b, live := worker :: state.live } ∧
      b.contents.ready = state.contents.processing.reverse ++ state.contents.ready := by
  obtain ⟨outage, -, hrecovers⟩ := exists_recovers (b := { state.broker with outage := {} }) rfl
  let b : Broker := { state.broker with contents := state.contents.restored, outage }
  have hrun : recoverStalled { state.broker with outage := {} } =
      .ok state.contents.processing.length b := hrecovers.recover (Nat.lt_succ_self _)
  refine ⟨b, ?_, rfl⟩
  rw [operate, act, Program.outcome, hrun]

theorem live_start (state : OperationState) (worker : Nat) :
    (state.operate {} (.start worker)).live = worker :: state.live := by
  obtain ⟨b, hstep, -⟩ := state.start_eq worker
  rw [hstep]

theorem live_enqueue (state : OperationState) (outage : Outage) (now : Int) (name : String) (data : Fields)
    (maxAttempts backoff delay : Int) :
    (state.operate outage (.enqueue now name data maxAttempts backoff delay)).live = state.live := by
  rw [operate]
  exact Program.outcome_cases (P := fun state' : OperationState => state'.live = state.live) (fun _ _ _ => rfl) fun _ _ _ => rfl

theorem live_reserve (state : OperationState) (outage : Outage) (worker : Nat) (now : Int) :
    (state.operate outage (.reserve worker now)).live = state.live := by
  rw [operate]
  refine Program.outcome_cases (P := fun state' : OperationState => state'.live = state.live) (fun reservation b _ => ?_)
    fun _ _ _ => rfl
  cases reservation <;> rfl

section

variable {state : OperationState} {worker : Nat} {entry : Entry} {id : String}

theorem reserve_oldest {rest : List Entry} (worker : Nat)
    (hready : state.contents.ready = entry :: rest) (hid : writtenId? entry = some id) :
    ∃ b e, state.operate {} (.reserve worker 0) =
        { state with broker := b, held := (worker, e) :: state.held } ∧ e.id = id ∧
      ∃ more, b.contents.ready = rest ++ more := by
  obtain ⟨e, he, -, hdecode⟩ := Envelope.decode_of_writtenId? hid
  have hclear : ({ state.broker with outage := {} } : Broker).Clear := rfl
  obtain ⟨_, b, hrun, -, rfl, -⟩ :=
    reserve_succeeds 0 hclear hready (hdecode state.broker.ids)
  have hreserving := reserve_reserving 0 { state.broker with outage := {} }
  rw [hrun] at hreserving
  obtain ⟨due, hwaits, taken, ⟨htaken, -⟩, -⟩ := hreserving
  obtain ⟨more, hmore, -⟩ := hwaits.ready
  refine ⟨b, e, ?_, he, more, ?_⟩
  · rw [operate, act, Program.outcome, hrun]
    rfl
  · have hqueue : taken :: b.contents.ready = entry :: (rest ++ more) := by
      rw [← htaken, hmore, ← List.cons_append]
      exact congrArg (· ++ more) hready
    exact (List.cons.inj hqueue).2

/-- A live worker that goes on reserving comes to every job that is ready. -/
theorem reserve_every (h : state.Readable) (hlive : worker ∈ state.live) {front rest : List Entry}
    (hready : state.contents.ready = front ++ entry :: rest) (hid : writtenId? entry = some id) :
    ∃ steps, (∀ policy, Follows policy state steps) ∧
      (∀ held ∈ state.held, held ∈ (state.run steps).held) ∧
        ∃ e, (worker, e) ∈ (state.run steps).held ∧ e.id = id := by
  induction front generalizing state rest with
  | nil =>
    obtain ⟨b, e, hstep, he, -⟩ := reserve_oldest worker hready hid
    refine ⟨[.operate {} (.reserve worker 0)], fun policy => ⟨hlive, trivial⟩, ?_⟩
    change (∀ held ∈ state.held, held ∈ (state.operate {} (.reserve worker 0)).held) ∧
      ∃ e, (worker, e) ∈ (state.operate {} (.reserve worker 0)).held ∧ e.id = id
    rw [hstep]
    exact ⟨fun held hheld => List.mem_cons_of_mem _ hheld, e, List.mem_cons_self, he⟩
  | cons other front ih =>
    rw [List.cons_append] at hready
    have hother : other ∈ state.contents.entries :=
      Contents.mem_entries_of_ready (by simp [hready])
    obtain ⟨otherId, hwritten, -⟩ := h.drawn other hother
    obtain ⟨b, e, hstep, -, more, hmore⟩ := reserve_oldest worker hready hwritten
    have hallowed : state.Allowed (fun _ => True) (.operate {} (.reserve worker 0)) := hlive
    have hafter := h.operate hallowed
    rw [List.append_assoc, List.cons_append] at hmore
    rw [hstep] at hafter
    obtain ⟨steps, hfollows, hkept, htaken⟩ := ih hafter hlive hmore
    refine ⟨.operate {} (.reserve worker 0) :: steps, fun policy => ⟨hlive, ?_⟩, ?_⟩
    · change Follows policy (state.operate {} (.reserve worker 0)) steps
      rw [hstep]
      exact hfollows policy
    · change (∀ held ∈ state.held, held ∈ ((state.operate {} (.reserve worker 0)).run steps).held) ∧
        ∃ e, (worker, e) ∈ ((state.operate {} (.reserve worker 0)).run steps).held ∧ e.id = id
      rw [hstep]
      exact ⟨fun held hheld => hkept held (List.mem_cons_of_mem _ hheld), htaken⟩

/-- A worker that starts while another one holds a job in processing can reserve that job too. -/
theorem exists_heldTwice (h : state.Readable) {policy : OperationState → Prop} (hpolicy : policy state)
    (hbusy : ¬ state.Idle) : ∃ steps, Follows policy state steps ∧ ¬ (state.run steps).HeldOnce := by
  simp only [Idle, not_forall, not_not] at hbusy
  obtain ⟨held, hheld, entry, hentry, hid⟩ := hbusy
  obtain ⟨worker, hworker⟩ := Infinite.exists_notMem_finset state.live.toFinset
  rw [List.mem_toFinset] at hworker
  obtain ⟨b, hstep, hready⟩ := state.start_eq worker
  have hallowed : state.Allowed policy (.operate {} (.start worker)) := ⟨hworker, hpolicy⟩
  have hafter := h.operate hallowed
  rw [hstep] at hafter
  have hmem : entry ∈ b.contents.ready := by
    rw [hready]
    exact List.mem_append_left _ (List.mem_reverse.2 hentry)
  obtain ⟨front, rest, hsplit⟩ := List.append_of_mem hmem
  obtain ⟨steps, hfollows, hkept, e, htaken, he⟩ :=
    reserve_every hafter List.mem_cons_self hsplit hid
  refine ⟨.operate {} (.start worker) :: steps, ⟨hallowed, ?_⟩, fun hheldOnce => ?_⟩
  · change Follows policy (state.operate {} (.start worker)) steps
    rw [hstep]
    exact hfollows policy
  · change HeldOnce ((state.operate {} (.start worker)).run steps) at hheldOnce
    rw [hstep] at hheldOnce
    have hsame : held.1 = worker := hheldOnce held (hkept held hheld) (worker, e) htaken he.symm
    exact hworker (hsame ▸ (h.held held hheld).1)

end

/-- Whatever decides when workers start, and whatever commands are refused: no job is ever held by two
live workers exactly if no worker ever starts while a live one holds a job in processing. -/
theorem heldOnce_iff (policy : OperationState → Prop) :
    (∀ steps, Follows policy {} steps → (run {} steps).HeldOnce) ↔
      ∀ steps, Follows policy {} steps → policy (run {} steps) → (run {} steps).Idle := by
  have hreadable {steps : List Step} (hsteps : Follows policy {} steps) :
      (run {} steps).Readable :=
    Follows.induction (fun _ _ hallowed h => h.step hallowed) hsteps start_exclusive.readable
  constructor
  · intro honce steps hsteps hpolicy
    by_contra hbusy
    obtain ⟨more, hmore, htwice⟩ := exists_heldTwice (hreadable hsteps) hpolicy hbusy
    refine htwice ?_
    have hall := honce (steps ++ more) (Follows.append_iff.2 ⟨hsteps, hmore⟩)
    rwa [run, List.foldl_append] at hall
  · intro hidle steps hsteps
    suffices hexclusive : (run {} steps).Exclusive from hexclusive.heldOnce
    induction steps using List.reverseRecOn with
    | nil => exact start_exclusive
    | append_singleton steps step ih =>
      obtain ⟨hearlier, hallowed, -⟩ := Follows.append_iff.1 hsteps
      rw [run, List.foldl_append]
      exact (ih hearlier).step hallowed (hidle steps hearlier)

/-- A worker holds a job while another one starts, which then reserves the job too. -/
def rollout : List Step :=
  [.operate {} (.start 1), .operate {} (.enqueue 0 evaluateName [] 3 1000 0),
   .operate {} (.reserve 1 0), .operate {} (.start 2), .operate {} (.reserve 2 0)]

theorem not_always_heldOnce :
    ¬ ∀ steps, Follows (fun _ => True) {} steps → (run {} steps).HeldOnce := by
  intro honce
  have hfollows : Follows (fun _ => True) {} rollout := by
    refine ⟨⟨List.not_mem_nil, trivial⟩, trivial, ?_, ⟨?_, trivial⟩, ?_, trivial⟩
    · change 1 ∈ OperationState.live _
      simp [step, live_start, live_enqueue]
    · simp [step, live_start, live_enqueue, live_reserve]
    · change 2 ∈ OperationState.live _
      simp [step, live_start]
  have hheld : (run {} rollout).held.map (fun h => (h.1, h.2.id)) =
      [(2, "id-000001"), (1, "id-000001")] := by decide +kernel
  have htwice : (2, "id-000001").1 = (1, "id-000001").1 :=
    heldOnce_iff_pairs.1 (honce rollout hfollows) _ (by simp [hheld]) _ (by simp [hheld]) rfl
  cases htwice

end OperationState

end SignalCoach.Queue

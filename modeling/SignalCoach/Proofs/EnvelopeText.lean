import SignalCoach.Proofs.JsonReading
import SignalCoach.Proofs.Program

/-! Envelopes in the queue: the bytes of an envelope are read back as that envelope, and its id is
the id under which the queue holds it. -/
namespace SignalCoach

namespace Envelope

def reread (e : Envelope) (entry : Entry) : Envelope :=
  { e with data := Json.rereadFields [] e.data, lastError := Json.reread e.lastError,
           stored := some entry }

def members (e : Envelope) : Fields :=
  Fields.ofList ([("id", .str e.id), ("name", .str e.name),
    ("data", .obj (Json.rereadFields [] e.data)), ("attempts", .int e.attempts),
    ("max_attempts", .int e.maxAttempts), ("backoff_ms", .int e.backoff),
    ("enqueued_at", .int e.enqueuedAt)] ++
    match e.lastError with
    | .null => []
    | v => [("last_error", Json.reread v)])

theorem reread_document (e : Envelope) : Json.reread e.document = .obj e.members := by
  unfold document members
  cases e.lastError <;>
    simp [Value.object, Fields.ofList, Json.reread, Json.rereadFields, Json.keyText, Fields.put,
      Key.same]

theorem get?_members (e : Envelope) :
    e.members.get? "id" = some (.str e.id) ∧ e.members.get? "name" = some (.str e.name) ∧
      e.members.get? "data" = some (.obj (Json.rereadFields [] e.data)) ∧
      e.members.get? "attempts" = some (.int e.attempts) ∧
      e.members.get? "max_attempts" = some (.int e.maxAttempts) ∧
      e.members.get? "backoff_ms" = some (.int e.backoff) ∧
      e.members.get? "enqueued_at" = some (.int e.enqueuedAt) ∧
      (e.members.get? "last_error").getD .null = Json.reread e.lastError := by
  unfold members
  cases e.lastError <;> simp [Fields.ofList, Fields.get?_cons, Json.reread]

theorem decode_of_encode? {e : Envelope} {entry : Entry} (h : e.encode? = some entry)
    (hid : e.id ≠ "") (ids : IdSupply) : decode entry ids = (.ok (e.reread entry), ids) := by
  obtain ⟨hgetId, hname, hdata, hattempts, hmax, hbackoff, hat, herror⟩ := e.get?_members
  have hread := Json.readBytes?_of_write? h
  rw [reread_document] at hread
  have hidOf : idOf e.members ids = (e.id, ids) := by
    simp [idOf, hgetId, Value.isFalsy, hid, Value.display]
  have hfields : ofFields e.members e.name (Json.rereadFields [] e.data) e.id entry =
      .ok (e.reread entry) := by
    simp [ofFields, counterAt, counter?, hattempts, hmax, hbackoff, hat, herror, reread]
    rfl
  simp only [decode, hread, hname, hdata, hidOf, hfields]

theorem ofFields_eq_ok {fields : Fields} {name id : String} {data : Fields} {entry : Entry}
    {e : Envelope} (h : ofFields fields name data id entry = .ok e) :
    e.id = id ∧ e.stored = some entry := by
  unfold ofFields at h
  obtain ⟨attempts, -, h⟩ := Program.except_bind_eq_ok.1 h
  obtain ⟨maxAttempts, -, h⟩ := Program.except_bind_eq_ok.1 h
  obtain ⟨backoff, -, h⟩ := Program.except_bind_eq_ok.1 h
  obtain ⟨enqueuedAt, -, h⟩ := Program.except_bind_eq_ok.1 h
  obtain rfl := Except.ok.inj h
  exact ⟨rfl, rfl⟩

theorem idOf_cases (fields : Fields) :
    (∃ id, ∀ ids, idOf fields ids = (id, ids)) ∨ ∀ ids, idOf fields ids = ids.draw := by
  by_cases hv : ((fields.get? "id").getD .null).isFalsy = true
  · exact .inr fun ids => if_pos hv
  · exact .inl ⟨_, fun ids => if_neg hv⟩

theorem decode_eq_ok {entry : Entry} {ids ids' : IdSupply} {e : Envelope}
    (h : decode entry ids = (.ok e, ids')) : e.stored = some entry := by
  unfold decode at h
  split at h
  · cases h
  · split at h
    · exact (ofFields_eq_ok (congrArg Prod.fst h)).2
    · cases h
  · cases h

/-- The id under which the queue holds bytes; none if they write no envelope with an id. -/
def writtenId? (entry : Entry) : Option String :=
  match decode entry {} with
  | (.ok e, ids) => if ids = {} then some e.id else none
  | (.error _, _) => none

theorem draw_ne (ids : IdSupply) : ids.draw.2 ≠ ids := by
  intro h
  have hnext : ids.next + 1 = ids.next := congrArg IdSupply.next h
  omega

/-- Bytes with an id write the same envelope whenever they are read. -/
theorem decode_of_writtenId? {entry : Entry} {id : String} (h : writtenId? entry = some id) :
    ∃ e, e.id = id ∧ e.stored = some entry ∧ ∀ ids, decode entry ids = (.ok e, ids) := by
  unfold writtenId? at h
  split at h
  next e ids hdecode =>
    split at h
    next hids =>
      subst hids
      refine ⟨e, Option.some.inj h, decode_eq_ok hdecode, ?_⟩
      unfold decode at hdecode ⊢
      cases hread : Json.readBytes? .strict entry with
      | none => simp [hread] at hdecode
      | some v =>
        cases v with
        | obj fields =>
          simp only [hread] at hdecode ⊢
          split at hdecode
          next name data hname hdata =>
            rcases idOf_cases fields with ⟨id', hid⟩ | hdraw
            · simp only [hid, Prod.mk.injEq] at hdecode ⊢
              exact fun ids => ⟨hdecode.1, trivial⟩
            · rw [hdraw] at hdecode
              exact absurd (congrArg Prod.snd hdecode) (draw_ne _)
          next => simp at hdecode
        | _ => simp [hread] at hdecode
    next => cases h
  next => cases h

theorem writtenId?_of_encode? {e : Envelope} {entry : Entry} (h : e.encode? = some entry)
    (hid : e.id ≠ "") : writtenId? entry = some e.id := by
  rw [writtenId?, decode_of_encode? h hid]
  simp [reread]

theorem writtenId?_of_malformed {entry : Entry} {ids ids' : IdSupply} {m : Malformed}
    (h : decode entry ids = (.error m, ids')) : writtenId? entry = none := by
  by_contra hsome
  obtain ⟨id, hid⟩ := Option.ne_none_iff_exists'.1 hsome
  obtain ⟨e, -, -, hdecode⟩ := decode_of_writtenId? hid
  rw [hdecode] at h
  cases h

theorem id_of_decode {entry : Entry} {ids ids' : IdSupply} {e : Envelope} {id : String}
    (h : decode entry ids = (.ok e, ids')) (hid : writtenId? entry = some id) : e.id = id := by
  obtain ⟨e', he', -, hdecode⟩ := decode_of_writtenId? hid
  rw [hdecode] at h
  obtain rfl := Except.ok.inj (congrArg Prod.fst h)
  exact he'

end Envelope

end SignalCoach

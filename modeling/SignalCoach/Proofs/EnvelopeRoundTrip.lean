import SignalCoach.Proofs.EnvelopeText
import SignalCoach.Proofs.PlainDocuments

/-! Decoding undoes encoding. The writer takes every envelope with plain data whose counters are words
and whose data is not too deep, and the reader gives back the same envelope, with its bytes. -/
namespace SignalCoach.Envelope

/-- The data and the last error of a job are made of what the strict form of JSON can hold. -/
structure Plain (e : Envelope) : Prop where
  data : (Value.obj e.data).Plain
  lastError : e.lastError = .null ∨ ∃ s, e.lastError = .str s

/-- The counters are words, and the data leaves room for the envelope around it. -/
structure Fits (e : Envelope) : Prop where
  attempts : isWord e.attempts = true
  maxAttempts : isWord e.maxAttempts = true
  backoff : isWord e.backoff = true
  enqueuedAt : isWord e.enqueuedAt = true
  depth : (Value.obj e.data).depth < Json.maxWrittenDepth

variable {e : Envelope}

theorem depth_document (h : e.Plain) : e.document.depth = (Value.obj e.data).depth + 1 := by
  rcases h.lastError with hnull | ⟨s, htext⟩
  · simp [document, hnull, Value.object, Fields.ofList, Value.depth, Value.depthFields]
  · simp [document, htext, Value.object, Fields.ofList, Value.depth, Value.depthFields]

theorem isWritable_document (h : e.Plain) : Json.isWritable e.document = true ↔
    isWord e.attempts = true ∧ isWord e.maxAttempts = true ∧ isWord e.backoff = true ∧
      isWord e.enqueuedAt = true := by
  have hdata : Json.fieldsWritable e.data = true := Json.isWritable_of_plain h.data
  rcases h.lastError with hnull | ⟨s, htext⟩
  · simp [document, hnull, Value.object, Fields.ofList, Json.isWritable, Json.fieldsWritable, hdata]
  · simp [document, htext, Value.object, Fields.ofList, Json.isWritable, Json.fieldsWritable, hdata]

theorem encode?_isSome_iff (h : e.Plain) : e.encode?.isSome ↔ e.Fits := by
  have hdepth : e.document.depth ≤ Json.maxWrittenDepth ↔
      (Value.obj e.data).depth < Json.maxWrittenDepth := by
    rw [depth_document h, Nat.succ_le_iff]
  have hwritten : e.encode?.isSome ↔
      Json.isWritable e.document = true ∧ e.document.depth ≤ Json.maxWrittenDepth := by
    simp [encode?, Json.write?]
  rw [hwritten, isWritable_document h, hdepth]
  constructor
  · rintro ⟨⟨hattempts, hmax, hbackoff, hat⟩, hroom⟩
    exact ⟨hattempts, hmax, hbackoff, hat, hroom⟩
  · rintro ⟨hattempts, hmax, hbackoff, hat, hroom⟩
    exact ⟨⟨hattempts, hmax, hbackoff, hat⟩, hroom⟩

theorem reread_of_plain (h : e.Plain) (entry : Entry) :
    e.reread entry = { e with stored := some entry } := by
  have hdata : Json.rereadFields [] e.data = e.data := Value.obj.inj (Json.reread_of_plain h.data)
  have herror : Json.reread e.lastError = e.lastError := by
    rcases h.lastError with hnull | ⟨s, htext⟩
    · rw [hnull]
      rfl
    · rw [htext]
      rfl
  rw [reread, hdata, herror]

/-- An envelope with an id is read from its bytes as it was, and keeps these bytes; no id is drawn. -/
theorem decode_encode (hid : e.id ≠ "") (hplain : e.Plain) (hfits : e.Fits) :
    ∃ entry, e.encode? = some entry ∧
      ∀ ids, decode entry ids = (.ok { e with stored := some entry }, ids) := by
  obtain ⟨entry, hentry⟩ := Option.isSome_iff_exists.1 ((encode?_isSome_iff hplain).2 hfits)
  refine ⟨entry, hentry, fun ids => ?_⟩
  rw [decode_of_encode? hentry hid, reread_of_plain hplain]

def intricate : Envelope where
  id := "\"é\\"
  name := ""
  data := Fields.ofList [
    ("low", .int (-0x8000000000000000)), ("high", .int 0xffffffffffffffff),
    ("zero", .double (.ofMagnitude true 0)), ("", .arr [.obj [], .arr [], .null]),
    ("nested", Value.object [("text", .str "a\n\u0001𝄞"), ("flag", .bool false)])]
  attempts := -1
  maxAttempts := 0xffffffffffffffff
  backoff := -0x8000000000000000
  enqueuedAt := 1700000000000
  lastError := .str "TypeError('\\u0000')"

theorem intricate_plain : intricate.Plain where
  lastError := .inr ⟨_, rfl⟩
  data := by
    have hnested : (Value.object [("text", .str "a\n\u0001𝄞"), ("flag", .bool false)]).Plain :=
      .obj (by simp [Fields.ofList, Fields.DistinctKeys, Key.same]) (by simp [Fields.ofList])
        (by simp [Fields.ofList, Value.Plain.str, Value.Plain.bool])
    have hlist : (Value.arr [.obj [], .arr [], .null]).Plain :=
      .arr (by simp [Value.Plain.empty, Value.Plain.null, Value.Plain.arr])
    refine .obj (by simp [intricate, Fields.ofList, Fields.DistinctKeys, Key.same])
      (by simp [intricate, Fields.ofList]) ?_
    simp only [intricate, Fields.ofList, List.map_cons, List.map_nil, List.forall_mem_cons]
    exact ⟨.int (by decide), .int (by decide), .double (by decide), hlist, hnested, by simp⟩

theorem decode_encode_intricate : intricate.id ≠ "" ∧ intricate.Plain ∧ intricate.Fits ∧
    ∃ entry, intricate.encode? = some entry ∧
      ∀ ids, decode entry ids = (.ok { intricate with stored := some entry }, ids) := by
  have hid : intricate.id ≠ "" := by decide
  have hfits : intricate.Fits := ⟨by decide, by decide, by decide, by decide, by decide⟩
  exact ⟨hid, intricate_plain, hfits, decode_encode hid intricate_plain hfits⟩

end SignalCoach.Envelope

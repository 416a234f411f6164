import SignalCoach.Proofs.EnvelopeText
import SignalCoach.Queue.Delivery

/-! Jobs as messages: a message keeps its form in the queue and is read back as its job. -/
namespace SignalCoach

theorem Trigger.ofName?_name (t : Trigger) : Trigger.ofName? t.name = some t := by
  cases t <;> decide

theorem Job.read_message (job : Job) : Job.read job.message = .valid job := by
  obtain ⟨sessionId, snapshotId, trigger, jobId⟩ := job
  cases snapshotId <;> cases trigger <;> cases jobId <;>
    simp [Job.read, Job.message, Job.entry, Value.object, Fields.ofList, Check.record,
      Check.required, Check.optional, Check.withDefault, Check.nullable, Check.spelling,
      Check.string, Check.enum, Fields.has, Fields.get?_cons, Checked.within, Checked.map,
      Trigger.ofName?_name] <;> rfl

theorem Queue.messageFields_eq (job : Job) : .obj (Queue.messageFields job) = job.message := rfl

theorem Queue.reread_messageFields (job : Job) :
    Json.rereadFields [] (Queue.messageFields job) = Queue.messageFields job := by
  obtain ⟨sessionId, snapshotId, trigger, jobId⟩ := job
  cases snapshotId <;> cases trigger <;> cases jobId <;>
    simp [Queue.messageFields, Job.message, Job.entry, Value.object, Fields.ofList,
      Json.rereadFields, Json.reread, Json.keyText, Fields.put, Key.same]

end SignalCoach

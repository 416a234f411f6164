import SignalCoach.Proofs.JsonReading
import SignalCoach.Proofs.StoredDocument

/-! Documents as the strict form of JSON holds them. What is read there is such a document, and such
a document is read back as it was written. -/
namespace SignalCoach

/-- Integers are words, doubles are finite, and the keys of an object are different texts. -/
inductive Value.Plain : Value → Prop where
  | null : Plain .null
  | bool (b : Bool) : Plain (.bool b)
  | int {n : Int} (h : isWord n = true) : Plain (.int n)
  | double {x : Double} (h : x.isFinite = true) : Plain (.double x)
  | str (s : String) : Plain (.str s)
  | arr {items : List Value} (h : ∀ v ∈ items, v.Plain) : Plain (.arr items)
  | obj {fields : Fields} (hkeys : fields.DistinctKeys)
    (htext : ∀ entry ∈ fields, ∃ s, entry.1 = .text s) (h : ∀ entry ∈ fields, entry.2.Plain) :
    Plain (.obj fields)

namespace Value.Plain

theorem empty : (Value.obj []).Plain := .obj List.Pairwise.nil (by simp) (by simp)

theorem put {fields : Fields} (h : (Value.obj fields).Plain) (key : String) {v : Value}
    (hv : v.Plain) : (Value.obj (fields.put (.text key) v)).Plain := by
  cases h with
  | obj hkeys htext hmembers =>
    refine .obj (hkeys.put _ v) (fun entry hentry => ?_) fun entry hentry => ?_
    · rcases Fields.mem_put hentry with hold | ⟨-, hkey | ⟨old, hold, hkey⟩⟩
      · exact htext entry hold
      · exact ⟨key, hkey⟩
      · exact hkey ▸ htext old hold
    · rcases Fields.mem_put hentry with hold | ⟨hnew, -⟩
      · exact hmembers entry hold
      · exact hnew ▸ hv

theorem get? {fields : Fields} (h : (Value.obj fields).Plain) {name : String} {v : Value}
    (hv : Fields.get? fields name = some v) : v.Plain := by
  obtain ⟨entry, hfind, rfl⟩ := Option.map_eq_some_iff.1 hv
  cases h with
  | obj _ _ hmembers => exact hmembers entry (List.mem_of_find?_eq_some hfind)

end Value.Plain

namespace Json

open Value (Plain)

theorem itemsWritable_of_forall {items : List Value} (h : ∀ v ∈ items, isWritable v = true) :
    itemsWritable items = true := by
  induction items with
  | nil => rfl
  | cons v rest ih =>
    obtain ⟨hv, hrest⟩ := List.forall_mem_cons.1 h
    rw [itemsWritable, hv, ih hrest]
    rfl

theorem fieldsWritable_of_forall {fields : Fields} (htext : ∀ entry ∈ fields, ∃ s, entry.1 = .text s)
    (h : ∀ entry ∈ fields, isWritable entry.2 = true) : fieldsWritable fields = true := by
  induction fields with
  | nil => rfl
  | cons head rest ih =>
    obtain ⟨k, v⟩ := head
    obtain ⟨⟨s, rfl⟩, hkeys⟩ := List.forall_mem_cons.1 htext
    obtain ⟨hv, hrest⟩ := List.forall_mem_cons.1 h
    rw [fieldsWritable, hv, ih hkeys hrest]
    rfl

theorem isWritable_of_plain {v : Value} (h : v.Plain) : isWritable v = true := by
  induction h with
  | int h => exact h
  | arr _ ih => exact itemsWritable_of_forall ih
  | obj _ htext _ ih => exact fieldsWritable_of_forall htext ih
  | _ => rfl

theorem rereadItems_eq_self {items : List Value} (h : ∀ v ∈ items, reread v = v) :
    rereadItems items = items := by
  induction items with
  | nil => rfl
  | cons v rest ih =>
    obtain ⟨hv, hrest⟩ := List.forall_mem_cons.1 h
    rw [rereadItems, hv, ih hrest]

theorem rereadFields_eq_foldl {fields done : Fields}
    (htext : ∀ entry ∈ fields, ∃ s, entry.1 = .text s) (h : ∀ entry ∈ fields, reread entry.2 = entry.2) :
    rereadFields done fields = fields.foldl (fun done (k, v) => Fields.put done k v) done := by
  induction fields generalizing done with
  | nil => rfl
  | cons head rest ih =>
    obtain ⟨k, v⟩ := head
    obtain ⟨⟨s, rfl⟩, hkeys⟩ := List.forall_mem_cons.1 htext
    obtain ⟨hv, hrest⟩ := List.forall_mem_cons.1 h
    rw [rereadFields, hv, ih hkeys hrest]
    rfl

theorem reread_of_plain {v : Value} (h : v.Plain) : reread v = v := by
  induction h with
  | double h => rw [reread, word?_doubleText, if_pos h]; rfl
  | arr _ ih => rw [reread, rereadItems_eq_self ih]
  | @obj fields hkeys htext _ ih =>
    have hput := Fields.foldl_put_of_distinct (show Fields.DistinctKeys ([] ++ fields) from hkeys)
    rw [reread, rereadFields_eq_foldl htext ih, hput, List.nil_append]
  | _ => rfl

theorem word?_plain {w : List Char} {v : Value} (h : word? .strict w = some v) : v.Plain := by
  have hnumber (h : number? .strict w = some v) : v.Plain := by
    unfold number? at h
    split at h
    · cases h
    split at h
    next hinteger =>
      cases h
      exact .int (by simpa [Dialect.strict] using (Bool.and_eq_true_iff.1 hinteger).2)
    · obtain ⟨n, -, h⟩ := Option.bind_eq_some_iff.1 h
      simp only at h
      split at h
      next hfinite =>
        cases h
        exact .double (by simpa [Dialect.strict] using hfinite)
      · cases h
  unfold word? at h
  simp only [Dialect.strict, Bool.false_and, Bool.false_eq_true, if_false] at h
  split at h
  · cases h
    exact .null
  split at h
  · cases h
    exact .bool true
  split at h
  · cases h
    exact .bool false
  exact hnumber h

namespace Parser

def FramePlain : Frame → Prop
  | .items rev => ∀ v ∈ rev, v.Plain
  | .fields done => (Value.obj done).Plain
  | .member done _ => (Value.obj done).Plain

structure Sound (parser : Parser) : Prop where
  stack : ∀ frame ∈ parser.stack, FramePlain frame
  finished : ∀ v, parser.phase = .finished v → v.Plain

variable {stack : List Frame} {parser parser' : Parser} {token : Token}

theorem sound_complete {v : Value} (hv : v.Plain) (hstack : ∀ frame ∈ stack, FramePlain frame)
    (h : complete v stack = some parser') : parser'.Sound := by
  unfold complete at h
  split at h
  · cases h
    exact ⟨by simp, fun w hw => by cases hw; exact hv⟩
  next rev rest =>
    cases h
    obtain ⟨hrev, hrest⟩ := List.forall_mem_cons.1 hstack
    exact ⟨List.forall_mem_cons.2 ⟨List.forall_mem_cons.2 ⟨hv, hrev⟩, hrest⟩, by simp⟩
  next done key rest =>
    cases h
    obtain ⟨hdone, hrest⟩ := List.forall_mem_cons.1 hstack
    exact ⟨List.forall_mem_cons.2 ⟨Plain.put hdone key hv, hrest⟩, by simp⟩
  · cases h

theorem sound_push {frame : Frame} (hframe : FramePlain frame)
    (hstack : ∀ frame ∈ stack, FramePlain frame) (h : push .strict frame stack = some parser') :
    parser'.Sound := by
  unfold push at h
  split at h
  · cases h
  · cases h
    exact ⟨List.forall_mem_cons.2 ⟨hframe, hstack⟩, by simp⟩

theorem sound_value? (hstack : ∀ frame ∈ stack, FramePlain frame)
    (h : value? .strict stack token = some parser') : parser'.Sound := by
  cases token with
  | openList => exact sound_push (by simp [FramePlain]) hstack h
  | openObject => exact sound_push (show FramePlain (.fields []) from Plain.empty) hstack h
  | text s => exact sound_complete (.str s) hstack h
  | word w =>
    obtain ⟨v, hword, h⟩ := Option.bind_eq_some_iff.1 h
    exact sound_complete (word?_plain hword) hstack h
  | _ => cases h

theorem sound_close? (hstack : ∀ frame ∈ stack, FramePlain frame)
    (h : close? stack token = some parser') : parser'.Sound := by
  unfold close? at h
  split at h
  · obtain ⟨hrev, hrest⟩ := List.forall_mem_cons.1 hstack
    exact sound_complete (.arr fun v hv => hrev v (List.mem_reverse.1 hv)) hrest h
  · obtain ⟨hdone, hrest⟩ := List.forall_mem_cons.1 hstack
    exact sound_complete hdone hrest h
  · cases h

theorem sound_key? (hstack : ∀ frame ∈ stack, FramePlain frame)
    (h : key? stack token = some parser') : parser'.Sound := by
  unfold key? at h
  split at h
  · cases h
    obtain ⟨hdone, hrest⟩ := List.forall_mem_cons.1 hstack
    exact ⟨List.forall_mem_cons.2 ⟨hdone, hrest⟩, by simp⟩
  · cases h

theorem Sound.step (hparser : parser.Sound) (h : step .strict parser token = some parser') :
    parser'.Sound := by
  have hstack := hparser.stack
  unfold Parser.step at h
  split at h
  · exact sound_value? hstack h
  · rcases Option.or_eq_some_iff.1 h with hclose | ⟨-, hfirst⟩
    · exact sound_close? hstack hclose
    · split at hfirst
      · exact sound_key? hstack hfirst
      · exact sound_value? hstack hfirst
  · exact sound_key? hstack h
  · cases h
    exact ⟨hstack, by simp⟩
  · cases h
  · split at h <;> cases h <;> exact ⟨hstack, by simp⟩
  · exact sound_close? hstack h
  · cases h

theorem Sound.run (hparser : parser.Sound) {tokens : List Token}
    (h : tokens.foldlM (Parser.step .strict) parser = some parser') : parser'.Sound := by
  induction tokens generalizing parser with
  | nil =>
    cases h
    exact hparser
  | cons token rest ih =>
    rw [List.foldlM_cons] at h
    obtain ⟨next, hnext, h⟩ := Option.bind_eq_some_iff.1 h
    exact ih (hparser.step hnext) h

end Parser

theorem read?_plain {text : String} {v : Value} (h : read? .strict text = some v) : v.Plain := by
  obtain ⟨tokens, -, h⟩ := Option.bind_eq_some_iff.1 h
  obtain ⟨parser, hrun, hfinish⟩ := Option.bind_eq_some_iff.1 h
  have hparser := Parser.Sound.run ⟨by simp [Parser.start], by simp [Parser.start]⟩ hrun
  unfold Parser.finish at hfinish
  split at hfinish
  next w hw =>
    cases hfinish
    exact hparser.finished _ hw
  · cases hfinish

theorem readBytes?_plain {bytes : List UInt8} {v : Value} (h : readBytes? .strict bytes = some v) :
    v.Plain := by
  obtain ⟨text, -, h⟩ := Option.bind_eq_some_iff.1 h
  exact read?_plain h

end Json

end SignalCoach

import SignalCoach.Proofs.JsonLexing
import SignalCoach.Queue.Envelope

/-! Written documents are read back. Texts, 64-bit words and finite doubles come back as they were,
and the keys of an object as texts. -/
namespace SignalCoach

namespace Json

mutual
def reread : Value → Value
  | .double x => (word? .strict (doubleText x)).getD .null
  | .arr items => .arr (rereadItems items)
  | .obj fields => .obj (rereadFields [] fields)
  | v => v

def rereadItems : List Value → List Value
  | [] => []
  | v :: rest => reread v :: rereadItems rest

def rereadFields (done : Fields) : List (Key × Value) → Fields
  | [] => done
  | (k, v) :: rest => rereadFields (done.put (.text (keyText k)) (reread v)) rest
end

namespace Parser

def Awaits (parser : Parser) : Prop :=
  ∀ t, t ≠ .closeList → step .strict parser t = value? .strict parser.stack t

theorem awaits_value (stack : List Frame) : Awaits { stack, phase := .value } := fun _ _ => rfl

theorem awaits_first (rev : List Value) (stack : List Frame) :
    Awaits { stack := .items rev :: stack, phase := .first } := by
  intro t ht
  cases t <;> first | exact absurd rfl ht | rfl

def AwaitsKey (parser : Parser) : Prop :=
  ∀ s, step .strict parser (.text s) = key? parser.stack (.text s)

theorem awaitsKey_first (done : Fields) (stack : List Frame) :
    AwaitsKey { stack := .fields done :: stack, phase := .first } := fun _ => rfl

theorem awaitsKey_key (done : Fields) (stack : List Frame) :
    AwaitsKey { stack := .fields done :: stack, phase := .key } := fun _ => rfl

theorem push_eq {frame : Frame} {stack : List Frame} (h : stack.length < 1024) :
    push .strict frame stack = some { stack := frame :: stack, phase := .first } := by
  have hdepth : ¬ 1024 ≤ stack.length := by omega
  simp [push, Dialect.strict, hdepth]

theorem word?_true : word? .strict "true".toList = some (.bool true) := by
  rw [word?, String.ofList_toList]
  rfl

theorem word?_false : word? .strict "false".toList = some (.bool false) := by
  rw [word?, String.ofList_toList]
  rfl

theorem read_word {parser : Parser} (hparser : Awaits parser) {w : List Char} {v : Value}
    (hword : word? .strict w = some v) :
    [Token.word w].foldlM (step .strict) parser = complete v parser.stack := by
  rw [List.foldlM_cons, hparser _ (by simp), value?, hword, Option.bind_some]
  simp

mutual
theorem read_value (v : Value) {parser : Parser} (hparser : Awaits parser)
    (hv : isWritable v = true) (hdepth : parser.stack.length + v.depth ≤ 1024) :
    (tokensOf v).foldlM (step .strict) parser = complete (reread v) parser.stack := by
  match v with
  | .null => exact read_word hparser rfl
  | .bool true => exact read_word hparser word?_true
  | .bool false => exact read_word hparser word?_false
  | .int n => exact read_word hparser (word?_intText hv)
  | .double x =>
    rw [reread, word?_doubleText]
    exact read_word hparser (word?_doubleText x)
  | .str s =>
    rw [tokensOf, List.foldlM_cons, hparser _ (by simp)]
    simp [value?, reread]
  | .arr items =>
    have hdepth' : parser.stack.length + (Value.depthList items + 1) ≤ 1024 := hdepth
    rw [tokensOf, List.foldlM_cons, hparser _ (by simp), value?, push_eq (by omega), reread]
    cases items with
    | nil => simp [itemTokens, rereadItems, step, close?, value?]
    | cons item rest =>
      have hitems := read_items (item :: rest) (by simp) (awaits_first [] parser.stack) hv (by omega)
      rw [Option.bind_eq_bind, Option.bind_some, List.foldlM_append, hitems]
      simp [step, close?]
  | .obj fields =>
    have hdepth' : parser.stack.length + (Value.depthFields fields + 1) ≤ 1024 := hdepth
    rw [tokensOf, List.foldlM_cons, hparser _ (by simp), value?, push_eq (by omega), reread]
    cases fields with
    | nil => simp [fieldTokens, rereadFields, step, close?, key?]
    | cons field rest =>
      have hfields := read_fields (field :: rest) (by simp) (awaitsKey_first [] parser.stack) hv
        (by omega)
      rw [Option.bind_eq_bind, Option.bind_some, List.foldlM_append, hfields]
      simp [step, close?]

theorem read_items (items : List Value) (hne : items ≠ []) {rev : List Value}
    {stack : List Frame} {phase : Phase}
    (hparser : Awaits { stack := .items rev :: stack, phase }) (hv : itemsWritable items = true)
    (hdepth : stack.length + 1 + Value.depthList items ≤ 1024) :
    (itemTokens items).foldlM (step .strict) { stack := .items rev :: stack, phase } =
      some { stack := .items ((rereadItems items).reverse ++ rev) :: stack,
             phase := .separator } := by
  match items with
  | [] => exact absurd rfl hne
  | v :: rest =>
    rw [itemsWritable, Bool.and_eq_true] at hv
    rw [Value.depthList] at hdepth
    have hvalue := read_value v hparser hv.1 (by simp; omega)
    cases rest with
    | nil =>
      rw [itemTokens, hvalue]
      rfl
    | cons w others =>
      have hothers := read_items (w :: others) (by simp)
        (awaits_value (.items (reread v :: rev) :: stack)) hv.2 (by omega)
      rw [itemTokens, List.foldlM_append, hvalue]
      · simp [complete, step, hothers, rereadItems]
      · simp

theorem read_fields (fields : List (Key × Value)) (hne : fields ≠ []) {done : Fields}
    {stack : List Frame} {phase : Phase}
    (hparser : AwaitsKey { stack := .fields done :: stack, phase })
    (hv : fieldsWritable fields = true)
    (hdepth : stack.length + 1 + Value.depthFields fields ≤ 1024) :
    (fieldTokens fields).foldlM (step .strict) { stack := .fields done :: stack, phase } =
      some { stack := .fields (rereadFields done fields) :: stack, phase := .separator } := by
  match fields with
  | [] => exact absurd rfl hne
  | (.null, v) :: _ | (.bool _, v) :: _ | (.int _, v) :: _ | (.double _, v) :: _ => cases hv
  | (.text k, v) :: rest =>
    rw [fieldsWritable, Bool.and_eq_true] at hv
    rw [Value.depthFields] at hdepth
    have hvalue := read_value v (awaits_value (.member done k :: stack)) hv.1 (by simp; omega)
    cases rest with
    | nil =>
      rw [fieldTokens, List.foldlM_cons, hparser]
      simp [key?, step, hvalue, complete, rereadFields, keyText]
    | cons w others =>
      have hothers := read_fields (w :: others) (by simp)
        (awaitsKey_key (done.put (.text k) (reread v)) stack) hv.2 (by omega)
      rw [fieldTokens, List.foldlM_cons, hparser]
      · simp [key?, step, hvalue, complete, hothers, rereadFields, keyText]
      · simp
end

end Parser

theorem ofUtf8?_utf8 (s : String) : ofUtf8? (utf8 s) = some s := by
  have hbytes : (⟨(utf8 s).toArray⟩ : ByteArray) = s.toByteArray := by
    rw [utf8, String.toUTF8_eq_toByteArray, Array.toArray_toList]
  rw [ofUtf8?, hbytes, String.fromUTF8?, dif_pos s.isValidUTF8]
  rfl

theorem read?_compact {v : Value} (hv : isWritable v = true) (hdepth : v.depth ≤ 1024) :
    read? .strict (String.ofList (compact v)) = some (reread v) := by
  have hread := Parser.read_value v (Parser.awaits_value []) hv (by simpa using hdepth)
  rw [read?, String.toList_ofList, tokens?_compact, Option.bind_some, ofTokens?, Parser.start, hread]
  rfl

/-- A document that can be written is read back from its bytes. -/
theorem readBytes?_of_write? {v : Value} {bytes : List UInt8} (h : write? v = some bytes) :
    readBytes? .strict bytes = some (reread v) := by
  unfold write? at h
  split at h
  next hwritable =>
    obtain rfl := Option.some.inj h
    rw [Bool.and_eq_true, decide_eq_true_eq] at hwritable
    have hdepth : v.depth ≤ 1024 := hwritable.2.trans (by decide)
    rw [readBytes?, ofUtf8?_utf8, Option.bind_some, read?_compact hwritable.1 hdepth]
  next => cases h

end Json

end SignalCoach

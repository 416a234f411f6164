import SignalCoach.Proofs.DrawnIds
import SignalCoach.Proofs.EnvelopeRoundTrip

/-! Envelopes after a failed attempt. The reader takes counters of any size and data of any depth, the
writer does not; an envelope that was read can be written again just if it is rewritable, and then it
is read back with the same id, name and data. -/
namespace SignalCoach

theorem Value.depthFields_put_le (fields : Fields) (key : Key) (v : Value) :
    depthFields (Fields.put fields key v) ≤ max (depthFields fields) v.depth := by
  induction fields with
  | nil => simp [Fields.put, depthFields]
  | cons first rest ih =>
    unfold Fields.put
    split
    · simp only [depthFields]
      omega
    · simp only [depthFields]
      omega

namespace Json

mutual
theorem depth_reread_le : ∀ v : Value, (reread v).depth ≤ v.depth
  | .double x => by
    rw [reread, word?_doubleText]
    split <;> exact Nat.le_refl 0
  | .arr items => Nat.succ_le_succ (depthList_rereadItems_le items)
  | .obj fields => by
    have h := depthFields_rereadFields_le [] fields
    rw [Value.depthFields, Nat.zero_max] at h
    exact Nat.succ_le_succ h
  | .null | .bool _ | .int _ | .str _ => Nat.le_refl _

theorem depthList_rereadItems_le : ∀ items : List Value,
    Value.depthList (rereadItems items) ≤ Value.depthList items
  | [] => Nat.le_refl _
  | v :: rest => by
    have hv := depth_reread_le v
    have hrest := depthList_rereadItems_le rest
    simp only [rereadItems, Value.depthList]
    omega

theorem depthFields_rereadFields_le (done : Fields) : ∀ fields : List (Key × Value),
    Value.depthFields (rereadFields done fields) ≤
      max (Value.depthFields done) (Value.depthFields fields)
  | [] => Nat.le_max_left _ _
  | (k, v) :: rest => by
    have hv := depth_reread_le v
    have hput := Value.depthFields_put_le done (.text (keyText k)) (reread v)
    have hrest := depthFields_rereadFields_le (done.put (.text (keyText k)) (reread v)) rest
    simp only [rereadFields, Value.depthFields]
    omega
end

end Json

theorem Value.display_ne_empty {v : Value} (h : v.isFalsy = false) : v.display ≠ "" := by
  have hname {s : String} (hs : isPlainName s = false) : s ≠ "" := by
    rintro rfl
    exact absurd hs (by decide)
  have hlist {s t : String} (hs : s.toList ≠ []) : s ++ t ≠ "" := by
    intro hempty
    have hnil := congrArg String.toList hempty
    rw [String.toList_append] at hnil
    exact hs (List.append_eq_nil_iff.1 hnil).1
  cases v with
  | null => cases h
  | bool b => cases b <;> simp [display, quoted]
  | int n => exact hname (not_plainName_int n)
  | double x =>
    change Decimal.display x ≠ ""
    by_cases hnan : x.isNaN = true
    · simp [Decimal.display, hnan]
    by_cases hfinite : x.isFinite = true
    · exact hname (not_plainName_display (by simpa using hnan) hfinite)
    · cases hnegative : x.isNegative <;> simp [Decimal.display, hnan, hfinite, hnegative]
  | str s =>
    rintro rfl
    cases h
  | arr items => exact hlist (by simp)
  | obj fields => exact hlist (by simp)

namespace Envelope

theorem ofFields_data {fields : Fields} {name id : String} {data : Fields} {entry : Entry}
    {e : Envelope} (h : ofFields fields name data id entry = .ok e) : e.data = data := by
  unfold ofFields at h
  obtain ⟨attempts, -, h⟩ := Program.except_bind_eq_ok.1 h
  obtain ⟨maxAttempts, -, h⟩ := Program.except_bind_eq_ok.1 h
  obtain ⟨backoff, -, h⟩ := Program.except_bind_eq_ok.1 h
  obtain ⟨enqueuedAt, -, h⟩ := Program.except_bind_eq_ok.1 h
  obtain rfl := Except.ok.inj h
  rfl

theorem idOf_ne_empty (fields : Fields) (ids : IdSupply) : (idOf fields ids).1 ≠ "" := by
  unfold idOf
  simp only
  split
  · exact IdSupply.nameOf_ne_empty _
  next htruthy => exact Value.display_ne_empty (by simpa using htruthy)

variable {entry : Entry} {ids ids' : IdSupply} {e : Envelope}

theorem plain_of_decode (h : decode entry ids = (.ok e, ids')) :
    e.id ≠ "" ∧ (Value.obj e.data).Plain := by
  unfold decode at h
  split at h
  · cases h
  next fields hread =>
    split at h
    next name data hname hdata =>
      obtain ⟨hfields, -⟩ := Prod.mk.inj h
      rw [(ofFields_eq_ok hfields).1, ofFields_data hfields]
      exact ⟨idOf_ne_empty fields ids, (Json.readBytes?_plain hread).get? hdata⟩
    · cases h
  · cases h

/-- One more attempt can be counted in a word, the other counters are words, and the data leaves room
for the envelope around it. -/
def Rewritable (e : Envelope) : Prop :=
  isWord (e.attempts + 1) = true ∧ isWord e.maxAttempts = true ∧ isWord e.backoff = true ∧
    isWord e.enqueuedAt = true ∧ (Value.obj e.data).depth < Json.maxWrittenDepth

instance (e : Envelope) : Decidable e.Rewritable := inferInstanceAs (Decidable (_ ∧ _))

theorem plain_failed (h : (Value.obj e.data).Plain) (error : String) : (e.failed error).Plain where
  data := h
  lastError := .inr ⟨error, rfl⟩

theorem encode?_failed_isSome_iff (hplain : (Value.obj e.data).Plain) (error : String) :
    (e.failed error).encode?.isSome ↔ e.Rewritable := by
  rw [encode?_isSome_iff (plain_failed hplain error)]
  constructor
  · rintro ⟨hattempts, hmax, hbackoff, hat, hroom⟩
    exact ⟨hattempts, hmax, hbackoff, hat, hroom⟩
  · rintro ⟨hattempts, hmax, hbackoff, hat, hroom⟩
    exact ⟨hattempts, hmax, hbackoff, hat, hroom⟩

theorem decode_failed (h : decode entry ids = (.ok e, ids')) {error : String} {entry' : Entry}
    (hencode : (e.failed error).encode? = some entry') (ids : IdSupply) :
    decode entry' ids = (.ok { e.failed error with stored := some entry' }, ids) := by
  obtain ⟨hid, hplain⟩ := plain_of_decode h
  rw [decode_of_encode? hencode hid, reread_of_plain (plain_failed hplain error)]

end Envelope

end SignalCoach

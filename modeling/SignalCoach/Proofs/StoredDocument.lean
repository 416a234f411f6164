import SignalCoach.Proofs.DistinctKeys
import SignalCoach.Proofs.NumberText
import SignalCoach.Store.Basic

/-! Documents as they come back from the store: what is found there under a name, and which documents
come back as they were. -/
namespace SignalCoach

def keyWords : List String := ["null", "true", "false", "NaN", "Infinity"]

/-- A name that is no text of a number, of a boolean or of null. -/
def isPlainName (name : String) : Bool :=
  name.toList.all (fun c => c.isAlpha || c = '_') && !keyWords.contains name

theorem not_plainName {name : String} {c : Char} (hc : c ∈ name.toList)
    (hmark : (c.isAlpha || c = '_') = false) : isPlainName name = false := by
  rw [isPlainName, Bool.and_eq_false_iff]
  left
  rw [List.all_eq_false]
  exact ⟨c, hc, by simpa using hmark⟩

theorem mark_of_isDigit {c : Char} (h : c.isDigit) : (c.isAlpha || c = '_') = false := by
  have hne : c ≠ '_' := by
    rintro rfl
    cases h
  have hdigit : 48 ≤ c.val.toNat ∧ c.val.toNat ≤ 57 := by
    change (decide (c.val ≥ 48) && decide (c.val ≤ 57)) = true at h
    simpa [UInt32.le_iff_toNat_le] using h
  have hletter : c.isAlpha = false := by
    change (decide (c.val ≥ 65 ∧ c.val ≤ 90) ||
      (decide (c.val ≥ 97) && decide (c.val ≤ 122))) = false
    simp only [Bool.or_eq_false_iff, Bool.and_eq_false_iff, decide_eq_false_iff_not, ge_iff_le,
      UInt32.le_iff_toNat_le, UInt32.reduceToNat]
    omega
  simp [hletter, hne]

theorem not_plainName_digits (n : Nat) : isPlainName (Nat.repr n) = false := by
  obtain ⟨c, hc⟩ := List.exists_mem_of_ne_nil _ (Decimal.digits_ne_nil n)
  exact not_plainName hc (mark_of_isDigit (Decimal.isDigit_of_mem_digits hc))

theorem not_plainName_int (n : Int) : isPlainName (toString n) = false := by
  cases n with
  | ofNat m => exact not_plainName_digits m
  | negSucc m =>
    refine not_plainName (c := '-') ?_ (by decide)
    change '-' ∈ ("-" ++ Nat.repr (m + 1)).toList
    simp

theorem mark_mem_body (c : Nat) (e : Int) :
    ∃ m ∈ ['.', '+', '-'], m ∈ Decimal.plain.body c e := by
  unfold Decimal.Layout.body
  simp only
  split
  · refine ⟨'.', by simp, ?_⟩
    unfold Decimal.Layout.positional
    split
    · simp
    · simp only
      split <;> simp
  · unfold Decimal.Layout.scientific Decimal.Layout.exponentText
    simp only [Decimal.plain, if_true]
    by_cases h : e + ((Decimal.digits c).length : Int) - 1 < 0
    · exact ⟨'-', by simp, by simp [h]⟩
    · exact ⟨'+', by simp, by simp [h]⟩

theorem not_plainName_display {x : Double} (hnan : x.isNaN = false) (hfinite : x.isFinite) :
    isPlainName (Decimal.display x) = false := by
  have hmark : ∀ m ∈ ['.', '+', '-'], (Char.isAlpha m || m = '_') = false := by
    intro m hm
    simp only [List.mem_cons, List.not_mem_nil, or_false] at hm
    rcases hm with rfl | rfl | rfl <;> decide
  unfold Decimal.display
  simp only [hnan, hfinite, Bool.not_true, if_false, Bool.false_eq_true]
  unfold Decimal.Layout.write
  simp only
  obtain ⟨m, hm, hbody⟩ : ∃ m ∈ ['.', '+', '-'], m ∈ (if x.isZero then ['0', '.', '0']
      else Decimal.plain.body (Decimal.shortest x.magnitude).1 (Decimal.shortest x.magnitude).2) := by
    split
    · exact ⟨'.', by simp, by simp⟩
    · exact mark_mem_body _ _
  refine not_plainName (c := m) ?_ (hmark m hm)
  rw [String.toList_ofList]
  exact List.mem_append_right _ hbody

/-- No other key is stored as a plain name. -/
theorem Key.stored_eq_iff {name : String} (hname : isPlainName name) (k : Key) :
    k.stored = name ↔ k = .text name := by
  have hother {s : String} (h : isPlainName s = false) : s ≠ name := by
    rintro rfl
    rw [hname] at h
    cases h
  cases k with
  | text s => simp [stored]
  | null => simpa [stored] using hother (by decide)
  | bool b =>
    have hb : isPlainName (Key.bool b).stored = false := by cases b <;> decide
    simpa using hother hb
  | int n =>
    have hn : (Key.int n).stored ≠ name := hother (not_plainName_int n)
    simpa using hn
  | double x =>
    have hx : isPlainName (Key.double x).stored = false := by
      simp only [stored]
      split
      · decide
      next hnan =>
        split
        next hfinite => exact not_plainName_display (by simpa using hnan) hfinite
        · split <;> decide
    simpa using hother hx

namespace Fields

theorem get?_put (fields : Fields) (k : Key) (v : Value) (name : String) :
    Fields.get? (fields.put k v) name = if k = .text name then some v else Fields.get? fields name := by
  induction fields with
  | nil => rw [put, get?_cons]
  | cons head rest ih =>
    obtain ⟨k', v'⟩ := head
    unfold put
    split
    next hsame =>
      rw [get?_cons, get?_cons]
      have hiff : k' = .text name ↔ k = .text name := by
        constructor
        · rintro rfl
          exact (Key.text_same name k).1 hsame
        · rintro rfl
          exact (same_text k' name).1 hsame
      by_cases hk : k = .text name
      · rw [if_pos (hiff.2 hk), if_pos hk]
      · rw [if_neg (mt hiff.1 hk), if_neg hk, if_neg (mt hiff.1 hk)]
    next hother =>
      rw [get?_cons, get?_cons, ih]
      by_cases hk' : k' = .text name
      · have hk : k ≠ .text name := by
          rintro rfl
          exact hother (hk' ▸ Key.same_self_text name)
        rw [if_pos hk', if_neg hk, if_pos hk']
      · rw [if_neg hk', if_neg hk']

theorem get?_foldl_put {fields : Fields} (hdistinct : fields.DistinctKeys) {name : String}
    (key : Key → Key) (value : Value → Value) (hkey : ∀ k, key k = .text name ↔ k = .text name)
    (done : Fields) :
    Fields.get? ((fields.map fun entry => (key entry.1, value entry.2)).foldl
        (fun done (k, v) => Fields.put done k v) done) name =
      ((Fields.get? fields name).map value).or (Fields.get? done name) := by
  induction fields generalizing done with
  | nil => rfl
  | cons head rest ih =>
    obtain ⟨k, v⟩ := head
    rw [List.map_cons, List.foldl_cons, ih (List.pairwise_cons.1 hdistinct).2, get?_put, get?_cons]
    by_cases hk : k = .text name
    · rw [if_pos ((hkey k).2 hk), if_pos hk, hdistinct.get?_head hk]
      rfl
    · rw [if_neg (mt (hkey k).1 hk), if_neg hk]

theorem DistinctKeys.foldl_put (entries : Fields) {done : Fields} (hdone : done.DistinctKeys) :
    DistinctKeys (entries.foldl (fun done (k, v) => Fields.put done k v) done) := by
  induction entries generalizing done with
  | nil => exact hdone
  | cons head rest ih => exact ih (hdone.put head.1 head.2)

theorem put_of_new {fields : Fields} {k : Key} (hnew : ∀ entry ∈ fields, entry.1.same k = false)
    (v : Value) : fields.put k v = fields ++ [(k, v)] := by
  induction fields with
  | nil => rfl
  | cons head rest ih =>
    obtain ⟨hhead, hrest⟩ := List.forall_mem_cons.1 hnew
    rw [put, if_neg (by simp [hhead]), ih hrest, List.cons_append]

theorem foldl_put_of_distinct {done fields : Fields}
    (hdistinct : DistinctKeys (done ++ fields)) :
    fields.foldl (fun done (k, v) => Fields.put done k v) done = done ++ fields := by
  induction fields generalizing done with
  | nil => exact (List.append_nil done).symm
  | cons head rest ih =>
    have hnew : ∀ entry ∈ done, entry.1.same head.1 = false := fun entry hentry =>
      (List.pairwise_append.1 hdistinct).2.2 entry hentry head List.mem_cons_self
    have hsplit : done ++ [head] ++ rest = done ++ head :: rest := by simp
    change rest.foldl _ (done.put head.1 head.2) = _
    rw [put_of_new hnew head.2, ih (by rw [hsplit]; exact hdistinct), hsplit]

def stored (fields : Fields) : Fields :=
  (Value.storedFields fields).foldl (fun done (k, v) => Fields.put done k v) []

end Fields

namespace Value

theorem storedItems_eq (items : List Value) : storedItems items = items.map stored := by
  induction items with
  | nil => rfl
  | cons v rest ih => rw [storedItems, ih, List.map_cons]

theorem storedFields_eq (fields : Fields) :
    storedFields fields = fields.map fun entry => (.text entry.1.stored, entry.2.stored) := by
  induction fields with
  | nil => rfl
  | cons entry rest ih => rw [storedFields, ih, List.map_cons]

theorem stored_arr (items : List Value) : stored (.arr items) = .arr (items.map stored) := by
  rw [stored, storedItems_eq]

theorem stored_obj (fields : Fields) : stored (.obj fields) = .obj fields.stored := by
  rw [stored, Fields.stored]

end Value

namespace Fields

theorem stored_distinctKeys (fields : Fields) : fields.stored.DistinctKeys :=
  DistinctKeys.foldl_put _ List.Pairwise.nil

theorem get?_stored {fields : Fields} (hdistinct : fields.DistinctKeys) {name : String}
    (hname : isPlainName name) :
    Fields.get? fields.stored name = (Fields.get? fields name).map Value.stored := by
  have hkey (k : Key) : Key.text k.stored = .text name ↔ k = .text name := by
    rw [Key.text.injEq]
    exact Key.stored_eq_iff hname k
  rw [stored, Value.storedFields_eq,
    get?_foldl_put hdistinct (fun k => .text k.stored) Value.stored hkey, get?_nil, Option.or_none]

end Fields

namespace Value

mutual
def isTextKeyed : Value → Bool
  | .arr items => areTextKeyed items
  | .obj fields => haveTextKeys fields
  | _ => true

def areTextKeyed : List Value → Bool
  | [] => true
  | v :: rest => v.isTextKeyed && areTextKeyed rest

def haveTextKeys : List (Key × Value) → Bool
  | [] => true
  | (.text _, v) :: rest => v.isTextKeyed && haveTextKeys rest
  | _ => false
end

theorem areTextKeyed_iff {items : List Value} :
    areTextKeyed items = true ↔ ∀ v ∈ items, v.isTextKeyed = true := by
  induction items with
  | nil => simp [areTextKeyed]
  | cons v rest ih => simp [areTextKeyed, ih]

theorem haveTextKeys_iff {fields : Fields} :
    haveTextKeys fields = true ↔
      ∀ entry ∈ fields, (∃ s, entry.1 = .text s) ∧ entry.2.isTextKeyed = true := by
  induction fields with
  | nil => simp [haveTextKeys]
  | cons entry rest ih =>
    obtain ⟨k, v⟩ := entry
    cases k <;> simp [haveTextKeys, ih]

/-- A document with text keys, each of them once, comes back as it was. -/
theorem stored_eq_self {v : Value} (hdistinct : v.Distinct) (hkeys : v.isTextKeyed) :
    v.stored = v := by
  induction hdistinct with
  | arr _ ih =>
    rw [isTextKeyed, areTextKeyed_iff] at hkeys
    rw [stored_arr, List.map_congr_left fun v hv => ih v hv (hkeys v hv), List.map_id']
  | @obj fields hdistinct _ ih =>
    rw [isTextKeyed, haveTextKeys_iff] at hkeys
    have hentries : storedFields fields = fields := by
      rw [storedFields_eq]
      refine (List.map_congr_left fun entry hentry => ?_).trans (List.map_id fields)
      obtain ⟨⟨s, hs⟩, hvalue⟩ := hkeys entry hentry
      rw [ih entry hentry hvalue, hs, Key.stored, ← hs]
      rfl
    rw [stored_obj, Fields.stored, hentries, Fields.foldl_put_of_distinct (by simpa using hdistinct),
      List.nil_append]
  | _ => rfl

end Value

end SignalCoach

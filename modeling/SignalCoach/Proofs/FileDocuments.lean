import SignalCoach.File
import SignalCoach.Proofs.DistinctKeys
import SignalCoach.Proofs.Program

/-! What is read from files has no key twice: the rules and thresholds of rule sets, and snapshots. -/
namespace SignalCoach

namespace Checked

variable {α β : Type}

theorem map_eq_valid {f : α → β} {x : Checked α} {b : β} :
    f <$> x = .valid b ↔ ∃ a, x = .valid a ∧ f a = b := by
  change (both (.valid f) x).map _ = _ ↔ _
  cases x <;> simp [both, map]

theorem seq_eq_valid {f : Checked (α → β)} {x : Checked α} {b : β} :
    f <*> x = .valid b ↔ ∃ g a, f = .valid g ∧ x = .valid a ∧ g a = b := by
  change (both f x).map _ = _ ↔ _
  cases f <;> cases x <;> simp [both, map]

theorem within_eq_valid {x : Checked α} {step : Place} {a : α} :
    x.within step = .valid a ↔ x = .valid a := by
  cases x <;> simp [within]

theorem each_eq_valid {check : α → Checked β} {index : Nat} {items : List α} {results : List β}
    (h : each check index items = .valid results) : items.map check = results.map .valid := by
  induction items generalizing index results with
  | nil =>
    cases h
    rfl
  | cons a rest ih =>
    rw [each] at h
    cases hfirst : (check a).within (.index index) with
    | invalid issues => cases hrest : each check (index + 1) rest <;> simp [hfirst, hrest, both, map] at h
    | valid b =>
      cases hrest : each check (index + 1) rest with
      | invalid issues => simp [hfirst, hrest, both, map] at h
      | valid more =>
        simp only [hfirst, hrest, both, map, valid.injEq] at h
        rw [← h, List.map_cons, List.map_cons, within_eq_valid.1 hfirst, ih hrest]

theorem mem_of_each {check : α → Checked β} {index : Nat} {items : List α} {results : List β}
    (h : each check index items = .valid results) {b : β} (hb : b ∈ results) :
    ∃ a ∈ items, check a = .valid b :=
  List.mem_map.1 (each_eq_valid h ▸ List.mem_map_of_mem hb)

end Checked

namespace Check

variable {α : Type} {read : Value → Checked α} {name : String} {fields : Fields}

theorem withDefault_eq_valid {default a : α}
    (h : withDefault read name default fields = .valid a) :
    a = default ∨ ∃ v, Fields.get? fields name = some v ∧ read v = .valid a := by
  unfold withDefault at h
  split at h
  next v hv => exact .inr ⟨v, hv, Checked.within_eq_valid.1 h⟩
  next =>
    cases h
    exact .inl rfl

theorem optional_eq_valid {a : α} (h : optional read name fields = .valid (some a)) :
    ∃ v, Fields.get? fields name = some v ∧ read v = .valid a := by
  rcases withDefault_eq_valid h with hnone | ⟨v, hv, hread⟩
  · cases hnone
  · refine ⟨v, hv, ?_⟩
    unfold nullable at hread
    split at hread
    · cases hread
    · cases hvalue : read v with
      | valid b =>
        rw [hvalue] at hread
        cases hread
        rfl
      | invalid issues =>
        rw [hvalue] at hread
        cases hread

theorem textKeyed_eq_valid {v : Value} {members : Fields} (h : textKeyed v = .valid members) :
    v = .obj members := by
  unfold textKeyed at h
  split at h
  · simp only at h
    split at h
    · cases h
      rfl
    · cases h
  · cases h

theorem record_eq_valid {v : Value} {read : Fields → Checked α} {a : α}
    (h : record v read = .valid a) : ∃ fields, v = .obj fields ∧ read fields = .valid a := by
  unfold record at h
  split at h
  next fields => exact ⟨fields, rfl, h⟩
  next => cases h

end Check

open Check

theorem Value.Distinct.getD {fields : Fields} (h : (Value.obj fields).Distinct) (name : String) :
    ((Fields.get? fields name).getD .null).Distinct := by
  cases hv : Fields.get? fields name with
  | none => exact .null
  | some v => exact h.get? hv

theorem TagEntry.rule_distinct {v : Value} {entry : TagEntry} (hv : v.Distinct)
    (h : TagEntry.read v = .valid entry) : entry.rule.Distinct := by
  obtain ⟨fields, rfl, h⟩ := record_eq_valid h
  obtain ⟨_, rule, h₅, hrule, rfl⟩ := Checked.seq_eq_valid.1 h
  obtain ⟨_, description, h₄, -, rfl⟩ := Checked.seq_eq_valid.1 h₅
  obtain ⟨_, category, h₃, -, rfl⟩ := Checked.seq_eq_valid.1 h₄
  obtain ⟨_, severity, h₂, -, rfl⟩ := Checked.seq_eq_valid.1 h₃
  obtain ⟨_, name, h₁, -, rfl⟩ := Checked.seq_eq_valid.1 h₂
  obtain ⟨key, -, rfl⟩ := Checked.map_eq_valid.1 h₁
  cases hrule
  exact hv.getD "rule"

namespace RuleSetEntry

theorem checkKeys_eq_valid {entry entry' : RuleSetEntry} (h : checkKeys entry = .valid entry') :
    entry' = entry := by
  unfold checkKeys at h
  split at h
  · cases h
    rfl
  · cases h

/-- Thresholds and rules of a rule set have no key twice. -/
theorem read_distinct {v : Value} {entry : RuleSetEntry} (hv : v.Distinct)
    (h : RuleSetEntry.read v = .valid entry) :
    (Value.ofOption .obj entry.thresholds).Distinct ∧ ∀ tag ∈ entry.tags, tag.rule.Distinct := by
  obtain ⟨unchecked, hunchecked, rfl⟩ : ∃ unchecked, (record v fun fields =>
      RuleSetEntry.mk <$> required string "name" fields <*> optional string "owner_id" fields <*>
        optional string "summary" fields <*> optional textKeyed "thresholds" fields <*>
        withDefault (list TagEntry.read) "tags" [] fields) = .valid unchecked ∧ unchecked = entry := by
    unfold read Checked.andThen at h
    split at h
    next unchecked hunchecked => exact ⟨unchecked, hunchecked, (checkKeys_eq_valid h).symm⟩
    next => cases h
  obtain ⟨fields, rfl, h₅⟩ := record_eq_valid hunchecked
  obtain ⟨_, tags, h₄, htags, rfl⟩ := Checked.seq_eq_valid.1 h₅
  obtain ⟨_, thresholds, h₃, hthresholds, rfl⟩ := Checked.seq_eq_valid.1 h₄
  obtain ⟨_, summary, h₂, -, rfl⟩ := Checked.seq_eq_valid.1 h₃
  obtain ⟨_, owner, h₁, -, rfl⟩ := Checked.seq_eq_valid.1 h₂
  obtain ⟨name, -, rfl⟩ := Checked.map_eq_valid.1 h₁
  constructor
  · cases thresholds with
    | none => exact .null
    | some members =>
      obtain ⟨w, hw, hread⟩ := optional_eq_valid hthresholds
      obtain rfl := textKeyed_eq_valid hread
      exact hv.get? hw
  · intro tag htag
    rcases withDefault_eq_valid htags with rfl | ⟨w, hw, hread⟩
    · cases htag
    · have hdistinct := hv.get? hw
      cases hdistinct with
      | arr hitems =>
        obtain ⟨item, hitem, hitemRead⟩ := Checked.mem_of_each hread htag
        exact TagEntry.rule_distinct (hitems item hitem) hitemRead
      | _ => cases hread

theorem drawTags_rule {entries : List TagEntry} {ids : IdSupply} :
    ∀ tag ∈ (drawTags entries ids).1, ∃ entry ∈ entries, tag.rule = entry.rule := by
  induction entries generalizing ids with
  | nil => simp [drawTags]
  | cons entry rest ih =>
    intro tag htag
    rcases List.mem_cons.1 htag with rfl | hrest
    · exact ⟨entry, List.mem_cons_self, rfl⟩
    · obtain ⟨other, hother, hrule⟩ := ih tag hrest
      exact ⟨other, List.mem_cons_of_mem entry hother, hrule⟩

end RuleSetEntry

theorem readFile_distinct {text : Option String} {v : Value} (h : readFile text = .ok v) :
    v.Distinct := by
  unfold readFile at h
  split at h
  · cases h
  · split at h
    next hread =>
      cases h
      exact Yaml.read_distinct hread
    next => cases h
    next => cases h

theorem RuleSet.ofFile_distinct {text : Option String} {ids ids' : IdSupply} {set : RuleSet}
    (h : RuleSet.ofFile text ids = .ok (set, ids')) :
    set.thresholds.Distinct ∧ ∀ tag ∈ set.tags, tag.rule.Distinct := by
  obtain ⟨v, hv, h⟩ := Program.except_bind_eq_ok.1 h
  have hdistinct : (if v.isFalsy then .obj [] else v : Value).Distinct := by
    split
    · exact .empty
    · exact readFile_distinct hv
  unfold ofEntry at h
  split at h
  next entry hentry =>
    obtain ⟨hthresholds, htags⟩ := RuleSetEntry.read_distinct hdistinct hentry
    cases h
    refine ⟨hthresholds, fun tag htag => ?_⟩
    obtain ⟨source, hsource, hrule⟩ := RuleSetEntry.drawTags_rule tag htag
    exact hrule ▸ htags source hsource
  next => cases h

theorem snapshotOfFile_distinct {text : Option String} {features payload : Value}
    (h : snapshotOfFile text = .ok (features, payload)) : features.Distinct ∧ payload.Distinct := by
  obtain ⟨v, hv, h⟩ := Program.except_bind_eq_ok.1 h
  have hdistinct := readFile_distinct hv
  split at h
  next fields =>
    split at h
    next found hfound =>
      cases h
      exact ⟨hdistinct.get? hfound, hdistinct.getD "payload"⟩
    next =>
      cases h
      exact ⟨hdistinct, .null⟩
  next =>
    cases h
    exact ⟨hdistinct, .null⟩

end SignalCoach

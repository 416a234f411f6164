import SignalCoach.Proofs.FileDocuments
import SignalCoach.Proofs.NumberText
import SignalCoach.Rule.Holds
import SignalCoach.Rule.Reader

/-! An operand resolves to the same number as it was written and as it was read, just if its reader
makes no number of a boolean or of a text in it. -/
namespace SignalCoach

namespace Double

theorem isNaN_of_ofInt? {n : Int} {x : Double} (h : ofInt? n = some x) : x.isNaN = false := by
  unfold ofInt? at h
  simp only at h
  split at h
  next hm =>
    cases h
    have hfinite := isFinite_ofMagnitude (n < 0) hm
    have hless := of_decide_eq_true hfinite
    exact decide_eq_false (Nat.not_lt.2 (Nat.le_of_lt hless))
  · cases h

end Double

theorem Checked.map_some_ne_none {α : Type} (x : Checked α) : x.map some ≠ .valid none := by
  cases x <;> simp [Checked.map]

theorem Check.optional_eq_none {α : Type} {read : Value → Checked α} {name : String} {fields : Fields}
    (h : optional read name fields = .valid none) : (Fields.get? fields name).getD .null = .null := by
  unfold optional withDefault at h
  cases hget : Fields.get? fields name with
  | none => rfl
  | some v =>
    rw [hget] at h
    have hv := Checked.within_eq_valid.1 h
    cases v with
    | null => rfl
    | _ => exact absurd hv (Checked.map_some_ne_none _)

namespace Feature

/-- The number that a reader makes of a boolean or of a text. -/
def coerced? : Value → Option Double
  | .bool b => some (if b then .one else .zero)
  | .str s => (Check.doubleText? s).filter (!·.isNaN)
  | _ => none

theorem number?_of_double {v : Value} {x : Double} (h : Check.double v = .valid x) :
    (coerced? v).elim (number? v) (.ok ∘ some) = .ok ((some x).filter (!·.isNaN)) := by
  cases v with
  | int n =>
    cases hn : Double.ofInt? n with
    | none => simp [Check.double, hn, Checked.fault] at h
    | some y =>
      simp only [Check.double, hn, Checked.valid.injEq] at h
      simp [coerced?, number?, hn, ← h, Option.filter_some, Double.isNaN_of_ofInt? hn]
  | double y =>
    cases h
    cases hx : x.isNaN <;> simp [coerced?, number?, Option.filter_some, hx]
  | bool b =>
    cases h
    cases b <;> rfl
  | str s =>
    cases hs : Check.doubleText? s with
    | none => simp [Check.double, hs, Checked.fault] at h
    | some y =>
      simp only [Check.double, hs, Checked.valid.injEq] at h
      cases hx : x.isNaN <;> simp [coerced?, number?, Option.filter_some, hs, h, hx]
  | _ => cases h

theorem number?_of_optional {fields : Fields} {name : String} {value : Option Double}
    (h : Check.optional Check.double name fields = .valid value) :
    (coerced? ((Fields.get? fields name).getD .null)).elim
      (number? ((Fields.get? fields name).getD .null)) (.ok ∘ some) =
        .ok (value.filter (!·.isNaN)) := by
  cases value with
  | some x =>
    obtain ⟨v, hv, hread⟩ := Check.optional_eq_valid h
    rw [hv]
    exact number?_of_double hread
  | none =>
    rw [Check.optional_eq_none h]
    rfl

namespace Context

theorem resolvePath_of_optional {fields : Fields} {name : String} {path : Option String}
    (h : Check.optional Check.string name fields = .valid path) (context : Context) :
    (match Fields.get? fields name with
      | some (.str path) => context.resolvePath path
      | _ => pure none) =
      path.elim (.ok none) context.resolvePath := by
  cases path with
  | some path =>
    obtain ⟨v, hv, hread⟩ := Check.optional_eq_valid h
    cases v with
    | str s =>
      cases hread
      simp only [hv, Option.elim_some]
    | _ => cases hread
  | none =>
    have hnull := Check.optional_eq_none h
    cases hget : Fields.get? fields name with
    | none => rfl
    | some v =>
      rw [hget] at hnull
      cases hnull
      rfl

end Context

end Feature

namespace Rule

open Feature

def Operand.coerced? : Value → Option Double
  | .bool b => Feature.coerced? (.bool b)
  | .obj fields => Feature.coerced? ((Fields.get? fields "value").getD .null)
  | _ => none

theorem Reference.resolve_of_read {fields : Fields} {r : Reference}
    (h : Reference.read (.obj fields) = .valid r) (context : Context) :
    r.resolve context =
      (Operand.coerced? (.obj fields)).elim (context.resolveValue (.obj fields)) (.ok ∘ some) := by
  obtain ⟨_, path, hvalue, hpath, rfl⟩ := Checked.seq_eq_valid.1 h
  obtain ⟨value, hnumber, rfl⟩ := Checked.map_eq_valid.1 hvalue
  have hnumber := number?_of_optional hnumber
  have hread : (Reference.mk value path).resolve context =
      (value.filter (!·.isNaN)).elim (path.elim (.ok none) context.resolvePath) (.ok ∘ some) := by
    unfold Reference.resolve
    cases value.filter (!·.isNaN) <;> cases path <;> rfl
  have hwritten : context.resolveValue (.obj fields) =
      number? ((Fields.get? fields "value").getD .null) >>= fun x =>
        x.elim (path.elim (.ok none) context.resolvePath) (.ok ∘ some) := by
    rw [← context.resolvePath_of_optional hpath]
    change number? ((Fields.get? fields "value").getD .null) >>= _ = _
    refine congrArg _ (funext fun x => ?_)
    cases x <;> rfl
  rw [hread, hwritten]
  change _ = (Feature.coerced? ((Fields.get? fields "value").getD .null)).elim _ _
  cases hcoerced : Feature.coerced? ((Fields.get? fields "value").getD .null) with
  | some x =>
    rw [hcoerced] at hnumber
    rw [← Except.ok.inj hnumber]
    rfl
  | none =>
    rw [hcoerced, Option.elim_none] at hnumber
    rw [Option.elim_none, hnumber]
    rfl

theorem Operand.read_cases {raw : Value} {operand : Operand} (h : Operand.read raw = .valid operand) :
    (∃ s, raw = .str s ∧ operand = .path s) ∨
    (∃ fields r, raw = .obj fields ∧ Reference.read raw = .valid r ∧ operand = .reference r) ∨
    ∃ x, (∀ s, raw ≠ .str s) ∧ (∀ fields, raw ≠ .obj fields) ∧ Check.double raw = .valid x ∧
      operand = .number x := by
  cases raw with
  | str s =>
    cases h
    exact .inl ⟨s, rfl, rfl⟩
  | obj fields =>
    cases hread : Reference.read (.obj fields) with
    | valid r =>
      simp only [Operand.read, Checked.firstOf, Check.double, Check.string, Checked.fault, Checked.map,
        hread, Checked.valid.injEq] at h
      exact .inr (.inl ⟨fields, r, rfl, rfl, h.symm⟩)
    | invalid issues =>
      simp [Operand.read, Checked.firstOf, Check.double, Check.string, Checked.fault, Checked.map,
        hread] at h
  | null => cases h
  | arr items => cases h
  | bool b =>
    cases h
    exact .inr (.inr ⟨_, by simp, by simp, rfl, rfl⟩)
  | double x =>
    cases h
    exact .inr (.inr ⟨_, by simp, by simp, rfl, rfl⟩)
  | int n =>
    cases hread : Check.double (.int n) with
    | valid x =>
      simp only [Operand.read, Checked.firstOf, hread, Checked.map, Checked.valid.injEq] at h
      exact .inr (.inr ⟨x, by simp, by simp, rfl, h.symm⟩)
    | invalid issues =>
      simp [Operand.read, Reference.read, Check.record, Checked.firstOf, hread, Check.string,
        Checked.fault, Checked.map] at h

theorem Operand.resolve_eq_of_read {raw : Value} {operand : Operand}
    (h : Operand.read raw = .valid operand) (context : Context) :
    operand.resolve context = (coerced? raw).elim (context.resolveValue raw) (.ok ∘ some) := by
  rcases Operand.read_cases h with ⟨s, rfl, rfl⟩ | ⟨fields, r, rfl, hread, rfl⟩ |
    ⟨x, htext, hobject, hdouble, rfl⟩
  · rfl
  · exact Reference.resolve_of_read hread context
  · have hnumber := number?_of_double hdouble
    have hresolve : (Operand.number x).resolve context = .ok ((some x).filter (!·.isNaN)) := by
      cases hx : x.isNaN <;> simp [Operand.resolve, Option.filter_some, hx]
    rw [hresolve, ← hnumber]
    cases raw with
    | str s => exact absurd rfl (htext s)
    | obj fields => exact absurd rfl (hobject fields)
    | _ => rfl

/-- Where the reader makes a number, there is none in the operand as it was written. -/
theorem Operand.resolveValue_of_coerced {raw : Value} {x : Double} (h : coerced? raw = some x) :
    Context.resolveValue ⟨.null, .null⟩ raw = .ok none := by
  have hnothing (path : String) : Context.resolvePath ⟨.null, .null⟩ path = .ok none := by
    have hnull (segments : List String) : lookup .null segments = .null := by
      induction segments with
      | nil => rfl
      | cons segment rest ih => exact ih
    unfold Context.resolvePath
    cases splitPath path with
    | nil => rfl
    | cons segment rest => simp only [hnull, number?]
  have hnumber {v : Value} (hv : Feature.coerced? v = some x) : number? v = .ok none := by
    cases v with
    | bool b => rfl
    | str s => rfl
    | _ => cases hv
  cases raw with
  | bool b => rfl
  | obj fields =>
    have hnumber := hnumber h
    unfold Context.resolveValue
    simp only [hnumber, bind, Except.bind]
    split
    · exact hnothing _
    · rfl
  | _ => cases h

/-- An operand that was read resolves to the number that it resolves to as it was written, or to the
one that its reader made; and to the former in every context just if the reader made none. -/
theorem Operand.resolve_agrees_iff {raw : Value} {operand : Operand}
    (h : Operand.read raw = .valid operand) :
    (∀ context, operand.resolve context =
      (coerced? raw).elim (context.resolveValue raw) (.ok ∘ some)) ∧
    ((∀ context : Context, context.resolveValue raw = operand.resolve context) ↔
      coerced? raw = none) := by
  have hresolve := Operand.resolve_eq_of_read h
  refine ⟨hresolve, fun hagree => ?_, fun hnone context => ?_⟩
  · cases hcoerced : coerced? raw with
    | none => rfl
    | some x =>
      have hempty := (hagree ⟨.null, .null⟩).symm.trans (Operand.resolveValue_of_coerced hcoerced)
      rw [hresolve, hcoerced] at hempty
      cases hempty
  · rw [hresolve, hnone]
    rfl

/-- A text for the value of a reference, which as it was written stands for the path beside it. -/
def textValued : Value := .object [("value", .str "3"), ("path", .str "price")]

theorem Operand.resolve_agrees_iff_textValued :
    Operand.read textValued = .valid (.reference ⟨some ⟨0x4008000000000000⟩, some "price"⟩) ∧
      (∀ context, Operand.resolve (.reference ⟨some ⟨0x4008000000000000⟩, some "price"⟩) context =
        .ok (some ⟨0x4008000000000000⟩)) ∧
      ¬ ∀ context : Context, context.resolveValue textValued =
        Operand.resolve (.reference ⟨some ⟨0x4008000000000000⟩, some "price"⟩) context := by
  have hread : Operand.read textValued =
      .valid (.reference ⟨some ⟨0x4008000000000000⟩, some "price"⟩) := by rfl
  have hcoerced : Operand.coerced? textValued = some ⟨0x4008000000000000⟩ := by rfl
  obtain ⟨hresolve, hagree⟩ := Operand.resolve_agrees_iff hread
  refine ⟨hread, fun context => ?_, fun hall => ?_⟩
  · rw [hresolve, hcoerced]
    rfl
  · rw [hagree.1 hall] at hcoerced
    cases hcoerced

/-- A boolean is read as a number: the operands `true` and `{"value": true}` resolve to one once they
are read, and to nothing as they are written. -/
theorem Operand.not_always_resolved_alike :
    ¬ ∀ (raw : Value) (operand : Operand) (context : Context), Operand.read raw = .valid operand →
      context.resolveValue raw = operand.resolve context := by
  intro hall
  have hwritten := hall (.object [("value", .bool true)]) (.reference ⟨some .one, none⟩)
    ⟨.object [], .object []⟩ rfl
  cases hwritten

end Rule
end SignalCoach

import SignalCoach.Proofs.OperandReading
import SignalCoach.Proofs.WireForms

/-! The places of a rule where conditions stand: members of its lists, and conditions on higher
timeframes inside them, at any depth. A rule is read condition by condition: at each place it has
what the condition there reads as. -/
namespace SignalCoach

namespace Checked

variable {α β : Type} {check : α → Checked β}

theorem map_bind {a? : Option α} {b? : Option β} (h : a?.map check = b?.map .valid)
    {f : α → Option α} {g : β → Option β}
    (hnext : ∀ a b, check a = .valid b → (f a).map check = (g b).map .valid) :
    (a?.bind f).map check = (b?.bind g).map .valid := by
  cases a? with
  | none =>
    rw [Option.map_eq_none_iff.1 h.symm]
    rfl
  | some a =>
    obtain ⟨b, rfl, hb⟩ := Option.map_eq_some_iff.1 h.symm
    exact hnext a b hb.symm

theorem each_getElem? {index : Nat} {items : List α} {results : List β}
    (h : each check index items = .valid results) (i : Nat) :
    items[i]?.map check = results[i]?.map .valid := by
  rw [← List.getElem?_map, ← List.getElem?_map, each_eq_valid h]

end Checked

namespace Check

variable {α : Type} {read : Value → Checked α} {name : String} {fields : Fields}

theorem required_eq_valid {a : α} (h : required read name fields = .valid a) :
    ∃ v, Fields.get? fields name = some v ∧ read v = .valid a := by
  unfold required at h
  cases hget : Fields.get? fields name with
  | some v =>
    rw [hget] at h
    exact ⟨v, rfl, Checked.within_eq_valid.1 h⟩
  | none =>
    rw [hget] at h
    cases h

theorem optional_cases {result : Option α} (h : optional read name fields = .valid result) :
    Value.member name (.obj fields) = .null ∧ result = none ∨
      ∃ v a, Value.member name (.obj fields) = v ∧ read v = .valid a ∧ result = some a := by
  cases result with
  | none => exact .inl ⟨optional_eq_none h, rfl⟩
  | some a =>
    obtain ⟨v, hget, hread⟩ := optional_eq_valid h
    exact .inr ⟨v, a, by rw [Value.member, hget, Option.getD_some], hread, rfl⟩

end Check

namespace Rule

open Check

/-- A rule as it is read from an object, or from JSON text or bytes that write one. -/
inductive ReadFrom (document : Value) : Except Rejection Rule → Prop where
  | object {fields : Fields} (h : document = .obj fields) : ReadFrom document (read document)
  | text {text : String} (h : Json.read? .strict text = some document) :
    ReadFrom document (read (.str text))
  | bytes {bytes : List UInt8} (h : Json.readBytes? .strict bytes = some document) :
    ReadFrom document (readBytes bytes)

theorem ReadFrom.eq_ofDocument {document : Value} {result : Except Rejection Rule}
    (h : ReadFrom document result) : result = ofDocument document := by
  cases h with
  | object h =>
    subst h
    rfl
  | text h => rw [read, h, ofJson]
  | bytes h => rw [readBytes, h, ofJson]

theorem Kind.name_inj {k k' : Kind} : k.name = k'.name ↔ k = k' := by
  cases k <;> cases k' <;> decide

namespace Condition

theorem readFields_kind {kind : Kind} {inner : Value → Checked Condition} {fields : Fields}
    {c : Condition} (h : readFields kind inner fields = .valid c) : c.kind = kind := by
  cases kind with
  | compare =>
    obtain ⟨_, _, h₂, -, rfl⟩ := Checked.seq_eq_valid.1 h
    obtain ⟨_, _, h₁, -, rfl⟩ := Checked.seq_eq_valid.1 h₂
    obtain ⟨_, -, rfl⟩ := Checked.map_eq_valid.1 h₁
    rfl
  | touch =>
    obtain ⟨_, _, h₂, -, rfl⟩ := Checked.seq_eq_valid.1 h
    obtain ⟨_, _, h₁, -, rfl⟩ := Checked.seq_eq_valid.1 h₂
    obtain ⟨_, -, rfl⟩ := Checked.map_eq_valid.1 h₁
    rfl
  | cross =>
    obtain ⟨_, _, h₃, -, rfl⟩ := Checked.seq_eq_valid.1 h
    obtain ⟨_, _, h₂, -, rfl⟩ := Checked.seq_eq_valid.1 h₃
    obtain ⟨_, _, h₁, -, rfl⟩ := Checked.seq_eq_valid.1 h₂
    obtain ⟨_, -, rfl⟩ := Checked.map_eq_valid.1 h₁
    rfl
  | marketOpen =>
    obtain ⟨_, -, rfl⟩ := Checked.map_eq_valid.1 h
    rfl
  | higherTimeframe =>
    obtain ⟨_, _, h₁, -, rfl⟩ := Checked.seq_eq_valid.1 h
    obtain ⟨_, -, rfl⟩ := Checked.map_eq_valid.1 h₁
    rfl

theorem readFields_inner {kind : Kind} {inner : Value → Checked Condition} {fields : Fields}
    {timeframe : Timeframe} {c : Condition}
    (h : readFields kind inner fields = .valid (.higherTimeframe timeframe c)) :
    ∃ v, Fields.get? fields "condition" = some v ∧ inner v = .valid c := by
  obtain rfl : Kind.higherTimeframe = kind := readFields_kind h
  obtain ⟨_, _, htimeframe, hinner, heq⟩ := Checked.seq_eq_valid.1 h
  obtain ⟨_, -, rfl⟩ := Checked.map_eq_valid.1 htimeframe
  cases heq
  exact required_eq_valid hinner

/-- A condition that is read is of the kind that stands in its folded form, which selects the
members that are read. -/
theorem read_eq_valid {v : Value} {c : Condition} (h : Condition.read v = .valid c) :
    ∃ fields, unwrap v = .obj fields ∧ Fields.get? fields "kind" = some (.str c.kind.name) ∧
      readFields c.kind Condition.read fields = .valid c := by
  change readAt (v.depth + 1) v = .valid c at h
  unfold readAt at h
  split at h
  next fields hunwrap =>
    split at h
    · cases h
    next name hkind =>
      split at h
      next kind hname =>
        have hdepth : readFields kind (readAt v.depth) fields =
            readFields kind Condition.read fields :=
          readFields_congr kind fun entry hentry =>
            readAt_of_depth_lt (unwrap_depth hunwrap entry hentry) (Nat.lt_succ_self _)
        have hfields := hdepth ▸ Checked.within_eq_valid.1 h
        obtain rfl : c.kind = kind := readFields_kind hfields
        have hname : c.kind.name = name := by simpa using List.find?_some hname
        exact ⟨fields, hunwrap, hname ▸ hkind, hfields⟩
      · cases h
    · cases h
  · cases h

/-- The condition inside one whose folded form is of the kind for higher timeframes. -/
def inside? (v : Value) : Option Value :=
  match unwrap v with
  | .obj fields =>
    match Fields.get? fields "kind" with
    | some (.str name) =>
      if name = Kind.higherTimeframe.name then Fields.get? fields "condition" else none
    | _ => none
  | _ => none

def inner? : Condition → Option Condition
  | .higherTimeframe _ inner => some inner
  | _ => none

def insideAt? : Nat → Value → Option Value
  | 0, v => some v
  | depth + 1, v => (inside? v).bind (insideAt? depth)

def innerAt? : Nat → Condition → Option Condition
  | 0, c => some c
  | depth + 1, c => c.inner?.bind (innerAt? depth)

theorem map_read_inside? {v : Value} {c : Condition} (h : Condition.read v = .valid c) :
    (inside? v).map Condition.read = c.inner?.map .valid := by
  obtain ⟨fields, hunwrap, hkind, hfields⟩ := read_eq_valid h
  simp only [inside?, hunwrap, hkind]
  cases c with
  | higherTimeframe timeframe inner =>
    obtain ⟨w, hget, hread⟩ := readFields_inner hfields
    rw [show (higherTimeframe timeframe inner).kind = .higherTimeframe from rfl, if_pos rfl, hget]
    exact congrArg some hread
  | _ =>
    rw [if_neg (by simp [Kind.name_inj, kind])]
    rfl

theorem map_read_insideAt? {v : Value} {c : Condition} (h : Condition.read v = .valid c)
    (depth : Nat) : (insideAt? depth v).map Condition.read = (c.innerAt? depth).map .valid := by
  induction depth generalizing v c with
  | zero => exact congrArg some h
  | succ depth ih =>
    unfold insideAt? innerAt?
    exact Checked.map_bind (map_read_inside? h) fun _ _ hread => ih hread

end Condition

inductive Listing where
  | allOf | anyOf
deriving DecidableEq

def Listing.name : Listing → String
  | .allOf => "all_of"
  | .anyOf => "any_of"

def Listing.conditions : Listing → Group → Option (List Condition)
  | .allOf, group => group.allOf
  | .anyOf, group => group.anyOf

structure Spot where
  listing : Listing
  index : Nat
  depth : Nat
deriving DecidableEq

namespace Spot

def document? (spot : Spot) (rule : Value) : Option Value :=
  match (rule.member "when").member spot.listing.name with
  | .arr items => items[spot.index]?.bind (Condition.insideAt? spot.depth)
  | _ => none

def node? (spot : Spot) (rule : Rule) : Option Condition :=
  (rule.when.bind spot.listing.conditions).bind fun conditions =>
    conditions[spot.index]?.bind (Condition.innerAt? spot.depth)

end Spot

theorem ofDocument_eq_ok {document : Value} {rule : Rule} (h : ofDocument document = .ok rule) :
    ∃ fields, document = .obj fields ∧ optional Group.read "when" fields = .valid rule.when := by
  cases document with
  | obj fields =>
    unfold ofDocument at h
    cases hfields : readFields fields with
    | invalid issues => simp [hfields] at h
    | valid rule' =>
      simp only [hfields, Except.ok.injEq] at h
      subst h
      obtain ⟨_, traffic, hscore, -, rfl⟩ := Checked.seq_eq_valid.1 hfields
      obtain ⟨_, score, hwhen, -, rfl⟩ := Checked.seq_eq_valid.1 hscore
      obtain ⟨group?, hgroup, rfl⟩ := Checked.map_eq_valid.1 hwhen
      exact ⟨fields, rfl, hgroup⟩
  | _ => cases h

theorem Group.read_listing {fields : Fields} {group : Group}
    (h : Group.read (.obj fields) = .valid group) (listing : Listing) :
    optional (list Condition.read) listing.name fields = .valid (listing.conditions group) := by
  obtain ⟨_, anyOf, hfirst, hany, rfl⟩ := Checked.seq_eq_valid.1 h
  obtain ⟨allOf, hall, rfl⟩ := Checked.map_eq_valid.1 hfirst
  cases listing with
  | allOf => exact hall
  | anyOf => exact hany

namespace Spot

theorem map_read_document? {document : Value} {rule : Rule} (h : ReadFrom document (.ok rule))
    (spot : Spot) :
    (spot.document? document).map Condition.read = (spot.node? rule).map .valid := by
  obtain ⟨fields, rfl, hwhen⟩ := ofDocument_eq_ok h.eq_ofDocument.symm
  unfold document? node?
  rcases optional_cases hwhen with ⟨hnull, hnone⟩ | ⟨v, group, hv, hread, hsome⟩
  · rw [hnull, hnone]
    rfl
  · obtain ⟨members, rfl, -⟩ := record_eq_valid hread
    rw [hv, hsome, Option.bind_some]
    rcases optional_cases (Group.read_listing hread spot.listing) with
      ⟨hnull, hnone⟩ | ⟨w, conditions, hw, hlist, hsome⟩
    · rw [hnull, hnone]
      rfl
    · rw [hw, hsome]
      cases w with
      | arr items =>
        exact Checked.map_bind (Checked.each_getElem? hlist spot.index) fun _ _ hitem =>
          Condition.map_read_insideAt? hitem spot.depth
      | _ => cases hlist

theorem node?_of_document? {document v : Value} {rule : Rule} (h : ReadFrom document (.ok rule))
    {spot : Spot} (hspot : spot.document? document = some v) :
    ∃ c, spot.node? rule = some c ∧ Condition.read v = .valid c := by
  have hnode := spot.map_read_document? h
  rw [hspot] at hnode
  obtain ⟨c, hc, hread⟩ := Option.map_eq_some_iff.1 hnode.symm
  exact ⟨c, hc, hread.symm⟩

end Spot

end Rule

end SignalCoach

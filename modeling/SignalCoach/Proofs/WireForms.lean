import Mathlib.Logic.Relation
import SignalCoach.Proofs.StoredRule

/-! The wire form and the tagged form of a condition mean the same. `Folds` writes one condition of
a rule, at any depth, in its tagged form; `read_eq_of_folds` says that a rule is read the same after
any number of such steps. -/
namespace SignalCoach

namespace Fields

instance (fields : Fields) : Decidable fields.DistinctKeys :=
  inferInstanceAs (Decidable (List.Pairwise _ _))

theorem get?_append (fields more : Fields) (name : String) :
    Fields.get? (fields ++ more) name = (Fields.get? fields name).or (Fields.get? more name) := by
  unfold Fields.get?
  rw [List.find?_append]
  cases fields.find? fun entry => entry.1 = .text name <;> rfl

section

variable {α : Type} {read : Value → α} {v v' : Value} {changed name : String}

theorem get?_change_of_ne (h : changed ≠ name) (before after : Fields) (v v' : Value) :
    Fields.get? (before ++ (.text changed, v) :: after) name =
      Fields.get? (before ++ (.text changed, v') :: after) name := by
  have hkey : Key.text changed ≠ .text name := fun hkey => h (Key.text.inj hkey)
  rw [get?_append, get?_append, get?_cons, get?_cons, if_neg hkey, if_neg hkey]

theorem map_get?_change (h : read v = read v') (before after : Fields) :
    (Fields.get? (before ++ (.text changed, v) :: after) name).map read =
      (Fields.get? (before ++ (.text changed, v') :: after) name).map read := by
  rw [get?_append, get?_append, get?_cons, get?_cons]
  cases Fields.get? before name with
  | some _ => rfl
  | none =>
    split
    · exact congrArg some h
    · rfl

theorem map_get?_foldl_put {done done' : Fields}
    (h : (Fields.get? done name).map read = (Fields.get? done' name).map read) (more : Fields) :
    (Fields.get? (more.foldl (fun done (k, v) => Fields.put done k v) done) name).map read =
      (Fields.get? (more.foldl (fun done (k, v) => Fields.put done k v) done') name).map read := by
  induction more generalizing done done' with
  | nil => exact h
  | cons head rest ih =>
    refine ih ?_
    rw [get?_put, get?_put]
    split
    · rfl
    · exact h

theorem map_get?_foldl_put_change (h : changed = name → read v = read v')
    (before after done : Fields) :
    (Fields.get? ((before ++ (.text changed, v) :: after).foldl
        (fun done (k, v) => Fields.put done k v) done) name).map read =
      (Fields.get? ((before ++ (.text changed, v') :: after).foldl
        (fun done (k, v) => Fields.put done k v) done) name).map read := by
  rw [List.foldl_append, List.foldl_append, List.foldl_cons, List.foldl_cons]
  refine map_get?_foldl_put ?_ after
  rw [get?_put, get?_put]
  split
  next hkey => exact congrArg some (h (Key.text.inj hkey))
  · rfl

end

end Fields

namespace Check

variable {α : Type} {read : Value → Checked α} {fields fields' : Fields} {name : String}

theorem required_congr
    (h : (Fields.get? fields name).map read = (Fields.get? fields' name).map read) :
    required read name fields = required read name fields' := by
  have hrequired (fields : Fields) : required read name fields =
      (((Fields.get? fields name).map read).getD (.fault .missing)).within (.name name) := by
    unfold required
    cases Fields.get? fields name <;> rfl
  rw [hrequired, hrequired, h]

theorem withDefault_congr {default : α}
    (h : (Fields.get? fields name).map read = (Fields.get? fields' name).map read) :
    withDefault read name default fields = withDefault read name default fields' := by
  have hdefault (fields : Fields) : withDefault read name default fields =
      ((Fields.get? fields name).map read).elim (.valid default) (·.within (.name name)) := by
    unfold withDefault
    cases Fields.get? fields name <;> rfl
  rw [hdefault, hdefault, h]

theorem each_change {v v' : Value} (h : read v = read v') (before after : List Value) (index : Nat) :
    Checked.each read index (before ++ v :: after) =
      Checked.each read index (before ++ v' :: after) := by
  induction before generalizing index with
  | nil => rw [List.nil_append, List.nil_append, Checked.each, Checked.each, h]
  | cons first rest ih => rw [List.cons_append, List.cons_append, Checked.each, Checked.each, ih]

theorem optional_change {v v' : Value} (h : nullable read v = nullable read v')
    (changed : String) (before after : Fields) :
    optional read name (before ++ (.text changed, v) :: after) =
      optional read name (before ++ (.text changed, v') :: after) :=
  withDefault_congr (Fields.map_get?_change h before after)

theorem optional_change_of_ne {changed : String} (h : changed ≠ name) (before after : Fields)
    (v v' : Value) :
    optional read name (before ++ (.text changed, v) :: after) =
      optional read name (before ++ (.text changed, v') :: after) :=
  withDefault_congr (congrArg _ (Fields.get?_change_of_ne h before after v v'))

end Check

namespace Rule

open Check

namespace Condition

/-- One condition in its wire form, the document itself or a condition inside it, is written in its
tagged form. -/
inductive Folds : Value → Value → Prop where
  | body (kind : Kind) (fields : Fields) (hdistinct : fields.DistinctKeys)
    (hkind : Fields.get? fields "kind" = none) :
    Folds (.object [(kind.name, .obj fields)]) (.obj ((.text "kind", .str kind.name) :: fields))
  | minutes (v : Value) (hplain : ∀ fields, v ≠ .obj fields) :
    Folds (.object [(Kind.marketOpen.name, v)])
      (.object [("kind", .str Kind.marketOpen.name), ("minutes", v)])
  /-- Inside a tagged condition. -/
  | tagged (before after : Fields) {v v' : Value} (h : Folds v v') :
    Folds (.obj (before ++ (.text "condition", v) :: after))
      (.obj (before ++ (.text "condition", v') :: after))
  /-- Inside a condition in its wire form. -/
  | wire (before after inBefore inAfter : Fields) {v v' : Value} (h : Folds v v') :
    Folds
      (.obj (before ++ (.text Kind.higherTimeframe.name,
        .obj (inBefore ++ (.text "condition", v) :: inAfter)) :: after))
      (.obj (before ++ (.text Kind.higherTimeframe.name,
        .obj (inBefore ++ (.text "condition", v') :: inAfter)) :: after))

/-- Objects that a condition is read from alike: they differ at most in the condition inside, which
`inner` reads the same, and in a wire form, which no condition has for a member. -/
structure Alike (inner : Value → Checked Condition) (fields fields' : Fields) : Prop where
  condition : (Fields.get? fields "condition").map inner = (Fields.get? fields' "condition").map inner
  others : ∀ name, name ≠ "condition" → name ≠ Kind.higherTimeframe.name →
    Fields.get? fields name = Fields.get? fields' name

section

variable {inner : Value → Checked Condition} {fields fields' : Fields} {v v' : Value} {depth : Nat}

theorem Alike.refl (inner : Value → Checked Condition) (fields : Fields) :
    Alike inner fields fields := ⟨rfl, fun _ _ _ => rfl⟩

theorem Alike.readFields (h : Alike inner fields fields') (kind : Kind) :
    readFields kind inner fields = readFields kind inner fields' := by
  have hrequired {α : Type} (read : Value → Checked α) (name : String) (hname : name ≠ "condition")
      (hname' : name ≠ Kind.higherTimeframe.name) :
      required read name fields = required read name fields' :=
    required_congr (congrArg (Option.map read) (h.others name hname hname'))
  have hdefault {α : Type} (read : Value → Checked α) (name : String) (default : α)
      (hname : name ≠ "condition") (hname' : name ≠ Kind.higherTimeframe.name) :
      withDefault read name default fields = withDefault read name default fields' :=
    withDefault_congr (congrArg (Option.map read) (h.others name hname hname'))
  cases kind with
  | compare =>
    simp only [Condition.readFields, hrequired Operand.read "left" (by decide) (by decide),
      hrequired string "op" (by decide) (by decide),
      hrequired Operand.read "right" (by decide) (by decide)]
  | touch =>
    simp only [Condition.readFields, hrequired Operand.read "series" (by decide) (by decide),
      hrequired Operand.read "band" (by decide) (by decide),
      hdefault double "tolerance_pct" _ (by decide) (by decide)]
  | cross =>
    simp only [Condition.readFields, hrequired string "a" (by decide) (by decide),
      hrequired string "b" (by decide) (by decide),
      hdefault Direction.read "direction" _ (by decide) (by decide),
      hdefault nat "lookback_candles" _ (by decide) (by decide)]
  | marketOpen =>
    simp only [Condition.readFields, hrequired double "minutes" (by decide) (by decide)]
  | higherTimeframe =>
    simp only [Condition.readFields, hrequired Timeframe.read "timeframe" (by decide) (by decide),
      required_congr h.condition]

theorem readAt_of_unwrap (h : unwrap v = unwrap v') (depth : Nat) :
    readAt depth v = readAt depth v' := by
  cases depth with
  | zero => rfl
  | succ depth => rw [readAt, readAt, h]

theorem unwrap_of_kind (h : (Fields.get? fields "kind").isSome) :
    unwrap (.obj fields) = .obj fields := by
  rw [unwrap_obj, if_pos h]

theorem unwrap_single (kind : Kind) (body : Value) :
    unwrap (.object [(kind.name, body)]) = foldBody kind body := by
  cases kind <;> rfl

def AlikeObjects (inner : Value → Checked Condition) (v v' : Value) : Prop :=
  ∃ fields fields', v = .obj fields ∧ v' = .obj fields' ∧ Alike inner fields fields'

theorem readAt_of_alike (h : AlikeObjects (readAt depth) (unwrap v) (unwrap v')) :
    readAt (depth + 1) v = readAt (depth + 1) v' := by
  obtain ⟨fields, fields', hv, hv', h⟩ := h
  simp only [readAt, hv, hv', h.others "kind" (by decide) (by decide), h.readFields]

theorem foldBody_alike (inner : Value → Checked Condition) (kind : Kind) (body : Value) :
    AlikeObjects inner (foldBody kind body) (foldBody kind body) := by
  have hobject : ∃ fields, foldBody kind body = .obj fields := by
    by_cases hbody : ∃ fields, body = .obj fields
    · obtain ⟨fields, rfl⟩ := hbody
      exact ⟨_, rfl⟩
    · exact ⟨_, foldBody_of_not_obj kind fun fields h => hbody ⟨fields, h⟩⟩
  obtain ⟨fields, hfields⟩ := hobject
  exact ⟨fields, fields, hfields, hfields, .refl inner fields⟩

/-- Folding keeps objects alike, if the folded bodies under a higher timeframe are. -/
theorem unwrap_alike (h : Alike inner fields fields')
    (hbody : Option.Rel (AlikeObjects inner)
      ((Fields.get? fields Kind.higherTimeframe.name).map (foldBody .higherTimeframe))
      ((Fields.get? fields' Kind.higherTimeframe.name).map (foldBody .higherTimeframe))) :
    AlikeObjects inner (unwrap (.obj fields)) (unwrap (.obj fields')) := by
  -- The higher timeframe is the last kind that is looked for.
  have hkinds (fields : Fields) : (Kind.all.findSome? fun kind =>
      (Fields.get? fields kind.name).map (kind, ·)) =
        ([Kind.compare, .touch, .cross, .marketOpen].findSome? fun kind =>
          (Fields.get? fields kind.name).map (kind, ·)).or
            ((Fields.get? fields Kind.higherTimeframe.name).map (.higherTimeframe, ·)) := by
    rw [show Kind.all = [.compare, .touch, .cross, .marketOpen] ++ [.higherTimeframe] from rfl,
      List.findSome?_append, List.findSome?_singleton]
  have hfirst : ([Kind.compare, .touch, .cross, .marketOpen].findSome? fun kind =>
      (Fields.get? fields kind.name).map (kind, ·)) =
        [Kind.compare, .touch, .cross, .marketOpen].findSome? fun kind =>
          (Fields.get? fields' kind.name).map (kind, ·) := by
    simp only [List.findSome?_cons, h.others Kind.compare.name (by decide) (by decide),
      h.others Kind.touch.name (by decide) (by decide),
      h.others Kind.cross.name (by decide) (by decide),
      h.others Kind.marketOpen.name (by decide) (by decide)]
    rfl
  rw [unwrap_obj, unwrap_obj, hkinds fields, hkinds fields', hfirst,
    h.others "kind" (by decide) (by decide)]
  split
  · exact ⟨fields, fields', rfl, rfl, h⟩
  cases [Kind.compare, .touch, .cross, .marketOpen].findSome? fun kind =>
      (Fields.get? fields' kind.name).map (kind, ·) with
  | some found => exact foldBody_alike inner found.1 found.2
  | none =>
    cases hget : Fields.get? fields Kind.higherTimeframe.name <;>
      cases hget' : Fields.get? fields' Kind.higherTimeframe.name <;>
      rw [hget, hget'] at hbody <;> cases hbody
    · exact ⟨fields, fields', rfl, rfl, h⟩
    · assumption

end

/-- A condition with one condition in its other form is read the same, whatever the depth that it is
read to. -/
theorem readAt_of_folds {v v' : Value} (h : Folds v v') (depth : Nat) :
    readAt depth v = readAt depth v' := by
  induction depth generalizing v v' with
  | zero => rfl
  | succ depth ih =>
    cases h with
    | body kind fields hdistinct hkind =>
      refine readAt_of_unwrap ?_ (depth + 1)
      have htagged : Fields.DistinctKeys ((.text "kind", .str kind.name) :: fields) := by
        refine List.pairwise_cons.2 ⟨fun entry hentry => ?_, hdistinct⟩
        rw [Bool.eq_false_iff, Ne, Key.text_same]
        have hnone := List.find?_eq_none.1 (Option.map_eq_none_iff.1 hkind) entry hentry
        exact fun hkey => hnone (decide_eq_true hkey)
      rw [unwrap_single, unwrap_of_kind (by rw [Fields.get?_cons, if_pos rfl]; rfl)]
      exact congrArg Value.obj (Fields.foldl_put_of_distinct htagged)
    | minutes v hplain =>
      refine readAt_of_unwrap ?_ (depth + 1)
      rw [unwrap_single, foldBody_of_not_obj .marketOpen hplain]
      rfl
    | @tagged before after v v' h =>
      refine readAt_of_alike (unwrap_alike ⟨?_, fun name hname _ => ?_⟩ ?_)
      · exact Fields.map_get?_change (ih h) before after
      · exact Fields.get?_change_of_ne (Ne.symm hname) before after v v'
      · rw [Fields.get?_change_of_ne (by decide) before after v v']
        cases Fields.get? _ _ with
        | none => exact .none
        | some body => exact .some (foldBody_alike _ _ body)
    | @wire before after inBefore inAfter v v' h =>
      refine readAt_of_alike (unwrap_alike ⟨?_, fun name _ hname => ?_⟩ ?_)
      · rw [Fields.get?_change_of_ne (by decide) before after]
      · exact Fields.get?_change_of_ne (Ne.symm hname) before after _ _
      · rw [Fields.get?_append, Fields.get?_append, Fields.get?_cons, Fields.get?_cons, if_pos rfl,
          if_pos rfl]
        cases Fields.get? before Kind.higherTimeframe.name with
        | some body => exact .some (foldBody_alike _ _ body)
        | none =>
          refine .some ⟨_, _, rfl, rfl, ?_, fun name hname _ => ?_⟩
          · exact Fields.map_get?_foldl_put_change (fun _ => ih h) inBefore inAfter _
          · have hother : "condition" = name → id v = id v' := fun hkey => absurd hkey.symm hname
            have hput := Fields.map_get?_foldl_put_change hother inBefore inAfter
              [(.text "kind", .str Kind.higherTimeframe.name)]
            rwa [Option.map_id_apply, Option.map_id_apply] at hput

theorem read_of_folds {v v' : Value} (h : Folds v v') : Condition.read v = Condition.read v' :=
  read_congr (readAt_of_folds h)

end Condition

inductive Folds : Value → Value → Prop where
  | member (before after inBefore inAfter : Fields) (name : String)
    (hname : name = "all_of" ∨ name = "any_of") (first rest : List Value) {v v' : Value}
    (h : Condition.Folds v v') :
    Folds
      (.obj (before ++ (.text "when",
        .obj (inBefore ++ (.text name, .arr (first ++ v :: rest)) :: inAfter)) :: after))
      (.obj (before ++ (.text "when",
        .obj (inBefore ++ (.text name, .arr (first ++ v' :: rest)) :: inAfter)) :: after))

theorem readFields_change {v v' : Value} (h : nullable Group.read v = nullable Group.read v')
    (before after : Fields) :
    readFields (before ++ (.text "when", v) :: after) =
      readFields (before ++ (.text "when", v') :: after) := by
  have hother {α : Type} (read : Value → Checked α) {name : String} (hname : "when" ≠ name) :
      optional read name (before ++ (.text "when", v) :: after) =
        optional read name (before ++ (.text "when", v') :: after) :=
    optional_change_of_ne hname before after v v'
  simp only [readFields, optional_change h "when" before after,
    hother ScoreSpec.read (show "when" ≠ "score" by decide),
    hother TrafficSpec.read (show "when" ≠ "traffic" by decide)]

theorem ofDocument_of_folds {v v' : Value} (h : Folds v v') : ofDocument v = ofDocument v' := by
  cases h with
  | @member before after inBefore inAfter name hname first rest v v' h =>
    have hlist : list Condition.read (.arr (first ++ v :: rest)) =
        list Condition.read (.arr (first ++ v' :: rest)) :=
      each_change (Condition.read_of_folds h) first rest 0
    have hmembers : nullable (list Condition.read) (.arr (first ++ v :: rest)) =
        nullable (list Condition.read) (.arr (first ++ v' :: rest)) := congrArg (Checked.map some) hlist
    have hgroup : nullable Group.read
          (.obj (inBefore ++ (.text name, .arr (first ++ v :: rest)) :: inAfter)) =
        nullable Group.read
          (.obj (inBefore ++ (.text name, .arr (first ++ v' :: rest)) :: inAfter)) := by
      simp only [nullable, Group.read, record, optional_change hmembers name inBefore inAfter]
    simp only [ofDocument, readFields_change hgroup before after]

theorem eq_of_folds {α : Type} {read : Value → α}
    (hstep : ∀ {v v' : Value}, Folds v v' → read v = read v') {v v' : Value}
    (h : Relation.ReflTransGen Folds v v') : read v = read v' := by
  induction h with
  | refl => rfl
  | tail _ hlast ih => exact ih.trans (hstep hlast)

/-- A rule is read the same, whichever of its conditions are written in their wire form and which in
their tagged form: as a document, and as the text of one. -/
theorem read_eq_of_folds {v v' : Value} (h : Relation.ReflTransGen Folds v v') :
    read v = read v' ∧
      (∀ text text' : String, Json.read? .strict text = some v → Json.read? .strict text' = some v' →
        read (.str text) = read (.str text')) ∧
      ∀ bytes bytes' : List UInt8, Json.readBytes? .strict bytes = some v →
        Json.readBytes? .strict bytes' = some v' → readBytes bytes = readBytes bytes' := by
  have hdocument : ofDocument v = ofDocument v' := eq_of_folds ofDocument_of_folds h
  refine ⟨eq_of_folds (fun hstep => ?_) h, fun text text' htext htext' => ?_,
    fun bytes bytes' hbytes hbytes' => ?_⟩
  · have hstep' := ofDocument_of_folds hstep
    cases hstep with
    | member => exact hstep'
  · simp only [read, htext, htext', ofJson, hdocument]
  · simp only [readBytes, hbytes, hbytes', ofJson, hdocument]

/-- A rule with a condition in its wire form inside another such, and inside a tagged one. -/
def nestedWire : Value :=
  .object [("score", .object [("base", .int 1)]), ("when", .object [("all_of", .arr [
    .object [("higher_tf_confirms", .object [("timeframe", .int 15),
      ("condition", .object [("market_open_within_min", .int 30)])])],
    .object [("kind", .str "higher_tf_confirms"), ("timeframe", .str "1h"),
      ("condition", .object [("compare", .object [("left", .str "price"), ("op", .str ">"),
        ("right", .int 1)])])]])])]

def nestedTagged : Value :=
  .object [("score", .object [("base", .int 1)]), ("when", .object [("all_of", .arr [
    .object [("kind", .str "higher_tf_confirms"), ("timeframe", .int 15),
      ("condition", .object [("kind", .str "market_open_within_min"), ("minutes", .int 30)])],
    .object [("kind", .str "higher_tf_confirms"), ("timeframe", .str "1h"),
      ("condition", .object [("kind", .str "compare"), ("left", .str "price"), ("op", .str ">"),
        ("right", .int 1)])]])])]

theorem read_eq_of_folds_nested :
    Relation.ReflTransGen Folds nestedWire nestedTagged ∧ read nestedWire = read nestedTagged ∧
      (read nestedWire).isOk := by
  have hmember (first rest : List Value) {v v' : Value} (h : Condition.Folds v v') :=
    Folds.member [(.text "score", .object [("base", .int 1)])] [] [] [] "all_of" (.inl rfl) first rest h
  have hsteps : Relation.ReflTransGen Folds nestedWire nestedTagged := by
    refine .head (hmember [] [_] (.wire [] [] [_] [] (.minutes (.int 30) (by simp)))) ?_
    refine .head (hmember [] [_] (.body .higherTimeframe _ (by decide) rfl)) ?_
    exact .single (hmember [_] [] (.tagged [_, _] [] (.body .compare _ (by decide) rfl)))
  exact ⟨hsteps, (read_eq_of_folds hsteps).1, by decide⟩

end Rule
end SignalCoach

import SignalCoach.Proofs.RulePlaces

/-! What decides the kind of a condition. A condition in its wire form is of the kind that its key
names, unless its body names one itself. A condition with several keys is read by one of them, the
first kind that there is, and its other keys are passed over. -/
namespace SignalCoach

namespace Fields

theorem get?_foldl_put_isSome {done : Fields} {name : String}
    (h : (Fields.get? done name).isSome) (entries : Fields) :
    (Fields.get? (entries.foldl (fun done (k, v) => Fields.put done k v) done) name).isSome := by
  induction entries generalizing done with
  | nil => exact h
  | cons head rest ih =>
    refine ih ?_
    rw [get?_put]
    split
    · rfl
    · exact h

end Fields

namespace Rule

open Check

theorem Kind.mem_all (kind : Kind) : kind ∈ Kind.all := by cases kind <;> decide

def keyedKind? (fields : Fields) : Option (Kind × Value) :=
  Kind.all.findSome? fun kind => (Fields.get? fields kind.name).map (kind, ·)

theorem keyedKind?_eq_none_iff {fields : Fields} :
    keyedKind? fields = none ↔ ∀ kind : Kind, Fields.get? fields kind.name = none := by
  rw [keyedKind?, List.findSome?_eq_none_iff]
  exact ⟨fun h kind => Option.map_eq_none_iff.1 (h kind (Kind.mem_all kind)),
    fun h kind _ => Option.map_eq_none_iff.2 (h kind)⟩

theorem unwrap_of_keyedKind? {fields : Fields} (hkind : Fields.get? fields "kind" = none)
    {kind : Kind} {body : Value} (h : keyedKind? fields = some (kind, body)) :
    unwrap (.obj fields) = unwrap (.object [(kind.name, body)]) := by
  rw [keyedKind?] at h
  rw [Condition.unwrap_single, unwrap_obj, hkind, h]
  rfl

theorem unwrap_of_keyedKind?_none {fields : Fields} (h : keyedKind? fields = none) :
    unwrap (.obj fields) = .obj fields := by
  rw [keyedKind?] at h
  rw [unwrap_obj, h]
  exact ite_self _

theorem kind_of_foldBody {kind : Kind} {body : Value} {fields : Fields}
    (h : foldBody kind body = .obj fields) : (Fields.get? fields "kind").isSome := by
  by_cases hobject : ∃ members, body = .obj members
  · obtain ⟨members, rfl⟩ := hobject
    cases h
    exact Fields.get?_foldl_put_isSome rfl members
  · rw [foldBody_of_not_obj kind fun members hbody => hobject ⟨members, hbody⟩] at h
    cases h
    rfl

theorem unwrap_eq_self_iff {fields : Fields} (hkind : Fields.get? fields "kind" = none) :
    unwrap (.obj fields) = .obj fields ↔ keyedKind? fields = none := by
  refine ⟨fun h => ?_, unwrap_of_keyedKind?_none⟩
  cases hfound : keyedKind? fields with
  | none => rfl
  | some found =>
    rw [unwrap_of_keyedKind? hkind hfound, Condition.unwrap_single] at h
    have hhas := kind_of_foldBody h
    rw [hkind] at hhas
    cases hhas

theorem Condition.read_of_unwrap {v v' : Value} (h : unwrap v = unwrap v') :
    Condition.read v = Condition.read v' :=
  read_congr (readAt_of_unwrap h)

theorem Condition.read_ne_valid {fields : Fields} (hkind : Fields.get? fields "kind" = none)
    (hkept : unwrap (.obj fields) = .obj fields) (c : Condition) :
    Condition.read (.obj fields) ≠ .valid c := by
  intro hread
  obtain ⟨_, hunwrap, hname, -⟩ := read_eq_valid hread
  cases hkept.symm.trans hunwrap
  rw [hkind] at hname
  cases hname

def lone (v : Value) : Value := .object [("when", .object [("all_of", .arr [v])])]

theorem readFrom_lone {v : Value} {c : Condition} (h : Condition.read v = .valid c) :
    ReadFrom (lone v) (.ok ⟨some ⟨some [c], none⟩, none, none⟩) := by
  have hlist : list Condition.read (.arr [v]) = .valid [c] := by
    simp only [list, Checked.each, h]
    rfl
  have hgroup : Group.read (.object [("all_of", .arr [v])]) = .valid ⟨some [c], none⟩ := by
    change Group.mk <$> ((list Condition.read (.arr [v])).map some).within (.name "all_of") <*>
      Checked.valid none = _
    rw [hlist]
    rfl
  have hrule : readFields (.ofList [("when", .object [("all_of", .arr [v])])]) =
      .valid ⟨some ⟨some [c], none⟩, none, none⟩ := by
    change Rule.mk <$>
      ((Group.read (.object [("all_of", .arr [v])])).map some).within (.name "when") <*>
        Checked.valid none <*> Checked.valid none = _
    rw [hgroup]
    rfl
  have hread : read (lone v) = .ok ⟨some ⟨some [c], none⟩, none, none⟩ := by
    change ofDocument (.obj _) = _
    rw [ofDocument, hrule]
  exact hread ▸ .object rfl

/-- A rule is read with a condition of the kind that the key of its wire form names just if the body
names no other. A kind that the body names is the one that is read. -/
theorem key_selects_kind_iff {document : Value} {rule : Rule} (hrule : ReadFrom document (.ok rule))
    {spot : Spot} {kind : Kind} {body : Fields} (hkeys : body.DistinctKeys)
    (hspot : spot.document? document = some (.object [(kind.name, .obj body)])) :
    ∃ c, spot.node? rule = some c ∧
      (Fields.get? body "kind").getD (.str kind.name) = .str c.kind.name ∧
      (c.kind = kind ↔ ∀ v, Fields.get? body "kind" = some v → v = .str kind.name) := by
  obtain ⟨c, hc, hread⟩ := Spot.node?_of_document? hrule hspot
  obtain ⟨folded, hunwrap, hname, -⟩ := Condition.read_eq_valid hread
  rw [Condition.unwrap_single] at hunwrap
  cases hunwrap
  rw [Fields.get?_foldl_put_singleton hkeys, if_pos rfl] at hname
  refine ⟨c, hc, ?_⟩
  cases hbody : Fields.get? body "kind" with
  | none =>
    rw [hbody, Option.none_or, Option.some.injEq] at hname
    obtain rfl := Kind.name_inj.1 (Value.str.inj hname)
    simp
  | some v =>
    rw [hbody, Option.some_or, Option.some.injEq] at hname
    subst hname
    simp [Kind.name_inj]

def misnamed : Fields :=
  .ofList [("kind", .str "compare"), ("series", .double .one), ("band", .double .one),
    ("left", .double .one), ("op", .str ">"), ("right", .double .zero)]

/-- A touch by its key, on a higher timeframe, is read as a comparison. -/
theorem key_selects_kind_iff_misnamed :
    let touch : Value := .object [(Kind.touch.name, .obj misnamed)]
    let document := lone (.object [(Kind.higherTimeframe.name,
      .object [("timeframe", .str "1h"), ("condition", touch)])])
    let spot : Spot := ⟨.allOf, 0, 1⟩
    ∃ rule, ReadFrom document (.ok rule) ∧ misnamed.DistinctKeys ∧
      spot.document? document = some touch ∧ ∃ c, spot.node? rule = some c ∧ c.kind = .compare := by
  intro touch document spot
  have hrule : ReadFrom document (.ok ⟨some ⟨some [.higherTimeframe (.label "1h")
      (.compare (.number .one) ">" (.number .zero))], none⟩, none, none⟩) := readFrom_lone rfl
  have hkeys : misnamed.DistinctKeys := by decide
  have hspot : spot.document? document = some touch := rfl
  obtain ⟨c, hc, hname, -⟩ := key_selects_kind_iff hrule hkeys hspot
  exact ⟨_, hrule, hkeys, hspot, c, hc, Kind.name_inj.1 (Value.str.inj hname).symm⟩

/-- The key of a wire form does not always select the kind. -/
theorem not_always_selected :
    ¬ ∀ (document : Value) (rule : Rule) (spot : Spot) (kind : Kind) (body : Fields),
      ReadFrom document (.ok rule) → body.DistinctKeys →
      spot.document? document = some (.object [(kind.name, .obj body)]) →
      ∃ c, spot.node? rule = some c ∧ c.kind = kind := by
  intro hall
  have hrule : ReadFrom (lone (.object [(Kind.touch.name, .obj misnamed)]))
      (.ok ⟨some ⟨some [.compare (.number .one) ">" (.number .zero)], none⟩, none, none⟩) :=
    readFrom_lone rfl
  obtain ⟨c, hc, hkind⟩ := hall _ _ ⟨.allOf, 0, 0⟩ .touch misnamed hrule (by decide) rfl
  cases hc
  cases hkind

/-- Any rule that has it for a condition is rejected, wherever the condition stands. -/
def Refused (v : Value) : Prop :=
  ∀ (document : Value) (spot : Spot) (result : Except Rejection Rule), ReadFrom document result →
    spot.document? document = some v → ∃ issues, result = .error (.invalid issues)

theorem refused_iff {v : Value} : Refused v ↔ ∀ c, Condition.read v ≠ .valid c := by
  constructor
  · intro h c hread
    obtain ⟨issues, hresult⟩ := h (lone v) ⟨.allOf, 0, 0⟩ _ (readFrom_lone hread) rfl
    cases hresult
  · intro h document spot result hread hspot
    cases result with
    | ok rule =>
      obtain ⟨c, -, hc⟩ := Spot.node?_of_document? hread hspot
      exact absurd hc (h c)
    | error rejection =>
      have hresult := hread.eq_ofDocument
      cases document with
      | obj fields =>
        simp only [ofDocument] at hresult
        split at hresult
        · cases hresult
        · exact ⟨_, hresult⟩
      | _ => cases hspot

/-- An object without `kind` keeps its form and is refused just if it has none of the kinds for a
key. Else it is what its first kind alone would be, to every rule: the other keys do not count. -/
theorem refused_or_first_kind {fields : Fields} (hkind : Fields.get? fields "kind" = none) :
    ((unwrap (.obj fields) = .obj fields ∧ Refused (.obj fields)) ↔
      ∀ kind : Kind, Fields.get? fields kind.name = none) ∧
    ∀ kind body, keyedKind? fields = some (kind, body) →
      unwrap (.obj fields) = unwrap (.object [(kind.name, body)]) ∧
      (Refused (.obj fields) ↔ Refused (.object [(kind.name, body)])) ∧
      ∀ (document : Value) (rule : Rule) (spot : Spot), ReadFrom document (.ok rule) →
        spot.document? document = some (.obj fields) →
        ∃ c, spot.node? rule = some c ∧
          Condition.read (.object [(kind.name, body)]) = .valid c := by
  refine ⟨?_, fun kind body hfound => ?_⟩
  · rw [← keyedKind?_eq_none_iff, ← unwrap_eq_self_iff hkind]
    exact ⟨And.left, fun hkept => ⟨hkept, refused_iff.2 (Condition.read_ne_valid hkind hkept)⟩⟩
  · have hunwrap := unwrap_of_keyedKind? hkind hfound
    have hread := Condition.read_of_unwrap hunwrap
    refine ⟨hunwrap, by rw [refused_iff, refused_iff, hread], fun _ _ _ hrule hspot => ?_⟩
    rw [← hread]
    exact Spot.node?_of_document? hrule hspot

def comparison : Value :=
  .object [("left", .double .one), ("op", .str ">"), ("right", .double .zero)]

def crowded : Fields :=
  .ofList [("note", .str "both"),
    (Kind.cross.name, .object [("a", .str "ema"), ("b", .str "vwap")]),
    (Kind.compare.name, comparison)]

theorem read_crowded : Condition.read (.obj crowded) =
    .valid (.compare (.number .one) ">" (.number .zero)) := rfl

/-- Of a comparison and a crossing in one object the comparison is left. -/
theorem refused_or_first_kind_crowded :
    Fields.get? crowded "kind" = none ∧
      unwrap (.obj crowded) = unwrap (.object [(Kind.compare.name, comparison)]) ∧
      ∃ rule, ReadFrom (lone (.obj crowded)) (.ok rule) ∧
        ∃ c, Spot.node? ⟨.allOf, 0, 0⟩ rule = some c ∧
          Condition.read (.object [(Kind.compare.name, comparison)]) = .valid c := by
  have hkind : Fields.get? crowded "kind" = none := rfl
  obtain ⟨hunwrap, -, hnode⟩ := (refused_or_first_kind hkind).2 .compare comparison rfl
  have hrule := readFrom_lone read_crowded
  exact ⟨hkind, hunwrap, _, hrule, hnode _ _ ⟨.allOf, 0, 0⟩ hrule rfl⟩

/-- An object with a kind among several keys is neither kept nor always refused. -/
theorem not_always_refused :
    ¬ ∀ fields : Fields, fields.DistinctKeys → Fields.get? fields "kind" = none →
      (∀ (kind : Kind) (body : Value), .obj fields ≠ Value.object [(kind.name, body)]) →
      unwrap (.obj fields) = .obj fields ∧ Refused (.obj fields) := by
  intro hall
  have hrule := readFrom_lone read_crowded
  have hseveral (kind : Kind) (body : Value) : .obj crowded ≠ Value.object [(kind.name, body)] :=
    fun h => by simp [crowded, Value.object, Fields.ofList] at h
  obtain ⟨-, hrefused⟩ := hall crowded (by decide) rfl hseveral
  obtain ⟨issues, hresult⟩ := hrefused (lone (.obj crowded)) ⟨.allOf, 0, 0⟩ _ hrule rfl
  cases hresult

end Rule

end SignalCoach

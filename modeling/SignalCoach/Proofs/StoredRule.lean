import SignalCoach.Proofs.StoredDocument

/-! A rule that comes back from the store reads as it did in its file, and so do thresholds. -/
namespace SignalCoach

/-- What comes back from the store is read as what went there. -/
def Steady {α : Type} (read : Value → α) : Prop := ∀ v, v.Distinct → read v.stored = read v

theorem Value.depth_le_depthFields {fields : Fields} {entry : Key × Value} (h : entry ∈ fields) :
    entry.2.depth ≤ depthFields fields := by
  induction fields with
  | nil => cases h
  | cons head rest ih =>
    obtain ⟨k, v⟩ := head
    rw [depthFields]
    rcases List.mem_cons.1 h with rfl | hrest
    · exact Nat.le_max_left _ _
    · exact Nat.le_trans (ih hrest) (Nat.le_max_right _ _)

namespace Fields

/-- Under plain names some members are what comes back from the store of others. -/
structure Mirrors (fields' fields : Fields) : Prop where
  get? : ∀ name, isPlainName name → Fields.get? fields' name = (Fields.get? fields name).map .stored
  distinct : ∀ {name v}, Fields.get? fields name = some v → v.Distinct

theorem mirrors_stored {fields : Fields} (h : (Value.obj fields).Distinct) :
    fields.stored.Mirrors fields where
  get? name hname := by
    cases h with
    | obj hkeys _ => exact get?_stored hkeys hname
  distinct hv := h.get? hv

theorem has_eq (fields : Fields) (name : String) :
    fields.has name = (Fields.get? fields name).isSome := by
  rw [has, Fields.get?, Option.isSome_map, Bool.eq_iff_iff, List.any_eq_true, List.find?_isSome]

theorem forall_foldl_put {P : Value → Prop} {entries done : Fields} (hdone : ∀ entry ∈ done, P entry.2)
    (hentries : ∀ entry ∈ entries, P entry.2) :
    ∀ entry ∈ entries.foldl (fun done (k, v) => Fields.put done k v) done, P entry.2 := by
  induction entries generalizing done with
  | nil => exact hdone
  | cons head rest ih =>
    obtain ⟨hhead, hrest⟩ := List.forall_mem_cons.1 hentries
    refine ih (fun entry hentry => ?_) hrest
    rcases mem_put hentry with hold | ⟨hnew, -⟩
    · exact hdone entry hold
    · rw [hnew]
      exact hhead

theorem mirrors_ofList {entries : List (String × Value)} (h : ∀ entry ∈ entries, entry.2.Distinct) :
    (Fields.ofList (entries.map fun entry => (entry.1, entry.2.stored))).Mirrors
      (Fields.ofList entries) := by
  induction entries with
  | nil => exact ⟨fun _ _ => rfl, fun hv => by cases hv⟩
  | cons entry rest ih =>
    obtain ⟨hentry, hrest⟩ := List.forall_mem_cons.1 h
    have hrest := ih hrest
    refine ⟨fun name hname => ?_, fun {name v} hv => ?_⟩
    · change Fields.get? ((.text entry.1, entry.2.stored) :: Fields.ofList _) name =
        (Fields.get? ((.text entry.1, entry.2) :: Fields.ofList rest) name).map Value.stored
      rw [get?_cons, get?_cons, hrest.get? name hname]
      split <;> rfl
    · change Fields.get? ((.text entry.1, entry.2) :: Fields.ofList rest) name = some v at hv
      rw [get?_cons] at hv
      split at hv
      · cases hv
        exact hentry
      · exact hrest.distinct hv

theorem get?_foldl_put_singleton {fields : Fields} (hdistinct : fields.DistinctKeys) (first : String)
    (v : Value) (name : String) :
    Fields.get? (fields.foldl (fun done (k, v) => Fields.put done k v) [(.text first, v)]) name =
      (Fields.get? fields name).or (if first = name then some v else none) := by
  have hkey (k : Key) : id k = .text name ↔ k = .text name := Iff.rfl
  have hput := get?_foldl_put hdistinct id id hkey [(.text first, v)]
  rw [Option.map_id, get?_cons, get?_nil] at hput
  simpa using hput

end Fields

namespace Check

section

variable {α : Type} {read : Value → Checked α} (hread : Steady read)

theorem steady_string : Steady string := fun v _ => by cases v <;> rfl

theorem steady_double : Steady double := fun v _ => by cases v <;> rfl

theorem steady_int : Steady int := fun v _ => by cases v <;> rfl

theorem steady_nat : Steady nat := fun v hv => by rw [nat, nat, steady_int v hv]

include hread

theorem steady_nullable : Steady (nullable read) := by
  intro v hv
  have hvalue := hread v hv
  cases v with
  | null => rfl
  | arr items =>
    rw [Value.stored_arr] at hvalue ⊢
    simp only [nullable, hvalue]
  | obj fields =>
    rw [Value.stored_obj] at hvalue ⊢
    simp only [nullable, hvalue]
  | _ => rfl

theorem each_stored {items : List Value} (hitems : ∀ v ∈ items, v.Distinct) (index : Nat) :
    Checked.each read index (items.map Value.stored) = Checked.each read index items := by
  induction items generalizing index with
  | nil => rfl
  | cons v rest ih =>
    obtain ⟨hv, hrest⟩ := List.forall_mem_cons.1 hitems
    rw [List.map_cons, Checked.each, Checked.each, hread v hv, ih hrest]

theorem steady_list : Steady (list read) := by
  intro v hv
  cases hv with
  | arr hitems =>
    rw [Value.stored_arr]
    exact each_stored hread hitems 0
  | _ => rfl

theorem steady_pair : Steady (pair read) := by
  intro v hv
  cases hv with
  | @arr items hitems =>
    rw [Value.stored_arr]
    match items with
    | [] => rfl
    | [a] => simp only [List.map_cons, List.map_nil, pair, hread a (hitems a (by simp))]
    | [a, b] =>
      simp only [List.map_cons, List.map_nil, pair, hread a (hitems a (by simp)),
        hread b (hitems b (by simp))]
    | _ :: _ :: _ :: _ => rfl
  | _ => rfl

variable {fields' fields : Fields} (hfields : fields'.Mirrors fields) (name : String)
  (hname : isPlainName name)
include hfields hname

theorem required_mirrored : required read name fields' = required read name fields := by
  unfold required
  rw [hfields.get? name hname]
  cases hget : Fields.get? fields name with
  | none => rfl
  | some v => simp only [Option.map_some, hread v (hfields.distinct hget)]

theorem withDefault_mirrored (default : α) :
    withDefault read name default fields' = withDefault read name default fields := by
  unfold withDefault
  rw [hfields.get? name hname]
  cases hget : Fields.get? fields name with
  | none => rfl
  | some v => simp only [Option.map_some, hread v (hfields.distinct hget)]

theorem optional_mirrored : optional read name fields' = optional read name fields :=
  withDefault_mirrored (steady_nullable hread) hfields name hname none

end

theorem steady_record {α : Type} {read : Fields → Checked α}
    (hread : ∀ {fields' fields : Fields}, fields'.Mirrors fields → read fields' = read fields) :
    Steady fun v => record v read := by
  intro v hv
  cases v with
  | obj fields =>
    rw [Value.stored_obj]
    exact hread (Fields.mirrors_stored hv)
  | _ => rfl

end Check

namespace Rule

open Check

theorem steady_reference : Steady Reference.read :=
  steady_record fun h => by
    rw [optional_mirrored steady_double h "value" (by decide),
      optional_mirrored steady_string h "path" (by decide)]

theorem steady_operand : Steady Operand.read := by
  intro v hv
  have hdouble := steady_double v hv
  have hstring := steady_string v hv
  have hreference := steady_reference v hv
  cases v with
  | arr items =>
    rw [Value.stored_arr] at hdouble hstring hreference ⊢
    simp only [Operand.read, hdouble, hstring, hreference]
  | obj fields =>
    rw [Value.stored_obj] at hdouble hstring hreference ⊢
    simp only [Operand.read, hdouble, hstring, hreference]
  | _ => rfl

theorem steady_direction : Steady Direction.read := fun v _ => by cases v <;> rfl

theorem steady_timeframe : Steady Timeframe.read := fun v _ => by cases v <;> rfl

theorem steady_scoreSpec : Steady ScoreSpec.read :=
  steady_record fun h => by
    rw [optional_mirrored steady_double h "base" (by decide),
      optional_mirrored steady_double h "decay_per_candle_since_cross" (by decide)]

theorem steady_trafficSpec : Steady TrafficSpec.read :=
  steady_record fun h => by
    rw [optional_mirrored steady_double h "green_if_score_gte" (by decide),
      optional_mirrored (steady_pair steady_double) h "yellow_if_score_between" (by decide)]

namespace Condition

theorem readFields_mirrored (kind : Kind) {inner : Value → Checked Condition} (hinner : Steady inner)
    {fields' fields : Fields} (h : fields'.Mirrors fields) :
    readFields kind inner fields' = readFields kind inner fields := by
  cases kind with
  | compare =>
    simp only [readFields, required_mirrored steady_operand h "left" (by decide),
      required_mirrored steady_string h "op" (by decide),
      required_mirrored steady_operand h "right" (by decide)]
  | touch =>
    simp only [readFields, required_mirrored steady_operand h "series" (by decide),
      required_mirrored steady_operand h "band" (by decide),
      withDefault_mirrored steady_double h "tolerance_pct" (by decide)]
  | cross =>
    simp only [readFields, required_mirrored steady_string h "a" (by decide),
      required_mirrored steady_string h "b" (by decide),
      withDefault_mirrored steady_direction h "direction" (by decide),
      withDefault_mirrored steady_nat h "lookback_candles" (by decide)]
  | marketOpen =>
    simp only [readFields, required_mirrored steady_double h "minutes" (by decide)]
  | higherTimeframe =>
    simp only [readFields, required_mirrored steady_timeframe h "timeframe" (by decide),
      required_mirrored hinner h "condition" (by decide)]

end Condition

theorem plainName_kind (kind : Kind) : isPlainName kind.name := by cases kind <;> decide

theorem unwrap_obj (fields : Fields) :
    unwrap (.obj fields) =
      if (Fields.get? fields "kind").isSome then .obj fields
      else ((Kind.all.findSome? fun kind => (Fields.get? fields kind.name).map (kind, ·)).map
        fun (kind, body) => foldBody kind body).getD (.obj fields) := by
  unfold unwrap
  simp only [Fields.has_eq]
  split
  · rfl
  · split
    next hfound => simp [hfound]
    next hfound => simp [hfound]

theorem foldBody_of_not_obj (kind : Kind) {body : Value} (hbody : ∀ fields, body ≠ .obj fields) :
    foldBody kind body = .object (("kind", .str kind.name) ::
      if kind = .marketOpen then [("minutes", body)] else []) := by
  cases body with
  | obj fields => exact absurd rfl (hbody fields)
  | _ =>
    simp only [foldBody]
    split <;> rfl

theorem foldBody_mirrored (kind : Kind) {body : Value} (hbody : body.Distinct) :
    ∃ fields' fields : Fields, foldBody kind body.stored = .obj fields' ∧
      foldBody kind body = .obj fields ∧ fields'.Mirrors fields := by
  by_cases hobject : ∃ fields, body = .obj fields
  · obtain ⟨fields, rfl⟩ := hobject
    cases hbody with
    | obj hkeys hmembers =>
      refine ⟨_, _, by rw [Value.stored_obj]; rfl, rfl, ?_, ?_⟩
      · intro name hname
        rw [Fields.get?_foldl_put_singleton (Fields.stored_distinctKeys fields),
          Fields.get?_foldl_put_singleton hkeys, Fields.get?_stored hkeys hname]
        cases Fields.get? fields name with
        | some v => rfl
        | none => by_cases hkind : "kind" = name <;> simp [hkind, Value.stored]
      · intro name v hv
        rw [Fields.get?_foldl_put_singleton hkeys] at hv
        cases hget : Fields.get? fields name with
        | some w =>
          rw [hget] at hv
          cases hv
          exact (Value.Distinct.obj hkeys hmembers).get? hget
        | none =>
          rw [hget, Option.none_or] at hv
          split at hv
          · cases hv
            exact .str _
          · cases hv
  · have hplain : ∀ fields, body ≠ .obj fields := fun fields h => hobject ⟨fields, h⟩
    have hstored : ∀ fields, body.stored ≠ .obj fields := by
      intro fields h
      cases body with
      | obj members => exact hplain members rfl
      | _ => cases h
    refine ⟨_, _, foldBody_of_not_obj kind hstored, foldBody_of_not_obj kind hplain, ?_⟩
    have hentries : ∀ entry ∈ ("kind", .str kind.name) ::
        (if kind = .marketOpen then [("minutes", body)] else []), entry.2.Distinct := by
      intro entry hentry
      rcases List.mem_cons.1 hentry with rfl | hrest
      · exact .str _
      · split at hrest
        · rw [List.mem_singleton.1 hrest]
          exact hbody
        · cases hrest
    have hmirrors := Fields.mirrors_ofList hentries
    by_cases hkind : kind = .marketOpen
    · simpa [hkind, Value.stored] using hmirrors
    · simpa [hkind, Value.stored] using hmirrors

theorem foldBody_depth {kind : Kind} {body : Value} {fields : Fields}
    (h : foldBody kind body = .obj fields) : ∀ entry ∈ fields, entry.2.depth ≤ body.depth := by
  by_cases hobject : ∃ members, body = .obj members
  · obtain ⟨members, rfl⟩ := hobject
    cases h
    refine Fields.forall_foldl_put (P := fun v => v.depth ≤ (Value.obj members).depth) ?_ ?_
    · intro entry hentry
      rw [List.mem_singleton.1 hentry]
      exact Nat.zero_le _
    · exact fun entry hentry => Nat.le_succ_of_le (Value.depth_le_depthFields hentry)
  · rw [foldBody_of_not_obj kind fun members hbody => hobject ⟨members, hbody⟩] at h
    cases h
    intro entry hentry
    obtain ⟨named, hnamed, rfl⟩ := List.mem_map.1 hentry
    rcases List.mem_cons.1 hnamed with rfl | hrest
    · exact Nat.zero_le _
    · split at hrest
      · rw [List.mem_singleton.1 hrest]
      · cases hrest

theorem unwrap_mirrored {fields : Fields} (h : (Value.obj fields).Distinct) :
    ∃ fields' fields₁ : Fields, unwrap (Value.stored (.obj fields)) = .obj fields' ∧
      unwrap (.obj fields) = .obj fields₁ ∧ fields'.Mirrors fields₁ := by
  have hmirrors := Fields.mirrors_stored h
  have hkind : (Fields.get? fields.stored "kind").isSome = (Fields.get? fields "kind").isSome := by
    rw [hmirrors.get? "kind" (by decide), Option.isSome_map]
  have hfound : (Kind.all.findSome? fun kind =>
      (Fields.get? fields.stored kind.name).map (kind, ·)) =
        (Kind.all.findSome? fun kind => (Fields.get? fields kind.name).map (kind, ·)).map
          (Prod.map id Value.stored) := by
    rw [List.map_findSome?]
    congr 1
    funext kind
    rw [hmirrors.get? kind.name (plainName_kind kind), Function.comp_apply, Option.map_map, Option.map_map]
    rfl
  rw [Value.stored_obj, unwrap_obj, unwrap_obj, hkind, hfound]
  split
  · exact ⟨_, _, rfl, rfl, hmirrors⟩
  · cases hkinds : Kind.all.findSome? fun kind => (Fields.get? fields kind.name).map (kind, ·) with
    | none => exact ⟨_, _, rfl, rfl, hmirrors⟩
    | some found =>
      obtain ⟨kind, -, hget⟩ := List.exists_of_findSome?_eq_some hkinds
      obtain ⟨body, hbody, rfl⟩ := Option.map_eq_some_iff.1 hget
      exact foldBody_mirrored kind (hmirrors.distinct hbody)

namespace Condition

theorem steady_readAt (depth : Nat) : Steady (readAt depth) := by
  induction depth with
  | zero => exact fun v _ => rfl
  | succ depth ih =>
    intro v hv
    cases v with
    | obj fields =>
      obtain ⟨fields', fields₁, hstored, hplain, hmirrors⟩ := unwrap_mirrored hv
      simp only [readAt, hstored, hplain, hmirrors.get? "kind" (by decide)]
      cases Fields.get? fields₁ "kind" with
      | none => rfl
      | some kind =>
        cases kind with
        | str name =>
          simp only [Option.map_some, Value.stored]
          cases Kind.ofName? name with
          | none => rfl
          | some kind => simp only [readFields_mirrored kind ih hmirrors]
        | _ => rfl
    | arr items =>
      rw [Value.stored_arr]
      rfl
    | _ => rfl

end Condition

theorem unwrap_depth {v : Value} {fields : Fields} (h : unwrap v = .obj fields) :
    ∀ entry ∈ fields, entry.2.depth < v.depth := by
  cases v with
  | obj members =>
    have hmembers : ∀ entry ∈ members, entry.2.depth < (Value.obj members).depth := fun entry he =>
      Nat.lt_succ_of_le (Value.depth_le_depthFields he)
    rw [unwrap_obj] at h
    split at h
    · cases h
      exact hmembers
    · cases hkinds : Kind.all.findSome? fun kind =>
          (Fields.get? members kind.name).map (kind, ·) with
      | none =>
        rw [hkinds] at h
        cases h
        exact hmembers
      | some found =>
        obtain ⟨kind, -, hget⟩ := List.exists_of_findSome?_eq_some hkinds
        obtain ⟨body, hbody, rfl⟩ := Option.map_eq_some_iff.1 hget
        obtain ⟨entry, hfind, rfl⟩ := Option.map_eq_some_iff.1 hbody
        have hdeep := hmembers entry (List.mem_of_find?_eq_some hfind)
        rw [hkinds] at h
        exact fun e he => Nat.lt_of_le_of_lt (foldBody_depth h e he) hdeep
  | _ => cases h

namespace Condition

theorem readFields_congr (kind : Kind) {inner inner' : Value → Checked Condition} {fields : Fields}
    (h : ∀ entry ∈ fields, inner entry.2 = inner' entry.2) :
    readFields kind inner fields = readFields kind inner' fields := by
  have hcondition : required inner "condition" fields = required inner' "condition" fields := by
    unfold required
    cases hget : Fields.get? fields "condition" with
    | none => rfl
    | some v =>
      obtain ⟨entry, hfind, rfl⟩ := Option.map_eq_some_iff.1 hget
      simp only [h entry (List.mem_of_find?_eq_some hfind)]
  cases kind with
  | higherTimeframe => simp only [readFields, hcondition]
  | _ => rfl

/-- Beyond the depth of a condition, more depth reads no more. -/
theorem readAt_of_depth_lt {depth depth' : Nat} {v : Value} (h : v.depth < depth)
    (h' : v.depth < depth') : readAt depth v = readAt depth' v := by
  induction depth generalizing depth' v with
  | zero => omega
  | succ depth ih =>
    cases depth' with
    | zero => omega
    | succ depth' =>
      unfold readAt
      cases hunwrap : unwrap v with
      | obj fields =>
        have hfields (kind : Kind) :
            readFields kind (readAt depth) fields = readFields kind (readAt depth') fields := by
          refine readFields_congr kind fun entry hentry => ?_
          have hdeep := unwrap_depth hunwrap entry hentry
          exact ih (by omega) (by omega)
        simp only [hfields]
      | _ => rfl

theorem read_congr {v v' : Value} (h : ∀ depth, readAt depth v = readAt depth v') :
    Condition.read v = Condition.read v' := by
  have hmore := Nat.le_max_left v.depth v'.depth
  have hmore' := Nat.le_max_right v.depth v'.depth
  calc
    Condition.read v = readAt (max v.depth v'.depth + 1) v :=
      readAt_of_depth_lt (by omega) (by omega)
    _ = readAt (max v.depth v'.depth + 1) v' := h _
    _ = Condition.read v' := readAt_of_depth_lt (by omega) (by omega)

theorem steady_read : Steady Condition.read :=
  fun v hv => read_congr fun depth => steady_readAt depth v hv

end Condition

theorem steady_group : Steady Group.read :=
  steady_record fun h => by
    rw [optional_mirrored (steady_list Condition.steady_read) h "all_of" (by decide),
      optional_mirrored (steady_list Condition.steady_read) h "any_of" (by decide)]

theorem readFields_mirrored {fields' fields : Fields} (h : fields'.Mirrors fields) :
    readFields fields' = readFields fields := by
  unfold readFields
  rw [optional_mirrored steady_group h "when" (by decide),
    optional_mirrored steady_scoreSpec h "score" (by decide),
    optional_mirrored steady_trafficSpec h "traffic" (by decide)]

/-- A rule of a file reads the same after it was stored. -/
theorem steady_read : Steady Rule.read := by
  intro v hv
  cases v with
  | obj fields =>
    rw [Value.stored_obj]
    simp only [read, ofDocument, readFields_mirrored (Fields.mirrors_stored hv)]
  | arr items =>
    rw [Value.stored_arr]
    rfl
  | _ => rfl

end Rule

namespace Thresholds

theorem steady_number? : Steady number? := fun v _ => by cases v <;> rfl

theorem steady_range? : Steady range? := by
  intro v hv
  cases hv with
  | @arr items hitems =>
    rw [Value.stored_arr]
    match items with
    | [] => rfl
    | [_] => rfl
    | [low, high] =>
      simp only [List.map_cons, List.map_nil, range?, steady_number? low (hitems low (by simp)),
        steady_number? high (hitems high (by simp))]
    | _ :: _ :: _ :: _ => rfl
  | _ => rfl

theorem member_mirrored {fields' fields : Fields} (h : fields'.Mirrors fields)
    (authoring other : String) (hauthoring : isPlainName authoring) (hother : isPlainName other) :
    member fields' authoring other = (member fields authoring other).stored ∧
      (member fields authoring other).Distinct := by
  unfold member
  rw [h.get? authoring hauthoring, h.get? other hother]
  cases hfirst : Fields.get? fields authoring with
  | some v => exact ⟨rfl, h.distinct hfirst⟩
  | none =>
    cases hsecond : Fields.get? fields other with
    | some v => exact ⟨rfl, h.distinct hsecond⟩
    | none => exact ⟨rfl, .null⟩

theorem ofDocument_stored {document : Value} (hdocument : document.Distinct) (fallback : Thresholds) :
    ofDocument document.stored fallback = ofDocument document fallback := by
  cases document with
  | obj fields =>
    have hmirrors := Fields.mirrors_stored hdocument
    obtain ⟨hgreen, hgreenDistinct⟩ :=
      member_mirrored hmirrors "green_if_score_gte" "greenGte" (by decide) (by decide)
    obtain ⟨hyellow, hyellowDistinct⟩ :=
      member_mirrored hmirrors "yellow_if_score_between" "yellowRange" (by decide) (by decide)
    rw [Value.stored_obj]
    simp only [ofDocument, hgreen, hyellow, steady_number? _ hgreenDistinct,
      steady_range? _ hyellowDistinct]
  | arr items =>
    rw [Value.stored_arr]
    rfl
  | _ => rfl

end Thresholds

end SignalCoach

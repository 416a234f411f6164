import Mathlib.Data.List.Induction
import Mathlib.Data.List.Nodup
import Mathlib.Data.List.Pairwise
import SignalCoach.Feature.Lookup

/-! Lookups where no two keys of an object have the same canonical form: they depend neither on the
spelling of keys nor on their order. -/
namespace SignalCoach

/-- No segment can be taken for both of the keys: they are not both text with the same canonical
form. -/
def Key.Apart (a b : Key) : Prop :=
  ∀ s t, a = .text s → b = .text t → Feature.canonical s ≠ Feature.canonical t

theorem Key.Apart.symm {a b : Key} (h : a.Apart b) : b.Apart a :=
  fun s t hs ht heq => h t s ht hs heq.symm

instance : Std.Symm fun a b : Key × Value => a.1.Apart b.1 := ⟨fun _ _ h => h.symm⟩

def Fields.Unambiguous (fields : Fields) : Prop := (fields.map Prod.fst).Pairwise Key.Apart

namespace Value

/-- No object of a document, at any depth, has two text keys with the same canonical form. -/
inductive Unambiguous : Value → Prop where
  | null : Unambiguous .null
  | bool (b : Bool) : Unambiguous (.bool b)
  | int (n : Int) : Unambiguous (.int n)
  | double (x : Double) : Unambiguous (.double x)
  | str (s : String) : Unambiguous (.str s)
  | arr {items : List Value} (h : ∀ v ∈ items, v.Unambiguous) : Unambiguous (.arr items)
  | obj {fields : Fields} (hkeys : fields.Unambiguous) (h : ∀ entry ∈ fields, entry.2.Unambiguous) :
    Unambiguous (.obj fields)

inductive Reordered : Value → Value → Prop where
  | null : Reordered .null .null
  | bool (b : Bool) : Reordered (.bool b) (.bool b)
  | int (n : Int) : Reordered (.int n) (.int n)
  | double (x : Double) : Reordered (.double x) (.double x)
  | str (s : String) : Reordered (.str s) (.str s)
  | arr {items items' : List Value} (hlength : items.length = items'.length)
      (h : ∀ (i : Nat) v v', items[i]? = some v → items'[i]? = some v' → Reordered v v') :
    Reordered (.arr items) (.arr items')
  | obj {fields fields' : Fields} (hkeys : (fields.map Prod.fst).Perm (fields'.map Prod.fst))
      (h : ∀ k v v', (k, v) ∈ fields → (k, v') ∈ fields' → Reordered v v') :
    Reordered (.obj fields) (.obj fields')

theorem Reordered.of_perm {fields fields' : Fields} (hperm : fields.Perm fields')
    (hkeys : (fields.map Prod.fst).Nodup) (h : ∀ entry ∈ fields, entry.2.Reordered entry.2) :
    Reordered (.obj fields) (.obj fields') := by
  refine .obj (hperm.map Prod.fst) fun k v v' hv hv' => ?_
  have hsame : (k, v) = (k, v') := List.inj_on_of_nodup_map hkeys hv (hperm.mem_iff.2 hv') rfl
  rw [← (Prod.mk.inj hsame).2]
  exact h _ hv

/-- Two values stand at the same place of two documents, under the same keys and indices. -/
inductive Counterpart (root root' : Value) : Value → Value → Prop where
  | root : Counterpart root root' root root'
  | item {items items' : List Value} (h : Counterpart root root' (.arr items) (.arr items'))
      {i : Nat} {v v' : Value} (hv : items[i]? = some v) (hv' : items'[i]? = some v') :
    Counterpart root root' v v'
  | member {fields fields' : Fields} (h : Counterpart root root' (.obj fields) (.obj fields'))
      {k : Key} {v v' : Value} (hv : (k, v) ∈ fields) (hv' : (k, v') ∈ fields') :
    Counterpart root root' v v'

end Value

namespace Feature

/-- What a step finds in an object is a member whose key is spelled like the segment. -/
theorem mem_of_fieldAt? {fields : Fields} {segment : String} {v : Value}
    (h : fieldAt? fields segment = some v) :
    ∃ key, (Key.text key, v) ∈ fields ∧ canonical key = canonical segment := by
  unfold fieldAt? at h
  rcases Option.or_eq_some_iff.1 h with hexact | ⟨-, hcanonical⟩
  · obtain ⟨entry, hfind, rfl⟩ := Option.map_eq_some_iff.1 hexact
    have hkey : entry.1 = .text segment := by simpa using List.find?_some hfind
    exact ⟨segment, hkey ▸ List.mem_of_find?_eq_some hfind, rfl⟩
  · obtain ⟨⟨k, v⟩, hfind, rfl⟩ := Option.map_eq_some_iff.1 hcanonical
    have hkey := List.find?_some hfind
    cases k with
    | text key => exact ⟨key, List.mem_of_find?_eq_some hfind, by simpa [sameCanonical] using hkey⟩
    | _ => cases hkey

theorem fieldAt?_ne_none {fields : Fields} {segment key : String} {v : Value}
    (hmem : (Key.text key, v) ∈ fields) (hkey : canonical key = canonical segment) :
    fieldAt? fields segment ≠ none := by
  intro h
  obtain ⟨-, hcanonical⟩ := Option.or_eq_none_iff.1 h
  have hnone := List.find?_eq_none.1 (Option.map_eq_none_iff.1 hcanonical) _ hmem
  exact hnone (decide_eq_true hkey)

theorem fieldAt?_eq_some_iff {fields : Fields} (hfields : fields.Unambiguous) {segment : String}
    {v : Value} :
    fieldAt? fields segment = some v ↔
      ∃ key, (Key.text key, v) ∈ fields ∧ canonical key = canonical segment := by
  refine ⟨mem_of_fieldAt?, fun ⟨key, hmem, hkey⟩ => ?_⟩
  cases hfound : fieldAt? fields segment with
  | none => exact absurd hfound (fieldAt?_ne_none hmem hkey)
  | some w =>
    obtain ⟨key', hmem', hkey'⟩ := mem_of_fieldAt? hfound
    have happart : fields.Pairwise fun a b => a.1.Apart b.1 := List.pairwise_map.1 hfields
    by_cases hsame : (Key.text key, v) = (Key.text key', w)
    · rw [(Prod.mk.inj hsame).2]
    · have hne := happart.forall hmem hmem' hsame
      exact absurd (hkey.trans hkey'.symm) (hne key key' rfl rfl)

theorem fieldAt?_congr {fields : Fields} (hfields : fields.Unambiguous) {s t : String}
    (h : canonical s = canonical t) : fieldAt? fields s = fieldAt? fields t := by
  ext v
  rw [fieldAt?_eq_some_iff hfields, fieldAt?_eq_some_iff hfields, h]

theorem unambiguous_step {v : Value} (h : v.Unambiguous) (segment : String) :
    (step v segment).Unambiguous := by
  cases h with
  | @arr items hitems =>
    change ((itemAt? items segment).getD .null).Unambiguous
    cases hitem : itemAt? items segment with
    | none => exact .null
    | some w =>
      unfold itemAt? at hitem
      split at hitem
      · split at hitem
        · exact hitems w (List.mem_of_getElem? hitem)
        · cases hitem
      · cases hitem
  | @obj fields hkeys hmembers =>
    change ((fieldAt? fields segment).getD .null).Unambiguous
    cases hfield : fieldAt? fields segment with
    | none => exact .null
    | some w =>
      obtain ⟨key, hmem, -⟩ := mem_of_fieldAt? hfield
      exact hmembers _ hmem
  | _ => exact .null

/-- A walk takes no step in a list. -/
def MeetsOnlyObjects (root : Value) (segments : List String) : Prop :=
  ∀ n < segments.length, ∀ items, lookup root (segments.take n) ≠ .arr items

theorem step_congr {v : Value} (hv : v.Unambiguous) (hlist : ∀ items, v ≠ .arr items) {s t : String}
    (h : canonical s = canonical t) : step v s = step v t := by
  cases hv with
  | @arr items _ => exact absurd rfl (hlist items)
  | obj hkeys _ => simp only [step, fieldAt?_congr hkeys h]
  | _ => rfl

theorem lookup_congr {root : Value} (hroot : root.Unambiguous) {p q : List String}
    (h : p.map canonical = q.map canonical) (hobjects : MeetsOnlyObjects root p) :
    lookup root p = lookup root q := by
  induction p generalizing root q with
  | nil =>
    cases List.map_eq_nil_iff.1 h.symm
    rfl
  | cons s p ih =>
    obtain ⟨t, q, rfl, hsegment, hrest⟩ := List.map_eq_cons_iff.1 h.symm
    have hstep : step root s = step root t :=
      step_congr hroot (hobjects 0 (Nat.zero_lt_succ _)) hsegment.symm
    rw [lookup_cons, lookup_cons, ← hstep]
    refine ih (unambiguous_step hroot s) hrest.symm fun n hn => ?_
    exact hobjects (n + 1) (Nat.succ_lt_succ hn)

theorem fieldAt?_counterpart {fields fields' : Fields} (hfields : fields.Unambiguous)
    (hkeys : (fields.map Prod.fst).Perm (fields'.map Prod.fst)) (segment : String) :
    fieldAt? fields segment = none ∧ fieldAt? fields' segment = none ∨
      ∃ k v v', (k, v) ∈ fields ∧ (k, v') ∈ fields' ∧ fieldAt? fields segment = some v ∧
        fieldAt? fields' segment = some v' := by
  have hfields' : fields'.Unambiguous := (hkeys.pairwise_iff fun h => h.symm).1 hfields
  cases hfound : fieldAt? fields segment with
  | some v =>
    obtain ⟨key, hmem, hkey⟩ := mem_of_fieldAt? hfound
    obtain ⟨⟨k, v'⟩, hmem', rfl⟩ := List.mem_map.1 (hkeys.mem_iff.1 (List.mem_map_of_mem hmem))
    have hfound' := (fieldAt?_eq_some_iff hfields').2 ⟨key, hmem', hkey⟩
    exact .inr ⟨.text key, v, v', hmem, hmem', rfl, hfound'⟩
  | none =>
    cases hfound' : fieldAt? fields' segment with
    | none => exact .inl ⟨rfl, rfl⟩
    | some v' =>
      obtain ⟨key, hmem', hkey⟩ := mem_of_fieldAt? hfound'
      obtain ⟨⟨k, v⟩, hmem, rfl⟩ := List.mem_map.1 (hkeys.mem_iff.2 (List.mem_map_of_mem hmem'))
      exact absurd hfound (fieldAt?_ne_none hmem hkey)

theorem itemAt?_counterpart {items items' : List Value} (hlength : items.length = items'.length)
    (segment : String) :
    itemAt? items segment = none ∧ itemAt? items' segment = none ∨
      ∃ (i : Nat) (v v' : Value), items[i]? = some v ∧ items'[i]? = some v' ∧
        itemAt? items segment = some v ∧ itemAt? items' segment = some v' := by
  unfold itemAt?
  cases Text.readInt? segment with
  | none => exact .inl ⟨rfl, rfl⟩
  | some i =>
    by_cases hsign : 0 ≤ i
    · by_cases hi : i.toNat < items.length
      · have hv := List.getElem?_eq_getElem hi
        have hv' := List.getElem?_eq_getElem (hlength ▸ hi)
        exact .inr ⟨i.toNat, _, _, hv, hv', (if_pos hsign).trans hv, (if_pos hsign).trans hv'⟩
      · rw [Nat.not_lt] at hi
        have hnone := List.getElem?_eq_none hi
        have hnone' := List.getElem?_eq_none (hlength ▸ hi)
        exact .inl ⟨(if_pos hsign).trans hnone, (if_pos hsign).trans hnone'⟩
    · exact .inl ⟨if_neg hsign, if_neg hsign⟩

section

variable {root root' v v' : Value}

theorem step_reordered (hv : v.Unambiguous) (h : v.Reordered v')
    (hplace : Value.Counterpart root root' v v') (segment : String) :
    (step v segment).Reordered (step v' segment) ∧
      (Value.Counterpart root root' (step v segment) (step v' segment) ∨
        step v segment = .null ∧ step v' segment = .null) := by
  cases h with
  | @arr items items' hlength hitems =>
    simp only [step]
    rcases itemAt?_counterpart hlength segment with ⟨hnone, hnone'⟩ | ⟨i, w, w', hi, hi', hw, hw'⟩
    · rw [hnone, hnone']
      exact ⟨.null, .inr ⟨rfl, rfl⟩⟩
    · rw [hw, hw']
      exact ⟨hitems i w w' hi hi', .inl (hplace.item hi hi')⟩
  | @obj fields fields' hkeys hmembers =>
    simp only [step]
    cases hv with
    | obj hfields _ =>
      rcases fieldAt?_counterpart hfields hkeys segment with
        ⟨hnone, hnone'⟩ | ⟨k, w, w', hmem, hmem', hw, hw'⟩
      · rw [hnone, hnone']
        exact ⟨.null, .inr ⟨rfl, rfl⟩⟩
      · rw [hw, hw']
        exact ⟨hmembers k w w' hmem hmem', .inl (hplace.member hmem hmem')⟩
  | _ => exact ⟨.null, .inr ⟨rfl, rfl⟩⟩

theorem unambiguous_lookup (hroot : root.Unambiguous) (segments : List String) :
    (lookup root segments).Unambiguous := by
  induction segments generalizing root with
  | nil => exact hroot
  | cons segment rest ih => exact ih (unambiguous_step hroot segment)

theorem lookup_reordered (hroot : root.Unambiguous) (h : root.Reordered root')
    (segments : List String) :
    (lookup root segments).Reordered (lookup root' segments) ∧
      (Value.Counterpart root root' (lookup root segments) (lookup root' segments) ∨
        lookup root segments = .null ∧ lookup root' segments = .null) := by
  induction segments using List.reverseRecOn with
  | nil => exact ⟨h, .inl .root⟩
  | append_singleton walked segment ih =>
    simp only [lookup_append, lookup_cons, lookup_nil]
    obtain ⟨hreordered, hplace | ⟨hnull, hnull'⟩⟩ := ih
    · exact step_reordered (unambiguous_lookup hroot walked) hreordered hplace segment
    · rw [hnull, hnull']
      exact ⟨.null, .inr ⟨rfl, rfl⟩⟩

/-- Where no two keys of an object have the same canonical form, a walk that takes no step in a list
finds the same under every spelling of its segments. And every walk, in lists too, finds in a
document whose keys are in another order what stands there at the same place, its keys in that
order; or there is nothing in either document. -/
theorem lookup_spelling_and_order (hroot : root.Unambiguous) :
    (∀ p q : List String, p.map canonical = q.map canonical → MeetsOnlyObjects root p →
      lookup root p = lookup root q) ∧
    ∀ root', root.Reordered root' → ∀ p : List String,
      (lookup root p).Reordered (lookup root' p) ∧
        (Value.Counterpart root root' (lookup root p) (lookup root' p) ∨
          lookup root p = .null ∧ lookup root' p = .null) :=
  ⟨fun _ _ h hobjects => lookup_congr hroot h hobjects, fun _ h p => lookup_reordered hroot h p⟩

end

def crossFeatures : Fields := .ofList [("candlesSinceCross", .int 3), ("Session", .str "rth")]

theorem crossFeatures_unambiguous : (Value.object [("Meta", .obj crossFeatures)]).Unambiguous := by
  have hkeys : crossFeatures.Unambiguous := by
    refine List.pairwise_pair.2 fun s t hs ht => ?_
    cases hs
    cases ht
    decide +kernel
  refine .obj (List.pairwise_singleton _ _) fun entry hentry => ?_
  rw [List.mem_singleton.1 hentry]
  refine .obj hkeys fun entry hentry => ?_
  rcases List.mem_cons.1 hentry with rfl | hentry
  · exact .int 3
  · rw [List.mem_singleton.1 hentry]
    exact .str "rth"

theorem crossFeatures_reordered :
    (Value.object [("Meta", .obj crossFeatures)]).Reordered
      (.object [("Meta", .obj crossFeatures.reverse)]) := by
  refine .obj (.refl _) fun k v v' hv hv' => ?_
  cases List.mem_singleton.1 hv
  cases List.mem_singleton.1 hv'
  refine .of_perm crossFeatures.reverse_perm.symm (by decide) fun entry hentry => ?_
  rcases List.mem_cons.1 hentry with rfl | hentry
  · exact .int 3
  · rw [List.mem_singleton.1 hentry]
    exact .str "rth"

theorem lookup_spelling_and_order_meta :
    (Value.object [("Meta", .obj crossFeatures)]).Unambiguous ∧
      lookup (.object [("Meta", .obj crossFeatures)]) ["meta", "candles_since_cross"] = .int 3 ∧
      (lookup (.object [("Meta", .obj crossFeatures)]) ["meta"]).Reordered
        (lookup (.object [("Meta", .obj crossFeatures.reverse)]) ["meta"]) := by
  obtain ⟨hspelling, horder⟩ := lookup_spelling_and_order crossFeatures_unambiguous
  have hobjects : MeetsOnlyObjects (.object [("Meta", .obj crossFeatures)])
      ["Meta", "candlesSinceCross"] := by
    intro n hn items h
    match n, hn with
    | 0, _ => cases h
    | 1, _ => cases h
  refine ⟨crossFeatures_unambiguous, ?_, (horder _ crossFeatures_reordered ["meta"]).1⟩
  rw [← hspelling ["Meta", "candlesSinceCross"] _ (by decide +kernel) hobjects]
  rfl

end Feature

end SignalCoach

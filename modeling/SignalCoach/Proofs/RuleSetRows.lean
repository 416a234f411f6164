import Mathlib.Data.List.MinMax
import SignalCoach.Proofs.StoreConsistency

/-! The tables behind the rule sets of a store. All rule sets share one table of tags, into which a rule
set is written row by row, each tag with its position; what is read back is sorted by position. -/
namespace SignalCoach

/-- A row of the table of tags. The tag says which rule set it is of. -/
structure TagRow where
  position : Nat
  tag : Tag

structure Catalog where
  /-- Without their tags. -/
  ruleSets : List RuleSet := []
  tags : List TagRow := []

def Tag.stored (tag : Tag) : Tag := { tag with rule := tag.rule.stored }

namespace Catalog

open Store (Refusal)

def latestVersion (c : Catalog) (owner : Option String) (name : String) : Option Int :=
  ((c.ruleSets.filter fun set => set.owner = owner ∧ set.name = name).map (·.version)).max?

/-- Two rule sets cannot have one id, nor one version of a name if they have one owner. -/
def clash (a b : RuleSet) : Bool :=
  a.id = b.id || a.owner.isSome && a.owner = b.owner && a.name = b.name && a.version = b.version

def insertRuleSet (c : Catalog) (set : RuleSet) : Except Refusal Catalog :=
  if c.ruleSets.any (clash set) then .error .conflict
  else
    let row := { set with thresholds := set.thresholds.stored, tags := [] }
    .ok { c with ruleSets := c.ruleSets ++ [row] }

def hasTag (id : String) (rows : List TagRow) : Bool := rows.any (·.tag.id = id)

def insertTag (c : Catalog) (row : TagRow) : Except Refusal Catalog :=
  if hasTag row.tag.id c.tags then .error .conflict
  else .ok { c with tags := c.tags ++ [{ row with tag := row.tag.stored }] }

def insertTags : List Tag → Nat → Catalog → Except Refusal Catalog
  | [], _, c => .ok c
  | tag :: rest, position, c =>
    match c.insertTag { position, tag } with
    | .ok c => insertTags rest (position + 1) c
    | .error refusal => .error refusal

def versioned (c : Catalog) (set : RuleSet) : RuleSet :=
  { set with
    version := RuleSet.nextVersion (c.latestVersion set.owner set.name)
    tags := set.tags.map fun tag => { tag with ruleSetId := some set.id } }

def createRuleSet (c : Catalog) (set : RuleSet) : Except Refusal (RuleSet × Catalog) :=
  match c.insertRuleSet (c.versioned set) with
  | .ok c' => (insertTags (c.versioned set).tags 0 c').map (c.versioned set, ·)
  | .error refusal => .error refusal

/-- Rows come by position, and at one position by the key of their tag. -/
def notAfter (a b : TagRow) : Bool :=
  a.position < b.position || a.position = b.position && a.tag.key ≤ b.tag.key

def ruleSet? (c : Catalog) (id : String) : Option RuleSet :=
  (c.ruleSets.find? (·.id = id)).map fun set =>
    { set with tags := ((c.tags.filter (·.tag.ruleSetId = some id)).mergeSort notAfter).map (·.tag) }

def rowsFrom : Nat → List Tag → List TagRow
  | _, [] => []
  | position, tag :: rest => { position, tag } :: rowsFrom (position + 1) rest

def ofStore (store : Store) : Catalog where
  ruleSets := store.ruleSets.map fun set => { set with tags := [] }
  tags := store.ruleSets.flatMap fun set => rowsFrom 0 set.tags

section Rows

theorem map_tag_rowsFrom (position : Nat) (tags : List Tag) :
    (rowsFrom position tags).map (·.tag) = tags := by
  induction tags generalizing position with
  | nil => rfl
  | cons tag rest ih => rw [rowsFrom, List.map_cons, ih]

theorem le_of_mem_rowsFrom {position : Nat} {tags : List Tag} {row : TagRow}
    (hrow : row ∈ rowsFrom position tags) : position ≤ row.position := by
  induction tags generalizing position with
  | nil => cases hrow
  | cons tag rest ih =>
    rcases List.mem_cons.1 hrow with rfl | hrow
    · exact Nat.le_refl position
    · exact Nat.le_of_succ_le (ih hrow)

theorem mem_of_mem_rowsFrom {position : Nat} {tags : List Tag} {row : TagRow}
    (hrow : row ∈ rowsFrom position tags) : row.tag ∈ tags := by
  rw [← map_tag_rowsFrom position tags]
  exact List.mem_map_of_mem hrow

/-- Rows that were written one after the other are in order, whatever the keys of their tags. -/
theorem mergeSort_rowsFrom (position : Nat) (tags : List Tag) :
    (rowsFrom position tags).mergeSort notAfter = rowsFrom position tags := by
  apply List.mergeSort_of_pairwise
  induction tags generalizing position with
  | nil => exact List.Pairwise.nil
  | cons tag rest ih =>
    refine List.pairwise_cons.2 ⟨fun row hrow => ?_, ih (position + 1)⟩
    have hlater : position < row.position := le_of_mem_rowsFrom hrow
    simp [notAfter, hlater]

theorem insertTags_eq (tags : List Tag) (position : Nat) (c : Catalog) :
    insertTags tags position c =
      if (tags.map (·.id)).Nodup ∧ ∀ tag ∈ tags, hasTag tag.id c.tags = false then
        .ok { c with tags := c.tags ++ rowsFrom position (tags.map Tag.stored) }
      else .error .conflict := by
  induction tags generalizing position c with
  | nil => simp [insertTags, rowsFrom]
  | cons tag rest ih =>
    unfold insertTags insertTag
    cases htaken : hasTag tag.id c.tags with
    | true => simp [htaken]
    | false =>
      let c' : Catalog := { c with tags := c.tags ++ [{ position, tag := tag.stored }] }
      have hhas (id : String) : hasTag id c'.tags = (hasTag id c.tags || tag.id = id) := by
        simp [c', hasTag, Tag.stored]
      have hiff : ((rest.map (·.id)).Nodup ∧ ∀ other ∈ rest, hasTag other.id c'.tags = false) ↔
          ((tag :: rest).map (·.id)).Nodup ∧
            ∀ other ∈ tag :: rest, hasTag other.id c.tags = false := by
        simp only [hhas, Bool.or_eq_false_iff, decide_eq_false_iff_not, List.map_cons,
          List.nodup_cons, List.forall_mem_cons, htaken, true_and, List.mem_map, not_exists, not_and]
        constructor
        · rintro ⟨hrest, hfree⟩
          exact ⟨⟨fun other hother heq => (hfree other hother).2 heq.symm, hrest⟩,
            fun other hother => (hfree other hother).1⟩
        · rintro ⟨⟨hnew, hrest⟩, hfree⟩
          exact ⟨hrest, fun other hother =>
            ⟨hfree other hother, fun heq => hnew other hother heq.symm⟩⟩
      rw [if_neg Bool.false_ne_true]
      dsimp only
      rw [ih (position + 1) c', if_congr hiff rfl rfl]
      simp [c', rowsFrom]

end Rows

section Agreement

variable {store : Store}

theorem latestVersion_ofStore (owner : Option String) (name : String) :
    (ofStore store).latestVersion owner name = store.latestVersion owner name := by
  unfold latestVersion ofStore Store.latestVersion
  rw [List.filter_map, List.map_map]
  rfl

theorem version_ne_next {set : RuleSet} (hset : set ∈ store.ruleSets) :
    set.version ≠ RuleSet.nextVersion (store.latestVersion set.owner set.name) := by
  have hmem : set.version ∈
      (store.ruleSets.filter fun other => other.owner = set.owner ∧ other.name = set.name).map
        (·.version) :=
    List.mem_map_of_mem (List.mem_filter.2 ⟨hset, by simp⟩)
  cases hlatest : store.latestVersion set.owner set.name with
  | none =>
    rw [List.max?_eq_none_iff.1 hlatest] at hmem
    cases hmem
  | some latest =>
    have hle := (List.max?_eq_some_iff.1 hlatest).2 _ hmem
    rw [RuleSet.nextVersion, Option.getD_some]
    omega

theorem any_clash_ofStore (set : RuleSet) :
    (ofStore store).ruleSets.any (clash (store.versioned set)) =
      store.ruleSets.any (·.id = set.id) := by
  rw [ofStore, List.any_map, Bool.eq_iff_iff, List.any_eq_true, List.any_eq_true]
  refine exists_congr fun other => and_congr_right fun hother => ?_
  have hid : (store.versioned set).id = set.id := rfl
  constructor
  · intro hclash
    simp only [Function.comp_apply, clash, hid, Bool.or_eq_true, Bool.and_eq_true,
      decide_eq_true_eq] at hclash ⊢
    rcases hclash with hid | ⟨⟨⟨-, howner⟩, hname⟩, hversion⟩
    · exact hid.symm
    · have howner : set.owner = other.owner := howner
      have hname : set.name = other.name := hname
      have hversion : RuleSet.nextVersion (store.latestVersion set.owner set.name) = other.version :=
        hversion
      rw [howner, hname] at hversion
      exact absurd hversion.symm (version_ne_next hother)
  · intro hsame
    rw [decide_eq_true_eq] at hsame
    simp [clash, hid, hsame]

theorem hasTag_ofStore (id : String) :
    hasTag id (ofStore store).tags = store.tagIds.contains id := by
  rw [Bool.eq_iff_iff, List.contains_iff_mem]
  unfold hasTag ofStore Store.tagIds
  rw [List.any_flatMap, List.any_eq_true, List.mem_flatMap]
  refine exists_congr fun set => and_congr_right fun _ => ?_
  rw [← map_tag_rowsFrom 0 set.tags, List.map_map, List.any_eq_true]
  simp [map_tag_rowsFrom]

theorem versioned_ofStore (set : RuleSet) : (ofStore store).versioned set = store.versioned set := by
  unfold versioned
  rw [latestVersion_ofStore]
  rfl

theorem tags_new_iff {set : RuleSet} (hid : store.ruleSets.any (·.id = set.id) = false) :
    ((store.versioned set).tags.map (·.id)).Nodup ∧
        (∀ tag ∈ (store.versioned set).tags, hasTag tag.id (ofStore store).tags = false) ↔
      ¬ (store.ruleSets.any (·.id = (store.versioned set).id) ∨
        ¬ ((store.versioned set).tags.map (·.id)).Nodup ∨
        ((store.versioned set).tags.map (·.id)).any store.tagIds.contains) := by
  have hid : store.ruleSets.any (·.id = (store.versioned set).id) = false := hid
  rw [hid]
  simp only [hasTag_ofStore, Bool.false_eq_true, false_or, not_or, Decidable.not_not, List.any_map,
    Bool.not_eq_true, List.any_eq_false, Function.comp_apply]

theorem createRuleSet_ofStore (set : RuleSet) :
    (ofStore store).createRuleSet set = (store.createRuleSet set).map fun r => (r.1, ofStore r.2) := by
  unfold createRuleSet insertRuleSet Store.createRuleSet
  rw [versioned_ofStore, any_clash_ofStore]
  cases hid : store.ruleSets.any (·.id = set.id) with
  | true =>
    rw [if_pos rfl, if_pos (.inl hid)]
    rfl
  | false =>
    rw [if_neg Bool.false_ne_true]
    dsimp only
    rw [insertTags_eq, if_congr (tags_new_iff hid) rfl rfl]
    by_cases htaken : (store.ruleSets.any (·.id = (store.versioned set).id) ∨
        ¬ ((store.versioned set).tags.map (·.id)).Nodup ∨
        ((store.versioned set).tags.map (·.id)).any store.tagIds.contains)
    · rw [if_neg (not_not_intro htaken), if_pos htaken]
      rfl
    · rw [if_pos htaken, if_neg htaken]
      simp [Except.map, ofStore, Store.storedRuleSet]
      rfl

end Agreement

end Catalog

/-- Every rule set has an id of its own, and its tags say that they are its tags. -/
structure Store.Filed (store : Store) : Prop where
  ids : (store.ruleSets.map (·.id)).Nodup
  tags : ∀ set ∈ store.ruleSets, ∀ tag ∈ set.tags, tag.ruleSetId = some set.id

namespace Catalog

section Reading

variable {store : Store}

theorem filter_rows (htags : ∀ set ∈ store.ruleSets, ∀ tag ∈ set.tags, tag.ruleSetId = some set.id)
    (id : String) :
    (ofStore store).tags.filter (·.tag.ruleSetId = some id) =
      (store.ruleSets.filter (·.id = id)).flatMap fun set => rowsFrom 0 set.tags := by
  change (store.ruleSets.flatMap _).filter _ = _
  generalize store.ruleSets = sets at htags
  induction sets with
  | nil => rfl
  | cons set rest ih =>
    obtain ⟨hfirst, hrest⟩ := List.forall_mem_cons.1 htags
    rw [List.flatMap_cons, List.filter_append, ih hrest]
    by_cases hid : set.id = id
    · have hown : (rowsFrom 0 set.tags).filter (·.tag.ruleSetId = some id) = rowsFrom 0 set.tags := by
        rw [List.filter_eq_self]
        intro row hrow
        rw [decide_eq_true_eq, hfirst row.tag (mem_of_mem_rowsFrom hrow), hid]
      rw [hown, List.filter_cons_of_pos (by simpa using hid), List.flatMap_cons]
    · have hother : (rowsFrom 0 set.tags).filter (·.tag.ruleSetId = some id) = [] := by
        rw [List.filter_eq_nil_iff]
        intro row hrow
        rw [decide_eq_true_eq, hfirst row.tag (mem_of_mem_rowsFrom hrow)]
        exact fun hsame => hid (Option.some.inj hsame)
      rw [hother, List.nil_append, List.filter_cons_of_neg (by simpa using hid)]

/-- What is read from the tables is what the store has. -/
theorem ruleSet?_ofStore (h : store.Filed) (id : String) :
    (ofStore store).ruleSet? id = store.ruleSets.find? (·.id = id) := by
  unfold ruleSet?
  rw [filter_rows h.tags]
  change ((store.ruleSets.map _).find? _).map _ = _
  rw [List.find?_map, Option.map_map]
  cases hfind : store.ruleSets.find? (·.id = id) with
  | none =>
    change (store.ruleSets.find? (·.id = id)).map _ = none
    rw [hfind]
    rfl
  | some set =>
    have hset := List.mem_of_find?_eq_some hfind
    have hid : set.id = id := by simpa using List.find?_some hfind
    change (store.ruleSets.find? (·.id = id)).map _ = some set
    rw [hfind, ← hid, Store.filter_of_nodup h.ids hset, List.flatMap_singleton, mergeSort_rowsFrom,
      map_tag_rowsFrom]
    rfl

end Reading

end Catalog

end SignalCoach

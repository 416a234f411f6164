import SignalCoach.Proofs.KeptRecords

/-! The versions of rule sets. A rule set is written row by row, and what was written before a row that is
refused is taken back; so the versions of an owner's rule sets of a name count the calls that succeeded. -/
namespace SignalCoach

namespace Catalog

open Store (Refusal)

/-- Rows written in an open transaction. Those before a row that is refused are written. -/
abbrev Writing := EStateM Refusal Catalog

def Writing.insert (row : Catalog → Except Refusal Catalog) : Writing Unit := fun c =>
  match row c with
  | .ok c' => .ok () c'
  | .error refusal => .error refusal c

def writeTags : List Tag → Nat → Writing Unit
  | [], _ => pure ()
  | tag :: rest, position => do
    Writing.insert (·.insertTag { position, tag })
    writeTags rest (position + 1)

def writeRuleSet (set : RuleSet) : Writing RuleSet := do
  let created := (← get).versioned set
  Writing.insert (·.insertRuleSet created)
  writeTags created.tags 0
  pure created

def transaction (work : Writing α) : Writing α := fun c =>
  match work c with
  | .ok a c' => .ok a c'
  | .error refusal _ => .error refusal c

/-- What counts of written rows in the end: of those before a refusal, none. -/
def outcome : EStateM.Result Refusal Catalog α → Except Refusal (α × Catalog)
  | .ok a c => .ok (a, c)
  | .error refusal _ => .error refusal

theorem outcome_bind (work : Writing α) (next : α → Writing β) (c : Catalog) :
    outcome ((work >>= next) c) =
      match outcome (work c) with
      | .ok (a, c') => outcome (next a c')
      | .error refusal => .error refusal := by
  change outcome (EStateM.bind work next c) = _
  unfold EStateM.bind
  cases work c <;> rfl

theorem outcome_insert (row : Catalog → Except Refusal Catalog) (c : Catalog) :
    outcome (Writing.insert row c) = (row c).map ((), ·) := by
  unfold Writing.insert
  cases row c <;> rfl

theorem outcome_writeTags (tags : List Tag) (position : Nat) (c : Catalog) :
    outcome (writeTags tags position c) = (insertTags tags position c).map ((), ·) := by
  induction tags generalizing position c with
  | nil => rfl
  | cons tag rest ih =>
    rw [writeTags, outcome_bind, outcome_insert, insertTags]
    cases c.insertTag { position, tag } with
    | ok c' => exact ih (position + 1) c'
    | error refusal => rfl

theorem outcome_writeRuleSet (set : RuleSet) (c : Catalog) :
    outcome (writeRuleSet set c) = c.createRuleSet set := by
  have hread : writeRuleSet set c = (Writing.insert (·.insertRuleSet (c.versioned set)) >>=
    fun _ => writeTags (c.versioned set).tags 0 >>= fun _ => pure (c.versioned set)) c := rfl
  rw [hread, outcome_bind, outcome_insert, createRuleSet]
  cases c.insertRuleSet (c.versioned set) with
  | error refusal => rfl
  | ok c' =>
    change outcome ((writeTags _ 0 >>= _) c') = _
    rw [outcome_bind, outcome_writeTags]
    dsimp only
    cases insertTags (c.versioned set).tags 0 c' <;> rfl

/-- In a transaction a rule set is created with all of its tags, or the tables stay as they were. -/
theorem transaction_writeRuleSet (set : RuleSet) (c : Catalog) :
    transaction (writeRuleSet set) c =
      match c.createRuleSet set with
      | .ok (created, c') => .ok created c'
      | .error refusal => .error refusal c := by
  rw [← outcome_writeRuleSet, transaction]
  cases writeRuleSet set c <;> rfl

end Catalog

namespace RuleSet

def isNamed (owner : Option String) (name : String) (set : RuleSet) : Bool :=
  set.owner = owner ∧ set.name = name

def versionsOf (owner : Option String) (name : String) (sets : List RuleSet) : List Int :=
  (sets.filter (·.isNamed owner name)).map (·.version)

def numbered (n : Nat) : List Int := (List.range' 1 n).map Int.ofNat

theorem numbered_succ (n : Nat) : numbered (n + 1) = numbered n ++ [(n : Int) + 1] := by
  simp [numbered, List.range'_concat, Nat.add_comm]

theorem nextVersion_numbered (n : Nat) : nextVersion (numbered n).max? = n + 1 := by
  cases n with
  | zero => rfl
  | succ n =>
    have hmax : (numbered (n + 1)).max? = some ((n : Int) + 1) := by
      refine List.max?_eq_some_iff.2 ⟨by simp [numbered_succ], fun version hversion => ?_⟩
      obtain ⟨k, hk, rfl⟩ := List.mem_map.1 hversion
      have hbound := List.mem_range'_1.1 hk
      change (k : Int) ≤ n + 1
      omega
    rw [hmax, nextVersion, Option.getD_some]
    omega

def Gapless (sets : List RuleSet) : Prop :=
  ∀ owner name, versionsOf owner name sets = numbered (versionsOf owner name sets).length

theorem Gapless.append {sets : List RuleSet} (h : Gapless sets) {set : RuleSet}
    (hversion : set.version = nextVersion (versionsOf set.owner set.name sets).max?) :
    Gapless (sets ++ [set]) := by
  intro owner name
  have happend : versionsOf owner name (sets ++ [set]) =
      versionsOf owner name sets ++ versionsOf owner name [set] := by
    simp [versionsOf]
  rw [happend]
  by_cases hnamed : set.isNamed owner name
  · obtain ⟨rfl, rfl⟩ : set.owner = owner ∧ set.name = name := by simpa [isNamed] using hnamed
    have hlast : versionsOf set.owner set.name [set] = [set.version] := by
      simp [versionsOf, hnamed]
    rw [hlast, hversion, h set.owner set.name, nextVersion_numbered, ← numbered_succ]
    simp [numbered]
  · have hlast : versionsOf owner name [set] = [] := by simp [versionsOf, hnamed]
    rw [hlast, List.append_nil]
    exact h owner name

theorem versionsOf_stored (owner : Option String) (name : String) (sets : List RuleSet) :
    versionsOf owner name (sets.map Store.storedRuleSet) = versionsOf owner name sets := by
  unfold versionsOf
  rw [List.filter_map, List.map_map]
  rfl

end RuleSet

namespace Store

structure HasRoomFor (store : Store) (set : RuleSet) : Prop where
  id : ∀ other ∈ store.ruleSets, other.id ≠ set.id
  tags_distinct : (set.tags.map (·.id)).Nodup
  tags : ∀ tag ∈ set.tags, tag.id ∉ store.tagIds

def addRuleSet (store : Store) (set : RuleSet) : Store :=
  { store with ruleSets := store.ruleSets ++ [storedRuleSet set] }

theorem createRuleSet_cases (store : Store) (set : RuleSet) :
    (store.HasRoomFor set ∧ store.createRuleSet set =
      .ok (store.versioned set, store.addRuleSet (store.versioned set))) ∨
    (¬ store.HasRoomFor set ∧ store.createRuleSet set = .error .conflict) := by
  have hids : (store.versioned set).tags.map (·.id) = set.tags.map (·.id) := by
    simp [versioned]
  unfold createRuleSet
  dsimp only
  rw [hids]
  split
  next htaken =>
    refine .inr ⟨fun hroom => ?_, rfl⟩
    rcases htaken with hid | hdistinct | htags
    · obtain ⟨other, hother, hsame⟩ := List.any_eq_true.1 hid
      exact hroom.id other hother (of_decide_eq_true hsame)
    · exact hdistinct hroom.tags_distinct
    · obtain ⟨id, hid, hthere⟩ := List.any_eq_true.1 htags
      obtain ⟨tag, htag, rfl⟩ := List.mem_map.1 hid
      exact hroom.tags tag htag (List.contains_iff_mem.1 hthere)
  next hnew =>
    obtain ⟨hid, hrest⟩ := not_or.1 hnew
    obtain ⟨hdistinct, htags⟩ := not_or.1 hrest
    refine .inl ⟨⟨fun other hother hsame => ?_, not_not.1 hdistinct, fun tag htag hthere => ?_⟩, rfl⟩
    · exact hid (List.any_eq_true.2 ⟨other, hother, decide_eq_true hsame⟩)
    · exact htags (List.any_eq_true.2
        ⟨tag.id, List.mem_map_of_mem htag, List.contains_iff_mem.2 hthere⟩)

end Store

namespace Ledger

def created? (ledger : Ledger) : Event → Option RuleSet
  | .ruleSet set => (ledger.store.createRuleSet set).toOption.map (·.1)
  | .session _ | .snapshot _ | .job _ => none

def createdFrom (ledger : Ledger) : List Event → List RuleSet
  | [] => []
  | event :: rest => (ledger.created? event).toList ++ createdFrom (ledger.perform event) rest

def created (events : List Event) : List RuleSet := createdFrom {} events

theorem created?_of_ne (ledger : Ledger) {event : Event} (hother : ∀ set, event ≠ .ruleSet set) :
    ledger.created? event = none := by
  cases event with
  | ruleSet set => exact absurd rfl (hother set)
  | session _ | snapshot _ | job _ => rfl

theorem ruleSet_cases (ledger : Ledger) (set : RuleSet) :
    (ledger.store.HasRoomFor set ∧
      ledger.created? (.ruleSet set) = some (ledger.store.versioned set) ∧
      (ledger.perform (.ruleSet set)).store = ledger.store.addRuleSet (ledger.store.versioned set)) ∨
    (¬ ledger.store.HasRoomFor set ∧ ledger.created? (.ruleSet set) = none ∧
      ledger.perform (.ruleSet set) = ledger) := by
  rcases ledger.store.createRuleSet_cases set with ⟨hroom, h⟩ | ⟨hroom, h⟩
  · exact .inl ⟨hroom, by simp [created?, h, Except.toOption], by simp [perform, h]⟩
  · exact .inr ⟨hroom, by simp [created?, h, Except.toOption], by simp [perform, h]⟩

theorem ruleSets_step (ledger : Ledger) (event : Event) :
    (ledger.created? event = none ∧
      (ledger.perform event).store.ruleSets = ledger.store.ruleSets) ∨
    ∃ created, ledger.created? event = some created ∧
      created.version =
        RuleSet.nextVersion (RuleSet.versionsOf created.owner created.name ledger.store.ruleSets).max? ∧
      (ledger.perform event).store.ruleSets =
        ledger.store.ruleSets ++ [Store.storedRuleSet created] := by
  by_cases hother : ∀ set, event ≠ .ruleSet set
  · exact .inl ⟨ledger.created?_of_ne hother, ledger.ruleSets_perform hother⟩
  · obtain ⟨set, rfl⟩ : ∃ set, event = .ruleSet set := by simpa using hother
    rcases ledger.ruleSet_cases set with ⟨-, hcreated, hstore⟩ | ⟨-, hrefused, hledger⟩
    · refine .inr ⟨_, hcreated, rfl, ?_⟩
      rw [hstore]
      rfl
    · exact .inl ⟨hrefused, by rw [hledger]⟩

theorem perform_gapless {ledger : Ledger} (h : RuleSet.Gapless ledger.store.ruleSets) (event : Event) :
    RuleSet.Gapless (ledger.perform event).store.ruleSets := by
  rcases ledger.ruleSets_step event with ⟨-, hsame⟩ | ⟨created, -, hversion, hadded⟩
  · rwa [hsame]
  · rw [hadded]
    exact h.append hversion

theorem run_gapless (events : List Event) : RuleSet.Gapless (run events).store.ruleSets := by
  suffices h : ∀ {ledger : Ledger}, RuleSet.Gapless ledger.store.ruleSets →
      RuleSet.Gapless (events.foldl perform ledger).store.ruleSets from h fun _ _ => rfl
  induction events with
  | nil => exact id
  | cons event rest ih => exact fun hgapless => ih (perform_gapless hgapless event)

theorem ruleSets_foldl (ledger : Ledger) (events : List Event) :
    (events.foldl perform ledger).store.ruleSets =
      ledger.store.ruleSets ++ (ledger.createdFrom events).map Store.storedRuleSet := by
  induction events generalizing ledger with
  | nil => exact (List.append_nil _).symm
  | cons event rest ih =>
    rw [List.foldl_cons, ih, createdFrom]
    rcases ledger.ruleSets_step event with ⟨hnone, hsame⟩ | ⟨created, hcreated, -, hadded⟩
    · rw [hnone, hsame]
      rfl
    · rw [hcreated, hadded, List.append_assoc]
      rfl

theorem ruleSets_run (events : List Event) :
    (run events).store.ruleSets = (created events).map Store.storedRuleSet :=
  ruleSets_foldl {} events

/-- What a call to create a rule set comes to after a run: what is returned, and the tables. A call that
is refused leaves them as they were. -/
def callAfter (events : List Event) (set : RuleSet) : EStateM.Result Store.Refusal Catalog RuleSet :=
  match (run events).created? (.ruleSet set) with
  | some created => .ok created (Catalog.run (events ++ [.ruleSet set]))
  | none => .error .conflict (Catalog.run events)

theorem transaction_run (events : List Event) (set : RuleSet) :
    Catalog.transaction (Catalog.writeRuleSet set) (Catalog.run events) = callAfter events set := by
  have hafter : Catalog.run (events ++ [.ruleSet set]) =
      Catalog.ofStore ((run events).perform (.ruleSet set)).store := by
    rw [Catalog.run_eq, run_append]
    rfl
  rw [callAfter, hafter, Catalog.transaction_writeRuleSet, Catalog.run_eq,
    Catalog.createRuleSet_ofStore]
  rcases (run events).store.createRuleSet_cases set with ⟨-, h⟩ | ⟨-, h⟩ <;>
    simp [created?, perform, h, Except.map, Except.toOption]

structure Versioned (events : List Event) : Prop where
  /-- The store has what was created, one after the other, and nothing that was refused. -/
  stored : (run events).store.ruleSets = (created events).map Store.storedRuleSet
  /-- The tables have the rows of these rule sets and of their tags. -/
  rows : Catalog.run events = Catalog.ofStore (run events).store
  /-- For each owner and name, what was created first has version 1, what came next has 2, and so on. -/
  versions : ∀ owner name,
    ((run events).store.ruleSets.filter (·.isNamed owner name)).map (·.version) =
      RuleSet.numbered ((created events).filter (·.isNamed owner name)).length
  /-- A call writes its rows one after the other, and if one of them is refused it leaves none. -/
  call : ∀ set,
    Catalog.transaction (Catalog.writeRuleSet set) (Catalog.run events) = callAfter events set
  created_iff : ∀ set,
    ((run events).created? (.ruleSet set)).isSome ↔ (run events).store.HasRoomFor set
  /-- The version that a rule set comes with is not looked at. -/
  given : ∀ set version,
    (run events).created? (.ruleSet { set with version }) = (run events).created? (.ruleSet set)

/-- Whatever rule sets are handed in, by whichever owners and under whichever names, and whatever else
happens in between, the versions for an owner and a name are the numbers from one on. -/
theorem run_versioned (events : List Event) : Versioned events where
  stored := ruleSets_run events
  rows := Catalog.run_eq events
  versions owner name := by
    have hcount : (RuleSet.versionsOf owner name (run events).store.ruleSets).length =
        ((created events).filter (·.isNamed owner name)).length := by
      rw [ruleSets_run, RuleSet.versionsOf_stored, RuleSet.versionsOf, List.length_map]
    rw [← hcount]
    exact run_gapless events owner name
  call := transaction_run events
  created_iff set := by
    rcases (run events).ruleSet_cases set with ⟨hroom, h, -⟩ | ⟨hroom, h, -⟩
    · exact iff_of_true (by rw [h]; rfl) hroom
    · exact iff_of_false (by rw [h]; nofun) hroom
  given _ _ := rfl

/-- Two calls are refused here: one for the id of its rule set, and one whose own row was written before
a tag came twice. -/
example :
    let events : List Event := [.ruleSet (openSet "rs-1" ["t-1"]), .ruleSet (openSet "rs-1" ["t-2"]),
      .ruleSet (openSet "rs-2" ["t-3", "t-3"]), .ruleSet { openSet "rs-3" [] with owner := some "o-1" },
      .ruleSet { openSet "rs-2" ["t-3"] with version := 7 }]
    (Catalog.run events).ruleSets.map (fun set => (set.id, set.version)) =
        [("rs-1", 1), ("rs-3", 1), ("rs-2", 2)] ∧
      (Catalog.run events).tags.map (·.tag.id) = ["t-1", "t-3"] := by
  decide +kernel

end Ledger

end SignalCoach

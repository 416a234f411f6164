import Mathlib.Tactic.Common
import SignalCoach.Yaml.Document

/-! Documents of files have no key twice. -/
namespace SignalCoach

theorem Key.same_self_text (s : String) : (Key.text s).same (.text s) = true := by simp [Key.same]

theorem Key.text_same (s : String) (k : Key) : (Key.text s).same k = true ↔ k = .text s := by
  cases k with
  | text t => simp [Key.same, eq_comm]
  | double x =>
    cases h : Key.same.number? (.double x) <;>
      simp [Key.same, h, show Key.same.number? (.text s) = none from rfl]
  | _ => simp [Key.same, Key.same.number?]

namespace Fields

def DistinctKeys (fields : Fields) : Prop := fields.Pairwise fun a b => a.1.same b.1 = false

/-- A member of an object after a put is an old one, or has the new value under the new key or under
the old key in its place. -/
theorem mem_put {fields : Fields} {k : Key} {v : Value} {entry : Key × Value}
    (h : entry ∈ fields.put k v) :
    entry ∈ fields ∨ entry.2 = v ∧ (entry.1 = k ∨ ∃ old ∈ fields, old.1 = entry.1) := by
  induction fields with
  | nil =>
    rw [put, List.mem_singleton] at h
    rw [h]
    exact .inr ⟨rfl, .inl rfl⟩
  | cons head rest ih =>
    obtain ⟨k', v'⟩ := head
    unfold put at h
    split at h
    · rcases List.mem_cons.1 h with rfl | hrest
      · exact .inr ⟨rfl, .inr ⟨(k', v'), List.mem_cons_self, rfl⟩⟩
      · exact .inl (List.mem_cons_of_mem _ hrest)
    · rcases List.mem_cons.1 h with rfl | hrest
      · exact .inl List.mem_cons_self
      · rcases ih hrest with hold | ⟨hv, hk | ⟨old, hold, hk⟩⟩
        · exact .inl (List.mem_cons_of_mem _ hold)
        · exact .inr ⟨hv, .inl hk⟩
        · exact .inr ⟨hv, .inr ⟨old, List.mem_cons_of_mem _ hold, hk⟩⟩

theorem DistinctKeys.put {fields : Fields} (h : fields.DistinctKeys) (k : Key) (v : Value) :
    (fields.put k v).DistinctKeys := by
  induction fields with
  | nil => exact List.pairwise_singleton _ _
  | cons head rest ih =>
    obtain ⟨k', v'⟩ := head
    obtain ⟨hhead, hrest⟩ := List.pairwise_cons.1 h
    unfold Fields.put
    split
    · exact List.pairwise_cons.2 ⟨hhead, hrest⟩
    next hother =>
      refine List.pairwise_cons.2 ⟨fun entry hentry => ?_, ih hrest⟩
      rcases mem_put hentry with hold | ⟨-, hk | ⟨old, hold, hk⟩⟩
      · exact hhead entry hold
      · simpa [hk] using hother
      · exact hk ▸ hhead old hold

theorem DistinctKeys.get?_head {k : Key} {v : Value} {rest : Fields} {name : String}
    (h : DistinctKeys ((k, v) :: rest)) (hk : k = .text name) : Fields.get? rest name = none := by
  unfold get?
  rw [Option.map_eq_none_iff, List.find?_eq_none]
  intro entry hentry hname
  have hsame := (List.pairwise_cons.1 h).1 entry hentry
  rw [hk, of_decide_eq_true hname, Key.same_self_text] at hsame
  cases hsame

end Fields

inductive Value.Distinct : Value → Prop where
  | null : Distinct .null
  | bool (b : Bool) : Distinct (.bool b)
  | int (n : Int) : Distinct (.int n)
  | double (x : Double) : Distinct (.double x)
  | str (s : String) : Distinct (.str s)
  | arr {items : List Value} (h : ∀ v ∈ items, v.Distinct) : Distinct (.arr items)
  | obj {fields : Fields} (hkeys : fields.DistinctKeys) (h : ∀ entry ∈ fields, entry.2.Distinct) :
    Distinct (.obj fields)

theorem Value.Distinct.get? {fields : Fields} (h : (Value.obj fields).Distinct) {name : String}
    {v : Value} (hv : Fields.get? fields name = some v) : v.Distinct := by
  obtain ⟨entry, hfind, rfl⟩ := Option.map_eq_some_iff.1 hv
  cases h with
  | obj _ hmembers => exact hmembers entry (List.mem_of_find?_eq_some hfind)

theorem Value.Distinct.put {fields : Fields} (h : (Value.obj fields).Distinct) (k : Key) {v : Value}
    (hv : v.Distinct) : (Value.obj (fields.put k v)).Distinct := by
  cases h with
  | obj hkeys hmembers =>
    refine .obj (hkeys.put k v) fun entry hentry => ?_
    rcases Fields.mem_put hentry with hold | ⟨hnew, -⟩
    · exact hmembers entry hold
    · rw [hnew]
      exact hv

theorem Value.Distinct.empty : (Value.obj []).Distinct := .obj List.Pairwise.nil (by simp)

namespace Yaml

theorem wordValue?_distinct {s : List Char} {v : Value} (h : wordValue? s = some v) :
    v.Distinct := by
  unfold wordValue? at h
  simp only at h
  split at h
  · cases h
    exact .null
  · split at h
    · cases h
      exact .bool _
    · split at h
      · cases h
        exact .bool _
      · split at h
        · cases h
        · split at h <;> cases h <;> constructor

def Sound (p : Parsed) : Prop := ∀ read, p = some read → read.1.Distinct

theorem Sound.bind {p : Parsed} (hp : Sound p) {next : Value × List Token → Parsed}
    (hnext : ∀ v rest, v.Distinct → Sound (next (v, rest))) : Sound (p >>= next) := by
  intro read h
  obtain ⟨first, hfirst, h⟩ := Option.bind_eq_some_iff.1 h
  exact hnext first.1 first.2 (hp first hfirst) read h

theorem Sound.member {done : Fields} (hdone : (Value.obj done).Distinct) (k : Value) {v : Value}
    (hv : v.Distinct) {next : Fields → Parsed}
    (hnext : ∀ fields : Fields, (Value.obj fields).Distinct → Sound (next fields)) :
    Sound (member? done k v >>= next) := by
  intro read h
  obtain ⟨fields, hfields, h⟩ := Option.bind_eq_some_iff.1 h
  obtain ⟨key, -, rfl⟩ := Option.map_eq_some_iff.1 hfields
  exact hnext _ (hdone.put key hv) read h

structure SoundAt (fuel : Nat) : Prop where
  node : ∀ position tokens, Sound (node fuel position tokens)
  nodeOrNull : ∀ position ends tokens, Sound (nodeOrNull fuel position ends tokens)
  valueOrNull : ∀ position ends tokens, Sound (valueOrNull fuel position ends tokens)
  blockItems : ∀ rev tokens, (∀ v ∈ rev, v.Distinct) → Sound (blockItems fuel rev tokens)
  looseItems : ∀ rev tokens, (∀ v ∈ rev, v.Distinct) → Sound (looseItems fuel rev tokens)
  flowItems : ∀ first rev tokens, (∀ v ∈ rev, v.Distinct) →
    Sound (flowItems fuel first rev tokens)
  blockMembers : ∀ done tokens, (Value.obj done).Distinct → Sound (blockMembers fuel done tokens)
  flowMembers : ∀ first done tokens, (Value.obj done).Distinct →
    Sound (flowMembers fuel first done tokens)

theorem sound_none : Sound none := fun read h => by cases h

theorem sound_some {v : Value} (hv : v.Distinct) (rest : List Token) : Sound (some (v, rest)) :=
  fun read h => by
    cases h
    exact hv

theorem sound_reverse {rev : List Value} (hrev : ∀ v ∈ rev, v.Distinct) (rest : List Token) :
    Sound (some (.arr rev.reverse, rest)) :=
  sound_some (.arr fun v hv => hrev v (List.mem_reverse.1 hv)) rest

theorem soundAt_zero : SoundAt 0 where
  node position tokens := by
    unfold Yaml.node
    exact sound_none
  nodeOrNull position ends tokens := by
    unfold Yaml.nodeOrNull
    exact sound_none
  valueOrNull position ends tokens := by
    unfold Yaml.valueOrNull
    exact sound_none
  blockItems rev tokens hrev := by
    unfold Yaml.blockItems
    exact sound_none
  looseItems rev tokens hrev := by
    unfold Yaml.looseItems
    exact sound_none
  flowItems first rev tokens hrev := by
    unfold Yaml.flowItems
    exact sound_none
  blockMembers done tokens hdone := by
    unfold Yaml.blockMembers
    exact sound_none
  flowMembers first done tokens hdone := by
    unfold Yaml.flowMembers
    exact sound_none

theorem SoundAt.succ {fuel : Nat} (h : SoundAt fuel) : SoundAt (fuel + 1) where
  node position tokens := by
    unfold Yaml.node
    split
    · exact sound_some (.str _) _
    · intro read hword
      obtain ⟨word, hread, hpair⟩ := Option.map_eq_some_iff.1 hword
      cases hpair
      exact wordValue?_distinct hread
    · exact sound_some .null _
    · exact h.flowItems _ _ _ (by simp)
    · exact h.flowMembers _ _ _ .empty
    · split
      · exact sound_none
      · exact h.blockItems _ _ (by simp)
    · split
      · exact sound_none
      · exact h.blockMembers _ _ .empty
    · split
      · exact h.looseItems _ _ (by simp)
      · exact sound_none
    · exact sound_none
  nodeOrNull position ends tokens := by
    unfold Yaml.nodeOrNull
    split
    · exact sound_some .null _
    · exact h.node position tokens
  valueOrNull position ends tokens := by
    unfold Yaml.valueOrNull
    split
    · exact h.nodeOrNull position ends _
    · exact sound_some .null _
  blockItems rev tokens hrev := by
    unfold Yaml.blockItems
    simp only
    split
    · refine (h.nodeOrNull _ _ _).bind fun v rest hv => ?_
      exact h.blockItems _ _ (List.forall_mem_cons.2 ⟨hv, hrev⟩)
    · exact sound_reverse hrev _
    · exact sound_none
  looseItems rev tokens hrev := by
    unfold Yaml.looseItems
    simp only
    split
    · refine (h.nodeOrNull _ _ _).bind fun v rest hv => ?_
      exact h.looseItems _ _ (List.forall_mem_cons.2 ⟨hv, hrev⟩)
    · exact sound_reverse hrev _
  flowItems first rev tokens hrev := by
    unfold Yaml.flowItems
    simp only
    split
    · exact sound_reverse hrev _
    · intro read hread
      obtain ⟨later, -, hread⟩ := Option.bind_eq_some_iff.1 hread
      split at hread
      · exact sound_reverse hrev _ read hread
      · refine Sound.bind (h.nodeOrNull _ _ _) (fun k rest _ => ?_) read hread
        refine (h.valueOrNull _ _ _).bind fun v rest hv => ?_
        refine Sound.member .empty k hv fun fields hfields => ?_
        exact h.flowItems _ _ _ (List.forall_mem_cons.2 ⟨hfields, hrev⟩)
      · refine Sound.bind (h.node _ _) (fun v rest hv => ?_) read hread
        exact h.flowItems _ _ _ (List.forall_mem_cons.2 ⟨hv, hrev⟩)
  blockMembers done tokens hdone := by
    unfold Yaml.blockMembers
    simp only
    split
    · refine (h.nodeOrNull _ _ _).bind fun k rest _ => ?_
      refine (h.valueOrNull _ _ _).bind fun v rest hv => ?_
      exact Sound.member hdone k hv fun fields hfields => h.blockMembers _ _ hfields
    · exact sound_some hdone _
    · exact sound_none
  flowMembers first done tokens hdone := by
    unfold Yaml.flowMembers
    simp only
    split
    · exact sound_some hdone _
    · intro read hread
      obtain ⟨later, -, hread⟩ := Option.bind_eq_some_iff.1 hread
      split at hread
      · exact sound_some hdone _ read hread
      · refine Sound.bind (h.nodeOrNull _ _ _) (fun k rest _ => ?_) read hread
        refine (h.valueOrNull _ _ _).bind fun v rest hv => ?_
        exact Sound.member hdone k hv fun fields hfields => h.flowMembers _ _ _ hfields
      · refine Sound.bind (h.node _ _) (fun k rest _ => ?_) read hread
        exact Sound.member hdone k .null fun fields hfields => h.flowMembers _ _ _ hfields

theorem soundAt (fuel : Nat) : SoundAt fuel := by
  induction fuel with
  | zero => exact soundAt_zero
  | succ fuel ih => exact ih.succ

theorem ofTokens?_distinct {tokens : List Token} {v : Value} (h : ofTokens? tokens = some v) :
    v.Distinct := by
  have hfinish {p : Parsed} (hp : Sound p)
      (hend : (p >>= fun read => if (skipEnds read.2).isEmpty then some read.1 else none) = some v) :
      v.Distinct := by
    obtain ⟨read, hread, hend⟩ := Option.bind_eq_some_iff.1 hend
    split at hend
    · cases hend
      exact hp read hread
    · cases hend
  unfold ofTokens? at h
  simp only at h
  split at h
  · exact hfinish (sound_some .null []) h
  · exact hfinish ((soundAt _).nodeOrNull _ _ _) h
  · exact hfinish ((soundAt _).node _ _) h

theorem read_distinct {text : String} {v : Value} (h : read text = .ok v) : v.Distinct := by
  unfold read at h
  split at h
  · cases h
  · split at h
    · cases h
    · cases h
    next hvalue _ =>
      cases h
      exact ofTokens?_distinct hvalue

end Yaml

end SignalCoach

import Mathlib.Data.List.Permutation
import Mathlib.Data.List.Sort
import Mathlib.Data.String.Basic
import SignalCoach.Proofs.StoreGrowth

/-! Pages of a session's evaluations. One who reads them one after the other, each from the last
evaluation of the one before, is given every evaluation once and in order, also while others write. -/
namespace SignalCoach.Store

section

variable {a b c : Evaluation}

theorem newer_iff :
    newer a b = true ↔ b.createdAt.micros < a.createdAt.micros ∨
      (a.createdAt.micros = b.createdAt.micros ∧ b.id < a.id) := by
  have heq : a.createdAt = b.createdAt ↔ a.createdAt.micros = b.createdAt.micros :=
    ⟨congrArg Timestamp.micros, fun h => by
      cases ha : a.createdAt
      cases hb : b.createdAt
      rw [ha, hb] at h
      exact congrArg Timestamp.mk h⟩
  unfold newer
  rw [Bool.or_eq_true, Bool.and_eq_true, decide_eq_true_iff, decide_eq_true_iff, decide_eq_true_iff,
    heq]
  rfl

theorem not_newer_iff :
    newer a b = false ↔ a.createdAt.micros < b.createdAt.micros ∨
      (a.createdAt.micros = b.createdAt.micros ∧ a.id ≤ b.id) := by
  rw [Bool.eq_false_iff, Ne, newer_iff]
  constructor
  · intro h
    rcases lt_trichotomy a.createdAt.micros b.createdAt.micros with hlt | heq | hlt
    · exact .inl hlt
    · exact .inr ⟨heq, String.not_lt.1 fun hid => h (.inr ⟨heq, hid⟩)⟩
    · exact absurd (.inl hlt) h
  · rintro (hlt | ⟨heq, hid⟩) (hlt' | ⟨heq', hid'⟩)
    · omega
    · omega
    · omega
    · exact String.not_lt.2 hid hid'

theorem newer_irrefl (e : Evaluation) : newer e e = false :=
  not_newer_iff.2 (.inr ⟨rfl, String.le_refl _⟩)

theorem newer_trans (hab : newer a b) (hbc : newer b c) : newer a c := by
  rw [newer_iff] at hab hbc ⊢
  rcases hab with hab | ⟨hab, hid⟩
  · exact .inl (by omega)
  · rcases hbc with hbc | ⟨hbc, hid'⟩
    · exact .inl (by omega)
    · exact .inr ⟨by omega, String.lt_trans hid' hid⟩

theorem newer_of_not_newer (hid : a.id ≠ b.id) (hba : newer b a = false) : newer a b := by
  rw [not_newer_iff] at hba
  rw [newer_iff]
  rcases hba with hba | ⟨htime, hle⟩
  · exact .inl hba
  · exact .inr ⟨htime.symm, lt_of_le_of_ne hle hid.symm⟩

theorem not_newer_trans (hba : newer b a = false) (hcb : newer c b = false) :
    newer c a = false := by
  rw [not_newer_iff] at hba hcb ⊢
  rcases hba with hba | ⟨hba, hid⟩
  · exact .inl (by omega)
  · rcases hcb with hcb | ⟨hcb, hid'⟩
    · exact .inl (by omega)
    · exact .inr ⟨by omega, String.le_trans hid' hid⟩

theorem not_newer_total (a b : Evaluation) : newer b a = false ∨ newer a b = false := by
  by_cases hba : newer b a
  · right
    rw [Bool.eq_false_iff]
    intro hab
    simpa [newer_irrefl] using newer_trans hab hba
  · exact .inl (by simpa using hba)

end

theorem filter_newer {first rest : List Evaluation} {e : Evaluation}
    (hordered : (first ++ e :: rest).Pairwise (newer · ·)) :
    (first ++ e :: rest).filter (newer e) = rest := by
  rw [List.pairwise_append, List.pairwise_cons] at hordered
  obtain ⟨-, ⟨hrest, -⟩, hfirst⟩ := hordered
  have hbefore : first.filter (newer e) = [] := by
    rw [List.filter_eq_nil_iff]
    intro x hx hex
    simpa [newer_irrefl] using newer_trans (hfirst x hx e List.mem_cons_self) hex
  have hafter : rest.filter (newer e) = rest := List.filter_eq_self.2 hrest
  rw [List.filter_append, hbefore, List.nil_append, List.filter_cons_of_neg (by simp [newer_irrefl]),
    hafter]

theorem history_perm (store : Store) (sessionId : String) :
    (store.history sessionId).Perm (store.evaluations.filter (·.sessionId = sessionId)) :=
  List.mergeSort_perm _ _

theorem mem_history {store : Store} {sessionId : String} {e : Evaluation} :
    e ∈ store.history sessionId ↔ e ∈ store.evaluations ∧ e.sessionId = sessionId := by
  rw [(store.history_perm sessionId).mem_iff, List.mem_filter, decide_eq_true_iff]

theorem history_ordered {store : Store} (hdistinct : store.DistinctEvaluations)
    (sessionId : String) : (store.history sessionId).Pairwise (newer · ·) := by
  have hsorted : (store.history sessionId).Pairwise fun a b => (!newer b a) = true := by
    refine List.pairwise_mergeSort (fun a b c hab hbc => ?_) (fun a b => ?_) _
    · rw [Bool.not_eq_true'] at hab hbc ⊢
      exact not_newer_trans hab hbc
    · rcases not_newer_total a b with h | h <;> simp [h]
  have hids : (store.history sessionId).Pairwise fun a b => a.id ≠ b.id := by
    have hperm := (store.history_perm sessionId).map Evaluation.id
    have hfiltered : ((store.evaluations.filter (·.sessionId = sessionId)).map Evaluation.id).Nodup :=
      List.Nodup.sublist (List.filter_sublist.map Evaluation.id) hdistinct
    exact List.pairwise_map.1 (hperm.nodup_iff.2 hfiltered)
  exact (hsorted.and hids).imp fun ⟨hba, hid⟩ => newer_of_not_newer hid (by simpa using hba)

def afterWrites (store : Store) (writes : List Write) : Store :=
  match Work.transaction (writes.mapM (Work.write gateway)) { store } with
  | .ok _ desk | .error _ desk => desk.store

theorem afterWrites_grows (store : Store) (writes : List Write) :
    Grows store (store.afterWrites writes) := by
  have hwithin := steps_grows.transaction (steps_grows.mapM steps_grows.writes writes) { store }
  unfold afterWrites
  split
  next hrun =>
    rw [hrun] at hwithin
    exact hwithin
  next hrun =>
    rw [hrun] at hwithin
    exact hwithin

structure Reading where
  store : Store
  given : List Evaluation := []

namespace Reading

section

variable (sessionId : String) (limit : Int)

def nextPage (r : Reading) : List Evaluation :=
  r.store.listEvaluations sessionId limit (r.given.getLast?.map (·.id))

def turn (r : Reading) (writes : List Write) : Reading where
  store := r.store.afterWrites writes
  given := r.given ++ r.nextPage sessionId limit

def run (r : Reading) (others : List (List Write)) : Reading := others.foldl (turn sessionId limit) r

/-- What a reader was not given yet. -/
def remaining (r : Reading) : List Evaluation :=
  match r.given.getLast? with
  | none => r.store.history sessionId
  | some last => (r.store.history sessionId).filter (newer last)

end

structure Sound (start : Store) (sessionId : String) (r : Reading) : Prop where
  distinct : r.store.DistinctEvaluations
  ordered : r.given.Pairwise (newer · ·)
  stored : ∀ e ∈ r.given, e ∈ r.store.evaluations ∧ e.sessionId = sessionId
  covered : ∀ e ∈ start.evaluations, e.sessionId = sessionId →
    e ∈ r.given ∨ e ∈ r.remaining sessionId

section

variable {start : Store} {sessionId : String} {limit : Int} {r : Reading}

theorem mem_remaining {e : Evaluation} :
    e ∈ r.remaining sessionId ↔ e ∈ r.store.evaluations ∧ e.sessionId = sessionId ∧
      ∀ last ∈ r.given.getLast?, newer last e := by
  unfold remaining
  cases r.given.getLast? with
  | none => simp [mem_history]
  | some last => simp [mem_history, and_assoc]

theorem start_sound (hdistinct : start.DistinctEvaluations) (sessionId : String) :
    Sound start sessionId { store := start } where
  distinct := hdistinct
  ordered := .nil
  stored := by simp
  covered e he hsession := .inr (mem_history.2 ⟨he, hsession⟩)

namespace Sound

variable (sound : Sound start sessionId r)
include sound

theorem nextPage_eq (hlimit : 1 ≤ limit) :
    r.nextPage sessionId limit = (r.remaining sessionId).take limit.toNat := by
  have hpage : r.nextPage sessionId limit = page limit (r.remaining sessionId) := by
    unfold nextPage remaining listEvaluations
    cases hlast : r.given.getLast? with
    | none => rfl
    | some last =>
      obtain ⟨hstored, hsession⟩ := sound.stored last (List.mem_of_getLast? hlast)
      simp only [Option.map_some, find?_of_nodup sound.distinct hstored, hsession, if_true]
  rw [hpage, page, if_neg (by omega)]

theorem remaining_ordered : (r.remaining sessionId).Pairwise (newer · ·) := by
  have hhistory := history_ordered sound.distinct sessionId
  unfold remaining
  split
  · exact hhistory
  · exact hhistory.filter _

theorem given_newer {x e : Evaluation} (hx : x ∈ r.given) (he : e ∈ r.remaining sessionId) :
    newer x e := by
  obtain ⟨first, last, hsplit⟩ : ∃ first last, r.given = first ++ [last] :=
    ⟨_, _, (List.dropLast_concat_getLast (List.ne_nil_of_mem hx)).symm⟩
  have hlast : newer last e := (mem_remaining.1 he).2.2 last (by simp [hsplit])
  have hordered := sound.ordered
  rw [hsplit] at hx hordered
  rcases List.mem_append.1 hx with hx | hx
  · exact newer_trans ((List.pairwise_append.1 hordered).2.2 x hx last (by simp)) hlast
  · rw [List.mem_singleton.1 hx]
    exact hlast

/-- A page and the writes after it leave a reader with all that he was to be given. -/
theorem turn (hlimit : 1 ≤ limit) (writes : List Write) :
    Sound start sessionId (r.turn sessionId limit writes) := by
  have hgrows := afterWrites_grows r.store writes
  have hpage := sound.nextPage_eq hlimit
  have hordered := sound.remaining_ordered
  rw [← List.take_append_drop limit.toNat (r.remaining sessionId), List.pairwise_append] at hordered
  have hstored (e : Evaluation) (he : e ∈ r.remaining sessionId) :=
    mem_remaining.1 he
  refine { distinct := hgrows.distinct sound.distinct, ordered := ?_, stored := ?_, covered := ?_ }
  · rw [Reading.turn, hpage, List.pairwise_append]
    exact ⟨sound.ordered, hordered.1, fun x hx e he =>
      sound.given_newer hx (List.mem_of_mem_take he)⟩
  · intro e he
    rw [Reading.turn, hpage] at he
    rcases List.mem_append.1 he with he | he
    · exact ⟨hgrows.kept e (sound.stored e he).1, (sound.stored e he).2⟩
    · have hremaining := hstored e (List.mem_of_mem_take he)
      exact ⟨hgrows.kept e hremaining.1, hremaining.2.1⟩
  · intro e he hsession
    rw [mem_remaining]
    simp only [Reading.turn, hpage]
    rcases sound.covered e he hsession with hgiven | hremaining
    · exact .inl (List.mem_append_left _ hgiven)
    · have hsplit := hremaining
      rw [← List.take_append_drop limit.toNat (r.remaining sessionId)] at hsplit
      rcases List.mem_append.1 hsplit with htaken | hleft
      · exact .inl (List.mem_append_right _ htaken)
      · refine .inr ⟨hgrows.kept e (hstored e hremaining).1, hsession, fun last hlast => ?_⟩
        rcases List.mem_append.1 (List.mem_of_getLast? hlast) with hlast | hlast
        · exact sound.given_newer hlast hremaining
        · exact hordered.2.2 last hlast e hleft

theorem run (hlimit : 1 ≤ limit) (others : List (List Write)) :
    Sound start sessionId (r.run sessionId limit others) := by
  induction others generalizing r with
  | nil => exact sound
  | cons writes rest ih => exact ih (sound.turn hlimit writes)

theorem remaining_of_empty (hlimit : 1 ≤ limit) (hempty : r.nextPage sessionId limit = []) :
    r.remaining sessionId = [] := by
  rw [sound.nextPage_eq hlimit, List.take_eq_nil_iff] at hempty
  rcases hempty with hzero | hnil
  · omega
  · exact hnil

theorem given_once (hlimit : 1 ≤ limit) (hempty : r.nextPage sessionId limit = []) {e : Evaluation}
    (he : e ∈ start.evaluations) (hsession : e.sessionId = sessionId) :
    r.given.filter (·.id = e.id) = [e] := by
  have hgiven : e ∈ r.given := by
    rcases sound.covered e he hsession with hgiven | hremaining
    · exact hgiven
    · rw [sound.remaining_of_empty hlimit hempty] at hremaining
      cases hremaining
  have hids : (r.given.map Evaluation.id).Nodup := by
    refine List.pairwise_map.2 (sound.ordered.imp_of_mem fun {a b} ha hb hab hid => ?_)
    have ha' := find?_of_nodup sound.distinct (sound.stored a ha).1
    have hb' := find?_of_nodup sound.distinct (sound.stored b hb).1
    rw [hid, hb'] at ha'
    rw [Option.some.inj ha', newer_irrefl] at hab
    cases hab
  exact filter_of_nodup hids hgiven

omit sound in
theorem filter_history {e : Evaluation} (he : e ∈ r.remaining sessionId) :
    (r.store.history sessionId).filter (newer e) = (r.remaining sessionId).filter (newer e) := by
  unfold remaining at he ⊢
  cases hlast : r.given.getLast? with
  | none => rfl
  | some last =>
    rw [hlast] at he
    have hnewer : newer last e := (List.mem_filter.1 he).2
    rw [List.filter_filter]
    refine List.filter_congr fun x _ => ?_
    cases hx : newer e x with
    | false => simp
    | true => simp [newer_trans hnewer hx]

theorem remaining_turn (hlimit : 1 ≤ limit) :
    (r.turn sessionId limit []).remaining sessionId =
      (r.remaining sessionId).drop limit.toNat := by
  have hpage := sound.nextPage_eq hlimit
  rcases List.eq_nil_or_concat ((r.remaining sessionId).take limit.toNat) with hnil | ⟨first, e, htake⟩
  · have hremaining := sound.remaining_of_empty hlimit (hpage.trans hnil)
    have hsame : (r.turn sessionId limit []).remaining sessionId = r.remaining sessionId := by
      unfold remaining Reading.turn
      rw [hpage, hnil, List.append_nil]
      rfl
    rw [hsame, hremaining, List.drop_nil]
  · have hsplit : r.remaining sessionId =
        first ++ e :: (r.remaining sessionId).drop limit.toNat := by
      have hboth := List.take_append_drop limit.toNat (r.remaining sessionId)
      rw [htake, List.concat_eq_append, List.append_assoc, List.singleton_append] at hboth
      exact hboth.symm
    have hordered := sound.remaining_ordered
    rw [hsplit] at hordered
    have he : e ∈ r.remaining sessionId := by
      rw [hsplit]
      simp
    have hturn : (r.turn sessionId limit []).remaining sessionId =
        (r.store.history sessionId).filter (newer e) := by
      unfold remaining Reading.turn
      rw [hpage, htake, List.concat_eq_append, ← List.append_assoc, List.getLast?_concat]
      rfl
    rw [hturn, filter_history he]
    nth_rewrite 1 [hsplit]
    exact filter_newer hordered

theorem quiet_run (hlimit : 1 ≤ limit) (n : Nat) :
    (r.run sessionId limit (List.replicate n [])).given ++
        (r.run sessionId limit (List.replicate n [])).remaining sessionId =
      r.given ++ r.remaining sessionId := by
  induction n generalizing r with
  | zero => rfl
  | succ n ih =>
    have hturn : (r.turn sessionId limit []).given =
        r.given ++ (r.remaining sessionId).take limit.toNat := by
      rw [Reading.turn, sound.nextPage_eq hlimit]
    calc
      _ = (r.turn sessionId limit []).given ++ (r.turn sessionId limit []).remaining sessionId :=
        ih (sound.turn hlimit [])
      _ = r.given ++ ((r.remaining sessionId).take limit.toNat ++
          (r.remaining sessionId).drop limit.toNat) := by
        rw [hturn, sound.remaining_turn hlimit, List.append_assoc]
      _ = r.given ++ r.remaining sessionId := by rw [List.take_append_drop]

/-- Once nobody writes any more, a reader comes to an empty page. -/
theorem exists_empty (hlimit : 1 ≤ limit) :
    ∃ n, (r.run sessionId limit (List.replicate n [])).nextPage sessionId limit = [] := by
  induction hlength : (r.remaining sessionId).length using Nat.strong_induction_on generalizing r with
  | _ k ih =>
    by_cases hnil : r.remaining sessionId = []
    · refine ⟨0, ?_⟩
      change r.nextPage sessionId limit = []
      rw [sound.nextPage_eq hlimit, hnil, List.take_nil]
    · have hpos : 0 < (r.remaining sessionId).length := List.length_pos_iff.2 hnil
      have hless : ((r.turn sessionId limit []).remaining sessionId).length < k := by
        rw [sound.remaining_turn hlimit, List.length_drop]
        omega
      obtain ⟨n, hn⟩ := ih _ hless (sound.turn hlimit []) rfl
      exact ⟨n + 1, hn⟩

end Sound

end

/-- However others write in between, a reader is given evaluations of the session only, from newest
to oldest; once they stop he comes to an empty page, and by then every evaluation that was there at
the first page was given to him once. If nobody writes, he is given the evaluations of the session
and no more. -/
theorem pages_complete {start : Store} (hdistinct : start.DistinctEvaluations) (sessionId : String)
    {limit : Int} (hlimit : 1 ≤ limit) :
    (∀ others : List (List Write),
      let r := run sessionId limit { store := start } others
      r.given.Pairwise (newer · ·) ∧ (∀ e ∈ r.given, e.sessionId = sessionId) ∧
      (r.nextPage sessionId limit = [] →
        ∀ e ∈ start.evaluations, e.sessionId = sessionId → r.given.filter (·.id = e.id) = [e]) ∧
      ∃ n, (run sessionId limit r (List.replicate n [])).nextPage sessionId limit = []) ∧
    ∀ n, (run sessionId limit { store := start } (List.replicate n [])).nextPage sessionId limit = [] →
      (run sessionId limit { store := start } (List.replicate n [])).given.Perm
        (start.evaluations.filter (·.sessionId = sessionId)) := by
  have hstart := start_sound hdistinct sessionId
  constructor
  · intro others r
    have sound : Sound start sessionId r := hstart.run hlimit others
    exact ⟨sound.ordered, fun e he => (sound.stored e he).2,
      fun hempty e he hsession => sound.given_once hlimit hempty he hsession,
      sound.exists_empty hlimit⟩
  · intro n hempty
    have hquiet := hstart.quiet_run hlimit n
    rw [(hstart.run hlimit _).remaining_of_empty hlimit hempty, List.append_nil] at hquiet
    rw [hquiet]
    exact start.history_perm sessionId

def unmet (id sessionId : String) : Evaluation where
  id
  sessionId
  snapshotId := "sn-1"
  tagId := "t-1"
  status := .red
  score := .zero
  context := []
  jobId := none
  createdAt := ⟨0⟩

def tied : Store := { evaluations := [unmet "e-1" "s-1", unmet "e-2" "s-2", unmet "e-3" "s-1"] }

theorem pages_complete_tied :
    tied.DistinctEvaluations ∧ (1 : Int) ≤ 1 ∧
      (run "s-1" 1 { store := tied } [[], []]).nextPage "s-1" 1 = [] ∧
      (run "s-1" 1 { store := tied } [[], []]).given.Pairwise (newer · ·) ∧
      (run "s-1" 1 { store := tied } [[], []]).given.Perm
        (tied.evaluations.filter (·.sessionId = "s-1")) := by
  have hdistinct : tied.DistinctEvaluations := by
    unfold DistinctEvaluations
    decide
  have hend : (run "s-1" 1 { store := tied } [[], []]).nextPage "s-1" 1 = [] := by
    cbv
  have hpages := pages_complete hdistinct "s-1" (show (1 : Int) ≤ 1 by decide)
  exact ⟨hdistinct, by decide, hend, (hpages.1 [[], []]).1, hpages.2 2 hend⟩

end Reading

end SignalCoach.Store

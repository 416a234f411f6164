import SignalCoach.Proofs.WorkSteps

/-! How the evaluations of a store grow: a write adds one at most, under an id of its own. -/
namespace SignalCoach.Store

theorem filter_of_nodup {α : Type} {key : α → String} {l : List α} (hkeys : (l.map key).Nodup)
    {a : α} (ha : a ∈ l) : l.filter (fun x => key x = key a) = [a] := by
  obtain ⟨before, after, rfl⟩ := List.append_of_mem ha
  rw [List.map_append, List.map_cons, List.nodup_append, List.nodup_cons] at hkeys
  obtain ⟨-, ⟨hafter, -⟩, hbefore⟩ := hkeys
  have hfirst : before.filter (fun x => key x = key a) = [] := by
    rw [List.filter_eq_nil_iff]
    intro x hx
    simpa using hbefore (key x) (List.mem_map_of_mem hx) (key a) List.mem_cons_self
  have hlast : after.filter (fun x => key x = key a) = [] := by
    rw [List.filter_eq_nil_iff]
    intro x hx hsame
    exact hafter (List.mem_map.2 ⟨x, hx, by simpa using hsame⟩)
  rw [List.filter_append, hfirst, List.nil_append, List.filter_cons_of_pos (by simp), hlast]

theorem find?_of_nodup {α : Type} {key : α → String} {l : List α} (hkeys : (l.map key).Nodup)
    {a : α} (ha : a ∈ l) : l.find? (fun x => key x = key a) = some a := by
  rw [← List.head?_filter, filter_of_nodup hkeys ha]
  rfl

theorem nodup_map_append_singleton {α : Type} {key : α → String} {l : List α} {a : α}
    (hkeys : (l.map key).Nodup) (hnew : ∀ x ∈ l, key x ≠ key a) :
    ((l ++ [a]).map key).Nodup := by
  rw [List.map_append, List.map_singleton, List.nodup_append]
  refine ⟨hkeys, by simp, fun k hk other hother => ?_⟩
  obtain ⟨x, hx, rfl⟩ := List.mem_map.1 hk
  rw [List.mem_singleton.1 hother]
  exact hnew x hx

def DistinctEvaluations (store : Store) : Prop := (store.evaluations.map (·.id)).Nodup

structure Grows (before after : Store) : Prop where
  kept : ∀ e ∈ before.evaluations, e ∈ after.evaluations
  distinct : before.DistinctEvaluations → after.DistinctEvaluations

theorem Grows.refl (store : Store) : Grows store store := ⟨fun _ he => he, id⟩

theorem Grows.trans {a b c : Store} (hab : Grows a b) (hbc : Grows b c) : Grows a c :=
  ⟨fun e he => hbc.kept e (hab.kept e he), fun h => hbc.distinct (hab.distinct h)⟩

theorem addEvaluation_grows {store store' : Store} {e : Evaluation}
    (h : store.addEvaluation e = .ok store') : Grows store store' := by
  unfold addEvaluation at h
  split at h
  next => cases h
  next hnew =>
    cases h
    refine ⟨fun x hx => List.mem_append_left _ hx, fun hdistinct => ?_⟩
    refine nodup_map_append_singleton hdistinct fun x hx hsame => ?_
    exact hnew (.inr (List.any_eq_true.2 ⟨x, hx, by simpa using hsame⟩))

theorem apply_grows {store store' : Store} {w : Write} (h : store.apply w = .ok store') :
    Grows store store' := by
  cases w with
  | evaluation e => exact addEvaluation_grows h
  | advice a =>
    rw [addAdvice_eq_ok h]
    exact ⟨fun _ he => he, id⟩
  | session id state evaluatedAt =>
    cases h
    exact ⟨fun _ he => he, fun hdistinct => hdistinct⟩

theorem steps_grows : Work.Steps gateway fun desk desk' => Grows desk.store desk'.store where
  refl desk := .refl desk.store
  trans := .trans
  draw desk := .refl desk.store
  write h _ := apply_grows h
  restore _ := .refl _

end SignalCoach.Store

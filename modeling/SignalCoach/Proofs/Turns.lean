import Mathlib.Order.Defs.Unbundled
import SignalCoach.Worker.Run

/-! What holds before and after the parts of a turn. -/
namespace SignalCoach.Worker

/-- A part of a turn that begins where `P` holds ends where `Q` holds of its answer. -/
def Triple (P : World → Prop) (x : Turn α) (Q : α → World → Prop) : Prop :=
  ∀ w, P w → Q (x.run w).1 (x.run w).2

abbrev Keeps (P : World → Prop) (x : Turn α) : Prop := Triple P x fun _ => P

namespace Triple

variable {P P' : World → Prop} {α β : Type}

theorem answer {Q : α → World → Prop} {a : α} (h : ∀ w, P w → Q a w) :
    Triple P (pure a : Turn α) Q := h

theorem bind {x : Turn α} {f : α → Turn β} {Q : α → World → Prop} {R : β → World → Prop}
    (hx : Triple P x Q) (hf : ∀ a, Triple (Q a) (f a) R) : Triple P (x >>= f) R :=
  fun w hw => hf _ _ (hx w hw)

theorem weaken {x : Turn α} {Q Q' : α → World → Prop} (hx : Triple P x Q)
    (hP : ∀ w, P' w → P w) (hQ : ∀ a w, Q a w → Q' a w) : Triple P' x Q' :=
  fun w hw => hQ _ _ (hx w (hP w hw))

theorem post {x : Turn α} {Q Q' : α → World → Prop} (hx : Triple P x Q)
    (hQ : ∀ a w, Q a w → Q' a w) : Triple P x Q' :=
  hx.weaken (fun _ h => h) hQ

theorem get_bind {f : World → Turn β} {R : β → World → Prop}
    (hf : ∀ w, P w → Triple (· = w) (f w) R) : Triple P (get >>= f) R :=
  fun w hw => hf w hw w rfl

theorem look : Triple P (get : Turn World) fun _ => P := fun _ hw => hw

theorem put {w : World} {Q : Unit → World → Prop} (h : Q () w) :
    Triple P (set w : Turn PUnit) Q := fun _ _ => h

theorem change {f : World → World} {Q : Unit → World → Prop} (h : ∀ w, P w → Q () (f w)) :
    Triple P (modify f : Turn PUnit) Q := h

theorem ite {c : Prop} [Decidable c] {x y : Turn α} {Q : α → World → Prop}
    (hx : c → Triple P x Q) (hy : ¬ c → Triple P y Q) : Triple P (if c then x else y) Q := by
  split
  next h => exact hx h
  next h => exact hy h

end Triple

/-- A part of a turn that takes the world only where this relation leads. -/
def Within (R : World → World → Prop) (x : Turn α) : Prop := ∀ w, R w (x.run w).2

namespace Within

variable {R R' : World → World → Prop} {α β : Type}

theorem weaken {x : Turn α} (hx : Within R x) (h : ∀ w w', R w w' → R' w w') : Within R' x :=
  fun w => h _ _ (hx w)

theorem keeps {P : World → Prop} {x : Turn α} (hx : Within R x)
    (h : ∀ w w', R w w' → P w → P w') : Keeps P x :=
  fun w => h _ _ (hx w)

theorem change {f : World → World} (h : ∀ w, R w (f w)) : Within R (modify f : Turn PUnit) := h

theorem get_bind {f : World → Turn β} (hf : ∀ w, R w ((f w).run w).2) : Within R (get >>= f) := hf

theorem ite {c : Prop} [Decidable c] {x y : Turn α} (hx : Within R x) (hy : Within R y) :
    Within R (if c then x else y) := by
  split
  · exact hx
  · exact hy

variable [IsPreorder World R]

theorem answer (a : α) : Within R (pure a : Turn α) := fun w => refl_of R w

theorem bind {x : Turn α} {f : α → Turn β} (hx : Within R x) (hf : ∀ a, Within R (f a)) :
    Within R (x >>= f) :=
  fun w => trans_of R (hx w) (hf _ _)

end Within

def World.Same {β : Type} (view : World → β) (w w' : World) : Prop := view w' = view w

instance {β : Type} (view : World → β) : IsPreorder World (World.Same view) where
  refl _ := rfl
  trans _ _ _ h h' := Eq.trans h' h

/-- A part of a turn that changes nothing in this view of the world. -/
abbrev Maintains {β : Type} (view : World → β) (x : Turn α) : Prop := Within (World.Same view) x

theorem Within.through {β γ : Type} {view : World → β} {x : Turn α} (hx : Maintains view x)
    (f : β → γ) : Maintains (fun w => f (view w)) x :=
  hx.weaken fun _ _ h => congrArg f h

theorem keeps_answer {P : World → Prop} (a : α) : Keeps P (pure a : Turn α) := fun _ h => h

theorem keeps_forIn {P : World → Prop} {β : Type} (l : List β)
    (f : β → PUnit → Turn (ForInStep PUnit)) (hf : ∀ a, Keeps P (f a ⟨⟩)) :
    Keeps P (forIn l ⟨⟩ f) := by
  induction l with
  | nil => exact keeps_answer _
  | cons a rest ih =>
    rw [List.forIn_cons]
    refine Triple.bind (hf a) fun step => ?_
    cases step with
    | done _ => exact keeps_answer _
    | yield _ => exact ih

theorem keeps_mapM {P : World → Prop} {α β : Type} (l : List α) (f : α → Turn β)
    (hf : ∀ a, Keeps P (f a)) : Keeps P (l.mapM f) := by
  induction l with
  | nil => exact keeps_answer _
  | cons a rest ih =>
    rw [List.mapM_cons]
    exact Triple.bind (hf a) fun _ => Triple.bind ih fun _ => keeps_answer _

end SignalCoach.Worker

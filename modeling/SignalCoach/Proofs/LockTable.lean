import Mathlib.Data.List.Nodup
import SignalCoach.Worker.World

/-! The table of the locks of sessions, as processings come to it, wait, and leave it. A lock is there
as long as a processing waits for it or has it, and it counts those; so two processings of one session
find the same lock, and one of them waits. -/
namespace SignalCoach.Worker

def Stage.lock? : Stage → Option String
  | .locking d | .loading d => some d.job.sessionId
  | .entering | .halting _ => none

def Stage.handled? : Stage → Option String
  | .loading d => some d.job.sessionId
  | .entering | .locking _ | .halting _ => none

def uses (session : String) (stages : List Stage) : Nat := stages.countP (·.lock? = some session)

def handlings (session : String) (stages : List Stage) : Nat :=
  stages.countP (·.handled? = some session)

/-- What a lock comes to. Who waits for it, and in which order, is left open. -/
structure Standing where
  session : String
  users : Nat
  locked : Bool

section Counts

theorem uses_cons (session : String) (stage : Stage) (stages : List Stage) :
    uses session (stage :: stages) =
      uses session stages + if stage.lock? = some session then 1 else 0 := by
  simp [uses, List.countP_cons]

theorem handlings_cons (session : String) (stage : Stage) (stages : List Stage) :
    handlings session (stage :: stages) =
      handlings session stages + if stage.handled? = some session then 1 else 0 := by
  simp [handlings, List.countP_cons]

theorem Stage.lock?_of_handled? {stage : Stage} {session : String}
    (h : stage.handled? = some session) : stage.lock? = some session := by
  cases stage <;> first | exact h | cases h

theorem handlings_le_uses (session : String) (stages : List Stage) :
    handlings session stages ≤ uses session stages := by
  apply List.countP_mono_left
  intro stage _ hhandled
  rw [decide_eq_true_eq] at hhandled ⊢
  exact Stage.lock?_of_handled? hhandled

end Counts

/-- A lock is used, counts its users, and is held just if a job of its session is being handled. -/
structure Standing.Fits (l : Standing) (stages : List Stage) : Prop where
  used : 0 < l.users
  users : l.users = uses l.session stages
  locked : l.locked.toNat = handlings l.session stages

structure Stands (stages : List Stage) (locks : List Standing) : Prop where
  once : (locks.map (·.session)).Nodup
  fits : ∀ l ∈ locks, l.Fits stages
  found : ∀ session, 0 < uses session stages → session ∈ locks.map (·.session)

def adjust (session : String) (f : Standing → Standing) (locks : List Standing) : List Standing :=
  locks.map fun l => if l.session = session then f l else l

def discard (session : String) (locks : List Standing) : List Standing :=
  locks.filter fun l => l.session ≠ session || 0 < l.users

theorem adjust_sessions {session : String} {f : Standing → Standing} (locks : List Standing)
    (hf : ∀ l, (f l).session = l.session) :
    (adjust session f locks).map (·.session) = locks.map (·.session) := by
  rw [adjust, List.map_map]
  apply List.map_congr_left
  intro l _
  dsimp only [Function.comp]
  split
  · exact hf l
  · rfl

theorem adjust_adjust {session : String} {f g : Standing → Standing}
    (hf : ∀ l, (f l).session = l.session) (locks : List Standing) :
    adjust session g (adjust session f locks) = adjust session (g ∘ f) locks := by
  unfold adjust
  rw [List.map_map]
  apply List.map_congr_left
  intro l _
  by_cases heq : l.session = session
  · simp [heq, hf]
  · simp [heq]

namespace Stands

variable {stages stages' : List Stage} {locks : List Standing} {session : String}

theorem nil : Stands [] [] where
  once := List.nodup_nil
  fits _ hl := absurd hl List.not_mem_nil
  found _ hused := absurd hused (Nat.lt_irrefl 0)

theorem congr (h : Stands stages locks) (huses : ∀ session, uses session stages = uses session stages')
    (hhandlings : ∀ session, handlings session stages = handlings session stages') :
    Stands stages' locks where
  once := h.once
  fits l hl := by
    obtain ⟨hused, husers, hlocked⟩ := h.fits l hl
    exact ⟨hused, husers.trans (huses _), hlocked.trans (hhandlings _)⟩
  found session hused := h.found session (huses session ▸ hused)

theorem perm (h : Stands stages locks) (hperm : stages.Perm stages') : Stands stages' locks :=
  h.congr (fun _ => hperm.countP_eq _) fun _ => hperm.countP_eq _

theorem cons_iff {stage : Stage} (hfree : stage.lock? = none) :
    Stands (stage :: stages) locks ↔ Stands stages locks := by
  have huses (session : String) : uses session (stage :: stages) = uses session stages := by
    rw [uses_cons, hfree]
    rfl
  have hhandlings (session : String) :
      handlings session (stage :: stages) = handlings session stages := by
    rw [handlings_cons, if_neg, Nat.add_zero]
    intro hhandled
    rw [Stage.lock?_of_handled? hhandled] at hfree
    cases hfree
  exact ⟨fun h => h.congr huses hhandlings,
    fun h => h.congr (fun s => (huses s).symm) fun s => (hhandlings s).symm⟩

/-- At most one job of a session is being handled: the lock can be held only once. -/
theorem handlings_le_one (h : Stands stages locks) (session : String) :
    handlings session stages ≤ 1 := by
  by_cases hused : 0 < uses session stages
  · obtain ⟨l, hl, rfl⟩ := List.mem_map.1 (h.found session hused)
    rw [← (h.fits l hl).locked]
    exact l.locked.toNat_le
  · have hle := handlings_le_uses session stages
    omega

theorem absent (h : Stands stages locks) {session : String}
    (hfree : ∀ stage ∈ stages, stage.lock? ≠ some session) : ∀ l ∈ locks, l.session ≠ session := by
  rintro l hl rfl
  have hnone : uses l.session stages = 0 := by
    apply List.countP_eq_zero.2
    intro stage hstage
    rw [decide_eq_true_eq]
    exact hfree stage hstage
  have hused := (h.fits l hl).used
  rw [(h.fits l hl).users, hnone] at hused
  exact Nat.lt_irrefl 0 hused

theorem make (h : Stands stages locks) {d : Delivery}
    (hnone : d.job.sessionId ∉ locks.map (·.session)) :
    Stands (.loading d :: stages)
      (locks ++ [{ session := d.job.sessionId, users := 1, locked := true }]) := by
  have hunused : uses d.job.sessionId stages = 0 := by
    by_contra hused
    exact hnone (h.found _ (Nat.pos_of_ne_zero hused))
  have hidle : handlings d.job.sessionId stages = 0 := by
    have hle := handlings_le_uses d.job.sessionId stages
    omega
  refine ⟨?once, fun l hl => ?fits, fun session hused => ?found⟩
  case once =>
    rw [List.map_append]
    apply List.nodup_append.2
    refine ⟨h.once, List.nodup_cons.2 ⟨List.not_mem_nil, List.nodup_nil⟩, ?_⟩
    intro session hsession other hother
    obtain rfl := List.mem_singleton.1 hother
    rintro rfl
    exact hnone hsession
  case fits =>
    rcases List.mem_append.1 hl with hl | hl
    · have hother : d.job.sessionId ≠ l.session := by
        intro heq
        exact hnone (heq ▸ List.mem_map_of_mem hl)
      obtain ⟨hused, husers, hlocked⟩ := h.fits l hl
      refine ⟨hused, ?_, ?_⟩
      · simp [uses_cons, Stage.lock?, hother, husers]
      · simp [handlings_cons, Stage.handled?, hother, hlocked]
    · obtain rfl := List.mem_singleton.1 hl
      refine ⟨Nat.one_pos, ?_, ?_⟩
      · simp [uses_cons, Stage.lock?, hunused]
      · simp [handlings_cons, Stage.handled?, hidle]
  case found =>
    rw [List.map_append, List.mem_append]
    by_cases heq : session = d.job.sessionId
    · exact .inr (List.mem_singleton.2 heq)
    · refine .inl (h.found session ?_)
      simpa [uses_cons, Stage.lock?, Ne.symm heq] using hused

theorem adjust (h : Stands stages locks) {f : Standing → Standing}
    (hsession : ∀ l, (f l).session = l.session)
    (huses : ∀ s ≠ session, uses s stages' = uses s stages)
    (hhandlings : ∀ s ≠ session, handlings s stages' = handlings s stages)
    (hthere : 0 < uses session stages' → session ∈ locks.map (·.session))
    (hfits : ∀ l ∈ locks, l.session = session → (f l).Fits stages') :
    Stands stages' (adjust session f locks) where
  once := by
    rw [adjust_sessions locks hsession]
    exact h.once
  fits l hl := by
    obtain ⟨l₀, hl₀, rfl⟩ := List.mem_map.1 hl
    split
    next heq => exact hfits l₀ hl₀ heq
    next hne =>
      obtain ⟨hused, husers, hlocked⟩ := h.fits l₀ hl₀
      exact ⟨hused, husers.trans (huses _ hne).symm, hlocked.trans (hhandlings _ hne).symm⟩
  found s hs := by
    rw [adjust_sessions locks hsession]
    by_cases heq : s = session
    · subst heq
      exact hthere hs
    · exact h.found s (huses s heq ▸ hs)

section Delivery

variable {d : Delivery}

theorem uses_other {s : String} (hs : s ≠ d.job.sessionId) {stage : Stage}
    (hstage : stage.lock? = some d.job.sessionId) :
    uses s (stage :: stages) = uses s stages := by
  rw [uses_cons, hstage, if_neg (fun heq => hs (Option.some.inj heq).symm), Nat.add_zero]

theorem uses_own {stage : Stage} (hstage : stage.lock? = some d.job.sessionId) :
    uses d.job.sessionId (stage :: stages) = uses d.job.sessionId stages + 1 := by
  rw [uses_cons, hstage, if_pos rfl]

theorem handlings_loading_other {s : String} (hs : s ≠ d.job.sessionId) :
    handlings s (.loading d :: stages) = handlings s stages := by
  simp [handlings_cons, Stage.handled?, hs.symm]

theorem handlings_loading :
    handlings d.job.sessionId (.loading d :: stages) = handlings d.job.sessionId stages + 1 := by
  simp [handlings_cons, Stage.handled?]

theorem handlings_locking (s : String) :
    handlings s (.locking d :: stages) = handlings s stages := by
  rw [handlings_cons, if_neg nofun, Nat.add_zero]

theorem join (h : Stands stages locks) (hthere : d.job.sessionId ∈ locks.map (·.session)) :
    Stands (.locking d :: stages)
      (Worker.adjust d.job.sessionId (fun l => { l with users := l.users + 1 }) locks) := by
  refine h.adjust (fun _ => rfl) (fun s hs => uses_other hs rfl) (fun s _ => handlings_locking s)
    (fun _ => hthere) fun l hl heq => ?_
  obtain ⟨-, husers, hlocked⟩ := h.fits l hl
  refine ⟨Nat.succ_pos _, ?_, hlocked.trans (handlings_locking _).symm⟩
  rw [heq] at husers ⊢
  rw [uses_own rfl, ← husers]

theorem acquire (h : Stands (.locking d :: stages) locks)
    (hopen : ∀ l ∈ locks, l.session = d.job.sessionId → l.locked = false) :
    Stands (.loading d :: stages)
      (Worker.adjust d.job.sessionId (fun l => { l with locked := true }) locks) := by
  have hsame (s : String) : uses s (.loading d :: stages) = uses s (.locking d :: stages) := by
    rw [uses_cons, uses_cons]
    rfl
  refine h.adjust (fun _ => rfl) (fun s _ => hsame s) (fun s hs => ?_)
    (fun hs => h.found _ (hsame _ ▸ hs)) fun l hl heq => ?_
  · rw [handlings_loading_other hs, handlings_locking]
  obtain ⟨hused, husers, hlocked⟩ := h.fits l hl
  refine ⟨hused, husers.trans (hsame _).symm, ?_⟩
  rw [hopen l hl heq, handlings_locking, heq] at hlocked
  rw [heq, handlings_loading, ← hlocked]
  rfl

theorem release (h : Stands (.loading d :: stages) locks) :
    Stands (.locking d :: stages)
      (Worker.adjust d.job.sessionId (fun l => { l with locked := false }) locks) := by
  have hsame (s : String) : uses s (.locking d :: stages) = uses s (.loading d :: stages) := by
    rw [uses_cons, uses_cons]
    rfl
  refine h.adjust (fun _ => rfl) (fun s _ => hsame s) (fun s hs => ?_)
    (fun hs => h.found _ (hsame _ ▸ hs)) fun l hl heq => ?_
  · rw [handlings_loading_other hs, handlings_locking]
  obtain ⟨hused, husers, hlocked⟩ := h.fits l hl
  refine ⟨hused, husers.trans (hsame _).symm, ?_⟩
  have hone := h.handlings_le_one d.job.sessionId
  rw [handlings_loading] at hone
  rw [heq, handlings_locking]
  change 0 = _
  omega

/-- A processing that does not hold the lock of its session uses it no more. The last one takes it
out of the table. -/
theorem leave (h : Stands (.locking d :: stages) locks) :
    Stands stages (discard d.job.sessionId
      (Worker.adjust d.job.sessionId (fun l => { l with users := l.users - 1 }) locks)) := by
  have hsessions : (Worker.adjust d.job.sessionId (fun l => { l with users := l.users - 1 })
      locks).map (·.session) = locks.map (·.session) := adjust_sessions locks fun _ => rfl
  refine ⟨?once, fun l hl => ?fits, fun session hused => ?found⟩
  case once =>
    have honce := h.once
    rw [← hsessions] at honce
    exact honce.sublist (List.filter_sublist.map _)
  case fits =>
    obtain ⟨hl, hkept⟩ := List.mem_filter.1 hl
    obtain ⟨l₀, hl₀, rfl⟩ := List.mem_map.1 hl
    obtain ⟨hused, husers, hlocked⟩ := h.fits l₀ hl₀
    rw [handlings_locking] at hlocked
    split
    next heq =>
      rw [if_pos heq] at hkept
      refine ⟨by simpa [heq] using hkept, ?_, hlocked⟩
      rw [heq] at husers ⊢
      rw [uses_own rfl] at husers
      exact Nat.sub_eq_of_eq_add husers
    next hne => exact ⟨hused, husers.trans (uses_other hne rfl), hlocked⟩
  case found =>
    have hbefore : 0 < uses session (.locking d :: stages) := by
      rw [uses_cons]
      omega
    obtain ⟨l, hl, rfl⟩ := List.mem_map.1 (h.found session hbefore)
    have husers := (h.fits l hl).users
    refine List.mem_map.2 ⟨_, List.mem_filter.2 ⟨List.mem_map_of_mem hl, ?_⟩, ?_⟩
    · split
      next heq =>
        rw [heq] at husers hused
        rw [uses_own rfl] at husers
        simp only [Bool.or_eq_true, decide_eq_true_eq]
        omega
      next hne => simp [hne]
    · split <;> rfl

end Delivery
end Stands

end SignalCoach.Worker

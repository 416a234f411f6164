import Mathlib.Data.List.Induction
import SignalCoach.Worker.Service

/-! Attempts to connect, one after the other, however each of them ends. Only an attempt that the server
refuses gives its pool up again; one that ends in another way keeps it, and the next attempt makes a
second pool beside it. -/
namespace SignalCoach

namespace Connection

inductive Call where
  /-- An attempt to connect, and how its first message ends if it sends one. -/
  | init (ping : Ping)
  | close
deriving DecidableEq

/-- The connection while the first message of an attempt is on its way. -/
def dialing (c : Connection) : Connection :=
  if c.client.isSome then c
  else { c with pool := some c.made, live := c.made :: c.live, made := c.made + 1 }

namespace Call

def run (c : Connection) : Call → Connection
  | .init ping => (c.init ping).2
  | .close => c.close

def during (c : Connection) : Call → Connection
  | .init _ => c.dialing
  | .close => c

def Raises (c : Connection) : Call → Prop
  | .init ping => (c.init ping).1 = false
  | .close => False

instance (c : Connection) (call : Call) : Decidable (call.Raises c) := by
  cases call <;> unfold Raises <;> infer_instance

/-- The call sends a first message, which ends neither with an answer nor with a refusal. -/
def BreaksOff (c : Connection) (call : Call) : Prop :=
  call = .init .failed ∧ c.client = none

structure Clean (c : Connection) (call : Call) : Prop where
  pool_same : call.Raises c → (call.run c).pool = c.pool
  client_same : call.Raises c → (call.run c).client = c.client
  /-- Pools are numbered as they are made. -/
  disconnected : call.Raises c → ∀ pool ∈ (call.run c).live, pool < c.made
  closed : call = .close → (call.run c).pool = none ∧ (call.run c).client = none
  one_during : (call.during c).live.length ≤ 1
  one_after : (call.run c).live.length ≤ 1

end Call

def after (calls : List Call) : Connection := calls.foldl Call.run {}

theorem after_concat (calls : List Call) (call : Call) :
    after (calls ++ [call]) = call.run (after calls) := by
  rw [after, List.foldl_append]
  rfl

variable {c : Connection}

/-- The pool that is held is the one of the client, and the only one that is connected. -/
structure Settled (c : Connection) : Prop where
  pool_eq : c.pool = c.client
  live_eq : c.live = c.client.toList

theorem Settled.live_length (h : Settled c) : c.live.length ≤ 1 := by
  rw [h.live_eq]
  exact Option.length_toList_le

theorem init_of_client {pool : Nat} (h : c.client = some pool) (ping : Ping) :
    c.init ping = (true, c) := by
  rw [init, h]
  rfl

theorem init_of_none (h : c.client = none) (ping : Ping) :
    c.init ping = match ping with
      | .answered => (true, { c.dialing with client := some c.made })
      | .refused => (false, { c.dialing.disconnect c.made with pool := none })
      | .failed => (false, c.dialing) := by
  cases ping <;> simp [init, dialing, h]

theorem close_unset (c : Connection) : c.close.pool = none ∧ c.close.client = none := by
  obtain ⟨pool, client, live, made, closed⟩ := c
  cases pool <;> cases client <;> exact ⟨rfl, rfl⟩

theorem Settled.close (h : Settled c) : Settled c.close := by
  obtain ⟨pool, client, live, made, closed⟩ := c
  obtain ⟨rfl, rfl⟩ : pool = client ∧ live = client.toList := ⟨h.pool_eq, h.live_eq⟩
  cases pool with
  | none => exact ⟨rfl, rfl⟩
  | some pool => exact ⟨rfl, by simp [Connection.close, closeClient, disconnect]⟩

theorem Settled.live_of_none (h : Settled c) (hclient : c.client = none) : c.live = [] := by
  rw [h.live_eq, hclient]
  rfl

theorem Settled.dialing_live (h : Settled c) : c.dialing.live.length ≤ 1 := by
  unfold dialing
  split
  next => exact h.live_length
  next hclient =>
    rw [Bool.not_eq_true, Option.isSome_eq_false_iff, Option.isNone_iff_eq_none] at hclient
    simp [h.live_of_none hclient]

theorem Settled.init {ping : Ping} (h : Settled c) (hends : ¬ (Call.init ping).BreaksOff c) :
    Settled (c.init ping).2 ∧ ((c.init ping).1 = false →
      (c.init ping).2.pool = c.pool ∧ (c.init ping).2.client = c.client ∧
        (c.init ping).2.live = []) := by
  cases hclient : c.client with
  | some pool =>
    rw [init_of_client hclient]
    exact ⟨h, nofun⟩
  | none =>
    have hlive := h.live_of_none hclient
    rw [init_of_none hclient]
    cases ping with
    | answered => exact ⟨⟨by simp [dialing, hclient], by simp [dialing, hclient, hlive]⟩, nofun⟩
    | refused =>
      have hnone : (c.dialing.disconnect c.made).live = [] := by
        simp [dialing, disconnect, hclient, hlive]
      have hsame : (c.dialing.disconnect c.made).client = none := by
        simp [dialing, disconnect, hclient]
      exact ⟨⟨hsame.symm, by rw [hsame]; exact hnone⟩,
        fun _ => ⟨(h.pool_eq.trans hclient).symm, hsame, hnone⟩⟩
    | failed => exact (hends ⟨rfl, hclient⟩).elim

namespace Call

variable {call : Call}

theorem clean_of_ends (h : Settled c) (hends : ¬ call.BreaksOff c) :
    Settled (call.run c) ∧ call.Clean c := by
  cases call with
  | close =>
    exact ⟨h.close, nofun, nofun, nofun, fun _ => close_unset c, h.live_length, h.close.live_length⟩
  | init ping =>
    obtain ⟨hsettled, hraised⟩ := h.init hends
    refine ⟨hsettled, fun hr => (hraised hr).1, fun hr => (hraised hr).2.1, fun hr => ?_, nofun,
      h.dialing_live, hsettled.live_length⟩
    rw [show (run c (.init ping)).live = [] from (hraised hr).2.2]
    simp

theorem not_clean_of_breaksOff (h : call.BreaksOff c) : ¬ call.Clean c := by
  obtain ⟨rfl, hclient⟩ := h
  have hinit := init_of_none hclient .failed
  intro hclean
  refine Nat.lt_irrefl c.made (hclean.disconnected ?_ c.made ?_)
  · rw [Raises, hinit]
  · rw [run, hinit]
    simp [dialing, hclient]

end Call

theorem settled_after {calls : List Call}
    (hends : ∀ before call, (before ++ [call]) <+: calls → ¬ call.BreaksOff (after before)) :
    Settled (after calls) := by
  induction calls using List.reverseRecOn with
  | nil => exact ⟨rfl, rfl⟩
  | append_singleton calls call ih =>
    have hsettled := ih fun before call' hpart =>
      hends before call' (hpart.trans (List.prefix_append calls [call]))
    rw [after_concat]
    exact (Call.clean_of_ends hsettled (hends calls call List.prefix_rfl)).1

/-- A sequence of calls leaves nothing behind at any time just if none of its attempts breaks off. -/
theorem clean_iff_ends (calls : List Call) :
    (∀ before call, (before ++ [call]) <+: calls → call.Clean (after before)) ↔
      ∀ before call, (before ++ [call]) <+: calls → ¬ call.BreaksOff (after before) := by
  refine ⟨fun hclean before call hpart hbreaks =>
    Call.not_clean_of_breaksOff hbreaks (hclean before call hpart), fun hends => ?_⟩
  intro before call hpart
  have hbefore : Settled (after before) := settled_after fun before' call' hpart' =>
    hends before' call' (hpart'.trans ((List.prefix_append before [call]).trans hpart))
  exact (Call.clean_of_ends hbefore (hends before call hpart)).2

/-- An attempt that breaks off leaves its pool behind, and there are two when the next one comes through. -/
theorem not_always_clean :
    ¬ (∀ calls before call, (before ++ [call]) <+: calls → Call.Clean (after before) call) ∧
      after [.init .failed] = { pool := some 0, live := [0], made := 1 } ∧
      after [.init .failed, .init .answered] =
        { pool := some 1, client := some 1, live := [1, 0], made := 2 } := by
  refine ⟨fun hall => ?_, by decide, by decide⟩
  have hclean := hall [.init .failed] [] (.init .failed) (List.nil_append _ ▸ List.prefix_rfl)
  exact Call.not_clean_of_breaksOff ⟨rfl, rfl⟩ hclean

end Connection

namespace Worker.Service

/-- The service ends with every pool disconnected, except where it waited for the queue in vain: it
closes the connection only if that was made. -/
theorem run_live (database queue : Startup) (time : Nat) (w : World) :
    (run database queue time w).connection.live =
      if database = .succeeds ∧ queue = .hangs then [0] else [] := by
  cases database with
  | fails => rfl
  | hangs => rfl
  | succeeds =>
    cases queue with
    | fails => rfl
    | hangs => rfl
    | succeeds =>
      simp only [run, connected]
      cases recover w with
      | mk fault _ => cases fault <;> rfl

end Worker.Service

end SignalCoach

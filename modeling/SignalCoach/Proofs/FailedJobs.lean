import Mathlib.Data.List.Forall2
import SignalCoach.Proofs.ClearQueue

/-! The list of failed jobs. One who asks for so many of them is given the jobs among the first so many
entries, without those that cannot be read; but one who asks for none is given all. -/
namespace SignalCoach

namespace Envelope

def isReadable (entry : Entry) : Bool := (decode entry {}).1.toBool

def ReadFrom (entry : Entry) (e : Envelope) : Prop :=
  ∃ ids ids', decode entry ids = (.ok e, ids')

end Envelope

namespace Queue

open SignalCoach.Queue.Action
open Envelope (isReadable ReadFrom)

variable {b : Broker}

def Lists (entries : List Entry) (envelopes : List Envelope) : Prop :=
  List.Forall₂ ReadFrom (entries.filter isReadable) envelopes

theorem Lists.length_le {entries : List Entry} {envelopes : List Envelope}
    (h : Lists entries envelopes) : envelopes.length ≤ entries.length := by
  rw [← List.Forall₂.length_eq h]
  exact List.length_filter_le _ _

def laidAside : Broker where
  contents := { failed :=
    [Json.utf8 "\x7b\x7d",
      Json.utf8 "\x7b\"id\":\"j-1\",\"name\":\"other\",\"data\":\x7b\x7d\x7d"] }

end Queue

end SignalCoach

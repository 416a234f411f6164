import SignalCoach.Proofs.NumberText
import SignalCoach.Record.Id

/-! Drawn ids: no id is drawn twice, and none is empty. -/
namespace SignalCoach.IdSupply

theorem nameOf_toList (n : Nat) : (nameOf n).toList =
    "id-".toList ++ (List.replicate (6 - (Nat.repr n).length) '0' ++ Decimal.digits n) := by
  simp [nameOf, Decimal.digits]

theorem nameOf_ne_empty (n : Nat) : nameOf n ≠ "" := by
  intro h
  have hnil := congrArg String.toList h
  rw [nameOf_toList] at hnil
  simp at hnil

theorem nameOf_injective : Function.Injective nameOf := by
  intro m n h
  have hlist := congrArg String.toList h
  rw [nameOf_toList, nameOf_toList, List.append_cancel_left_eq] at hlist
  have hdigits := congrArg Text.natOfDigits hlist
  rwa [Text.natOfDigits_append, Text.natOfDigits_append, Text.natOfDigits_zeros,
    Text.natOfDigits_zeros, Decimal.natOfDigits_digits, Decimal.natOfDigits_digits, mul_zero,
    mul_zero, zero_add, zero_add] at hdigits

def Drew (ids : IdSupply) (id : String) : Prop := ∃ n < ids.next, nameOf n = id

theorem Drew.ne_empty {ids : IdSupply} {id : String} (h : ids.Drew id) : id ≠ "" := by
  obtain ⟨n, -, rfl⟩ := h
  exact nameOf_ne_empty n

theorem Drew.mono {ids ids' : IdSupply} {id : String} (h : ids.Drew id)
    (hids : ids.next ≤ ids'.next) : ids'.Drew id := by
  obtain ⟨n, hn, hname⟩ := h
  exact ⟨n, by omega, hname⟩

theorem drew_draw (ids : IdSupply) : ids.draw.2.Drew ids.draw.1 :=
  ⟨ids.next, Nat.lt_succ_self _, rfl⟩

theorem not_drew_next (ids : IdSupply) : ¬ ids.Drew ids.draw.1 := by
  rintro ⟨n, hn, hname⟩
  have : n = ids.next := nameOf_injective hname
  omega

end SignalCoach.IdSupply

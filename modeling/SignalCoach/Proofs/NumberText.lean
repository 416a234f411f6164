import Mathlib.Data.List.Induction
import Mathlib.Data.List.TakeWhile
import SignalCoach.Json.Printer
import SignalCoach.Json.Reader
import SignalCoach.Proofs.ShortestDecimals

/-! Numbers as JSON text: an integer that fits a word and a finite double are read back as they were
written. -/
namespace SignalCoach

namespace Text

theorem natOfDigits_append (ds es : List Char) :
    natOfDigits (ds ++ es) = 10 ^ es.length * natOfDigits ds + natOfDigits es := by
  induction es using List.reverseRecOn with
  | nil => simp [natOfDigits]
  | append_singleton es c ih =>
    have hlast (cs : List Char) : natOfDigits (cs ++ [c]) = 10 * natOfDigits cs + (c.toNat - 48) := by
      simp [natOfDigits]
    rw [← List.append_assoc, hlast, hlast, ih, List.length_append, List.length_singleton, pow_succ]
    ring

theorem natOfDigits_zeros (n : Nat) : natOfDigits (List.replicate n '0') = 0 := by
  induction n with
  | zero => rfl
  | succ n ih =>
    rw [List.replicate_succ', natOfDigits_append, ih]
    rfl

end Text

namespace Decimal

theorem digits_eq (n : Nat) : digits n = Nat.toDigits 10 n := Nat.toList_repr

theorem natOfDigits_digits (n : Nat) : Text.natOfDigits (digits n) = n := by
  rw [digits_eq]
  exact Nat.ofDigitChars_ten_toDigits

theorem isDigit_of_mem_digits {n : Nat} {c : Char} (h : c ∈ digits n) : c.isDigit := by
  rw [digits_eq] at h
  exact Nat.isDigit_of_mem_toDigits (by decide) (by decide) h

theorem digits_ne_nil (n : Nat) : digits n ≠ [] := by
  rw [digits_eq]
  exact Nat.toDigits_ne_nil

theorem head?_digits {n : Nat} (hn : 0 < n) : (digits n).head? ≠ some '0' := by
  induction n using Nat.strongRecOn with
  | ind n ih =>
    rw [digits_eq, Nat.toDigits_eq_if (by decide)]
    split
    next hlt =>
      have hsmall : ∀ d < 10, 0 < d → [Nat.digitChar d].head? ≠ some '0' := by decide
      exact hsmall n hlt hn
    next hle =>
      have hquotient := ih (n / 10) (by omega) (by omega)
      rw [digits_eq] at hquotient
      rwa [List.head?_append_of_ne_nil _ Nat.toDigits_ne_nil]

end Decimal

namespace Json

theorem takeWhile_digits {ds rest : List Char} (hds : ∀ c ∈ ds, c.isDigit)
    (hrest : ∀ c ∈ rest.head?, c.isDigit = false) :
    (ds ++ rest).takeWhile Char.isDigit = ds ∧ (ds ++ rest).dropWhile Char.isDigit = rest := by
  rw [List.takeWhile_append_of_pos hds, List.dropWhile_append_of_pos hds]
  cases rest with
  | nil => simp
  | cons c rest => simp [hrest c rfl]

structure NumberParts where
  negative : Bool
  whole : List Char
  fraction : List Char
  tail : List Char
  exponent : Int

namespace NumberParts

def sign (p : NumberParts) : List Char := if p.negative then ['-'] else []

def fractionText (p : NumberParts) : List Char :=
  match p.fraction with
  | [] => []
  | ds => '.' :: ds

def text (p : NumberParts) : List Char := p.sign ++ (p.whole ++ (p.fractionText ++ p.tail))

def numeral (p : NumberParts) : Numeral where
  negative := p.negative
  coefficient := Text.natOfDigits (p.whole ++ p.fraction)
  exponent := p.exponent - p.fraction.length

def isMark (c : Char) : Bool := c.isDigit || c = '-' || c = '.' || c = 'e'

structure Valid (p : NumberParts) : Prop where
  whole_digits : ∀ c ∈ p.whole, c.isDigit
  fraction_digits : ∀ c ∈ p.fraction, c.isDigit
  whole_head : p.whole = ['0'] ∨ ∃ c r, p.whole = c :: r ∧ c ≠ '0'
  tail_read : Numeral.readExponent p.tail = some p.exponent
  tail_head : p.tail = [] ∨ ∃ r, p.tail = 'e' :: r
  tail_marks : ∀ c ∈ p.tail, isMark c

namespace Valid

variable {p : NumberParts}

theorem whole_ne_nil (h : p.Valid) : p.whole ≠ [] := by
  rcases h.whole_head with h | ⟨c, r, h, -⟩ <;> simp [h]

theorem tail_head_isDigit (h : p.Valid) : ∀ c ∈ p.tail.head?, c.isDigit = false := by
  rcases h.tail_head with h | ⟨r, h⟩
  · simp [h]
  · rw [h]
    rintro c ⟨⟩
    decide

theorem rest_head_isDigit (h : p.Valid) :
    ∀ c ∈ (p.fractionText ++ p.tail).head?, c.isDigit = false := by
  unfold fractionText
  split
  · exact h.tail_head_isDigit
  · rintro c ⟨⟩
    decide

theorem whole_head_isDigit (h : p.Valid) : ∃ c r, p.whole = c :: r ∧ c.isDigit := by
  cases hwhole : p.whole with
  | nil => exact absurd hwhole h.whole_ne_nil
  | cons c r => exact ⟨c, r, rfl, h.whole_digits c (by simp [hwhole])⟩

theorem ofText?_text (h : p.Valid) : Numeral.ofText? p.text = some p.numeral := by
  have hsign : Numeral.takeSign p.text =
      (p.negative, p.whole ++ (p.fractionText ++ p.tail)) := by
    obtain ⟨c, r, hwhole, hc⟩ := h.whole_head_isDigit
    unfold text sign
    cases p.negative with
    | true => rfl
    | false =>
      rw [hwhole]
      have hminus : c ≠ '-' := by
        rintro rfl
        exact absurd hc (by decide)
      have hplus : c ≠ '+' := by
        rintro rfl
        exact absurd hc (by decide)
      simp [Numeral.takeSign, hminus, hplus]
  obtain ⟨htake, hdrop⟩ := takeWhile_digits h.whole_digits h.rest_head_isDigit
  unfold Numeral.ofText?
  simp only [hsign, htake, hdrop]
  unfold fractionText numeral
  cases hfraction : p.fraction with
  | nil =>
    rcases h.tail_head with htail | ⟨r, htail⟩
    · have := h.tail_read
      simp_all [h.whole_ne_nil]
    · have := h.tail_read
      simp_all [h.whole_ne_nil]
  | cons d ds =>
    have hdigits := h.fraction_digits
    rw [hfraction] at hdigits
    obtain ⟨htake, hdrop⟩ := takeWhile_digits hdigits h.tail_head_isDigit
    simp only [List.cons_append] at htake hdrop ⊢
    simp [htake, hdrop, h.whole_ne_nil, h.tail_read]

theorem isWhole_whole (h : p.Valid) : isWhole p.whole = true := by
  rcases h.whole_head with hzero | ⟨c, r, hcons, hc⟩
  · rw [hzero]
    rfl
  · rw [hcons]
    unfold isWhole
    split <;> simp_all

theorem takeFraction_rest (h : p.Valid) : takeFraction (p.fractionText ++ p.tail) = (true, p.tail) := by
  unfold fractionText
  cases hfraction : p.fraction with
  | nil => rcases h.tail_head with htail | ⟨r, htail⟩ <;> simp [htail, takeFraction]
  | cons d ds =>
    have hdigits := h.fraction_digits
    rw [hfraction] at hdigits
    obtain ⟨htake, hdrop⟩ := takeWhile_digits hdigits h.tail_head_isDigit
    simp only [List.cons_append] at htake hdrop ⊢
    simp [takeFraction, htake, hdrop]

theorem isNumber_text (h : p.Valid) : isNumber p.text = true := by
  have hsign : withoutMinus p.text = p.whole ++ (p.fractionText ++ p.tail) := by
    obtain ⟨c, r, hwhole, hc⟩ := h.whole_head_isDigit
    unfold text sign
    cases p.negative with
    | true => rfl
    | false =>
      rw [hwhole]
      have hminus : c ≠ '-' := by
        rintro rfl
        exact absurd hc (by decide)
      simp [withoutMinus, hminus]
  obtain ⟨htake, hdrop⟩ := takeWhile_digits h.whole_digits h.rest_head_isDigit
  unfold isNumber
  simp only [hsign, htake, hdrop]
  simp [h.isWhole_whole, h.takeFraction_rest, h.tail_read]

theorem text_marks (h : p.Valid) : ∀ c ∈ p.text, isMark c := by
  have hdigit (c : Char) (hc : c.isDigit) : isMark c := by simp [isMark, hc]
  intro c hc
  rcases List.mem_append.1 hc with hc | hc
  · unfold sign at hc
    split at hc
    · obtain rfl := List.mem_singleton.1 hc
      decide
    · simp at hc
  rcases List.mem_append.1 hc with hc | hc
  · exact hdigit c (h.whole_digits c hc)
  rcases List.mem_append.1 hc with hc | hc
  · unfold fractionText at hc
    split at hc
    · simp at hc
    · rcases List.mem_cons.1 hc with rfl | hc
      · decide
      · exact hdigit c (h.fraction_digits c hc)
  · exact h.tail_marks c hc

end Valid

end NumberParts

open NumberParts (isMark)

theorem word?_eq_number? {w : List Char} (hw : ∀ c ∈ w, isMark c) :
    word? .strict w = number? .strict w := by
  have hliteral (s : String) (c : Char) (hc : c ∈ s.toList) (hmark : isMark c = false) :
      String.ofList w ≠ s := by
    rintro rfl
    rw [String.toList_ofList] at hc
    simp [hw c hc] at hmark
  unfold word?
  simp [hliteral "null" 'n' (by decide) (by decide), hliteral "true" 't' (by decide) (by decide),
    hliteral "false" 'f' (by decide) (by decide), Dialect.strict]

/-! Integers. -/

def intParts (n : Int) : NumberParts :=
  { negative := n < 0, whole := Decimal.digits n.natAbs, fraction := [], tail := [], exponent := 0 }

theorem intText_eq (n : Int) : intText n = (intParts n).text := by
  cases n with
  | ofNat n => simp [intText, intParts, NumberParts.text, NumberParts.sign, Decimal.digits,
      NumberParts.fractionText, toString, Int.repr]
  | negSucc n => simp [intText, intParts, NumberParts.text, NumberParts.sign, Decimal.digits,
      NumberParts.fractionText, toString, Int.repr, Int.negSucc_lt_zero]

theorem whole_digits_valid (n : Nat) :
    Decimal.digits n = ['0'] ∨ ∃ c r, Decimal.digits n = c :: r ∧ c ≠ '0' := by
  rcases Nat.eq_zero_or_pos n with rfl | hn
  · exact .inl rfl
  · cases hdigits : Decimal.digits n with
    | nil => exact absurd hdigits (Decimal.digits_ne_nil n)
    | cons c r =>
      have hhead := Decimal.head?_digits hn
      rw [hdigits] at hhead
      exact .inr ⟨c, r, rfl, by simpa using hhead⟩

theorem intParts_valid (n : Int) : (intParts n).Valid where
  whole_digits _ hc := Decimal.isDigit_of_mem_digits hc
  fraction_digits _ hc := by simp [intParts] at hc
  whole_head := whole_digits_valid n.natAbs
  tail_read := rfl
  tail_head := .inl rfl
  tail_marks _ hc := by simp [intParts] at hc

theorem intParts_text (n : Int) :
    (intParts n).text = if n < 0 then '-' :: Decimal.digits n.natAbs else Decimal.digits n.natAbs := by
  by_cases hneg : n < 0 <;>
    simp [NumberParts.text, NumberParts.sign, NumberParts.fractionText, intParts, hneg]

theorem isInteger_intText (n : Int) : isInteger (intText n) = true := by
  have hplain : ∀ c ∈ intText n, (¬ c = '.' ∧ ¬ c = 'e') ∧ ¬ c = 'E' := by
    intro c hc
    rw [intText_eq, intParts_text] at hc
    have hdigit : c = '-' ∨ c.isDigit := by
      split at hc
      · rcases List.mem_cons.1 hc with hc | hc
        · exact .inl hc
        · exact .inr (Decimal.isDigit_of_mem_digits hc)
      · exact .inr (Decimal.isDigit_of_mem_digits hc)
    refine ⟨⟨?_, ?_⟩, ?_⟩ <;> rintro rfl <;> exact absurd hdigit (by decide)
  simpa [isInteger] using hplain

theorem integerOf_intText (n : Int) : integerOf (intText n) = n := by
  have hread := Decimal.natOfDigits_digits n.natAbs
  rw [intText_eq, intParts_text]
  split
  next hneg =>
    simp only [integerOf, hread]
    rw [Int.ofNat_natAbs_of_nonpos hneg.le, Int.neg_neg]
  next hneg =>
    obtain ⟨c, r, hdigits, hc⟩ := (intParts_valid n).whole_head_isDigit
    have hminus : c ≠ '-' := by
      rintro rfl
      exact absurd hc (by decide)
    have hplain : integerOf (Decimal.digits n.natAbs) = Text.natOfDigits (Decimal.digits n.natAbs) := by
      simp only [intParts] at hdigits
      rw [hdigits]
      simp [integerOf, hminus]
    rw [hplain, hread]
    exact Int.natAbs_of_nonneg (Int.not_lt.1 hneg)

theorem word?_intText {n : Int} (hn : isWord n = true) : word? .strict (intText n) = some (.int n) := by
  have hvalid := intParts_valid n
  have hnumber := hvalid.isNumber_text
  rw [← intText_eq] at hnumber
  rw [word?_eq_number? (by rw [intText_eq]; exact hvalid.text_marks)]
  simp [number?, hnumber, isInteger_intText, integerOf_intText, hn]

/-! Doubles. -/

theorem digits_eq_significant (n : Nat) :
    ∃ t, Decimal.digits n = Decimal.significant n ++ Decimal.zeros t := by
  refine ⟨((Decimal.digits n).reverse.takeWhile (· = '0')).length, ?_⟩
  have hzeros : (Decimal.digits n).reverse.takeWhile (· = '0') =
      Decimal.zeros ((Decimal.digits n).reverse.takeWhile (· = '0')).length :=
    List.eq_replicate_of_mem fun c hc => by simpa using List.mem_takeWhile_imp hc
  have hsplit := List.takeWhile_append_dropWhile (p := (· = '0')) (l := (Decimal.digits n).reverse)
  rw [← List.reverse_inj, List.reverse_append, Decimal.significant, List.reverse_reverse, ← hsplit]
  nth_rewrite 1 [hzeros]
  simp [Decimal.zeros]

structure Significant (ds : List Char) : Prop where
  digits : ∀ c ∈ ds, c.isDigit
  head : ∃ c r, ds = c :: r ∧ c ≠ '0'

theorem significant_valid {n : Nat} (hn : 0 < n) : Significant (Decimal.significant n) := by
  obtain ⟨t, ht⟩ := digits_eq_significant n
  have hmem : ∀ c ∈ Decimal.significant n, c ∈ Decimal.digits n := by
    intro c hc
    rw [ht]
    exact List.mem_append_left _ hc
  have hhead := Decimal.head?_digits hn
  refine ⟨fun c hc => Decimal.isDigit_of_mem_digits (hmem c hc), ?_⟩
  cases hds : Decimal.significant n with
  | nil =>
    -- A coefficient of zeros only would be zero.
    have hvalue := Decimal.natOfDigits_digits n
    rw [ht, hds, List.nil_append, Decimal.zeros, Text.natOfDigits_zeros] at hvalue
    omega
  | cons c r =>
    rw [ht, hds] at hhead
    exact ⟨c, r, rfl, by simpa using hhead⟩

/-- That a numeral stands for the number `d₁.d₂… * 10 ^ e`. -/
def Stands (n : Numeral) (ds : List Char) (e : Int) : Prop :=
  ∃ k : Nat, n.coefficient = 10 ^ k * Text.natOfDigits ds ∧ n.exponent = e + 1 - ds.length - k

def positionalParts (negative : Bool) (ds : List Char) (e : Int) : NumberParts :=
  if e < 0 then
    { negative, whole := ['0'], fraction := Decimal.zeros (-e - 1).toNat ++ ds, tail := [],
      exponent := 0 }
  else if ds.length ≤ e.toNat + 1 then
    { negative, whole := ds ++ Decimal.zeros (e.toNat + 1 - ds.length), fraction := ['0'], tail := [],
      exponent := 0 }
  else
    { negative, whole := ds.take (e.toNat + 1), fraction := ds.drop (e.toNat + 1), tail := [],
      exponent := 0 }

theorem positionalParts_text (negative : Bool) {ds : List Char} (hds : Significant ds) (e : Int) :
    (positionalParts negative ds e).text =
      (if negative then ['-'] else []) ++ Decimal.Layout.positional ds e := by
  have hne : ds ≠ [] := by
    obtain ⟨c, r, rfl, -⟩ := hds.head
    simp
  have htext (p : NumberParts) (hfraction : p.fraction ≠ []) (htail : p.tail = []) :
      p.text = (if p.negative then ['-'] else []) ++ (p.whole ++ '.' :: p.fraction) := by
    cases h : p.fraction with
    | nil => exact absurd h hfraction
    | cons d ds => simp [NumberParts.text, NumberParts.sign, NumberParts.fractionText, h, htail]
  unfold positionalParts Decimal.Layout.positional
  simp only []
  split
  · rw [htext _ (by simp [hne]) rfl]
    simp
  · split
    · rw [htext _ (by simp) rfl]
    next hlong =>
      rw [htext _ (by simp; omega) rfl]

theorem positionalParts_valid (negative : Bool) {ds : List Char} (hds : Significant ds) (e : Int) :
    (positionalParts negative ds e).Valid := by
  have hzeros (n : Nat) : ∀ c ∈ Decimal.zeros n, c.isDigit := by
    intro c hc
    obtain rfl := List.eq_of_mem_replicate hc
    decide
  obtain ⟨c, r, hcons, hc⟩ := hds.head
  unfold positionalParts
  split
  · refine ⟨by simp, ?_, .inl rfl, rfl, .inl rfl, by simp⟩
    intro d hd
    rcases List.mem_append.1 hd with hd | hd
    · exact hzeros _ d hd
    · exact hds.digits d hd
  · split
    · refine ⟨?_, by simp, .inr ⟨c, r ++ Decimal.zeros _, by rw [hcons]; rfl, hc⟩, rfl, .inl rfl,
        by simp⟩
      intro d hd
      rcases List.mem_append.1 hd with hd | hd
      · exact hds.digits d hd
      · exact hzeros _ d hd
    · exact ⟨fun d hd => hds.digits d (List.mem_of_mem_take hd),
        fun d hd => hds.digits d (List.mem_of_mem_drop hd),
        .inr ⟨c, r.take e.toNat, by rw [hcons]; rfl, hc⟩, rfl, .inl rfl, by simp⟩

theorem positionalParts_stands (negative : Bool) (ds : List Char) (e : Int) :
    Stands (positionalParts negative ds e).numeral ds e := by
  unfold positionalParts
  split
  next hneg =>
    refine ⟨0, ?_, ?_⟩
    · simp only [NumberParts.numeral, Text.natOfDigits_append, Decimal.zeros, Text.natOfDigits_zeros]
      simp [Text.natOfDigits]
    · simp [NumberParts.numeral, Decimal.zeros]
      omega
  next hneg =>
    split
    next hshort =>
      refine ⟨e.toNat + 1 - ds.length + 1, ?_, ?_⟩
      · have hzero : Text.natOfDigits ['0'] = 0 := rfl
        simp only [NumberParts.numeral, Text.natOfDigits_append, Decimal.zeros, hzero,
          Text.natOfDigits_zeros, List.length_replicate, List.length_singleton]
        ring
      · simp [NumberParts.numeral]
        omega
    next hlong =>
      refine ⟨0, ?_, ?_⟩
      · simp [NumberParts.numeral]
      · simp [NumberParts.numeral]
        omega

def scientificParts (negative : Bool) (ds : List Char) (e : Int) : NumberParts :=
  { negative, whole := ds.take 1, fraction := ds.drop 1, tail := 'e' :: layout.exponentText e,
    exponent := e }

theorem scientificParts_text (negative : Bool) {ds : List Char} (hds : Significant ds) (e : Int) :
    (scientificParts negative ds e).text =
      (if negative then ['-'] else []) ++ layout.scientific ds e := by
  obtain ⟨c, r, rfl, -⟩ := hds.head
  cases r with
  | nil => rfl
  | cons d r => rfl

theorem layout_exponentText (e : Int) : layout.exponentText e = intText e := by
  rw [intText_eq, intParts_text]
  rfl

theorem readExponent_intText (e : Int) : Numeral.readExponent ('e' :: intText e) = some e := by
  have hdigits : ∀ n, (Decimal.digits n).all Char.isDigit = true := by
    intro n
    simpa using fun c hc => Decimal.isDigit_of_mem_digits hc
  have hread := Decimal.natOfDigits_digits e.natAbs
  rw [intText_eq, intParts_text]
  split
  next hneg =>
    simp [Numeral.readExponent, Numeral.takeSign, hdigits, Decimal.digits_ne_nil, hread,
      abs_of_neg hneg]
  next hneg =>
    obtain ⟨c, r, hcons, hc⟩ := (intParts_valid e).whole_head_isDigit
    simp only [intParts] at hcons
    have hsign : Numeral.takeSign (Decimal.digits e.natAbs) = (false, Decimal.digits e.natAbs) := by
      rw [hcons]
      unfold Numeral.takeSign
      split
      next h => exact absurd (List.cons.inj h).1 (by rintro rfl; exact absurd hc (by decide))
      next h => exact absurd (List.cons.inj h).1 (by rintro rfl; exact absurd hc (by decide))
      next => rfl
    simp [Numeral.readExponent, hsign, hdigits, Decimal.digits_ne_nil, hread,
      abs_of_nonneg (Int.not_lt.1 hneg)]

theorem intText_marks (n : Int) : ∀ c ∈ intText n, isMark c := by
  rw [intText_eq]
  exact (intParts_valid n).text_marks

theorem scientificParts_valid (negative : Bool) {ds : List Char} (hds : Significant ds) (e : Int) :
    (scientificParts negative ds e).Valid := by
  obtain ⟨c, r, hcons, hc⟩ := hds.head
  refine ⟨fun d hd => hds.digits d (List.mem_of_mem_take hd),
    fun d hd => hds.digits d (List.mem_of_mem_drop hd), .inr ⟨c, [], by rw [scientificParts, hcons]; rfl, hc⟩,
    ?_, .inr ⟨_, rfl⟩, ?_⟩
  · simp only [scientificParts, layout_exponentText]
    exact readExponent_intText e
  · intro d hd
    rcases List.mem_cons.1 hd with rfl | hd
    · decide
    · rw [layout_exponentText] at hd
      exact intText_marks e d hd

theorem scientificParts_stands (negative : Bool) {ds : List Char} (hds : Significant ds) (e : Int) :
    Stands (scientificParts negative ds e).numeral ds e := by
  obtain ⟨c, r, rfl, -⟩ := hds.head
  refine ⟨0, ?_, ?_⟩
  · simp [NumberParts.numeral, scientificParts]
  · simp [NumberParts.numeral, scientificParts]

end Json

namespace Double

theorem magnitude_ofMagnitude (negative : Bool) {m : Nat} (hm : m < signBit) :
    (ofMagnitude negative m).magnitude = m := by
  simp only [magnitude, ofMagnitude, UInt64.toNat_ofNat', signBit] at hm ⊢
  cases negative
  · simp
    omega
  · simp
    omega

theorem isFinite_ofMagnitude (negative : Bool) {m : Nat} (hm : m < infiniteMagnitude) :
    (ofMagnitude negative m).isFinite = true := by
  have hsign : m < signBit := hm.trans (by decide)
  simpa [isFinite, magnitude_ofMagnitude negative hsign] using hm

theorem ofMagnitude_magnitude (x : Double) : ofMagnitude x.isNegative x.magnitude = x := by
  obtain ⟨bits⟩ := x
  have hbits := bits.toNat_lt
  have hsame : (if signBit ≤ bits.toNat then signBit else 0) + bits.toNat % signBit % signBit =
      bits.toNat := by
    rw [show signBit = 9223372036854775808 from rfl]
    split <;> omega
  simp only [ofMagnitude, isNegative, magnitude, decide_eq_true_eq, hsame, UInt64.ofNat_toNat]

end Double

namespace Numeral

theorem log2_scaled {coefficient : Nat} (hcoefficient : coefficient ≠ 0) (n : Nat) :
    coefficient.log2 + 3 * n ≤ (coefficient * 10 ^ n).log2 := by
  rw [Nat.le_log2 (by positivity), Nat.pow_add, Nat.pow_mul]
  exact Nat.mul_le_mul (Nat.log2_self_le hcoefficient) (Nat.pow_le_pow_left (by decide) n)

/-- A numeral for a number that rounds to a finite magnitude is read as that magnitude. The shortcuts
are only taken where rounding gives infinity or zero too. -/
theorem toDouble_eq {n : Numeral} {num den : Nat} (hden : 0 < den)
    (hvalue : n.coefficient * power 10 n.exponent * den = num * power 10 (-n.exponent))
    (hpos : 0 < Double.nearestMagnitude num den)
    (hfinite : Double.nearestMagnitude num den < Double.infiniteMagnitude) :
    n.toDouble = .ofMagnitude n.negative (Double.nearestMagnitude num den) := by
  have hpower := Double.power_pos (show 0 < 10 by decide) (-n.exponent)
  have hsame := Double.nearestMagnitude_congr hpower hden hvalue
  rw [← hsame] at hpos hfinite ⊢
  have hcoefficient : n.coefficient ≠ 0 := by
    intro hzero
    simp [hzero, Double.nearestMagnitude] at hpos
  have hlarge : ¬ (0 ≤ n.exponent ∧ 1030 ≤ (n.coefficient.log2 : Int) + 3 * n.exponent) := by
    rintro ⟨hexponent, hsize⟩
    obtain ⟨k, hk⟩ := Int.eq_ofNat_of_zero_le hexponent
    have hlog := log2_scaled hcoefficient k
    have hinfinite : Double.nearestMagnitude (n.coefficient * 10 ^ k) 1 = Double.infiniteMagnitude :=
      Double.nearestMagnitude_eq_infinite (by omega)
    simp only [power, hk] at hfinite
    simp at hfinite
    omega
  have hsmall : ¬ (n.exponent < 0 ∧ (n.coefficient.log2 : Int) + 1 + 3 * n.exponent ≤ -1080) := by
    rintro ⟨hexponent, hsize⟩
    obtain ⟨k, hk⟩ : ∃ k : Nat, n.exponent = -(k : Int) := ⟨n.exponent.natAbs, by omega⟩
    have hlog := log2_scaled one_ne_zero k
    rw [Nat.one_mul] at hlog
    have hzero : Double.nearestMagnitude n.coefficient (10 ^ k) = 0 :=
      Double.nearestMagnitude_eq_zero (Nat.pos_of_ne_zero hcoefficient) (by positivity) (by omega)
    simp only [power, hk] at hpos
    simp [hzero] at hpos
  unfold toDouble
  simp only [hcoefficient, hlarge, hsmall, if_false]

end Numeral

namespace Json

open NumberParts (isMark)

structure DoubleParts (x : Double) (p : NumberParts) : Prop where
  valid : p.Valid
  text_eq : doubleText x = p.text
  reads : p.numeral.toDouble = x
  /-- It is not mistaken for an integer. -/
  mark : '.' ∈ p.text ∨ 'e' ∈ p.text

theorem doubleText_eq {x : Double} (hx : x.isFinite = true) : doubleText x =
    (if x.isNegative then ['-'] else []) ++ (if x.isZero then ['0', '.', '0']
      else layout.body (Decimal.shortest x.magnitude).1 (Decimal.shortest x.magnitude).2) := by
  rw [doubleText, if_pos hx, Decimal.Layout.write, String.toList_ofList]

theorem zeroParts {x : Double} (hzero : x.isZero = true)
    (htext : doubleText x = (if x.isNegative then ['-'] else []) ++ ['0', '.', '0']) :
    ∃ p, DoubleParts x p := by
  refine ⟨{ negative := x.isNegative, whole := ['0'], fraction := ['0'], tail := [], exponent := 0 },
    ⟨by simp, by simp, .inl rfl, rfl, .inl rfl, by simp⟩, htext, ?_, .inl ?_⟩
  · have hmagnitude : x.magnitude = 0 := by simpa [Double.isZero] using hzero
    have hread := Double.ofMagnitude_magnitude x
    rw [hmagnitude] at hread
    exact hread
  · cases x.isNegative <;> decide

theorem foundParts {x : Double} (hx : x.isFinite = true) (hpos : 0 < x.magnitude) {c : Nat} {e : Int}
    (hback : Double.nearestMagnitude (c * power 10 e) (power 10 (-e)) = x.magnitude)
    {p : NumberParts} (hvalid : p.Valid) (hnegative : p.negative = x.isNegative)
    (htext : doubleText x = p.text) (hmark : '.' ∈ p.text ∨ 'e' ∈ p.text)
    (hstands : Stands p.numeral (Decimal.significant c) (e + (Decimal.digits c).length - 1)) :
    DoubleParts x p := by
  refine ⟨hvalid, htext, ?_, hmark⟩
  obtain ⟨k, hcoefficient, hexponent⟩ := hstands
  obtain ⟨t, ht⟩ := digits_eq_significant c
  have hvalue : c = 10 ^ t * Text.natOfDigits (Decimal.significant c) := by
    have hread := Decimal.natOfDigits_digits c
    rw [ht, Text.natOfDigits_append, Decimal.zeros, Text.natOfDigits_zeros, List.length_replicate,
      Nat.add_zero] at hread
    exact hread.symm
  have hlength : (Decimal.digits c).length = (Decimal.significant c).length + t := by
    conv_lhs => rw [ht]
    simp [Decimal.zeros]
  have hfinite : x.magnitude < Double.infiniteMagnitude := by simpa [Double.isFinite] using hx
  have hsame : p.numeral.coefficient * power 10 p.numeral.exponent * power 10 (-e) =
      c * power 10 e * power 10 (-p.numeral.exponent) := by
    -- Both fractions are the digits times a power of ten, and the powers agree.
    rw [hcoefficient]
    generalize Text.natOfDigits (Decimal.significant c) = d at hvalue
    rw [hvalue]
    simp only [power, Nat.pow_eq]
    calc 10 ^ k * d * 10 ^ p.numeral.exponent.toNat * 10 ^ (-e).toNat
        = d * 10 ^ (k + p.numeral.exponent.toNat + (-e).toNat) := by ring
      _ = d * 10 ^ (t + e.toNat + (-p.numeral.exponent).toNat) := by
          congr 2
          omega
      _ = 10 ^ t * d * 10 ^ e.toNat * 10 ^ (-p.numeral.exponent).toNat := by ring
  rw [Numeral.toDouble_eq (Double.power_pos (by decide) (-e)) hsame (hback ▸ hpos)
    (hback ▸ hfinite), hback]
  exact (congrArg (Double.ofMagnitude · x.magnitude) hnegative).trans (Double.ofMagnitude_magnitude x)

theorem positionalParts_mark (negative : Bool) {ds : List Char} (hds : Significant ds) (e : Int) :
    '.' ∈ (positionalParts negative ds e).text := by
  rw [positionalParts_text negative hds]
  apply List.mem_append_right
  unfold Decimal.Layout.positional
  simp only []
  split
  · simp
  · split <;> simp

theorem positionalParts_negative (negative : Bool) (ds : List Char) (e : Int) :
    (positionalParts negative ds e).negative = negative := by
  unfold positionalParts
  split
  · rfl
  · split <;> rfl

/-- Every finite double is written as a number that is read as that double. -/
theorem doubleParts {x : Double} (hx : x.isFinite = true) : ∃ p, DoubleParts x p := by
  have htext := doubleText_eq hx
  by_cases hzero : x.isZero = true
  · exact zeroParts hzero (by rw [htext, if_pos hzero])
  rw [if_neg hzero] at htext
  have hpos : 0 < x.magnitude := Nat.pos_of_ne_zero fun h => hzero (decide_eq_true h)
  have hfinite : x.magnitude < Double.infiniteMagnitude := by simpa [Double.isFinite] using hx
  obtain ⟨c, e, hfound, hback⟩ := Decimal.shortest_reads_back hpos hfinite
  rw [hfound] at htext
  have hc : 0 < c := by
    apply Nat.pos_of_ne_zero
    rintro rfl
    simp [Double.nearestMagnitude] at hback
    omega
  have hds := significant_valid hc
  simp only [Decimal.Layout.body] at htext
  by_cases hposition : layout.lowest ≤ e + (Decimal.digits c).length - 1 ∧
      e + (Decimal.digits c).length - 1 < layout.highest
  · rw [if_pos hposition, ← positionalParts_text _ hds] at htext
    exact ⟨_, foundParts hx hpos hback (positionalParts_valid _ hds _)
      (positionalParts_negative _ _ _) htext (.inl (positionalParts_mark _ hds _))
      (positionalParts_stands _ _ _)⟩
  · rw [if_neg hposition, ← scientificParts_text _ hds] at htext
    exact ⟨_, foundParts hx hpos hback (scientificParts_valid _ hds _) rfl htext
      (.inr (by simp [NumberParts.text, scientificParts])) (scientificParts_stands _ hds _)⟩

/-- What is written of a double is read as that double, or as null if it is not finite. -/
theorem word?_doubleText (x : Double) :
    word? .strict (doubleText x) = some (if x.isFinite then .double x else .null) := by
  by_cases hx : x.isFinite = true
  · obtain ⟨p, hp⟩ := doubleParts hx
    have hinteger : isInteger p.text = false := by
      rcases hp.mark with h | h <;> simp only [isInteger, Bool.not_eq_false', List.any_eq_true] <;>
        exact ⟨_, h, by decide⟩
    rw [hp.text_eq, word?_eq_number? hp.valid.text_marks]
    simp [number?, hp.valid.isNumber_text, hinteger, hp.valid.ofText?_text, hp.reads, hx]
  · simp only [doubleText, hx]
    rfl

end Json

end SignalCoach

import Mathlib.Tactic.IntervalCases
import SignalCoach.Proofs.NumberText

/-! The tokens of a written document: a document is cut into exactly the tokens it was written
with. -/
namespace SignalCoach.Json

mutual
def tokensOf : Value → List Token
  | .null => [.word "null".toList]
  | .bool b => [.word (if b then "true" else "false").toList]
  | .int n => [.word (intText n)]
  | .double x => [.word (doubleText x)]
  | .str s => [.text s]
  | .arr items => .openList :: (itemTokens items ++ [.closeList])
  | .obj fields => .openObject :: (fieldTokens fields ++ [.closeObject])

def itemTokens : List Value → List Token
  | [] => []
  | [v] => tokensOf v
  | v :: rest => tokensOf v ++ .comma :: itemTokens rest

def fieldTokens : List (Key × Value) → List Token
  | [] => []
  | [(k, v)] => .text (keyText k) :: .colon :: tokensOf v
  | (k, v) :: rest => .text (keyText k) :: .colon :: (tokensOf v ++ .comma :: fieldTokens rest)
end

def lex (lexer : Lexer) (text : List Char) : Option (List Token) :=
  (text.foldlM Lexer.step lexer).bind Lexer.finish

theorem lex_cons (lexer : Lexer) (c : Char) (rest : List Char) :
    lex lexer (c :: rest) = (lexer.step c).bind (lex · rest) := by
  simp [lex, List.foldlM_cons, Option.bind_assoc]

def Stops (rest : List Char) : Prop := ∀ c ∈ rest.head?, (punctuation? c).isSome

theorem stops_cons {c : Char} (rest : List Char) (hc : (punctuation? c).isSome) :
    Stops (c :: rest) := by
  rintro d ⟨⟩
  exact hc

theorem open?_punctuation (tokens : List Token) {c : Char} {t : Token}
    (hc : punctuation? c = some t) :
    Lexer.open? tokens c = { tokens := t :: tokens, mode := .between } := by
  have hblank : isBlank c = false := by
    unfold punctuation? at hc
    split at hc <;> first | decide | cases hc
  have hquote : c ≠ '"' := by
    rintro rfl
    cases hc
  simp [Lexer.open?, hblank, hquote, hc]

theorem lex_punctuation (tokens : List Token) {c : Char} {t : Token} (rest : List Char)
    (hc : punctuation? c = some t) :
    lex { tokens, mode := .between } (c :: rest) = lex { tokens := t :: tokens, mode := .between } rest := by
  rw [lex_cons]
  simp [Lexer.step, open?_punctuation tokens hc]

def isPlain (c : Char) : Bool := !(isBlank c || c = '"' || (punctuation? c).isSome)

theorem lex_inWord (tokens : List Token) (rev w rest : List Char) (hw : ∀ c ∈ w, isPlain c)
    (hrest : Stops rest) :
    lex { tokens, mode := .word rev } (w ++ rest) =
      lex { tokens := .word (rev.reverse ++ w) :: tokens, mode := .between } rest := by
  induction w generalizing rev with
  | nil =>
    cases rest with
    | nil => simp [lex, Lexer.finish]
    | cons c rest =>
      obtain ⟨t, ht⟩ := Option.isSome_iff_exists.1 (hrest c rfl)
      rw [List.nil_append, lex_cons, lex_punctuation _ _ ht]
      simp [Lexer.step, ht, open?_punctuation]
  | cons c w ih =>
    have hc := hw c (by simp)
    simp only [isPlain, Bool.not_eq_true', Bool.or_eq_false_iff] at hc
    rw [List.cons_append, lex_cons]
    simp only [Lexer.step, hc, Bool.or_self, Bool.false_eq_true, if_false, Option.bind_some]
    rw [ih (c :: rev) fun d hd => hw d (by simp [hd])]
    simp

theorem lex_word (tokens : List Token) {w : List Char} (rest : List Char) (hne : w ≠ [])
    (hw : ∀ c ∈ w, isPlain c) (hrest : Stops rest) :
    lex { tokens, mode := .between } (w ++ rest) =
      lex { tokens := .word w :: tokens, mode := .between } rest := by
  cases w with
  | nil => exact absurd rfl hne
  | cons c w =>
    have hc := hw c (by simp)
    simp only [isPlain, Bool.not_eq_true', Bool.or_eq_false_iff, decide_eq_false_iff_not,
      Option.isSome_eq_false_iff, Option.isNone_iff_eq_none] at hc
    rw [List.cons_append, lex_cons]
    have hopen : Lexer.open? tokens c = { tokens, mode := .word [c] } := by
      simp [Lexer.open?, hc]
    simp only [Lexer.step, hopen, Option.bind_some]
    exact lex_inWord tokens [c] w rest (fun d hd => hw d (by simp [hd])) hrest

theorem lex_append (lexer : Lexer) (first rest : List Char) :
    lex lexer (first ++ rest) = (first.foldlM Lexer.step lexer).bind (lex · rest) := by
  simp [lex, List.foldlM_append, Option.bind_assoc]

theorem read_control (tokens : List Token) (rev : List Char) {n : Nat} (hn : n < 0x20) :
    (hexDigits 4 n).foldlM Lexer.step { tokens, mode := .code rev none 4 0 } =
      some { tokens, mode := .quoted (Char.ofNat n :: rev) } := by
  interval_cases n <;> rfl

theorem lex_escape (tokens : List Token) (rev : List Char) (c : Char) (rest : List Char) :
    lex { tokens, mode := .quoted rev } (escape c ++ rest) =
      lex { tokens, mode := .quoted (c :: rev) } rest := by
  unfold escape
  split
  case h_8 hquote hbackslash _ _ _ _ _ =>
    split
    next hcontrol =>
      have hread := read_control tokens rev hcontrol
      rw [Char.ofNat_toNat] at hread
      have hbackslash : lex { tokens, mode := .quoted rev }
          ('\\' :: 'u' :: hexDigits 4 c.toNat ++ rest) =
            lex { tokens, mode := .code rev none 4 0 } (hexDigits 4 c.toNat ++ rest) := by
        simp [lex_cons, Lexer.step]
      rw [hbackslash, lex_append, hread, Option.bind_some]
    next hcontrol =>
      rw [List.singleton_append, lex_cons]
      have hquote' : c ≠ '"' := hquote
      have hbackslash' : c ≠ '\\' := hbackslash
      simp [Lexer.step, hquote', hbackslash', hcontrol]
  all_goals
    simp [lex_cons, Lexer.step, escape?]

theorem lex_escaped (tokens : List Token) (rev cs rest : List Char) :
    lex { tokens, mode := .quoted rev } (cs.flatMap escape ++ rest) =
      lex { tokens, mode := .quoted (cs.reverse ++ rev) } rest := by
  induction cs generalizing rev with
  | nil => rfl
  | cons c cs ih =>
    rw [List.flatMap_cons, List.append_assoc, lex_escape, ih]
    simp

theorem lex_quote (tokens : List Token) (s : String) (rest : List Char) :
    lex { tokens, mode := .between } (quote s ++ rest) =
      lex { tokens := .text s :: tokens, mode := .between } rest := by
  rw [quote, List.cons_append, List.cons_append, List.append_assoc, lex_cons]
  have hopen : Lexer.open? tokens '"' = { tokens, mode := .quoted [] } := rfl
  simp only [Lexer.step, hopen, Option.bind_some]
  rw [lex_escaped, List.singleton_append, lex_cons]
  simp [Lexer.step]

open NumberParts (isMark)

theorem isPlain_of_isMark {c : Char} (hc : isMark c = true) : isPlain c = true := by
  by_contra hplain
  have hmember : c ∈ [' ', '\t', '\n', '\r', '"', '[', ']', '\x7b', '\x7d', ',', ':'] := by
    simp only [isPlain, Bool.not_eq_true', Bool.not_eq_false, Bool.or_eq_true, isBlank,
      decide_eq_true_eq] at hplain
    rcases hplain with ((((rfl | rfl) | rfl) | rfl) | rfl) | hpunctuation
    case inr =>
      unfold punctuation? at hpunctuation
      split at hpunctuation <;> first | cases hpunctuation; done | simp
    all_goals decide
  have hmarks : [' ', '\t', '\n', '\r', '"', '[', ']', '\x7b', '\x7d', ',', ':'].all
      (fun d => !isMark d) = true := by decide
  have hother := List.all_eq_true.1 hmarks c hmember
  rw [hc] at hother
  cases hother

theorem intText_plain (n : Int) : intText n ≠ [] ∧ ∀ c ∈ intText n, isPlain c := by
  refine ⟨?_, fun c hc => isPlain_of_isMark (intText_marks n c hc)⟩
  rw [intText_eq, intParts_text]
  split
  · simp
  · exact Decimal.digits_ne_nil _

theorem doubleText_plain (x : Double) : doubleText x ≠ [] ∧ ∀ c ∈ doubleText x, isPlain c := by
  by_cases hx : x.isFinite = true
  · obtain ⟨p, hp⟩ := doubleParts hx
    rw [hp.text_eq]
    refine ⟨?_, fun c hc => isPlain_of_isMark (hp.valid.text_marks c hc)⟩
    rcases hp.mark with h | h <;> exact List.ne_nil_of_mem h
  · rw [doubleText, if_neg hx]
    exact ⟨by decide, List.all_eq_true.1 (by decide)⟩

mutual
theorem lex_compact (v : Value) (tokens : List Token) (rest : List Char) (hrest : Stops rest) :
    lex { tokens, mode := .between } (compact v ++ rest) =
      lex { tokens := (tokensOf v).reverse ++ tokens, mode := .between } rest := by
  match v with
  | .null => exact lex_word tokens rest (by decide) (List.all_eq_true.1 (by decide)) hrest
  | .bool b => cases b <;> exact lex_word tokens rest (by decide) (List.all_eq_true.1 (by decide)) hrest
  | .int n =>
    obtain ⟨hne, hplain⟩ := intText_plain n
    exact lex_word tokens rest hne hplain hrest
  | .double x =>
    obtain ⟨hne, hplain⟩ := doubleText_plain x
    exact lex_word tokens rest hne hplain hrest
  | .str s => exact lex_quote tokens s rest
  | .arr items =>
    rw [compact, List.cons_append, List.cons_append, List.append_assoc, List.singleton_append,
      lex_punctuation _ _ rfl, lex_compactItems items _ _ (stops_cons _ rfl), lex_punctuation _ _ rfl]
    simp [tokensOf]
  | .obj fields =>
    rw [compact, List.cons_append, List.cons_append, List.append_assoc, List.singleton_append,
      lex_punctuation _ _ rfl, lex_compactFields fields _ _ (stops_cons _ rfl), lex_punctuation _ _ rfl]
    simp [tokensOf]

theorem lex_compactItems (items : List Value) (tokens : List Token) (rest : List Char)
    (hrest : Stops rest) :
    lex { tokens, mode := .between } (compactItems items ++ rest) =
      lex { tokens := (itemTokens items).reverse ++ tokens, mode := .between } rest := by
  match items with
  | [] => rfl
  | [v] => exact lex_compact v tokens rest hrest
  | v :: w :: others =>
    rw [compactItems, List.append_assoc, List.cons_append, lex_compact v _ _ (stops_cons _ rfl),
      lex_punctuation _ _ rfl, lex_compactItems (w :: others) _ _ hrest]
    · simp [itemTokens]
    · simp

theorem lex_compactFields (fields : List (Key × Value)) (tokens : List Token) (rest : List Char)
    (hrest : Stops rest) :
    lex { tokens, mode := .between } (compactFields fields ++ rest) =
      lex { tokens := (fieldTokens fields).reverse ++ tokens, mode := .between } rest := by
  match fields with
  | [] => rfl
  | [(k, v)] =>
    rw [compactFields, List.append_assoc, lex_quote, List.cons_append, lex_punctuation _ _ rfl,
      lex_compact v _ _ hrest]
    simp [fieldTokens]
  | (k, v) :: w :: others =>
    rw [compactFields, List.append_assoc, List.append_assoc, lex_quote, List.cons_append,
      lex_punctuation _ _ rfl, List.cons_append, lex_compact v _ _ (stops_cons _ rfl),
      lex_punctuation _ _ rfl, lex_compactFields (w :: others) _ _ hrest]
    · simp [fieldTokens]
    · simp
end

theorem tokens?_compact (v : Value) : tokens? (compact v) = some (tokensOf v) := by
  have h := lex_compact v [] [] (by simp [Stops])
  rw [List.append_nil] at h
  calc tokens? (compact v) = lex Lexer.start (compact v) := rfl
    _ = lex { tokens := (tokensOf v).reverse ++ [], mode := .between } [] := h
    _ = some (tokensOf v) := by simp [lex, Lexer.finish]

end SignalCoach.Json

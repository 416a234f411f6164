import SignalCoach.Proofs.JobCommit

/-! When an assessment is finished: just if no number that it asks for is an integer beyond every
double, and no timeframe has too many digits. Then a value that is no number only makes the condition
that asked for it fail. -/
namespace SignalCoach

namespace Feature

def exceeds : Value → Bool
  | .int n => (Double.ofInt? n).isNone
  | _ => false

def plain? : Value → Option Double
  | .int n => Double.ofInt? n
  | .double x => if x.isNaN then none else some x
  | _ => none

structure Gives {α δ : Type} (fails : δ → Bool) (x : Except Overflow α) (asked : List δ) (a : α) :
    Prop where
  ok : asked.any fails = false → x = .ok a
  error : asked.any fails = true → ∃ e, x = .error e

namespace Gives

variable {α β δ : Type} {fails : δ → Bool} {x : Except Overflow α} {asked : List δ} {a : α}

theorem pure (a : α) : Gives fails (.ok a) [] a := ⟨fun _ => rfl, fun h => by cases h⟩

theorem bind {f : α → Except Overflow β} {more : List δ} {b : β} (hx : Gives fails x asked a)
    (hf : Gives fails (f a) more b) : Gives fails (x >>= f) (asked ++ more) b where
  ok h := by
    rw [List.any_append, Bool.or_eq_false_iff] at h
    rw [hx.ok h.1]
    exact hf.ok h.2
  error h := by
    cases hasked : asked.any fails with
    | true =>
      obtain ⟨e, he⟩ := hx.error hasked
      exact ⟨e, by rw [he]; rfl⟩
    | false =>
      rw [List.any_append, hasked, Bool.false_or] at h
      rw [hx.ok hasked]
      exact hf.error h

theorem bind_pure (hx : Gives fails x asked a) {f : α → Except Overflow β} {b : β}
    (hf : f a = .ok b) : Gives fails (x >>= f) asked b := by
  have hlast : Gives fails (f a) [] b := hf ▸ .pure b
  simpa using hx.bind hlast

theorem map (hx : Gives fails x asked a) (f : α → β) : Gives fails (x.map f) asked (f a) := by
  have hmap : x.map f = x >>= fun a => .ok (f a) := by cases x <;> rfl
  rw [hmap]
  exact hx.bind_pure rfl

theorem of_eq {ε : Type} {fails' : ε → Bool} {g : δ → ε} (hg : ∀ d, fails' (g d) = fails d)
    (hx : Gives fails x asked a) : Gives fails' x (asked.map g) a := by
  have hany : (asked.map g).any fails' = asked.any fails := by
    rw [List.any_map]
    exact congrArg asked.any (funext hg)
  exact ⟨fun h => hx.ok (hany ▸ h), fun h => hx.error (hany ▸ h)⟩

end Gives

theorem number?_gives (v : Value) : Gives exceeds (number? v) [v] (plain? v) := by
  cases v with
  | int n =>
    cases hn : Double.ofInt? n with
    | some x => exact ⟨fun _ => by simp [number?, plain?, hn], fun h => by simp [exceeds, hn] at h⟩
    | none => exact ⟨fun h => by simp [exceeds, hn] at h, fun _ =>
      ⟨.integerTooLarge n, by simp only [number?, hn]⟩⟩
  | _ => exact ⟨fun _ => rfl, fun h => by cases h⟩

namespace Context

/-- What a path leads to: in the features, or in the payload if the features have nothing there. -/
def valueAt (context : Context) (path : String) : Value :=
  match splitPath path with
  | [] => .null
  | segments =>
    match lookup context.features segments with
    | .null => lookup context.payload segments
    | v => v

theorem resolvePath_eq (context : Context) (path : String) :
    context.resolvePath path = number? (context.valueAt path) := by
  unfold resolvePath valueAt
  cases splitPath path with
  | nil => rfl
  | cons segment rest =>
    simp only
    cases lookup context.features (segment :: rest) <;> rfl

def entries? (context : Context) (name : String) : Option (List Value) :=
  match lookup context.features ["series", name] with
  | .arr items => some items
  | _ => none

def plainItem? : Value → Option Double
  | .str s => (Text.readDouble? s).filter fun x => !x.isNaN
  | v => plain? v

theorem entry?_gives (v : Value) : Gives exceeds ( entry? v) [v] (plainItem? v) := by
  unfold entry? plainItem?
  cases v with
  | str s => exact ⟨fun _ => rfl, fun h => by cases h⟩
  | _ =>
    simp only
    exact number?_gives _

theorem numbers_gives (items : List Value) :
    Gives exceeds (numbers items) items (items.filterMap plainItem?) := by
  induction items with
  | nil => exact .pure []
  | cons v rest ih =>
    have htail : Gives exceeds (numbers rest >>= fun xs => pure ((plainItem? v).toList ++ xs)) rest
        ((v :: rest).filterMap plainItem?) := by
      refine ih.bind_pure ?_
      cases hv : plainItem? v <;> simp [hv, Pure.pure, Except.pure]
    exact (entry?_gives v).bind htail

theorem series_gives (context : Context) (name : String) :
    Gives exceeds (context.series name) ((context.entries? name).getD [])
      ((context.entries? name).map (·.filterMap plainItem?)) := by
  unfold series entries?
  cases lookup context.features ["series", name] with
  | arr items => exact (numbers_gives items).map some
  | _ => exact .pure none

end Context

end Feature

namespace Rule

open Feature

def Reference.source (r : Reference) (context : Context) : Value :=
  match r.value.filter (!·.isNaN), r.path with
  | some x, _ => .double x
  | none, some path => context.valueAt path
  | none, none => .null

def Operand.source (operand : Operand) (context : Context) : Value :=
  match operand with
  | .number x => .double x
  | .path p => context.valueAt p
  | .reference r => r.source context

theorem Reference.resolve_eq (r : Reference) (context : Context) :
    r.resolve context = number? (r.source context) := by
  unfold resolve source
  cases hvalue : r.value.filter (!·.isNaN) with
  | some x =>
    have hx : x.isNaN = false := by simpa using (Option.filter_eq_some_iff.1 hvalue).2
    simp [number?, hx]
  | none =>
    cases r.path with
    | some path => exact context.resolvePath_eq path
    | none => rfl

theorem Operand.resolve_gives (operand : Operand) (context : Context) :
    Gives exceeds (operand.resolve context) [operand.source context]
      (plain? (operand.source context)) := by
  have heq : operand.resolve context = number? (operand.source context) := by
    cases operand with
    | number x => rfl
    | path p => exact context.resolvePath_eq p
    | reference r => exact r.resolve_eq context
  rw [heq]
  exact number?_gives _

/-- What a rule asks for: the number that a value is, or the text of an integer. -/
inductive Demand where
  | number (v : Value)
  | text (n : Int)

def Demand.fails : Demand → Bool
  | .number v => exceeds v
  | .text n => !Text.isPrintable n

theorem gives_numbers {α : Type} {x : Except Overflow α} {asked : List Value} {a : α}
    (hx : Gives exceeds x asked a) : Gives Demand.fails x (asked.map .number) a :=
  hx.of_eq fun _ => rfl

def Timeframe.asked : Timeframe → List Demand
  | .minutes n => [.text n]
  | .label _ => []

theorem Timeframe.segment_gives (timeframe : Timeframe) :
    Gives Demand.fails timeframe.segment timeframe.asked timeframe.text := by
  cases timeframe with
  | minutes n =>
    cases hprintable : Text.isPrintable n with
    | true =>
      exact ⟨fun _ => if_pos hprintable, fun h => by simp [asked, Demand.fails, hprintable] at h⟩
    | false =>
      refine ⟨fun h => by simp [asked, Demand.fails, hprintable] at h, fun _ => ⟨_, if_neg ?_⟩⟩
      simp [hprintable]
  | label s => exact .pure s

namespace Condition

def asked : Condition → Context → List Demand
  | .compare left _ right, context =>
    [.number (left.source context), .number (right.source context)]
  | .touch series band _, context => [.number (series.source context), .number (band.source context)]
  | .cross a b _ _, context =>
    ((context.entries? a).getD [] ++ (context.entries? b).getD []).map .number
  | .marketOpen _, context => [.number (lookup context.features ["meta", "minutesSinceMarketOpen"])]
  | .higherTimeframe timeframe inner, context => timeframe.asked ++
    match context.subtree ["higherTimeframes", timeframe.text] with
    | .obj fields => inner.asked (context.withFeatures (.obj fields))
    | _ => []

def verdict : Condition → Context → Bool
  | .compare left op right, context =>
    match plain? (left.source context), plain? (right.source context), Relation.ofSymbol? op with
    | some x, some y, some relation => relation.holds x y
    | _, _, _ => false
  | .touch series band tolerance, context =>
    match plain? (series.source context), plain? (band.source context) with
    | some price, some band => withinBand price band tolerance
    | _, _ => false
  | .cross a b direction lookback, context =>
    match context.entries? a, context.entries? b with
    | some a, some b =>
      findCross (a.filterMap Context.plainItem?) (b.filterMap Context.plainItem?) direction lookback
    | _, _ => false
  | .marketOpen minutes, context =>
    match plain? (lookup context.features ["meta", "minutesSinceMarketOpen"]) with
    | some sinceOpen => sinceOpen ≤ minutes
    | none => false
  | .higherTimeframe timeframe inner, context =>
    match context.subtree ["higherTimeframes", timeframe.text] with
    | .obj fields => inner.verdict (context.withFeatures (.obj fields))
    | _ => false

theorem holds_gives (c : Condition) (context : Context) :
    Gives Demand.fails (c.holds context) (c.asked context) (c.verdict context) := by
  induction c generalizing context with
  | compare left op right =>
    have hcompare : Gives exceeds (compareHolds left op right context)
        [left.source context, right.source context] ((compare left op right).verdict context) := by
      refine (left.resolve_gives context).bind ((right.resolve_gives context).bind_pure ?_)
      unfold verdict
      cases plain? (left.source context) <;> cases plain? (right.source context) <;>
        cases Relation.ofSymbol? op <;> rfl
    exact gives_numbers hcompare
  | touch series band tolerance =>
    have htouch : Gives exceeds (touchHolds series band tolerance context)
        [series.source context, band.source context]
        ((touch series band tolerance).verdict context) := by
      refine (series.resolve_gives context).bind ((band.resolve_gives context).bind_pure ?_)
      unfold verdict
      cases plain? (series.source context) <;> cases plain? (band.source context) <;> rfl
    exact gives_numbers htouch
  | cross a b direction lookback =>
    refine gives_numbers ((context.series_gives a).bind ((context.series_gives b).bind_pure ?_))
    unfold verdict
    cases context.entries? a <;> cases context.entries? b <;> rfl
  | marketOpen minutes =>
    refine gives_numbers ((number?_gives _).bind_pure ?_)
    unfold verdict
    cases plain? (lookup context.features ["meta", "minutesSinceMarketOpen"]) <;> rfl
  | higherTimeframe timeframe inner ih =>
    unfold holds asked verdict
    refine timeframe.segment_gives.bind ?_
    cases context.subtree ["higherTimeframes", timeframe.text] with
    | obj fields => exact ih (context.withFeatures (.obj fields))
    | _ => exact .pure false

/-- What a list of conditions asks for. Nothing is asked after the first condition that decides. -/
def askedUntil (decides : Bool) (context : Context) : List Condition → List Demand
  | [] => []
  | c :: rest =>
    c.asked context ++ if c.verdict context = decides then [] else askedUntil decides context rest

theorem allHold_gives (context : Context) (conditions : List Condition) :
    Gives Demand.fails (allHold context conditions) (askedUntil false context conditions)
      (conditions.all (·.verdict context)) := by
  induction conditions with
  | nil => exact .pure true
  | cons c rest ih =>
    refine (c.holds_gives context).bind ?_
    cases hverdict : c.verdict context with
    | true => simpa [hverdict] using ih
    | false =>
      simp only [List.all_cons, hverdict, Bool.false_and, if_true]
      exact .pure false

theorem anyHolds_gives (context : Context) (conditions : List Condition) :
    Gives Demand.fails (anyHolds context conditions) (askedUntil true context conditions)
      (conditions.any (·.verdict context)) := by
  induction conditions with
  | nil => exact .pure false
  | cons c rest ih =>
    refine (c.holds_gives context).bind ?_
    cases hverdict : c.verdict context with
    | true =>
      simp only [List.any_cons, hverdict, Bool.true_or, if_true]
      exact .pure true
    | false => simpa [hverdict] using ih

end Condition

namespace Group

def asked (group : Option Group) (context : Context) : List Demand :=
  match group with
  | none => []
  | some { allOf := some conditions, .. } => Condition.askedUntil false context conditions
  | some { allOf := none, anyOf := some conditions } =>
    Condition.askedUntil true context conditions
  | some { allOf := none, anyOf := none } => []

def verdict (group : Option Group) (context : Context) : Bool :=
  match group with
  | none => true
  | some { allOf := some conditions, .. } => conditions.all (·.verdict context)
  | some { allOf := none, anyOf := some conditions } => conditions.any (·.verdict context)
  | some { allOf := none, anyOf := none } => true

theorem holds_gives (group : Option Group) (context : Context) :
    Gives Demand.fails (holds group context) (asked group context) (verdict group context) := by
  unfold holds asked verdict
  split
  · exact .pure true
  · exact Condition.allHold_gives context _
  · exact Condition.anyHolds_gives context _
  · exact .pure true

end Group

end Rule

namespace Score

open Feature

def asked (spec : Option Rule.ScoreSpec) (satisfied : Bool) (context : Context) : List Value :=
  if satisfied && (decay? (spec.getD {})).isSome then
    [lookup context.features ["meta", "candlesSinceCross"]]
  else []

def plain (spec : Option Rule.ScoreSpec) (satisfied : Bool) (context : Context) : Double :=
  if !satisfied then .zero
  else
    match decay? (spec.getD {}), plain? (lookup context.features ["meta", "candlesSinceCross"]) with
    | some decay, some candles => clamp (base (spec.getD {}) - decay * candles)
    | _, _ => clamp (base (spec.getD {}))

end Score

namespace Assessment

open Feature

def asked (context : Context) (tag : Tag) : List Rule.Demand :=
  match Rule.read tag.rule with
  | .ok rule =>
    Rule.Group.asked rule.when context ++
      (Score.asked rule.score (Rule.Group.verdict rule.when context) context).map .number
  | .error _ => []

end Assessment

end SignalCoach

import Mathlib.Logic.Relation
import Diverge.Expr.Evaluate
import Diverge.Proofs.Computation
import Diverge.Proofs.Sequence
import Diverge.Proofs.Words
import Diverge.Proofs.Expr.Nodes

/-!
# Values are words

Constants, extractions, sign extensions, complements and operators have words of their
width for values: not negative and below the power of two, since each cuts its result.  The
other nodes pass values on as they are: an expression *exposes* the parts whose values it
may pass on.  Such a value is a word as well, but for two kinds of nodes.  A zero extension
may be narrower than its operand, and does not cut it; and the content of an array may not
fit its range.  If the value of an expression is not a word of its width, then it exposes a
node of these kinds that overflows (`Expr.isWordUnless_evaluate`).  In a well-typed
expression whose arrays fit there is none (`Expr.isWord_evaluate`).
-/

namespace Diverge

open Stateful

/-- The outcome is a word of a width. -/
def IsWord (width : Int) (outcome : Option Int) : Prop :=
  ∃ word, outcome = some word ∧ 0 ≤ word ∧ word < 2 ^ width.toNat

theorem IsWord.of_truncate
    {value width word : Int}
    (cut : Word.truncate value width = .ok word) :
    IsWord width (some word) :=
  ⟨word, rfl, (Word.truncate_range cut).2⟩

/-- A word of a width is a word of every larger one. -/
theorem IsWord.widen
    {narrow wide : Int}
    {outcome : Option Int}
    (isWord : IsWord narrow outcome)
    (wider : narrow ≤ wide) :
    IsWord wide outcome := by
  obtain ⟨word, rfl, nonneg, bound⟩ := isWord
  refine ⟨word, rfl, nonneg, lt_of_lt_of_le bound ?_⟩
  exact_mod_cast Nat.pow_le_pow_right (by decide) (Int.toNat_le_toNat wider)

/-- The outcome is not negative, and a word of a width unless something else is the case. -/
def IsWordUnless (otherwise : Prop) (width : Int) (outcome : Option Int) : Prop :=
  ∃ word, outcome = some word ∧ 0 ≤ word ∧ (word < 2 ^ width.toNat ∨ otherwise)

theorem IsWord.unless
    {otherwise : Prop}
    {width : Int}
    {outcome : Option Int}
    (isWord : IsWord width outcome) :
    IsWordUnless otherwise width outcome := by
  obtain ⟨word, isOutcome, nonneg, bound⟩ := isWord
  exact ⟨word, isOutcome, nonneg, .inl bound⟩

theorem IsWordUnless.mono
    {otherwise weaker : Prop}
    {width : Int}
    {outcome : Option Int}
    (isWord : IsWordUnless otherwise width outcome)
    (implies : otherwise → weaker) :
    IsWordUnless weaker width outcome := by
  obtain ⟨word, isOutcome, nonneg, bound⟩ := isWord
  exact ⟨word, isOutcome, nonneg, bound.imp_right implies⟩

theorem IsWordUnless.isWord
    {otherwise : Prop}
    {width : Int}
    {outcome : Option Int}
    (isWord : IsWordUnless otherwise width outcome)
    (never : ¬ otherwise) :
    IsWord width outcome := by
  obtain ⟨word, isOutcome, nonneg, bound⟩ := isWord
  exact ⟨word, isOutcome, nonneg, bound.resolve_right never⟩

/-! ## Arrays -/

/-- An element of a list of words is a word, and so is the zero past its end. -/
theorem isWord_valueAt
    {values : List Int}
    {width word : Int}
    {index : Option Int}
    {fault : Fault}
    (fits : ∀ value ∈ values, 0 ≤ value ∧ value < 2 ^ width.toNat)
    (found : valueAt values index fault = .ok word) :
    IsWord width (some word) := by
  refine ⟨word, rfl, ?_⟩
  cases index with
  | none => cases found
  | some index =>
      simp only [valueAt] at found
      split at found
      · exact fits word (Sequence.mem_of_fetch found)
      · cases found
        exact ⟨le_refl 0, by positivity⟩

/-- An array that fits gives words of its range. -/
theorem ArrayDecl.isWord_valueAt
    {array : ArrayDecl}
    {assignment : Assignment}
    {index : Option Int}
    {word : Int}
    (fits : array.Fits assignment)
    (found : array.valueAt assignment index = .ok word) :
    IsWord array.range (some word) := by
  unfold ArrayDecl.valueAt at found
  unfold ArrayDecl.Fits ArrayDecl.values at fits
  cases known : array.contents with
  | some values =>
      rw [known] at found fits
      exact Diverge.isWord_valueAt fits found
  | none =>
      rw [known] at found fits
      exact Diverge.isWord_valueAt fits found

/-- The contents of an array, if they are known, are words of its range. -/
def ArrayDecl.KnownFit (array : ArrayDecl) : Prop :=
  ∀ values ∈ array.contents, ∀ value ∈ values, 0 ≤ value ∧ value < 2 ^ array.range.toNat

theorem ArrayDecl.Fits.knownFit
    {array : ArrayDecl}
    {assignment : Assignment}
    (fits : array.Fits assignment) :
    array.KnownFit := by
  intro values isKnown value member
  refine fits value ?_
  unfold ArrayDecl.values
  rw [isKnown]
  exact member

/-- The element of a symbolic array at an index does not fit a range of less than a byte. -/
structure ArrayDecl.Exceeds
    (array : ArrayDecl) (assignment : Assignment) (index : Option Int) : Prop where
  symbolic : array.contents = none
  narrow : array.range < 8
  large : ∃ word, array.valueAt assignment index = .ok word ∧ 2 ^ array.range.toNat ≤ word

/-- In an array that fits no element exceeds the range. -/
theorem ArrayDecl.Fits.not_exceeds
    {array : ArrayDecl}
    {assignment : Assignment}
    {index : Option Int}
    (fits : array.Fits assignment) :
    ¬ array.Exceeds assignment index := by
  rintro ⟨_, _, word, found, large⟩
  obtain ⟨_, ⟨⟩, _, bound⟩ := array.isWord_valueAt fits found
  exact large.not_gt bound

/-- An element of an array fits its range, or is a byte that exceeds it. -/
theorem ArrayDecl.isWordUnless_valueAt
    {array : ArrayDecl}
    {assignment : Assignment}
    {index : Option Int}
    {word : Int}
    (known : array.KnownFit)
    (found : array.valueAt assignment index = .ok word) :
    IsWordUnless (array.Exceeds assignment index) array.range (some word) := by
  have looked := found
  unfold ArrayDecl.valueAt at looked
  cases contents : array.contents with
  | some values =>
      rw [contents] at looked
      exact (Diverge.isWord_valueAt (known values contents) looked).unless
  | none =>
      rw [contents] at looked
      have bytes : ∀ value ∈ (assignment array.id).map fun byte => (byte.toNat : Int),
          0 ≤ value ∧ value < 2 ^ (8 : Int).toNat := by
        intro value member
        obtain ⟨byte, _, rfl⟩ := List.mem_map.1 member
        exact ⟨Int.natCast_nonneg _, by exact_mod_cast byte.toNat_lt⟩
      have isByte := Diverge.isWord_valueAt bytes looked
      by_cases narrow : array.range < 8
      · obtain ⟨_, ⟨⟩, nonneg, _⟩ := isByte
        refine ⟨word, rfl, nonneg, ?_⟩
        by_cases fits : word < 2 ^ array.range.toNat
        · exact .inl fits
        · exact .inr ⟨contents, narrow, word, found, Int.not_lt.1 fits⟩
      · exact (isByte.widen (Int.not_lt.1 narrow)).unless

/-- What is computed from the value of an operand and cut to a width. -/
theorem Expr.cut_eq_ok
    {evaluated : Except Fault (Option Int)}
    {step : Option Int → Except Fault Int}
    {width : Int}
    {outcome : Option Int} :
    (do
        let value ← evaluated
        let computed ← step value
        return some (← Word.truncate computed width)) = .ok outcome ↔
      ∃ value computed word,
        evaluated = .ok value ∧ step value = .ok computed ∧
          Word.truncate computed width = .ok word ∧ outcome = some word := by
  constructor
  · intro ran
    obtain ⟨value, isValue, later⟩ := except_bind_eq_ok.1 ran
    obtain ⟨computed, isComputed, last⟩ := except_bind_eq_ok.1 later
    obtain ⟨word, cut, ended⟩ := except_bind_eq_ok.1 last
    cases ended
    exact ⟨value, computed, word, isValue, isComputed, cut, rfl⟩
  · rintro ⟨value, computed, word, rfl, isComputed, cut, rfl⟩
    simp only [bind, Except.bind, isComputed, cut]
    rfl

/-! ## Where values are passed on -/

/-- The values written in a history. -/
def Updates.values : Updates → List Expr
  | .root _ => []
  | .write _ _ value older => value :: older.values

theorem Updates.Throughout.of_mem_values
    {condition : Expr → Prop}
    {updates : Updates}
    {value : Expr}
    (holds : updates.Throughout condition)
    (member : value ∈ updates.values) :
    value.Throughout condition := by
  match updates with
  | .root array => cases member
  | .write id index written older =>
      rw [Updates.throughout_write] at holds
      rcases List.mem_cons.1 member with rfl | below
      · exact holds.2.1
      · exact holds.2.2.of_mem_values below

/-- Every value that was written is as wide as the range of the array. -/
theorem Updates.Matched.width_of_mem_values
    {updates : Updates}
    {value : Expr}
    (matched : updates.Matched)
    (member : value ∈ updates.values) :
    value.width = updates.array.range := by
  match updates with
  | .root array => cases member
  | .write id index written older =>
      rcases List.mem_cons.1 member with rfl | below
      · exact matched.1
      · exact matched.2.width_of_mem_values below

/-- The parts from which the value of a node is taken without being cut. -/
def Expr.sources : Expr → List Expr
  | .notOptimized _ source | .zext _ source => [source]
  | .select _ _ _ onTrue onFalse => [onTrue, onFalse]
  | .concat _ high low => [high, low]
  | .read _ updates _ => updates.values
  | _ => []

/-- A part whose value an expression may pass on, itself included. -/
def Expr.Exposes : Expr → Expr → Prop :=
  Relation.ReflTransGen fun whole part => part ∈ whole.sources

/-- The value of a node need not fit its width, even if those of its sources fit theirs. -/
inductive Expr.Overflows (assignment : Assignment) : Expr → Prop where
  /-- A zero extension that is narrower than its operand. -/
  | zext
      {tag : Tag}
      {source : Expr}
      {word : Int}
      (multi : tag.multi = true)
      (narrow : tag.width < source.width)
      (evaluated : source.evaluate assignment = .ok (some word))
      (large : 2 ^ tag.width.toNat ≤ word) :
      Overflows assignment (.zext tag source)
  /-- A read of an array at an index where the element exceeds the range. -/
  | read
      {tag : Tag}
      {updates : Updates}
      {index : Expr}
      {position : Option Int}
      (evaluated : index.evaluate assignment = .ok position)
      (exceeds : updates.array.Exceeds assignment position) :
      Overflows assignment (.read tag updates index)

/-- Somewhere a value overflows that the expression may pass on. -/
def Expr.Spills (assignment : Assignment) (expression : Expr) : Prop :=
  ∃ part, expression.Exposes part ∧ part.Overflows assignment

/-- An overflow below a source may be passed on. -/
theorem Expr.Spills.of_source
    {assignment : Assignment}
    {whole source : Expr}
    (spills : source.Spills assignment)
    (isSource : source ∈ whole.sources) :
    whole.Spills assignment := by
  obtain ⟨part, exposes, overflows⟩ := spills
  exact ⟨part, exposes.head isSource, overflows⟩

/-- A node that overflows itself passes that on. -/
theorem Expr.Overflows.spills
    {assignment : Assignment}
    {expression : Expr}
    (overflows : expression.Overflows assignment) :
    expression.Spills assignment :=
  ⟨expression, .refl, overflows⟩

theorem Expr.Throughout.source
    {condition : Expr → Prop}
    {whole source : Expr}
    (holds : whole.Throughout condition)
    (isSource : source ∈ whole.sources) :
    source.Throughout condition := by
  cases whole with
  | read tag updates index =>
      exact ((Expr.throughout_read tag updates index).1 holds).2.2.of_mem_values isSource
  | select tag patches cond onTrue onFalse =>
      exact holds.kid (List.mem_cons_of_mem _ isSource)
  | notOptimized tag source => exact holds.kid isSource
  | zext tag source => exact holds.kid isSource
  | concat tag high low => exact holds.kid isSource
  | _ => cases isSource

/-- What holds throughout an expression holds throughout what it exposes. -/
theorem Expr.Exposes.throughout
    {condition : Expr → Prop}
    {whole part : Expr}
    (exposes : whole.Exposes part)
    (holds : whole.Throughout condition) :
    part.Throughout condition := by
  induction exposes with
  | refl => exact holds
  | tail earlier isSource inductionHypothesis => exact inductionHypothesis.source isSource

/-! ## Expressions -/

/-- What keeps the value of a node within its width, if those of its sources are. -/
structure Expr.Contained (node : Expr) : Prop where
  measured : node.Measured
  aligned : node.Aligned
  width_pos : 0 < node.width
  widening : node.Widening
  known : ∀ updates ∈ node.updates?, updates.array.KnownFit

section

variable {assignment : Assignment}

mutual

/-- The value of an expression is a word of its width, unless something spills. -/
theorem Expr.isWordUnless_evaluate :
    (expression : Expr) → expression.Throughout Expr.Contained →
      {outcome : Option Int} → expression.evaluate assignment = .ok outcome →
        IsWordUnless (expression.Spills assignment) expression.width outcome
  | .const tag value, contained, outcome, evaluated => by
      cases evaluated
      exact ⟨value, rfl, contained.self.measured.2.1, .inl contained.self.measured.2.2⟩
  | .loose .., contained, _, _ => contained.self.measured.elim
  | .notOptimized tag source, contained, outcome, evaluated => by
      have width : tag.width = source.width := contained.self.measured
      show IsWordUnless _ tag.width outcome
      rw [width]
      exact (source.isWordUnless_evaluate (contained.kid List.mem_cons_self) evaluated).mono
        fun spills => spills.of_source List.mem_cons_self
  | .zext tag source, contained, outcome, evaluated => by
      obtain ⟨word, rfl, nonneg, bound⟩ :=
        source.isWordUnless_evaluate (contained.kid List.mem_cons_self) evaluated
      refine ⟨word, rfl, nonneg, ?_⟩
      by_cases fits : word < 2 ^ tag.width.toNat
      · exact .inl fits
      · rcases bound with bound | spills
        · have narrow : tag.width < source.width := by
            by_contra wide
            obtain ⟨_, ⟨⟩, _, wider⟩ :=
              IsWord.widen ⟨word, rfl, nonneg, bound⟩ (Int.not_lt.1 wide)
            exact fits wider
          have multi : tag.multi = true := by
            by_contra unmarked
            have wide := contained.self.widening tag source rfl (by simpa using unmarked)
            omega
          exact .inr (Expr.Overflows.zext multi narrow evaluated (Int.not_lt.1 fits)).spills
        · exact .inr (spills.of_source List.mem_cons_self)
  | .extract tag offset source, contained, outcome, evaluated => by
      rw [Expr.evaluate_extract] at evaluated
      obtain ⟨_, _, word, _, _, cut, rfl⟩ := Expr.cut_eq_ok.1 evaluated
      exact (IsWord.of_truncate cut).unless
  | .sext tag source, contained, outcome, evaluated => by
      rw [Expr.evaluate_sext] at evaluated
      obtain ⟨_, _, word, _, _, cut, rfl⟩ := Expr.cut_eq_ok.1 evaluated
      exact (IsWord.of_truncate cut).unless
  | .not tag source, contained, outcome, evaluated => by
      rw [Expr.evaluate_not] at evaluated
      obtain ⟨_, _, word, _, _, cut, rfl⟩ := Expr.cut_eq_ok.1 evaluated
      exact (IsWord.of_truncate cut).unless
  | .binary tag operator left right, contained, outcome, evaluated => by
      rw [Expr.evaluate_binary] at evaluated
      obtain ⟨first, _, later⟩ := except_bind_eq_ok.1 evaluated
      obtain ⟨second, _, last⟩ := except_bind_eq_ok.1 later
      obtain ⟨applied, _, ended⟩ := except_bind_eq_ok.1 last
      cases applied with
      | some result =>
          obtain ⟨word, cut, finished⟩ := except_bind_eq_ok.1 ended
          cases finished
          exact (IsWord.of_truncate cut).unless
      | none =>
          obtain ⟨text, _, raised⟩ := except_bind_eq_ok.1 ended
          cases raised
  | .select tag patches cond onTrue onFalse, contained, outcome, evaluated => by
      have parts := ((Expr.throughout_select tag patches cond onTrue onFalse).1 contained).2
      have width : tag.width = onTrue.width := contained.self.measured
      have branches : onTrue.width = onFalse.width := contained.self.aligned
      show IsWordUnless _ tag.width outcome
      rw [Expr.evaluate_select] at evaluated
      obtain ⟨guard, _, later⟩ := except_bind_eq_ok.1 evaluated
      split at later
      · rw [width]
        exact (onTrue.isWordUnless_evaluate parts.2.1 later).mono fun spills =>
          spills.of_source List.mem_cons_self
      · rw [width, branches]
        exact (onFalse.isWordUnless_evaluate parts.2.2 later).mono fun spills =>
          spills.of_source (List.mem_cons_of_mem _ List.mem_cons_self)
  | .concat tag high low, contained, outcome, evaluated => by
      have parts := ((Expr.throughout_concat tag high low).1 contained).2
      have width : tag.width = high.width + low.width := contained.self.measured
      show IsWordUnless _ tag.width outcome
      rw [Expr.evaluate_concat] at evaluated
      obtain ⟨upper, ranHigh, later⟩ := except_bind_eq_ok.1 evaluated
      obtain ⟨lower, ranLow, last⟩ := except_bind_eq_ok.1 later
      obtain ⟨word, joined, ended⟩ := except_bind_eq_ok.1 last
      cases ended
      obtain ⟨first, rfl, firstNonneg, firstBound⟩ :=
        high.isWordUnless_evaluate parts.1 ranHigh
      obtain ⟨second, rfl, secondNonneg, secondBound⟩ :=
        low.isWordUnless_evaluate parts.2 ranLow
      refine ⟨word, rfl, Word.join_nonneg joined firstNonneg secondNonneg, ?_⟩
      rcases firstBound with firstBound | spills
      · rcases secondBound with secondBound | spills
        · rw [width]
          exact .inl (Word.join_range joined firstNonneg firstBound secondNonneg secondBound
            parts.1.self.width_pos.le).2
        · exact .inr (spills.of_source (List.mem_cons_of_mem _ List.mem_cons_self))
      · exact .inr (spills.of_source List.mem_cons_self)
  | .read tag updates index, contained, outcome, evaluated => by
      have parts := ((Expr.throughout_read tag updates index).1 contained).2
      have width : tag.width = updates.array.range := contained.self.measured
      show IsWordUnless _ tag.width outcome
      obtain ⟨position, located, found⟩ := except_bind_eq_ok.1 evaluated
      rw [width]
      refine (updates.isWordUnless_lookup parts.2 contained.self.aligned
        (contained.self.known updates rfl) found).mono ?_
      rintro (⟨value, written, spills⟩ | exceeds)
      · exact spills.of_source written
      · exact (Expr.Overflows.read located exceeds).spills

/-- What is found in a history fits the range of its array, unless something spills. -/
theorem Updates.isWordUnless_lookup :
    (updates : Updates) → updates.Throughout Expr.Contained →
      updates.Matched → updates.array.KnownFit →
        {position outcome : Option Int} →
          updates.lookup assignment position = .ok outcome →
            IsWordUnless
              ((∃ value ∈ updates.values, value.Spills assignment) ∨
                updates.array.Exceeds assignment position)
              updates.array.range outcome
  | .root array, _, _, known, position, outcome, found => by
      rw [Updates.lookup_root] at found
      obtain ⟨word, at_, ended⟩ := except_bind_eq_ok.1 found
      cases ended
      exact (array.isWordUnless_valueAt known at_).mono .inr
  | .write id index value older, contained, matched, known, position, outcome, found => by
      rw [Updates.throughout_write] at contained
      rw [Updates.lookup_write] at found
      obtain ⟨written, _, later⟩ := except_bind_eq_ok.1 found
      split at later
      · have width : value.width = older.array.range := matched.1
        show IsWordUnless _ older.array.range outcome
        rw [← width]
        exact (value.isWordUnless_evaluate contained.2.1 later).mono fun spills =>
          .inl ⟨value, List.mem_cons_self, spills⟩
      · refine (older.isWordUnless_lookup contained.2.2 matched.2 known later).mono ?_
        exact Or.imp_left fun ⟨other, isOther, spills⟩ =>
          ⟨other, List.mem_cons_of_mem _ isOther, spills⟩

end

end

/-! ## Well-typed expressions -/

/-- What makes the value of a node a word, if those of its operands are. -/
structure Expr.Sized (assignment : Assignment) (node : Expr) : Prop where
  measured : node.Measured
  matched : node.Matched
  fits : ∀ updates ∈ node.updates?, updates.array.Fits assignment
  width_pos : 0 < node.width

/-- In a well-typed expression whose arrays fit, every part has operands of the right widths. -/
theorem Expr.sized_of_wellTyped
    {expression : Expr}
    {assignment : Assignment}
    (proper : expression.Throughout Expr.Proper)
    (typed : expression.WellTyped)
    (fits : expression.ArraysFit assignment) :
    expression.Throughout (Expr.Sized assignment) :=
  fun part member =>
    { measured := (proper part member).measured
      matched := (typed part member).2
      fits := fits part member
      width_pos := (typed part member).1 }

section

variable {assignment : Assignment}

theorem Expr.Sized.contained
    {node : Expr}
    (sized : node.Sized assignment) :
    node.Contained where
  measured := sized.measured
  aligned := by
    cases node with
    | zext tag source => trivial
    | _ => exact sized.matched
  width_pos := sized.width_pos
  widening := by
    rintro tag source rfl _
    exact sized.matched
  known := fun updates isHistory => (sized.fits updates isHistory).knownFit

/-- Nothing overflows in an expression whose parts are sized. -/
theorem Expr.not_spills
    {expression : Expr}
    (sized : expression.Throughout (Expr.Sized assignment)) :
    ¬ expression.Spills assignment := by
  rintro ⟨part, exposes, overflows⟩
  have ofPart := (exposes.throughout sized).self
  cases overflows with
  | @zext tag source word multi narrow evaluated large =>
      have wide : source.width ≤ tag.width := ofPart.matched
      omega
  | read evaluated exceeds => exact (ofPart.fits _ rfl).not_exceeds exceeds

/-- The value of an expression is a word of its width. -/
theorem Expr.isWord_evaluate
    (expression : Expr)
    (sized : expression.Throughout (Expr.Sized assignment))
    {outcome : Option Int}
    (evaluated : expression.evaluate assignment = .ok outcome) :
    IsWord expression.width outcome :=
  (expression.isWordUnless_evaluate (sized.mono fun _ node => node.contained)
    evaluated).isWord (Expr.not_spills sized)

/-- What is found in a history is a word of the range of its array. -/
theorem Updates.isWord_lookup
    (updates : Updates)
    (sized : updates.Throughout (Expr.Sized assignment))
    (matched : updates.Matched)
    (fits : updates.array.Fits assignment)
    {position outcome : Option Int}
    (found : updates.lookup assignment position = .ok outcome) :
    IsWord updates.array.range outcome := by
  refine (updates.isWordUnless_lookup (sized.mono fun _ node => node.contained) matched
    fits.knownFit found).isWord ?_
  rintro (⟨value, written, spills⟩ | exceeds)
  · exact Expr.not_spills (sized.of_mem_values written) spills
  · exact fits.not_exceeds exceeds

end

end Diverge

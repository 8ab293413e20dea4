import Diverge.Proofs.Expr.Reads
import Diverge.Proofs.Expr.Typing
import Diverge.Expr.Split

/-!
# The pieces of an expression are well formed

Splitting rebuilds nodes by constructors that simplify, so a piece need not look like the
expression.  It is as wide, and it depends on no array that the expression does not depend
on (`Workshop.split_wellFormed`).  There is a piece at least, and splitting ends with a list
unless an integer is needed that cannot be made.
-/

namespace Diverge

open Stateful
open Build (Ensures Makes)

section

variable {wide : Prop} {arrays : ArrayDecl → Prop} {width : Int}

/-- Some pieces, all of them regular and of a width. -/
structure Piece.HaveWidth
    (wide : Prop) (arrays : ArrayDecl → Prop) (width : Int) (pieces : List Piece) : Prop where
  nonempty : pieces ≠ []
  each : ∀ piece ∈ pieces, piece.2.HasWidth wide arrays width

theorem Piece.haveWidth_self
    {expression : Expr}
    {revision : Int}
    (regular : expression.Throughout (Expr.Regular wide arrays)) :
    Piece.HaveWidth wide arrays expression.width [(revision, expression)] where
  nonempty := List.cons_ne_nil _ _
  each := List.forall_mem_singleton.2 ⟨rfl, regular⟩

/-! ## Rebuilding -/

/-- Nodes that are rebuilt from combinations of operands. -/
theorem Piece.ensures_mapM
    {α : Type}
    {combinations : List α}
    {number : α → Int}
    {node : α → Build Expr}
    (nonempty : combinations ≠ [])
    (each : ∀ combination ∈ combinations, Makes wide arrays width (node combination)) :
    Ensures wide (Piece.HaveWidth wide arrays width)
      (combinations.mapM fun combination => do
        pure (number combination, ← node combination)) := by
  have numbered (combination : α) (member : combination ∈ combinations) :
      Ensures wide (fun piece : Piece => piece.2.HasWidth wide arrays width)
        (do pure (number combination, ← node combination)) :=
    (each combination member).bind fun _ has => Ensures.pure has
  refine fun table => (Ensures.mapM combinations numbered table).mono ?_
  rintro pieces _ _ ⟨length, haveWidth⟩
  exact ⟨fun empty => nonempty (List.length_eq_zero_iff.1 (by rw [← length, empty]; rfl)),
    haveWidth⟩

/--
Rebuilt pieces have the width of the node if the pieces of its operand have that of the operand.
-/
theorem Piece.ensures_rebuild
    {source : Int}
    {node : Expr → Build Expr}
    {pieces : List Piece}
    (operands : Piece.HaveWidth wide arrays source pieces)
    (each : ∀ operand : Expr, operand.HasWidth wide arrays source →
      Makes wide arrays width (node operand)) :
    Ensures wide (Piece.HaveWidth wide arrays width) (Piece.rebuild node pieces) :=
  Piece.ensures_mapM operands.nonempty fun piece member =>
    each piece.2 (operands.each piece member)

/-- The same for two operands. -/
theorem Piece.ensures_rebuild₂
    {left right : Int}
    {node : Expr → Expr → Build Expr}
    {firsts seconds : List Piece}
    (ofLeft : Piece.HaveWidth wide arrays left firsts)
    (ofRight : Piece.HaveWidth wide arrays right seconds)
    (each : ∀ first second : Expr, first.HasWidth wide arrays left →
      second.HasWidth wide arrays right → Makes wide arrays width (node first second)) :
    Ensures wide (Piece.HaveWidth wide arrays width)
      (Piece.rebuild₂ node firsts seconds) := by
  refine Piece.ensures_mapM ?_ ?_
  · obtain ⟨first, inFirsts⟩ := List.exists_mem_of_ne_nil firsts ofLeft.nonempty
    simp only [ne_eq, List.flatMap_eq_nil_iff, List.map_eq_nil_iff, not_forall]
    exact ⟨first, inFirsts, ofRight.nonempty⟩
  · intro pair member
    obtain ⟨first, inFirsts, second, inSeconds, rfl⟩ :
        ∃ first ∈ firsts, ∃ second ∈ seconds, (first, second) = pair := by
      simpa using member
    exact each first.2 second.2 (ofLeft.each first inFirsts) (ofRight.each second inSeconds)

theorem Piece.ensures_rebuild₃
    {cond left right : Int}
    {node : Expr → Expr → Expr → Build Expr}
    {guards firsts seconds : List Piece}
    (ofCond : Piece.HaveWidth wide arrays cond guards)
    (ofLeft : Piece.HaveWidth wide arrays left firsts)
    (ofRight : Piece.HaveWidth wide arrays right seconds)
    (each : ∀ guard first second : Expr, guard.HasWidth wide arrays cond →
      first.HasWidth wide arrays left → second.HasWidth wide arrays right →
        Makes wide arrays width (node guard first second)) :
    Ensures wide (Piece.HaveWidth wide arrays width)
      (Piece.rebuild₃ node guards firsts seconds) := by
  refine Piece.ensures_mapM ?_ ?_
  · obtain ⟨guard, inGuards⟩ := List.exists_mem_of_ne_nil guards ofCond.nonempty
    obtain ⟨first, inFirsts⟩ := List.exists_mem_of_ne_nil firsts ofLeft.nonempty
    simp only [ne_eq, List.flatMap_eq_nil_iff, List.map_eq_nil_iff, not_forall]
    exact ⟨guard, inGuards, first, inFirsts, ofRight.nonempty⟩
  · intro triple member
    obtain ⟨guard, inGuards, first, inFirsts, second, inSeconds, rfl⟩ :
        ∃ guard ∈ guards, ∃ first ∈ firsts, ∃ second ∈ seconds,
          (guard, first, second) = triple := by
      simpa using member
    exact each guard.2 first.2 second.2 (ofCond.each guard inGuards)
      (ofLeft.each first inFirsts) (ofRight.each second inSeconds)

/-- The pieces of both branches of a revision select. -/
theorem Piece.HaveWidth.append_under
    {firsts seconds : List Piece}
    (ofTrue : Piece.HaveWidth wide arrays width firsts)
    (ofFalse : Piece.HaveWidth wide arrays width seconds)
    (truePatch falsePatch : Int) :
    Piece.HaveWidth wide arrays width
      (firsts.map (Piece.under truePatch) ++ seconds.map (Piece.under falsePatch)) where
  nonempty := by simp [ofTrue.nonempty]
  each := by
    intro piece member
    rcases List.mem_append.1 member with inFirsts | inSeconds
    · obtain ⟨first, isFirst, rfl⟩ := List.mem_map.1 inFirsts
      exact ofTrue.each first isFirst
    · obtain ⟨second, isSecond, rfl⟩ := List.mem_map.1 inSeconds
      exact ofFalse.each second isSecond

/-! ## Splitting -/

/-- Splitting a regular expression gives regular pieces of its width. -/
theorem Expr.ensures_split :
    (expression : Expr) → expression.Throughout (Expr.Regular wide arrays) →
      Ensures wide (Piece.HaveWidth wide arrays expression.width) expression.split := by
  intro expression regular
  have self := regular.self
  by_cases single : expression.multi = false
  · unfold Expr.split
    rw [if_pos single]
    exact Ensures.pure (Piece.haveWidth_self regular)
  unfold Expr.split
  rw [if_neg single]
  cases expression with
  | const tag value => exact Ensures.pure (Piece.haveWidth_self regular)
  | loose tag kind value kids => exact self.measured.elim
  | notOptimized tag source =>
      have measured : tag.width = source.width := self.measured
      have ofSource := source.ensures_split (regular.kid List.mem_cons_self)
      rw [← measured] at ofSource
      exact ofSource.bind fun _ operands =>
        Piece.ensures_rebuild operands fun _ => Build.makes_notOptimized
  | not tag source =>
      have measured : tag.width = source.width := self.measured
      have ofSource := source.ensures_split (regular.kid List.mem_cons_self)
      rw [← measured] at ofSource
      exact ofSource.bind fun _ operands =>
        Piece.ensures_rebuild operands fun _ => Build.makes_not
  | extract tag offset source =>
      have nonneg : 0 ≤ offset := self.offset_nonneg offset rfl
      refine (source.ensures_split (regular.kid List.mem_cons_self)).bind fun _ operands => ?_
      exact Piece.ensures_rebuild operands fun _ has =>
        Build.makes_extract has nonneg self.width_pos self.enough
  | zext tag source =>
      refine (source.ensures_split (regular.kid List.mem_cons_self)).bind fun _ operands => ?_
      exact Piece.ensures_rebuild operands fun _ has =>
        Build.makes_zext has self.width_pos self.enough
  | sext tag source =>
      refine (source.ensures_split (regular.kid List.mem_cons_self)).bind fun _ operands => ?_
      exact Piece.ensures_rebuild operands fun _ has =>
        Build.makes_sext has self.width_pos self.enough
  | read tag updates index =>
      have measured : tag.width = updates.array.range := self.measured
      refine (index.ensures_split (regular.kid List.mem_cons_self)).bind fun _ operands => ?_
      refine Piece.ensures_rebuild operands fun _ has => ?_
      have makes := Build.makes_read has (regular.history rfl) self.aligned
        (self.reads updates rfl) (measured ▸ self.width_pos) (measured ▸ self.enough)
      rwa [← measured] at makes
  | concat tag high low =>
      obtain ⟨_, ofHigh, ofLow⟩ := (Expr.throughout_concat ..).1 regular
      have measured : tag.width = high.width + low.width := self.measured
      refine (high.ensures_split ofHigh).bind fun _ uppers => ?_
      refine (low.ensures_split ofLow).bind fun _ lowers => ?_
      refine Piece.ensures_rebuild₂ uppers lowers fun _ _ hasHigh hasLow => ?_
      have makes := Build.makes_concat hasHigh hasLow fun large =>
        self.enough (large.trans_eq measured.symm)
      rwa [← measured] at makes
  | binary tag operator left right =>
      obtain ⟨_, ofLeft, ofRight⟩ := (Expr.throughout_binary ..).1 regular
      have measured : tag.width = Build.resultWidth operator left := self.measured
      have aligned : left.width = right.width := self.aligned
      refine (left.ensures_split ofLeft).bind fun _ firsts => ?_
      refine (right.ensures_split ofRight).bind fun _ seconds => ?_
      refine Piece.ensures_rebuild₂ firsts seconds fun first second hasLeft hasRight => ?_
      rw [← aligned, ← hasLeft.width_eq] at hasRight
      have makes := Build.makes_binary operator hasLeft.regular hasRight
      have same : Build.resultWidth operator first = tag.width := by
        rw [measured, Build.resultWidth, Build.resultWidth, hasLeft.width_eq]
      rwa [same] at makes
  | select tag patches cond onTrue onFalse =>
      obtain ⟨_, ofCond, ofTrue, ofFalse⟩ := (Expr.throughout_select ..).1 regular
      have measured : tag.width = onTrue.width := self.measured
      have aligned : onTrue.width = onFalse.width := self.aligned
      have splitTrue := onTrue.ensures_split ofTrue
      have splitFalse := onFalse.ensures_split ofFalse
      rw [← measured] at splitTrue
      rw [← aligned, ← measured] at splitFalse
      cases patches with
      | some pair =>
          refine splitTrue.bind fun _ firsts => splitFalse.bind fun _ seconds => ?_
          exact Ensures.pure (firsts.append_under seconds pair.1 pair.2)
      | none =>
          refine (cond.ensures_split ofCond).bind fun _ guards => ?_
          refine splitTrue.bind fun _ firsts => splitFalse.bind fun _ seconds => ?_
          exact Piece.ensures_rebuild₃ guards firsts seconds fun _ _ _ => Build.makes_select

end

/-! ## The arrays of a piece -/

/-- A search finds nothing in one expression that it does not find in another. -/
def FindsWithin
    (search : List Expr → Except Fault (List ArrayDecl)) (part whole : Expr) : Prop :=
  ∃ inPart inWhole, search [part] = .ok inPart ∧ search [whole] = .ok inWhole ∧
    inPart ⊆ inWhole

/-- An expression that reads no other arrays than one that was built. -/
theorem findsWithin_arraysWhere
    {wide : Prop}
    {made : List Updates}
    {table : Table}
    {part whole : Expr}
    (supports : table.Supports made)
    (lineage : Updates.Lineage made)
    (registered : whole.Registered made table)
    (regular : part.Throughout (Expr.Regular wide (ArrayDecl.IsBelow whole.parts)))
    (wanted : ArrayDecl → Bool) :
    FindsWithin (arraysWhere wanted) part whole := by
  have unbroken : (ArraySearch.run wanted [part]).broken = false := by
    refine ArraySearch.unbroken_run fun node isPart => (regular node ?_).measured
    rwa [partsEach, partsEach, List.append_nil] at isPart
  obtain ⟨unbrokenWhole, found⟩ : (ArraySearch.run wanted [whole]).broken = false ∧ _ :=
    ArraySearch.mem_found_run supports lineage (List.forall_mem_singleton.2 registered)
  refine ⟨_, _, if_neg (ne_true_of_eq_false unbroken),
    if_neg (ne_true_of_eq_false unbrokenWhole), ?_⟩
  intro array member
  obtain ⟨node, isPart, updates, isRead, rfl, want⟩ :=
    ArraySearch.isRead_of_mem_found_run array member
  rw [partsEach, partsEach, List.append_nil] at isPart
  obtain ⟨other, isOther, history, reads, same⟩ := (regular node isPart).reads updates isRead
  rw [found, partsEach, partsEach, List.append_nil]
  exact ⟨other, isOther, history, reads, same, same ▸ want⟩

/-- Every part of a balanced expression is regular, with the arrays below it as those allowed. -/
theorem Expr.regular_of_balanced
    {expression : Expr}
    (measured : expression.Throughout Expr.Measured)
    (balanced : expression.Balanced)
    (offsets : expression.OffsetsNonneg) :
    expression.Throughout
      (Expr.Regular expression.IsWide (ArrayDecl.IsBelow expression.parts)) :=
  fun part member =>
    { measured := measured part member
      aligned := (balanced part member).2
      width_pos := (balanced part member).1
      enough := fun large => ⟨part, member, large⟩
      offset_nonneg := offsets part member
      reads := fun updates isRead => ⟨part, member, updates, isRead, rfl⟩ }

/--
Splitting gives pieces, all as wide as the expression and dependent on none but its arrays,
unless an integer is needed that cannot be made.
-/
theorem Workshop.split_wellFormed
    {workshop : Workshop}
    (reached : workshop.Reachable)
    {expression : Expr}
    (built : expression ∈ workshop.expressions)
    (balanced : expression.Balanced)
    (offsets : expression.OffsetsNonneg) :
    match expression.split workshop.table with
    | .ok pieces _ =>
        pieces ≠ [] ∧ ∀ piece ∈ pieces, piece.2.width = expression.width ∧
          FindsWithin symbolicArrays piece.2 expression ∧
            FindsWithin constantArrays piece.2 expression
    | .error fault _ => expression.IsWide ∧ ∃ cause, fault = .count cause := by
  have sound := reached.sound
  have registered := sound.registered expression built
  have affords := expression.ensures_split
    (Expr.regular_of_balanced registered.measured balanced offsets) workshop.table
  unfold Build.Affords at affords
  cases ran : expression.split workshop.table with
  | error fault later =>
      rw [ran] at affords
      exact ⟨affords.2, affords.1⟩
  | ok pieces later =>
      rw [ran] at affords
      refine ⟨affords.nonempty, fun piece member => ?_⟩
      obtain ⟨width, regular⟩ := affords.each piece member
      have within := findsWithin_arraysWhere sound.supports reached.lineage registered regular
      exact ⟨width, within ArrayDecl.isSymbolic, within ArrayDecl.isConstant⟩

namespace CutTable

def input : ArrayDecl := ⟨0, "a", 4, none, 32, 8⟩

/-- An array with a value that is not a byte. -/
def table : ArrayDecl := ⟨1, "t", 2, some [300, 7], 32, 8⟩

def zero : Expr := .const ⟨2, 32, false⟩ 0

def one : Expr := .const ⟨3, 32, false⟩ 1

def byte : Expr := .read ⟨4, 8, false⟩ (.root input) zero

def bit : Expr := .extract ⟨5, 1, false⟩ 0 byte

def place : Expr := .select ⟨6, 32, true⟩ (some (1, 2)) bit zero one

def entry : Expr := .read ⟨7, 8, true⟩ (.root table) place

def sum : Expr := .binary ⟨8, 8, true⟩ .add entry byte

/-- The sum, extended to four bits. -/
def nibble : Expr := .zext ⟨9, 4, true⟩ sum

/-- A word of `2 ^ 70` bits. -/
def extension : Expr := .sext ⟨10, 1180591620717411303424, true⟩ place

def arrays : Workshop :=
  (Workshop.declare {} "a" 4 none 32 8).declare "t" 2 (some [300, 7]) 32 8

def workshop : Workshop :=
  [.constant 0 32, .constant 1 32, .read (.root input) zero false, .extract byte 0 1 false,
    .patchSelect bit zero one (some 1) (some 2), .read (.root table) place false,
    .binary .add entry byte false, .zext sum 4 true,
    .sext place 1180591620717411303424 false].foldl Workshop.construct arrays

theorem expressions_eq :
    workshop.expressions = [extension, nibble, sum, entry, place, bit, byte, one, zero] :=
  rfl

theorem reachable : workshop.Reachable := by
  have declared : arrays.Reachable :=
    (Relation.ReflTransGen.single (.declare "a" 4 none 32 8)).tail
      (.declare "t" 2 (some [300, 7]) 32 8)
  refine Workshop.Reachable.foldl_construct declared ?_
  refine ⟨?_, ?_, ?_, ?_, ?_, ?_, ?_, ?_, ?_, ?_, ?_, ?_, ?_, ?_, ?_, ?_, ?_, ?_, trivial⟩
  all_goals simp [Construction.operands, Construction.history?]
  -- what is left is where each operand stands among the expressions
  all_goals repeat constructor

end CutTable

open CutTable in
/-- The sum of an entry that is cut and a byte, in four bits, has pieces of four bits. -/
theorem split_wellFormed_nibble :
    ∃ pieces later, nibble.split workshop.table = .ok pieces later ∧ pieces ≠ [] ∧
      ∀ piece ∈ pieces, piece.2.width = 4 ∧
        FindsWithin symbolicArrays piece.2 nibble ∧
          FindsWithin constantArrays piece.2 nibble := by
  have built : nibble ∈ workshop.expressions := by simp [expressions_eq]
  have balanced : nibble.Balanced := by
    simp [nibble, sum, entry, place, bit, byte, one, zero, Expr.Balanced, Expr.Aligned,
      Updates.Matched, Expr.width, Expr.tag]
  have offsets : nibble.OffsetsNonneg := by
    simp [nibble, sum, entry, place, bit, byte, one, zero, Expr.OffsetsNonneg, Expr.offset?]
  have ran : nibble.split workshop.table = .ok _ _ := rfl
  have wellFormed := Workshop.split_wellFormed reachable built balanced offsets
  rw [ran] at wellFormed
  exact ⟨_, _, ran, wellFormed⟩

open CutTable in
/-- The pieces of a very wide sign extension of constants cannot be made. -/
theorem split_sext_fails :
    workshop.Reachable ∧ extension ∈ workshop.expressions ∧ extension.Balanced ∧
      extension.OffsetsNonneg ∧
        ∃ later, extension.split workshop.table = .error (.count .tooWide) later := by
  refine ⟨reachable, by simp [expressions_eq], ?_, ?_, _, rfl⟩
  · simp [extension, place, bit, byte, one, zero, Expr.Balanced, Expr.Aligned,
      Updates.Matched, Expr.width, Expr.tag]
  · simp [extension, place, bit, byte, one, zero, Expr.OffsetsNonneg, Expr.offset?]

end Diverge

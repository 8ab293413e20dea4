import Diverge.Proofs.Expr.Refinement

/-!
# Expressions of a width

A node is *regular* if its widths are positive and match, its extractions start at a bit
and its array is one of some given ones.  Nothing is asked of the values that arrays hold,
and a zero extension may be narrower than its operand.

On regular operands of fitting widths a constructor makes a regular expression of the width
of its node, whatever it simplifies to: an operand, an operand of an operand, a value that
was written, a constant or the node.  It reads no array that its operands do not read.  It
fails only if an integer is needed that cannot be made.
-/

namespace Diverge

open Stateful

/-! ## Building something good -/

namespace Build

variable {α β : Type} {wide : Prop}

/-- Building gives something `good` from every table, or something was too large for it. -/
def Ensures (wide : Prop) (good : α → Prop) (action : Build α) : Prop :=
  ∀ table, Affords wide action table fun result _ => good result

theorem Ensures.pure
    {good : α → Prop}
    {value : α}
    (isGood : good value) :
    Ensures wide good (pure value : Build α) :=
  fun _ => Affords.pure isGood

/-- The rule of sequence for what is built on every table. -/
theorem Ensures.bind
    {good : α → Prop}
    {better : β → Prop}
    {action : Build α}
    {next : α → Build β}
    (ensures : Ensures wide good action)
    (goOn : ∀ value, good value → Ensures wide better (next value)) :
    Ensures wide better (action >>= next) :=
  fun table => Affords.bind ((ensures table).mono fun value later _ isGood =>
    goOn value isGood later)

theorem Ensures.ofExcept
    {good : α → Prop}
    {outcome : Except Fault α}
    (affords : Diverge.Affords wide outcome good) :
    Ensures wide good (ofExcept outcome : Build α) :=
  fun _ => Affords.ofExcept affords

/-- A list of things is built one by one. -/
theorem Ensures.mapM
    {good : β → Prop}
    {action : α → Build β}
    (elements : List α)
    (each : ∀ element ∈ elements, Ensures wide good (action element)) :
    Ensures wide
      (fun results => results.length = elements.length ∧ ∀ result ∈ results, good result)
      (elements.mapM action) := by
  induction elements with
  | nil =>
      rw [List.mapM_nil]
      exact Ensures.pure ⟨rfl, by simp⟩
  | cons first rest inductionHypothesis =>
      rw [List.mapM_cons]
      obtain ⟨ofFirst, ofRest⟩ := List.forall_mem_cons.1 each
      refine ofFirst.bind fun result isGood => (inductionHypothesis ofRest).bind ?_
      rintro results ⟨length, areGood⟩
      exact Ensures.pure ⟨congrArg (· + 1) length, List.forall_mem_cons.2 ⟨isGood, areGood⟩⟩

end Build

/-! ## Regular expressions -/

/-- The widths of a node match, and it reads one of some arrays, if any. -/
structure Expr.Regular (wide : Prop) (arrays : ArrayDecl → Prop) (node : Expr) : Prop where
  measured : node.Measured
  aligned : node.Aligned
  width_pos : 0 < node.width
  enough : Word.widest < node.width → wide
  offset_nonneg : ∀ offset ∈ node.offset?, 0 ≤ offset := by
    rintro _ ⟨⟩
  reads : ∀ updates ∈ node.updates?, arrays updates.array := by
    rintro _ ⟨⟩

/-- An expression of a width that is regular throughout. -/
structure Expr.HasWidth
    (wide : Prop) (arrays : ArrayDecl → Prop) (width : Int) (expression : Expr) : Prop where
  width_eq : expression.width = width
  regular : expression.Throughout (Expr.Regular wide arrays)

section

variable {wide : Prop} {arrays : ArrayDecl → Prop} {width : Int}

/-- Being regular depends on the width of a node, not on its identity. -/
theorem Expr.Regular.retag
    {node : Expr}
    (regular : node.Regular wide arrays)
    {tag : Tag}
    (same : tag.width = node.width) :
    (node.retag tag).Regular wide arrays where
  measured := by
    have measured := regular.measured
    cases node <;> simp_all [Expr.retag, Expr.Measured, Expr.width, Expr.tag]
  aligned := by
    have aligned := regular.aligned
    cases node <;> exact aligned
  width_pos := by
    rw [Expr.width_retag, same]
    exact regular.width_pos
  enough := by
    rw [Expr.width_retag, same]
    exact regular.enough
  offset_nonneg := by
    have offset := regular.offset_nonneg
    cases node <;> exact offset
  reads := by
    have reads := regular.reads
    cases node <;> exact reads

theorem Expr.HasWidth.retag
    {node : Expr}
    (has : node.HasWidth wide arrays width)
    {tag : Tag}
    (same : tag.width = width) :
    (node.retag tag).HasWidth wide arrays width where
  width_eq := (Expr.width_retag tag node).trans same
  regular := by
    have self := has.regular.self.retag (same.trans has.width_eq.symm)
    refine Expr.throughout_of_kids self.measured self ?_ ?_
    · intro kid member
      exact has.regular.kid (by cases node <;> exact member)
    · intro updates member
      exact has.regular.history (by cases node <;> exact member)

namespace Build

/-- Building gives a regular expression of a width. -/
def Makes (wide : Prop) (arrays : ArrayDecl → Prop) (width : Int) : Build Expr → Prop :=
  Ensures wide (Expr.HasWidth wide arrays width)

/-- A regular node on regular operands, left as it stands. -/
theorem makes_node
    (node : Expr)
    (self : node.Regular wide arrays)
    (kids : ∀ kid ∈ node.kids, kid.Throughout (Expr.Regular wide arrays))
    (history : ∀ updates ∈ node.updates?, updates.Throughout (Expr.Regular wide arrays))
    {shape : Shape}
    {multi : Bool} :
    Makes wide arrays node.width
      (do return node.retag (← Build.tag shape node.width multi)) := by
  have has : node.HasWidth wide arrays node.width :=
    ⟨rfl, Expr.throughout_of_kids self.measured self kids history⟩
  refine fun table => Affords.of_returns ⟨?_, ?_⟩
  · exact (succeeds_tag shape node.width multi table).bind fun _ _ _ => Succeeds.pure _ _
  · intro result later ran
    obtain ⟨tag, middle, tagged, rest⟩ := bind_eq_ok.1 ran
    obtain ⟨rfl, rfl⟩ := pure_eq_ok.1 rest
    exact has.retag (tag_spec tagged).2.1

/-! ## The constructors -/

/-- A constant has the width that it was cut to. -/
theorem makes_constant
    (positive : 0 < width)
    (enough : Word.widest < width → wide)
    (value : Int) :
    Makes wide arrays width (constant value width) := by
  refine Ensures.bind (Ensures.ofExcept (Word.affords_truncate positive.le enough value).self)
    fun word cut => ?_
  exact makes_node (.const ⟨0, width, false⟩ word)
    { measured := Word.truncate_range cut
      aligned := trivial
      width_pos := positive
      enough := enough
      offset_nonneg := nofun
      reads := nofun }
    (by simp [Expr.kids]) (by simp [Expr.updates?])

variable {source high low left right cond onTrue onFalse : Expr}

theorem makes_notOptimized
    (has : source.HasWidth wide arrays width) :
    Makes wide arrays width (notOptimized source) := by
  obtain ⟨rfl, regular⟩ := has
  exact makes_node (.notOptimized ⟨0, source.width, false⟩ source)
    { measured := rfl
      aligned := trivial
      width_pos := regular.self.width_pos
      enough := regular.self.enough
      offset_nonneg := nofun
      reads := nofun }
    (List.forall_mem_singleton.2 regular) (by simp [Expr.updates?])

theorem makes_not
    (has : source.HasWidth wide arrays width) :
    Makes wide arrays width (Build.not source) := by
  obtain ⟨rfl, regular⟩ := has
  have node : Makes wide arrays source.width (notNode source false) :=
    makes_node (.not ⟨0, source.width, false⟩ source)
      { measured := rfl
        aligned := trivial
        width_pos := regular.self.width_pos
        enough := regular.self.enough
        offset_nonneg := nofun
        reads := nofun }
      (List.forall_mem_singleton.2 regular) (by simp [Expr.updates?])
  unfold Build.not
  rw [if_neg Bool.false_ne_true]
  split
  · rename_i constant
    obtain ⟨tag, vector, rfl, rfl⟩ :=
      Expr.eq_const_of_constant? regular.self.measured constant
    exact makes_constant regular.self.width_pos regular.self.enough _
  · rename_i isNot
    cases source with
    | not tag inner =>
        have width : tag.width = inner.width := regular.self.measured
        exact Ensures.pure ⟨width.symm, regular.kid List.mem_cons_self⟩
    | loose tag kind value kids => exact regular.self.measured.elim
    | _ => simp [Expr.kind?] at isNot
  · exact node

/-- A select is as wide as its branches. -/
theorem makes_select
    {guard : Int}
    (hasCond : cond.HasWidth wide arrays guard)
    (hasTrue : onTrue.HasWidth wide arrays width)
    (hasFalse : onFalse.HasWidth wide arrays width) :
    Makes wide arrays width (select cond onTrue onFalse) := by
  unfold select
  rw [if_neg Bool.false_ne_true]
  split
  · refine Ensures.pure ?_
    split
    · exact hasTrue
    · exact hasFalse
  split
  · exact Ensures.pure hasTrue
  · obtain ⟨rfl, regular⟩ := hasTrue
    refine makes_node (.select ⟨0, onTrue.width, false⟩ none cond onTrue onFalse)
      { measured := rfl
        aligned := hasFalse.width_eq.symm
        width_pos := regular.self.width_pos
        enough := regular.self.enough
        offset_nonneg := nofun
        reads := nofun }
      ?_ (by simp [Expr.updates?])
    simp [Expr.kids, hasCond.regular, regular, hasFalse.regular]

/-- A concatenation is as wide as its parts together. -/
theorem makes_concat
    {upper lower : Int}
    (hasHigh : high.HasWidth wide arrays upper)
    (hasLow : low.HasWidth wide arrays lower)
    (enough : Word.widest < upper + lower → wide) :
    Makes wide arrays (upper + lower) (concat high low) := by
  obtain ⟨rfl, regularHigh⟩ := hasHigh
  obtain ⟨rfl, regularLow⟩ := hasLow
  have highPos := regularHigh.self.width_pos
  have lowPos := regularLow.self.width_pos
  have positive : 0 < high.width + low.width := by omega
  unfold concat
  split
  · rename_i constHigh constLow
    obtain ⟨tag, first, rfl, rfl⟩ :=
      Expr.eq_const_of_constant? regularHigh.self.measured constHigh
    obtain ⟨other, second, rfl, rfl⟩ :=
      Expr.eq_const_of_constant? regularLow.self.measured constLow
    refine Ensures.bind (Ensures.ofExcept
      (Word.affords_join lowPos.le highPos enough first second)) fun joined _ => ?_
    exact makes_constant positive enough joined
  · refine makes_node (.concat ⟨0, high.width + low.width, false⟩ high low)
      { measured := rfl
        aligned := trivial
        width_pos := positive
        enough := enough
        offset_nonneg := nofun
        reads := nofun }
      ?_ (by simp [Expr.updates?])
    simp [Expr.kids, regularHigh, regularLow]

/-- An extraction has the width that was asked for. -/
theorem makes_extract
    {whole offset : Int}
    (has : source.HasWidth wide arrays whole)
    (nonneg : 0 ≤ offset)
    (positive : 0 < width)
    (enough : Word.widest < width → wide) :
    Makes wide arrays width (extract source offset width) := by
  unfold extract
  rw [if_neg Bool.false_ne_true]
  split
  · rename_i isWhole
    exact Ensures.pure ⟨isWhole.2.symm, has.regular⟩
  split
  · rename_i constant
    obtain ⟨tag, vector, rfl, rfl⟩ :=
      Expr.eq_const_of_constant? has.regular.self.measured constant
    have shifted : Word.shiftRight? (some (vector.toNat : Int)) (some offset) = .ok _ :=
      Word.shiftRight_eq nonneg
    rw [shifted]
    exact makes_constant positive enough _
  · exact makes_node (.extract ⟨0, width, false⟩ offset source)
      { measured := trivial
        aligned := trivial
        width_pos := positive
        enough := enough
        offset_nonneg := by
          rintro _ ⟨⟩
          exact nonneg
        reads := nofun }
      (List.forall_mem_singleton.2 has.regular) (by simp [Expr.updates?])

/-- So has a zero extension, also to a smaller width. -/
theorem makes_zext
    {narrow : Int}
    (has : source.HasWidth wide arrays narrow)
    (positive : 0 < width)
    (enough : Word.widest < width → wide) :
    Makes wide arrays width (zext source width) := by
  unfold zext
  rw [if_neg Bool.false_ne_true]
  split
  · rename_i same
    exact Ensures.pure ⟨same.symm, has.regular⟩
  split
  · exact makes_extract has le_rfl positive enough
  split
  · rename_i constant
    obtain ⟨tag, vector, rfl, rfl⟩ :=
      Expr.eq_const_of_constant? has.regular.self.measured constant
    rw [Word.truncate?_some]
    exact makes_constant positive enough _
  · exact makes_node (.zext ⟨0, width, false⟩ source)
      { measured := trivial
        aligned := trivial
        width_pos := positive
        enough := enough
        offset_nonneg := nofun
        reads := nofun }
      (List.forall_mem_singleton.2 has.regular) (by simp [Expr.updates?])

/-- So has a sign extension. -/
theorem makes_sext
    {narrow : Int}
    (has : source.HasWidth wide arrays narrow)
    (positive : 0 < width)
    (enough : Word.widest < width → wide) :
    Makes wide arrays width (sext source width) := by
  unfold sext
  rw [if_neg Bool.false_ne_true]
  split
  · rename_i same
    exact Ensures.pure ⟨same.symm, has.regular⟩
  split
  · exact makes_extract has le_rfl positive enough
  split
  · rename_i constant
    obtain ⟨tag, vector, rfl, rfl⟩ :=
      Expr.eq_const_of_constant? has.regular.self.measured constant
    have signed := Word.affords_signed has.regular.self.width_pos has.regular.self.enough vector
    exact Ensures.bind (Ensures.ofExcept signed) fun extended _ =>
      makes_constant positive enough extended
  · exact makes_node (.sext ⟨0, width, false⟩ source)
      { measured := trivial
        aligned := trivial
        width_pos := positive
        enough := enough
        offset_nonneg := nofun
        reads := nofun }
      (List.forall_mem_singleton.2 has.regular) (by simp [Expr.updates?])

theorem resultWidth_pos
    {operator : BinaryOp}
    (positive : 0 < left.width) :
    0 < resultWidth operator left := by
  unfold resultWidth
  split
  · exact one_pos
  · exact positive

theorem enough_resultWidth
    {operator : BinaryOp}
    (enough : Word.widest < left.width → wide)
    (large : Word.widest < resultWidth operator left) :
    wide := by
  unfold resultWidth at large
  split at large
  · exact absurd large (by decide)
  · exact enough large

/-- A binary node, or the operand that a conjunction or disjunction comes down to. -/
theorem makes_binaryOpen
    (operator : BinaryOp)
    (regularLeft : left.Throughout (Expr.Regular wide arrays))
    (hasRight : right.HasWidth wide arrays left.width) :
    Makes wide arrays (resultWidth operator left) (binaryOpen operator left right) := by
  have node : Makes wide arrays (resultWidth operator left)
      (binaryNode operator left right false) := by
    refine makes_node (.binary ⟨0, resultWidth operator left, false⟩ operator left right)
      { measured := rfl
        aligned := hasRight.width_eq.symm
        width_pos := resultWidth_pos regularLeft.self.width_pos
        enough := enough_resultWidth regularLeft.self.enough
        offset_nonneg := nofun
        reads := nofun }
      ?_ (by simp [Expr.updates?])
    simp [Expr.kids, regularLeft, hasRight.regular]
  unfold binaryOpen
  split
  · rename_i both
    have width : resultWidth operator left = left.width :=
      BinaryOp.IsLogical.resultWidth both.1 left
    split
    · rename_i simplified
      rw [width]
      rcases simplifyLogic_mem simplified with rfl | rfl
      · exact Ensures.pure ⟨rfl, regularLeft⟩
      · exact Ensures.pure hasRight
    · exact node
  · exact node

/-- A comparison is one bit wide, any other operator as wide as its operands. -/
theorem makes_binary
    (operator : BinaryOp)
    (regularLeft : left.Throughout (Expr.Regular wide arrays))
    (hasRight : right.HasWidth wide arrays left.width) :
    Makes wide arrays (resultWidth operator left) (binary operator left right) := by
  unfold binary
  rw [if_neg Bool.false_ne_true]
  split
  · rename_i constLeft constRight
    obtain ⟨tag, first, rfl, rfl⟩ :=
      Expr.eq_const_of_constant? regularLeft.self.measured constLeft
    obtain ⟨other, second, rfl, rfl⟩ :=
      Expr.eq_const_of_constant? hasRight.regular.self.measured constRight
    have widths : other.width = tag.width := hasRight.width_eq
    have same : (second.setWidth tag.width.toNat).toNat = second.toNat :=
      BitVec.toNat_setWidth_of_le (Int.toNat_le_toNat widths.le)
    have positive : 0 < tag.width := regularLeft.self.width_pos
    have applies := operator.affords_apply positive regularLeft.self.enough first
      (second.setWidth tag.width.toNat)
    rw [same] at applies
    refine Ensures.bind (Ensures.ofExcept applies) fun applied _ => ?_
    cases applied with
    | none => exact makes_binaryOpen operator regularLeft hasRight
    | some result =>
        exact makes_constant (resultWidth_pos regularLeft.self.width_pos)
          (enough_resultWidth regularLeft.self.enough) result
  · exact makes_binaryOpen operator regularLeft hasRight

/-! ### Reads -/

/-- What a known index finds is a value that was written, or of the range of the array. -/
def Locates (updates : Updates) : Known → Prop
  | .written value => value ∈ updates.values
  | .stored _ width => width = updates.array.range
  | .unknown => True

/-- What a known index finds was written in the history or is stored in its array. -/
theorem known_locates
    (position : Nat) :
    (updates : Updates) →
      ∃ found, known (some (position : Int)) updates = .ok found ∧ Locates updates found
  | .root array => by
      rcases known_root array position with unknown | ⟨value, stored, _⟩
      · exact ⟨.unknown, unknown, trivial⟩
      · exact ⟨.stored value array.range, stored, rfl⟩
  | .write id index value older => by
      unfold known
      cases constant : index.constant? with
      | none => exact ⟨.unknown, rfl, trivial⟩
      | some written =>
          by_cases here : written = some (position : Int)
          · exact ⟨.written value, if_pos here, List.mem_cons_self⟩
          · obtain ⟨found, isFound, locates⟩ := known_locates position older
            refine ⟨found, (if_neg here).trans isFound, ?_⟩
            cases found with
            | written other => exact List.mem_cons_of_mem _ locates
            | stored other width => exact locates
            | unknown => trivial

/-- A read is as wide as the range of its array, also if it gives what was written. -/
theorem makes_read
    {updates : Updates}
    {index : Int}
    (has : source.HasWidth wide arrays index)
    (history : updates.Throughout (Expr.Regular wide arrays))
    (matched : updates.Matched)
    (isAllowed : arrays updates.array)
    (positive : 0 < updates.array.range)
    (enough : Word.widest < updates.array.range → wide) :
    Makes wide arrays updates.array.range (read updates source) := by
  have node : Makes wide arrays updates.array.range (readNode updates source false) := by
    refine makes_node (.read ⟨0, updates.array.range, false⟩ updates source)
      { measured := rfl
        aligned := matched
        width_pos := positive
        enough := enough
        offset_nonneg := nofun
        reads := ?_ }
      (List.forall_mem_singleton.2 has.regular) ?_
    · rintro _ ⟨⟩
      exact isAllowed
    · rintro _ ⟨⟩
      exact history
  unfold read
  split
  · rename_i constant _
    obtain ⟨tag, vector, rfl, rfl⟩ :=
      Expr.eq_const_of_constant? has.regular.self.measured constant
    obtain ⟨found, isFound, locates⟩ := known_locates vector.toNat updates
    rw [isFound]
    cases found with
    | written value =>
        exact Ensures.pure ⟨matched.width_of_mem_values locates, history.of_mem_values locates⟩
    | stored value width =>
        cases locates
        exact makes_constant positive enough value
    | unknown => exact node
  · exact node

end Build

end

end Diverge

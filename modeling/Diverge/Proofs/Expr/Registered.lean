import Diverge.Proofs.Expr.Growth
import Diverge.Proofs.Expr.Nodes
import Diverge.Proofs.Words

/-!
# Registered expressions

An expression is *registered* when all its nodes are proper and stand in the
table under their identities, and all its histories are among those that were
made.  The main results are that identities of registered expressions tell them
apart (`Expr.Registered.eq_of_id_eq`), and that every constructor makes a
registered expression of registered operands.
-/

namespace Diverge

open Stateful

/-- The key of a node; a node put together by hand has none. -/
def Expr.key? : Expr → Option Key
  | .const tag value =>
      some { shape := .const value, width := tag.width, multi := tag.multi }
  | .notOptimized tag source =>
      some { shape := .notOptimized source.id, width := tag.width, multi := tag.multi }
  | .read tag updates index =>
      some {
        shape := .read updates.array.id updates.newest? index.id
        width := tag.width, multi := tag.multi }
  | .select tag patches cond onTrue onFalse =>
      some {
        shape := .select patches cond.id onTrue.id onFalse.id
        width := tag.width, multi := tag.multi }
  | .concat tag high low =>
      some { shape := .concat high.id low.id, width := tag.width, multi := tag.multi }
  | .extract tag offset source =>
      some {
        shape := .extract (some offset) source.id
        width := tag.width, multi := tag.multi }
  | .zext tag source =>
      some { shape := .zext source.id, width := tag.width, multi := tag.multi }
  | .sext tag source =>
      some { shape := .sext source.id, width := tag.width, multi := tag.multi }
  | .not tag source =>
      some { shape := .not source.id, width := tag.width, multi := tag.multi }
  | .binary tag operator left right =>
      some {
        shape := .binary operator left.id right.id
        width := tag.width, multi := tag.multi }
  | .loose .. => none

/-- A proper node that stands in the table, with a history that was made. -/
structure Expr.Known
    (histories : List Updates) (table : Table) (node : Expr) : Prop where
  proper : node.Proper
  interned : node.key?.bind table.find? = some node.id
  history : ∀ updates ∈ node.updates?, updates ∈ histories := by
    simp [Expr.updates?]

/-- All nodes of an expression are known. -/
def Expr.Registered
    (histories : List Updates) (table : Table) (expression : Expr) : Prop :=
  expression.Throughout (Expr.Known histories table)

/--
The table is sound, histories are told apart by their array and their newest
write, and all that was written is registered.
-/
structure Table.Supports (table : Table) (histories : List Updates) : Prop where
  sound : table.Sound
  coherent : ∀ first ∈ histories, ∀ second ∈ histories,
    first.same second = true → first = second
  array_lt : ∀ updates ∈ histories, updates.array.id < table.next
  newest_lt : ∀ updates ∈ histories, ∀ id ∈ updates.newest?, id < table.next
  written : ∀ updates ∈ histories, updates.Throughout (Expr.Known histories table)

section

variable {histories : List Updates} {table later : Table}

theorem Expr.Known.mono
    {node : Expr}
    {more : List Updates}
    (known : node.Known histories table)
    (grows : table.Grows later)
    (included : ∀ updates ∈ histories, updates ∈ more) :
    node.Known more later where
  proper := known.proper
  interned := by
    obtain ⟨key, isKey, found⟩ := Option.bind_eq_some_iff.1 known.interned
    exact Option.bind_eq_some_iff.2 ⟨key, isKey, grows.keeps found⟩
  history := fun updates member => included updates (known.history updates member)

/-- A node that is no constant, reads nothing and does not choose between revisions. -/
theorem Expr.Known.of_plain
    {node : Expr}
    (measured : node.Measured)
    (inherits : ∀ kid ∈ node.kids, kid.multi = true → node.multi = true)
    (interned : node.key?.bind table.find? = some node.id)
    (patches : node.patches? = none)
    (constant : node.isConstant = false)
    (updates : node.updates? = none) :
    node.Known histories table where
  proper :=
    { measured, inherits
      revised := by simp [patches]
      plain := by simp [constant] }
  interned := interned
  history := by simp [updates]

/-- A table that grows still knows every part of an expression. -/
theorem Expr.Registered.grow
    {expression : Expr}
    (registered : expression.Registered histories table)
    (grows : table.Grows later) :
    expression.Registered histories later :=
  Throughout.mono registered fun _ known => known.mono grows fun _ member => member

/-- The same when histories are added. -/
theorem Expr.Registered.extend
    {expression : Expr}
    {more : List Updates}
    (registered : expression.Registered histories table)
    (grows : table.Grows later)
    (included : ∀ updates ∈ histories, updates ∈ more) :
    expression.Registered more later :=
  Throughout.mono registered fun _ known => known.mono grows included

theorem Expr.Registered.proper
    {expression : Expr}
    (registered : expression.Registered histories table) :
    expression.Throughout Expr.Proper :=
  Throughout.mono registered fun _ known => known.proper

/-- A table that grows still knows what was written in the histories. -/
theorem Table.Supports.grow
    (supports : table.Supports histories)
    (grows : table.Grows later) :
    later.Supports histories where
  sound := grows.sound supports.sound
  coherent := supports.coherent
  array_lt := fun updates member =>
    Nat.lt_of_lt_of_le (supports.array_lt updates member) grows.next_le
  newest_lt := fun updates member id newest =>
    Nat.lt_of_lt_of_le (supports.newest_lt updates member id newest) grows.next_le
  written := fun updates member =>
    (supports.written updates member).mono fun _ known =>
      known.mono grows fun _ inside => inside

/-! ## Identities -/

/-- Two known nodes with one identity have one key. -/
theorem Expr.Known.key?_eq
    {first second : Expr}
    (sound : table.Sound)
    (knownFirst : first.Known histories table)
    (knownSecond : second.Known histories table)
    (same : first.id = second.id) :
    first.key? = second.key? := by
  obtain ⟨keyFirst, isFirst, foundFirst⟩ :=
    Option.bind_eq_some_iff.1 knownFirst.interned
  obtain ⟨keySecond, isSecond, foundSecond⟩ :=
    Option.bind_eq_some_iff.1 knownSecond.interned
  rw [← same] at foundSecond
  rw [isFirst, isSecond, sound.injective foundFirst foundSecond]

/-- Two known nodes with one identity carry one tag. -/
theorem Expr.Known.tag_eq
    {first second : Expr}
    (sound : table.Sound)
    (knownFirst : first.Known histories table)
    (knownSecond : second.Known histories table)
    (same : first.id = second.id) :
    first.tag = second.tag := by
  have carried (node : Expr) (key : Key) (isKey : node.key? = some key) :
      node.tag = ⟨node.id, key.width, key.multi⟩ := by
    cases node <;> cases isKey <;> rfl
  obtain ⟨key, isKey, _⟩ := Option.bind_eq_some_iff.1 knownFirst.interned
  have isOther := isKey
  rw [knownFirst.key?_eq sound knownSecond same] at isOther
  rw [carried first key isKey, carried second key isOther, same]

/-- Registered expressions with one identity are equal. -/
theorem Expr.Registered.eq_of_id_eq
    (supports : table.Supports histories) :
    (first : Expr) → {second : Expr} →
      first.Registered histories table → second.Registered histories table →
        first.id = second.id → first = second
  | .const tag value, second, registered, other, same => by
      have keys := registered.self.key?_eq supports.sound other.self same
      have tags := registered.self.tag_eq supports.sound other.self same
      cases second <;> simp [Expr.key?] at keys
      simp only [Expr.tag] at tags
      rw [keys.1, tags]
  | .notOptimized tag source, second, registered, other, same => by
      have keys := registered.self.key?_eq supports.sound other.self same
      have tags := registered.self.tag_eq supports.sound other.self same
      cases second <;> simp [Expr.key?] at keys
      simp only [Expr.tag] at tags
      simp only [Expr.Registered, Expr.throughout_notOptimized] at registered other
      rw [tags,
        Expr.Registered.eq_of_id_eq supports source registered.2 other.2 keys.1]
  | .read tag updates index, second, registered, other, same => by
      have keys := registered.self.key?_eq supports.sound other.self same
      have tags := registered.self.tag_eq supports.sound other.self same
      have made := registered.self.history
      have madeOther := other.self.history
      cases second <;> simp [Expr.key?] at keys
      simp only [Expr.tag] at tags
      simp only [Expr.updates?, Option.mem_def, Option.some.injEq,
        forall_eq'] at made madeOther
      simp only [Expr.Registered, Expr.throughout_read] at registered other
      have histories := supports.coherent _ made _ madeOther (by
        simp [Updates.same, keys.1.1, keys.1.2.1])
      rw [tags, histories,
        Expr.Registered.eq_of_id_eq supports index registered.2.1 other.2.1 keys.1.2.2]
  | .select tag patches cond onTrue onFalse, second, registered, other, same => by
      have keys := registered.self.key?_eq supports.sound other.self same
      have tags := registered.self.tag_eq supports.sound other.self same
      cases second <;> simp [Expr.key?] at keys
      simp only [Expr.tag] at tags
      simp only [Expr.Registered, Expr.throughout_select] at registered other
      rw [tags, keys.1.1,
        Expr.Registered.eq_of_id_eq supports cond registered.2.1 other.2.1 keys.1.2.1,
        Expr.Registered.eq_of_id_eq supports onTrue registered.2.2.1 other.2.2.1
          keys.1.2.2.1,
        Expr.Registered.eq_of_id_eq supports onFalse registered.2.2.2 other.2.2.2
          keys.1.2.2.2]
  | .concat tag high low, second, registered, other, same => by
      have keys := registered.self.key?_eq supports.sound other.self same
      have tags := registered.self.tag_eq supports.sound other.self same
      cases second <;> simp [Expr.key?] at keys
      simp only [Expr.tag] at tags
      simp only [Expr.Registered, Expr.throughout_concat] at registered other
      rw [tags,
        Expr.Registered.eq_of_id_eq supports high registered.2.1 other.2.1 keys.1.1,
        Expr.Registered.eq_of_id_eq supports low registered.2.2 other.2.2 keys.1.2]
  | .extract tag offset source, second, registered, other, same => by
      have keys := registered.self.key?_eq supports.sound other.self same
      have tags := registered.self.tag_eq supports.sound other.self same
      cases second <;> simp [Expr.key?] at keys
      simp only [Expr.tag] at tags
      simp only [Expr.Registered, Expr.throughout_extract] at registered other
      rw [tags, keys.1.1,
        Expr.Registered.eq_of_id_eq supports source registered.2 other.2 keys.1.2]
  | .zext tag source, second, registered, other, same => by
      have keys := registered.self.key?_eq supports.sound other.self same
      have tags := registered.self.tag_eq supports.sound other.self same
      cases second <;> simp [Expr.key?] at keys
      simp only [Expr.tag] at tags
      simp only [Expr.Registered, Expr.throughout_zext] at registered other
      rw [tags,
        Expr.Registered.eq_of_id_eq supports source registered.2 other.2 keys.1]
  | .sext tag source, second, registered, other, same => by
      have keys := registered.self.key?_eq supports.sound other.self same
      have tags := registered.self.tag_eq supports.sound other.self same
      cases second <;> simp [Expr.key?] at keys
      simp only [Expr.tag] at tags
      simp only [Expr.Registered, Expr.throughout_sext] at registered other
      rw [tags,
        Expr.Registered.eq_of_id_eq supports source registered.2 other.2 keys.1]
  | .not tag source, second, registered, other, same => by
      have keys := registered.self.key?_eq supports.sound other.self same
      have tags := registered.self.tag_eq supports.sound other.self same
      cases second <;> simp [Expr.key?] at keys
      simp only [Expr.tag] at tags
      simp only [Expr.Registered, Expr.throughout_not] at registered other
      rw [tags,
        Expr.Registered.eq_of_id_eq supports source registered.2 other.2 keys.1]
  | .binary tag operator left right, second, registered, other, same => by
      have keys := registered.self.key?_eq supports.sound other.self same
      have tags := registered.self.tag_eq supports.sound other.self same
      cases second <;> simp [Expr.key?] at keys
      simp only [Expr.tag] at tags
      simp only [Expr.Registered, Expr.throughout_binary] at registered other
      rw [tags, keys.1.1,
        Expr.Registered.eq_of_id_eq supports left registered.2.1 other.2.1 keys.1.2.1,
        Expr.Registered.eq_of_id_eq supports right registered.2.2 other.2.2 keys.1.2.2]
  | .loose .., _, registered, _, _ => registered.self.proper.measured.elim

/-- Two registered expressions are the same node only if they are equal. -/
theorem Expr.Registered.eq_of_same
    (supports : table.Supports histories)
    {first second : Expr}
    (registered : first.Registered histories table)
    (other : second.Registered histories table)
    (same : first.same second = true) :
    first = second :=
  Expr.Registered.eq_of_id_eq supports first registered other (by
    simpa [Expr.same] using same)

end

/-! ## Nodes of registered operands -/

namespace Build

variable {histories : List Updates} {table later : Table} {result : Expr}

theorem registered_constNode
    {word width : Int}
    (ran : constNode word width table = .ok result later)
    (widthNonneg : 0 ≤ width)
    (nonneg : 0 ≤ word)
    (bound : word < 2 ^ width.toNat) :
    result.Registered histories later := by
  obtain ⟨tag, rfl, found, rfl, multi⟩ := constNode_spec ran
  rw [Expr.Registered, Expr.throughout_const]
  refine {
    proper := { measured := ⟨widthNonneg, nonneg, bound⟩, inherits := ?_, plain := ?_ }
    interned := ?_ }
  · simp [Expr.kids]
  · exact fun _ => multi
  · simpa [Expr.key?, Expr.id, Expr.tag, multi] using found

/-- A constant is cut to its width before it is registered. -/
theorem registered_constant
    {value width : Int}
    (ran : constant value width table = .ok result later) :
    result.Registered histories later := by
  obtain ⟨word, middle, lifted, rest⟩ := bind_eq_ok.1 ran
  obtain ⟨cut, rfl⟩ := ofExcept_eq_ok.1 lifted
  obtain ⟨widthNonneg, nonneg, bound⟩ := Word.truncate_range cut
  exact registered_constNode rest widthNonneg nonneg bound

theorem registered_notOptimized
    {source : Expr}
    {multi : Bool}
    (ran : notOptimized source multi table = .ok result later)
    (operand : source.Registered histories table) :
    result.Registered histories later := by
  have grows := (stable_notOptimized source multi).grows_of_ok ran
  obtain ⟨tag, rfl, found, width, marked⟩ := notOptimized_spec ran
  rw [Expr.Registered, Expr.throughout_notOptimized]
  refine ⟨.of_plain width ?_ ?_ rfl rfl rfl, operand.grow grows⟩
  · simp +contextual [Expr.kids, Expr.multi, Expr.tag, marked]
  · simpa [Expr.key?, Expr.id, Expr.tag, width, marked] using found

/-- A read is registered if its index is and its history was made. -/
theorem registered_readNode
    {updates : Updates}
    {index : Expr}
    {multi : Bool}
    (ran : readNode updates index multi table = .ok result later)
    (supports : table.Supports histories)
    (made : updates ∈ histories)
    (operand : index.Registered histories table) :
    result.Registered histories later := by
  have grows := (stable_readNode updates index multi).grows_of_ok ran
  obtain ⟨tag, rfl, found, width, marked⟩ := readNode_spec ran
  rw [Expr.Registered, Expr.throughout_read]
  refine ⟨{
      proper := { measured := width, inherits := ?_ }
      interned := ?_, history := ?_ }, operand.grow grows,
    (supports.grow grows).written updates made⟩
  · simp +contextual [Expr.kids, Expr.multi, Expr.tag, marked]
  · simpa [Expr.key?, Expr.id, Expr.tag, width, marked] using found
  · simpa [Expr.updates?] using made

/-- A select between revisions is marked, so it is proper. -/
theorem registered_selectNode
    {patches : Option (Int × Int)}
    {cond onTrue onFalse : Expr}
    {multi : Bool}
    (ran : selectNode patches cond onTrue onFalse multi table = .ok result later)
    (revised : patches.isSome = true → multi = true)
    (guard : cond.Registered histories table)
    (first : onTrue.Registered histories table)
    (second : onFalse.Registered histories table) :
    result.Registered histories later := by
  have grows :=
    (stable_selectNode patches cond onTrue onFalse multi).grows_of_ok ran
  obtain ⟨tag, rfl, found, width, marked⟩ := selectNode_spec ran
  rw [Expr.Registered, Expr.throughout_select]
  refine ⟨{
      proper := { measured := width, inherits := ?_, revised := ?_ }
      interned := ?_ }, guard.grow grows, first.grow grows,
    second.grow grows⟩
  · simp +contextual [Expr.kids, Expr.multi, Expr.tag, marked]
  · intro isRevised
    simp [Expr.multi, Expr.tag, marked, revised isRevised]
  · simpa [Expr.key?, Expr.id, Expr.tag, width, marked] using found

theorem registered_concatNode
    {high low : Expr}
    {multi : Bool}
    (ran : concatNode high low multi table = .ok result later)
    (upper : high.Registered histories table)
    (lower : low.Registered histories table) :
    result.Registered histories later := by
  have grows := (stable_concatNode high low multi).grows_of_ok ran
  obtain ⟨tag, rfl, found, width, marked⟩ := concatNode_spec ran
  rw [Expr.Registered, Expr.throughout_concat]
  refine ⟨.of_plain width ?_ ?_ rfl rfl rfl, upper.grow grows, lower.grow grows⟩
  · simp +contextual [Expr.kids, Expr.multi, Expr.tag, marked]
  · simpa [Expr.key?, Expr.id, Expr.tag, width, marked] using found

theorem registered_extractNode
    {source : Expr}
    {offset width : Int}
    {multi : Bool}
    (ran : extractNode source offset width multi table = .ok result later)
    (operand : source.Registered histories table) :
    result.Registered histories later := by
  have grows := (stable_extractNode source offset width multi).grows_of_ok ran
  obtain ⟨tag, rfl, found, sized, marked⟩ := extractNode_spec ran
  rw [Expr.Registered, Expr.throughout_extract]
  refine ⟨.of_plain trivial ?_ ?_ rfl rfl rfl, operand.grow grows⟩
  · simp +contextual [Expr.kids, Expr.multi, Expr.tag, marked]
  · simpa [Expr.key?, Expr.id, Expr.tag, sized, marked] using found

theorem registered_zextNode
    {source : Expr}
    {width : Int}
    {multi : Bool}
    (ran : zextNode source width multi table = .ok result later)
    (operand : source.Registered histories table) :
    result.Registered histories later := by
  have grows := (stable_zextNode source width multi).grows_of_ok ran
  obtain ⟨tag, rfl, found, sized, marked⟩ := zextNode_spec ran
  rw [Expr.Registered, Expr.throughout_zext]
  refine ⟨.of_plain trivial ?_ ?_ rfl rfl rfl, operand.grow grows⟩
  · simp +contextual [Expr.kids, Expr.multi, Expr.tag, marked]
  · simpa [Expr.key?, Expr.id, Expr.tag, sized, marked] using found

theorem registered_sextNode
    {source : Expr}
    {width : Int}
    {multi : Bool}
    (ran : sextNode source width multi table = .ok result later)
    (operand : source.Registered histories table) :
    result.Registered histories later := by
  have grows := (stable_sextNode source width multi).grows_of_ok ran
  obtain ⟨tag, rfl, found, sized, marked⟩ := sextNode_spec ran
  rw [Expr.Registered, Expr.throughout_sext]
  refine ⟨.of_plain trivial ?_ ?_ rfl rfl rfl, operand.grow grows⟩
  · simp +contextual [Expr.kids, Expr.multi, Expr.tag, marked]
  · simpa [Expr.key?, Expr.id, Expr.tag, sized, marked] using found

theorem registered_notNode
    {source : Expr}
    {multi : Bool}
    (ran : notNode source multi table = .ok result later)
    (operand : source.Registered histories table) :
    result.Registered histories later := by
  have grows := (stable_notNode source multi).grows_of_ok ran
  obtain ⟨tag, rfl, found, width, marked⟩ := notNode_spec ran
  rw [Expr.Registered, Expr.throughout_not]
  refine ⟨.of_plain width ?_ ?_ rfl rfl rfl, operand.grow grows⟩
  · simp +contextual [Expr.kids, Expr.multi, Expr.tag, marked]
  · simpa [Expr.key?, Expr.id, Expr.tag, width, marked] using found

/-- A binary node on registered operands is registered, whatever their widths. -/
theorem registered_binaryNode
    {operator : BinaryOp}
    {left right : Expr}
    {multi : Bool}
    (ran : binaryNode operator left right multi table = .ok result later)
    (first : left.Registered histories table)
    (second : right.Registered histories table) :
    result.Registered histories later := by
  have grows := (stable_binaryNode operator left right multi).grows_of_ok ran
  obtain ⟨tag, rfl, found, width, marked⟩ := binaryNode_spec ran
  rw [Expr.Registered, Expr.throughout_binary]
  refine ⟨.of_plain width ?_ ?_ rfl rfl rfl, first.grow grows, second.grow grows⟩
  · simp +contextual [Expr.kids, Expr.multi, Expr.tag, marked]
  · simpa [Expr.key?, Expr.id, Expr.tag, width, marked] using found

end Build

end Diverge

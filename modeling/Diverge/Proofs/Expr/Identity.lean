import Mathlib.Data.List.Forall2
import Mathlib.Data.Option.Basic
import Diverge.Proofs.Expr.Workshop

/-!
# Identity is structure

Two expressions are *alike* when they agree in all that can be seen of them without
looking at identities: kind, width, value, offset, mark, revisions, history and, one by
one, their operands.  In a workshop the table gives one identity to what is alike and
different identities to what is not, and what was given once is never taken back
(`Workshop.same_iff_alike`).  The table knows operands only by their identities; that
these stand for whole trees is the invariant that all constructors keep.

The table may forget what is not needed any more.  Of expressions that are still at hand
all this holds nevertheless, since it never forgets what they are made of.
-/

namespace Diverge

open Stateful

/-! ## Likeness -/

/-- Nodes that agree in all but their identities and operands. -/
structure Expr.Resembles (first second : Expr) : Prop where
  kind : first.kind? = second.kind?
  width : first.width = second.width
  value : first.value? = second.value?
  offset : first.offset? = second.offset?
  multi : first.multi = second.multi
  patches : first.patches? = second.patches?
  /-- The same array, and the same newest write. -/
  updates : Option.Rel (fun left right => left.same right = true)
    first.updates? second.updates?

/-- Expressions that differ in nothing but identities. -/
inductive Expr.Alike : Expr → Expr → Prop where
  | intro
      {first second : Expr}
      (resembles : first.Resembles second)
      (kids : List.Forall₂ Alike first.kids second.kids) :
      Alike first second

mutual

/-- What an expression has whenever its operands have it, all expressions have. -/
theorem Expr.induction_kids
    {property : Expr → Prop}
    (step : ∀ expression : Expr,
      (∀ kid ∈ expression.kids, property kid) → property expression) :
    (expression : Expr) → property expression
  | .const _ _ => step _ (List.forall_mem_nil _)
  | .notOptimized _ source | .read _ _ source | .extract _ _ source
  | .zext _ source | .sext _ source | .not _ source =>
      step _ (List.forall_mem_singleton.2 (Expr.induction_kids step source))
  | .select _ _ cond onTrue onFalse =>
      step _ (List.forall_mem_cons.2 ⟨Expr.induction_kids step cond,
        List.forall_mem_cons.2 ⟨Expr.induction_kids step onTrue,
          List.forall_mem_singleton.2 (Expr.induction_kids step onFalse)⟩⟩)
  | .concat _ left right | .binary _ _ left right =>
      step _ (List.forall_mem_cons.2 ⟨Expr.induction_kids step left,
        List.forall_mem_singleton.2 (Expr.induction_kids step right)⟩)
  | .loose _ _ _ kids => step _ (forall_of_induction_kids step kids)

theorem forall_of_induction_kids
    {property : Expr → Prop}
    (step : ∀ expression : Expr,
      (∀ kid ∈ expression.kids, property kid) → property expression) :
    (expressions : List Expr) → ∀ expression ∈ expressions, property expression
  | [] => List.forall_mem_nil _
  | first :: rest =>
      List.forall_mem_cons.2
        ⟨Expr.induction_kids step first, forall_of_induction_kids step rest⟩

end

theorem Expr.Resembles.refl
    (node : Expr) :
    node.Resembles node := by
  refine ⟨rfl, rfl, rfl, rfl, rfl, rfl, ?_⟩
  cases node.updates? with
  | none => exact .none
  | some updates => exact .some (by simp [Updates.same])

/-- Every expression is built like itself. -/
theorem Expr.Alike.refl
    (expression : Expr) :
    expression.Alike expression := by
  induction expression using Expr.induction_kids with
  | step expression kids =>
      exact .intro (Expr.Resembles.refl expression) (List.forall₂_same.2 kids)

/-! ## Identities of what is alike -/

/-- What is seen of a node, its operands standing by their identities, is its key. -/
theorem Expr.Resembles.key?_eq
    {first second : Expr}
    (resembles : first.Resembles second)
    (kids : first.kids.map Expr.id = second.kids.map Expr.id)
    (measured : first.Measured)
    (measuredToo : second.Measured) :
    first.key? = second.key? := by
  obtain ⟨kind, width, value, offset, multi, patches, updates⟩ := resembles
  cases first <;> cases second <;>
    simp_all [Expr.key?, Expr.kind?, Expr.kids, Expr.width, Expr.multi, Expr.tag,
      Expr.value?, Expr.offset?, Expr.patches?, Expr.updates?, Expr.Measured,
      Updates.same]

/-- If operands that are built alike are the same, then their identities are the same one by one. -/
theorem Expr.map_id_eq_of_alike
    {firsts seconds : List Expr}
    (alike : List.Forall₂ Expr.Alike firsts seconds)
    (each : ∀ first ∈ firsts, ∀ second ∈ seconds,
      first.Alike second → first.id = second.id) :
    firsts.map Expr.id = seconds.map Expr.id := by
  induction alike with
  | nil => rfl
  | cons alikeHere _ inductionHypothesis =>
      rw [List.map_cons, List.map_cons,
        each _ List.mem_cons_self _ List.mem_cons_self alikeHere,
        inductionHypothesis fun first isFirst second isSecond =>
          each first (List.mem_cons_of_mem _ isFirst) second (List.mem_cons_of_mem _ isSecond)]

section

variable {histories : List Updates} {table : Table}

/-- Registered expressions that are alike have one identity. -/
theorem Expr.Alike.id_eq
    {first second : Expr}
    (alike : first.Alike second)
    (registered : first.Registered histories table)
    (registeredToo : second.Registered histories table) :
    first.id = second.id := by
  induction first using Expr.induction_kids generalizing second with
  | step first inductionHypothesis =>
      obtain ⟨resembles, kids⟩ := alike
      have identities := Expr.map_id_eq_of_alike kids
        fun kid isKid other isOther alike =>
          inductionHypothesis kid isKid alike (registered.kid isKid)
            (registeredToo.kid isOther)
      have keys := resembles.key?_eq identities registered.self.proper.measured
        registeredToo.self.proper.measured
      have known := registered.self.interned
      rw [keys, registeredToo.self.interned] at known
      exact (Option.some.inj known).symm

/-- Of registered expressions, those that are alike are one node, and no others are. -/
theorem Expr.Registered.same_iff
    (supports : table.Supports histories)
    {first second : Expr}
    (registered : first.Registered histories table)
    (registeredToo : second.Registered histories table) :
    first.same second = true ↔ first.Alike second := by
  constructor
  · intro same
    rw [Expr.Registered.eq_of_same supports registered registeredToo same]
    exact Expr.Alike.refl second
  · intro alike
    exact beq_iff_eq.2 (alike.id_eq registered registeredToo)

end

/-! ## Tables that forget -/

namespace Workshop

/-- A part of an expression or of a history at hand. -/
def Holds (workshop : Workshop) (part : Expr) : Prop :=
  (∃ expression ∈ workshop.expressions, part ∈ expression.parts) ∨
    ∃ updates ∈ workshop.histories, part ∈ updates.parts

/--
Some of what was at hand is let go, and the table forgets some nodes, of which none is a
part of what is kept.
-/
structure Forgets (before after : Workshop) : Prop where
  next_eq : after.table.next = before.table.next
  known : ∀ key id, after.table.find? key = some id → before.table.find? key = some id
  histories : ∀ updates ∈ after.histories, updates ∈ before.histories
  expressions : ∀ expression ∈ after.expressions, expression ∈ before.expressions
  interned : ∀ part, after.Holds part →
    part.key?.bind after.table.find? = part.key?.bind before.table.find?
  updates : ∀ part, after.Holds part → ∀ updates ∈ part.updates?, updates ∈ after.histories

/-- One step, or some of what was at hand is let go. -/
inductive Turn (workshop : Workshop) : Workshop → Prop where
  | step {later : Workshop} (step : workshop.Step later) : Turn workshop later
  | forget {later : Workshop} (forgets : workshop.Forgets later) : Turn workshop later

/-- A table may forget nodes: what it still knows stays sound. -/
theorem Forgets.sound
    {before after : Workshop}
    (forgets : before.Forgets after)
    (sound : before.Sound) :
    after.Sound := by
  have supports := sound.supports
  have known (part : Expr) (held : after.Holds part)
      (knownBefore : part.Known before.histories before.table) :
      part.Known after.histories after.table :=
    ⟨knownBefore.proper, (forgets.interned part held).trans knownBefore.interned,
      forgets.updates part held⟩
  refine ⟨⟨⟨?_, ?_⟩, ?_, ?_, ?_, ?_⟩, ?_⟩
  · intro key id found
    rw [forgets.next_eq]
    exact supports.sound.bounded (forgets.known key id found)
  · intro first second id foundFirst foundSecond
    exact supports.sound.injective (forgets.known first id foundFirst)
      (forgets.known second id foundSecond)
  · intro first isFirst second isSecond
    exact supports.coherent first (forgets.histories first isFirst)
      second (forgets.histories second isSecond)
  · intro updates member
    rw [forgets.next_eq]
    exact supports.array_lt updates (forgets.histories updates member)
  · intro updates member
    rw [forgets.next_eq]
    exact supports.newest_lt updates (forgets.histories updates member)
  · intro updates member part inside
    exact known part (.inr ⟨updates, member, inside⟩)
      (supports.written updates (forgets.histories updates member) part inside)
  · intro expression member part inside
    exact known part (.inl ⟨expression, member, inside⟩)
      (sound.registered expression (forgets.expressions expression member) part inside)

/-- Constructions and forgetting in any order keep a workshop sound. -/
theorem sound_of_turns
    {workshop : Workshop}
    (turns : Relation.ReflTransGen Turn {} workshop) :
    workshop.Sound := by
  induction turns with
  | refl => exact sound_empty
  | tail _ turn inductionHypothesis =>
      cases turn with
      | step step => exact step.sound inductionHypothesis
      | forget forgets => exact forgets.sound inductionHypothesis

/-! ## What calls leave -/

/-- What is at hand stays at hand. -/
theorem Step.expressions_subset
    {before after : Workshop}
    (step : before.Step after) :
    before.expressions ⊆ after.expressions := by
  cases step with
  | declare name size contents domain range => exact fun _ member => member
  | write history indexAtHand valueAtHand => exact fun _ member => member
  | @construct call operandsAtHand history =>
      unfold Workshop.construct Workshop.build
      cases call.run before.table with
      | error fault table => exact fun _ member => member
      | ok result table => exact fun _ member => List.mem_cons_of_mem _ member

/-- The same over a whole run, in which the table only grows. -/
theorem extends_of_steps
    {before after : Workshop}
    (steps : Relation.ReflTransGen Step before after) :
    before.Extends after ∧ before.expressions ⊆ after.expressions := by
  induction steps with
  | refl => exact ⟨⟨Table.Grows.refl _, fun _ member => member⟩, fun _ member => member⟩
  | tail _ step inductionHypothesis =>
      obtain ⟨⟨grows, included⟩, kept⟩ := inductionHypothesis
      exact ⟨⟨grows.trans step.extends.grows,
        fun updates member => step.extends.included updates (included updates member)⟩,
        fun _ member => step.expressions_subset (kept member)⟩

/--
Whatever was called and let go before, two expressions at hand are one node if and only
if they are alike.  Later calls leave them at hand as they are, each known under its
identity, and a call that finds its node finds the same node ever after.
-/
theorem same_iff_alike
    {workshop : Workshop}
    (turns : Relation.ReflTransGen Turn {} workshop) :
    (∀ first ∈ workshop.expressions, ∀ second ∈ workshop.expressions,
      (first.same second = true ↔ first.Alike second)) ∧
    ∀ later, Relation.ReflTransGen Step workshop later →
      (∀ expression ∈ workshop.expressions,
        expression ∈ later.expressions ∧
          expression.key?.bind later.table.find? = some expression.id) ∧
      ∀ (call : Construction) (result : Expr),
        call.run workshop.table = .ok result workshop.table →
          call.run later.table = .ok result later.table := by
  have sound := sound_of_turns turns
  constructor
  · intro first isFirst second isSecond
    exact Expr.Registered.same_iff sound.supports (sound.registered first isFirst)
      (sound.registered second isSecond)
  · intro later steps
    obtain ⟨extends_, kept⟩ := extends_of_steps steps
    refine ⟨fun expression member => ⟨kept member, ?_⟩, ?_⟩
    · exact ((sound.registered expression member).grow extends_.grows).self.interned
    · intro call result ran
      exact call.stable.settles ran later.table extends_.grows

end Workshop

namespace RebuiltConstant

def one : Expr := .const ⟨0, 8, false⟩ 1

def two : Expr := .const ⟨1, 8, false⟩ 2

def three : Expr := .const ⟨2, 8, false⟩ 3

/-- Three is the sum of one and two. -/
def first : Workshop :=
  [.constant 1 8, .constant 2 8, .binary .add one two false].foldl Workshop.construct {}

def keyOf (value : Int) : Key := { shape := .const value, width := 8, multi := false }

/-- Two is let go and forgotten. -/
def second : Workshop where
  table := Table.insert { Table.empty.insert (keyOf 1) with next := 2 } (keyOf 3)
  expressions := [three, one]

/-- Two is built again as another node, and three as the node it was. -/
def third : Workshop :=
  (second.construct (.constant 2 8)).construct (.constant 3 8)

def twoAgain : Expr := .const ⟨3, 8, false⟩ 2

theorem expressions_first : first.expressions = [three, two, one] := rfl

theorem expressions_third : third.expressions = [three, twoAgain, three, one] := rfl

theorem forgets : first.Forgets second := by
  have held (part : Expr) (holds : second.Holds part) : part = three ∨ part = one := by
    simpa [Workshop.Holds, second, three, one, Expr.parts] using holds
  have sameKeys (part : Expr) (holds : second.Holds part) :
      part.key?.bind second.table.find? = part.key?.bind first.table.find? := by
    rcases held part holds with rfl | rfl <;> rfl
  refine ⟨rfl, ?_, (fun _ member => nomatch member), ?_, sameKeys, ?_⟩
  · intro key id found
    by_cases isThree : keyOf 3 = key
    · subst isThree
      exact found
    · rw [show second.table.find? key = _ from Table.find?_insert_of_ne _ isThree] at found
      by_cases isOne : keyOf 1 = key
      · subst isOne
        exact found
      · change (Table.empty.insert (keyOf 1)).find? key = some id at found
        rw [Table.find?_insert_of_ne _ isOne, Table.find?_empty] at found
        cases found
  · simp [second, expressions_first]
  · intro part holds
    rcases held part holds with rfl | rfl <;> simp [three, one, Expr.updates?]

theorem turns : Relation.ReflTransGen Workshop.Turn {} third := by
  have built : first.Reachable := by
    refine Workshop.Reachable.foldl_construct Relation.ReflTransGen.refl ?_
    refine ⟨?_, ?_, ?_, ?_, ?_, ?_, trivial⟩
    all_goals simp [Construction.operands, Construction.history?]
    exact ⟨.tail _ (.head _), .head _⟩
  refine ((built.lift id fun _ _ => .step).tail (.forget forgets)).trans ?_
  refine .tail (.single (.step (.construct ?_ ?_))) (.step (.construct ?_ ?_))
  all_goals simp [Construction.operands, Construction.history?]

end RebuiltConstant

open RebuiltConstant in
/-- Three is one node however it is built; two was forgotten and is another node. -/
theorem same_iff_alike_rebuilt :
    third.expressions = [three, twoAgain, three, one] ∧
      two.Alike twoAgain ∧ two.same twoAgain = false ∧
        ∀ first ∈ third.expressions, ∀ second ∈ third.expressions,
          (first.same second = true ↔ first.Alike second) :=
  ⟨expressions_third, .intro ⟨rfl, rfl, rfl, rfl, rfl, rfl, .none⟩ .nil, rfl,
    (Workshop.same_iff_alike turns).1⟩

end Diverge

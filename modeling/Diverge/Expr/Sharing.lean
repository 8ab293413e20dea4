import Std.Data.HashMap
import Diverge.Expr.Evaluate
import Diverge.Expr.Parts

/-!
# Evaluating shared expressions

The parts of an expression are shared: what is reached along many paths is one node, known by its
identity.  `Expr.evaluateShared` keeps the values of the nodes it has met, so it takes as many
steps as there are nodes, where `Expr.evaluate` takes as many as there are paths.

An expression is *coherent* when equal identities among its parts mean equal parts.  On coherent
expressions the two give the same, which is `Expr.evaluateShared_eq`.
-/

namespace Diverge

/-- The values of nodes, by their identities. -/
abbrev Recollection := Std.HashMap Nat (Option Int)

/-- Computations that keep the values of nodes. -/
abbrev Remembering := StateT Recollection (Except Fault)

/-- Compute the value of a node, unless it is known. -/
def Remembering.remember (id : Nat) (compute : Remembering (Option Int)) :
    Remembering (Option Int) := fun known =>
  match known[id]? with
  | some value => .ok (value, known)
  | none => do
      let (value, later) ← compute known
      pure (value, later.insert id value)

/-- The value of an expression under an assignment, every node being evaluated once. -/
def Expr.evaluateShared (assignment : Assignment) (expression : Expr) :
    Except Fault (Option Int) := do
  let (value, _) ← expression.evaluateBy Remembering.remember assignment ∅
  pure value

/-- Equal identities among the parts of an expression mean equal parts. -/
def Expr.Coherent (expression : Expr) : Prop :=
  ∀ first ∈ expression.parts, ∀ second ∈ expression.parts, first.id = second.id → first = second

namespace Remembering

/-- What is known agrees with the values of the given nodes. -/
def Sound (assignment : Assignment) (nodes : List Expr) (known : Recollection) : Prop :=
  ∀ id value, known[id]? = some value →
    ∀ node ∈ nodes, node.id = id → node.evaluate assignment = .ok value

/-- Started from what agrees with some nodes, a computation gives a result, and agrees again. -/
def Gives {α : Type} (assignment : Assignment) (nodes : List Expr) (action : Remembering α)
    (result : Except Fault α) : Prop :=
  ∀ known, Sound assignment nodes known →
    match action known with
    | .ok (value, later) => result = .ok value ∧ Sound assignment nodes later
    | .error fault => result = .error fault

variable {assignment : Assignment} {nodes : List Expr}

theorem gives_pure {α : Type} (value : α) :
    Gives assignment nodes (pure value) (.ok value) :=
  fun _ sound => ⟨rfl, sound⟩

theorem gives_throw {α : Type} (fault : Fault) :
    Gives assignment nodes (throw fault : Remembering α) (.error fault) :=
  fun _ _ => rfl

theorem gives_ofExcept {α : Type} (result : Except Fault α) :
    Gives assignment nodes (ofExcept result : Remembering α) result := by
  cases result with
  | ok value => exact gives_pure value
  | error fault => exact gives_throw fault

theorem gives_bind {α β : Type} {action : Remembering α} {result : Except Fault α}
    {next : α → Remembering β} {later : α → Except Fault β}
    (first : Gives assignment nodes action result)
    (second : ∀ value, Gives assignment nodes (next value) (later value)) :
    Gives assignment nodes (action >>= next) (result >>= later) := by
  intro known sound
  have start := first known sound
  show match (StateT.bind action next known : Except Fault (β × Recollection)) with
    | .ok (value, after) => (result >>= later) = .ok value ∧ Sound assignment nodes after
    | .error fault => (result >>= later) = .error fault
  unfold StateT.bind
  cases ran : action known with
  | error fault =>
      rw [ran] at start
      simp only at start
      subst start
      rfl
  | ok outcome =>
      obtain ⟨value, after⟩ := outcome
      rw [ran] at start
      simp only at start
      obtain ⟨rfl, sound⟩ := start
      exact second value after sound

theorem gives_remember {node : Expr} {compute : Remembering (Option Int)} (inside : node ∈ nodes)
    (coherent : ∀ other ∈ nodes, other.id = node.id → other = node)
    (computed : Gives assignment nodes compute (node.evaluate assignment)) :
    Gives assignment nodes (remember node.id compute) (node.evaluate assignment) := by
  intro known sound
  have start := computed known sound
  unfold remember
  cases present : known[node.id]? with
  | some value => exact ⟨sound _ _ present node inside rfl, sound⟩
  | none =>
      cases ran : compute known with
      | error fault =>
          rw [ran] at start
          exact start
      | ok outcome =>
          obtain ⟨value, after⟩ := outcome
          rw [ran] at start
          simp only at start
          refine ⟨start.1, ?_⟩
          intro id kept found other member same
          rw [Std.HashMap.getElem?_insert] at found
          split at found
          · rename_i equal
            obtain rfl := Option.some.inj found
            have sameId : other.id = node.id := by
              rw [same]
              exact (beq_iff_eq.1 equal).symm
            rw [coherent other member sameId]
            exact start.1
          · exact start.2 id kept found other member same

/-- Computations give results, one by one. -/
def GivesEach (assignment : Assignment) (nodes : List Expr) :
    List (Remembering (Option Int)) → List (Except Fault (Option Int)) → Prop
  | [], [] => True
  | action :: actions, result :: results =>
      Gives assignment nodes action result ∧ GivesEach assignment nodes actions results
  | _, _ => False

theorem gives_mapM : {actions : List (Remembering (Option Int))} →
    {results : List (Except Fault (Option Int))} →
    GivesEach assignment nodes actions results →
    Gives assignment nodes (actions.mapM fun action => action)
      (results.mapM fun result => result)
  | [], [], _ => gives_pure []
  | _ :: _, _ :: _, each => by
      simp only [List.mapM_cons]
      exact gives_bind each.1 fun value =>
        gives_bind (gives_mapM each.2) fun values => gives_pure (value :: values)

theorem length_eq_of_givesEach : {actions : List (Remembering (Option Int))} →
    {results : List (Except Fault (Option Int))} →
    GivesEach assignment nodes actions results → actions.length = results.length
  | [], [], _ => rfl
  | _ :: _, _ :: _, each => congrArg (· + 1) (length_eq_of_givesEach each.2)

theorem gives_evaluateLoose (node : Expr) {actions : List (Remembering (Option Int))}
    {results : List (Except Fault (Option Int))}
    (each : GivesEach assignment nodes actions results) :
    Gives assignment nodes (evaluateLoose node actions) (evaluateLoose node results) := by
  unfold evaluateLoose
  split
  · match actions, results, each with
    | [_, _, _], [_, _, _], each =>
        refine gives_bind each.1 fun guard => ?_
        split
        · exact each.2.1
        · exact each.2.2.1
    | [], [], _ => exact gives_throw _
    | [_], [_], _ => exact gives_throw _
    | [_, _], [_, _], _ => exact gives_throw _
    | _ :: _ :: _ :: _ :: _, _ :: _ :: _ :: _ :: _, each =>
        have same := length_eq_of_givesEach each
        simp only [same]
        exact gives_throw _
  · exact gives_bind (gives_mapM each) fun values => by
      simpa using gives_ofExcept (looseValue node values)

mutual

/-- Keeping the values of coherent nodes does not change the value of an expression. -/
theorem gives_evaluateBy
    (coherent : ∀ first ∈ nodes, ∀ second ∈ nodes, first.id = second.id → first = second) :
    (expression : Expr) → (∀ node ∈ expression.parts, node ∈ nodes) →
      Gives assignment nodes (expression.evaluateBy remember assignment)
        (expression.evaluate assignment)
  | .const tag value, _ => gives_pure (some value)
  | .notOptimized tag source, inside => by
      have self := inside _ (Expr.self_mem_parts _)
      refine gives_remember self (fun other member => coherent other member _ self) ?_
      exact gives_evaluateBy coherent source fun node member =>
        inside node (List.mem_cons_of_mem _ member)
  | .zext tag source, inside => by
      have self := inside _ (Expr.self_mem_parts _)
      refine gives_remember self (fun other member => coherent other member _ self) ?_
      exact gives_evaluateBy coherent source fun node member =>
        inside node (List.mem_cons_of_mem _ member)
  | .read tag updates index, inside => by
      have self := inside _ (Expr.self_mem_parts _)
      refine gives_remember self (fun other member => coherent other member _ self) ?_
      refine gives_bind (gives_evaluateBy coherent index fun node member => ?_) fun position =>
        gives_lookupBy coherent position updates fun node member => ?_
      · exact inside node (List.mem_cons_of_mem _ (List.mem_append_left _ member))
      · exact inside node (List.mem_cons_of_mem _ (List.mem_append_right _ member))
  | .select tag patches cond onTrue onFalse, inside => by
      have self := inside _ (Expr.self_mem_parts _)
      refine gives_remember self (fun other member => coherent other member _ self) ?_
      refine gives_bind (gives_evaluateBy coherent cond fun node member => ?_) fun guard => ?_
      · exact inside node (List.mem_cons_of_mem _ (List.mem_append_left _ member))
      · split
        · exact gives_evaluateBy coherent onTrue fun node member =>
            inside node (List.mem_cons_of_mem _
              (List.mem_append_right _ (List.mem_append_left _ member)))
        · exact gives_evaluateBy coherent onFalse fun node member =>
            inside node (List.mem_cons_of_mem _
              (List.mem_append_right _ (List.mem_append_right _ member)))
  | .concat tag high low, inside => by
      have self := inside _ (Expr.self_mem_parts _)
      refine gives_remember self (fun other member => coherent other member _ self) ?_
      rw [Expr.evaluate_concat]
      refine gives_bind (gives_evaluateBy coherent high fun node member => ?_) fun upper =>
        gives_bind (gives_evaluateBy coherent low fun node member => ?_) fun lower =>
          gives_bind (gives_ofExcept _) fun word => gives_pure (some word)
      · exact inside node (List.mem_cons_of_mem _ (List.mem_append_left _ member))
      · exact inside node (List.mem_cons_of_mem _ (List.mem_append_right _ member))
  | .extract tag offset source, inside => by
      have self := inside _ (Expr.self_mem_parts _)
      refine gives_remember self (fun other member => coherent other member _ self) ?_
      rw [Expr.evaluate_extract]
      exact gives_bind (gives_evaluateBy coherent source fun node member =>
          inside node (List.mem_cons_of_mem _ member)) fun value =>
        gives_bind (gives_ofExcept _) fun shifted =>
          gives_bind (gives_ofExcept _) fun word => gives_pure (some word)
  | .sext tag source, inside => by
      have self := inside _ (Expr.self_mem_parts _)
      refine gives_remember self (fun other member => coherent other member _ self) ?_
      rw [Expr.evaluate_sext]
      exact gives_bind (gives_evaluateBy coherent source fun node member =>
          inside node (List.mem_cons_of_mem _ member)) fun value =>
        gives_bind (gives_ofExcept _) fun extended =>
          gives_bind (gives_ofExcept _) fun word => gives_pure (some word)
  | .not tag source, inside => by
      have self := inside _ (Expr.self_mem_parts _)
      refine gives_remember self (fun other member => coherent other member _ self) ?_
      rw [Expr.evaluate_not]
      exact gives_bind (gives_evaluateBy coherent source fun node member =>
          inside node (List.mem_cons_of_mem _ member)) fun value =>
        gives_bind (gives_ofExcept _) fun complement =>
          gives_bind (gives_ofExcept _) fun word => gives_pure (some word)
  | .binary tag operator left right, inside => by
      have self := inside _ (Expr.self_mem_parts _)
      refine gives_remember self (fun other member => coherent other member _ self) ?_
      rw [Expr.evaluate_binary]
      refine gives_bind (gives_evaluateBy coherent left fun node member => ?_) fun first =>
        gives_bind (gives_evaluateBy coherent right fun node member => ?_) fun second =>
          gives_bind (gives_ofExcept _) fun outcome => ?_
      · exact inside node (List.mem_cons_of_mem _ (List.mem_append_left _ member))
      · exact inside node (List.mem_cons_of_mem _ (List.mem_append_right _ member))
      · cases outcome with
        | some result => exact gives_bind (gives_ofExcept _) fun word => gives_pure (some word)
        | none => exact gives_bind (gives_ofExcept _) fun text => gives_throw _
  | .loose tag kind value kids, inside => by
      have self := inside _ (Expr.self_mem_parts _)
      refine gives_remember self (fun other member => coherent other member _ self) ?_
      exact gives_evaluateLoose _ (givesEach_evaluateEachBy coherent kids fun node member =>
        inside node (List.mem_cons_of_mem _ member))

/-- Keeping the values of coherent nodes does not change the value of a history. -/
theorem gives_lookupBy
    (coherent : ∀ first ∈ nodes, ∀ second ∈ nodes, first.id = second.id → first = second)
    (position : Option Int) : (updates : Updates) → (∀ node ∈ updates.parts, node ∈ nodes) →
      Gives assignment nodes (updates.lookupBy remember assignment position)
        (updates.lookup assignment position)
  | .root array, _ => by
      rw [Updates.lookup_root]
      exact gives_bind (gives_ofExcept _) fun value => gives_pure (some value)
  | .write id index value older, inside => by
      refine gives_bind (gives_evaluateBy coherent index fun node member => ?_) fun written => ?_
      · exact inside node (List.mem_append_left _ member)
      · split
        · exact gives_evaluateBy coherent value fun node member =>
            inside node (List.mem_append_right _ (List.mem_append_left _ member))
        · exact gives_lookupBy coherent position older fun node member =>
            inside node (List.mem_append_right _ (List.mem_append_right _ member))

/-- Keeping the values of coherent nodes does not change the values of several expressions. -/
theorem givesEach_evaluateEachBy
    (coherent : ∀ first ∈ nodes, ∀ second ∈ nodes, first.id = second.id → first = second) :
    (expressions : List Expr) → (∀ node ∈ partsEach expressions, node ∈ nodes) →
      GivesEach assignment nodes (evaluateEachBy remember assignment expressions)
        (evaluateEachBy (fun _ compute => compute) assignment expressions)
  | [], _ => trivial
  | expression :: rest, inside =>
      ⟨gives_evaluateBy coherent expression fun node member =>
          inside node (List.mem_append_left _ member),
        givesEach_evaluateEachBy coherent rest fun node member =>
          inside node (List.mem_append_right _ member)⟩

end

end Remembering

/-- A coherent expression has the same value when every node is evaluated once. -/
theorem Expr.evaluateShared_eq (assignment : Assignment) {expression : Expr}
    (coherent : expression.Coherent) :
    expression.evaluateShared assignment = expression.evaluate assignment := by
  have nothing : Remembering.Sound assignment expression.parts ∅ := by
    intro id value found
    simp at found
  have ran := Remembering.gives_evaluateBy coherent expression (fun _ member => member) ∅ nothing
  unfold Expr.evaluateShared
  cases outcome : expression.evaluateBy Remembering.remember assignment ∅ with
  | error fault =>
      rw [outcome] at ran
      exact ran.symm
  | ok result =>
      rw [outcome] at ran
      exact ran.1.symm

end Diverge

import Diverge.Proofs.State.Effects

/-!
# What a state binds is accounted for

An object that a frame allocates is written down twice: among the objects of the frame and
among the bindings of the state.  Only leaving the frame takes it out of both.  That the two
stay in step is an invariant of layouts: a state binds exactly what its frames list, and what
was bound for it otherwise, and no object is bound for two reasons.  Every effect keeps this
(`Layout.Accounts.leads`), also one that forks a state or ends it.
-/

namespace Diverge

/-! ## One state -/

/-- A state binds what its frames list and what is kept otherwise, each for one reason. -/
structure Accounted (keys kept : List MemoryObject) (layers : List (List MemoryObject)) :
    Prop where
  mem_iff : ∀ object, object ∈ keys ↔ object ∈ kept ∨ object ∈ layers.flatten
  apart : ∀ object ∈ kept, object ∉ layers.flatten
  once : layers.flatten.Nodup

namespace Accounted

variable {keys kept : List MemoryObject} {layers : List (List MemoryObject)}
  {object : MemoryObject}

theorem enter
    (accounted : Accounted keys kept layers) :
    Accounted keys kept (layers ++ [[]]) := by
  have same : (layers ++ [[]]).flatten = layers.flatten := by simp
  constructor
  · rw [same]
    exact accounted.mem_iff
  · rw [same]
    exact accounted.apart
  · rw [same]
    exact accounted.once

/-- What the last frame listed was bound for no other reason. -/
theorem leave
    (accounted : Accounted keys kept layers)
    {top : List MemoryObject}
    (last : layers.getLast? = some top) :
    Accounted (keys.filter (· ∉ top)) kept layers.dropLast := by
  obtain ⟨lower, rfl⟩ := List.getLast?_eq_some_iff.1 last
  obtain ⟨mem_iff, apart, once⟩ := accounted
  simp only [List.flatten_append, List.flatten_singleton, List.mem_append, not_or,
    List.nodup_append] at mem_iff apart once
  rw [List.dropLast_concat]
  constructor
  · intro object
    rw [List.mem_filter, mem_iff, decide_eq_true_eq]
    constructor
    · rintro ⟨isKept | isLower | isTop, absent⟩
      · exact Or.inl isKept
      · exact Or.inr isLower
      · exact absurd isTop absent
    · rintro (isKept | isLower)
      · exact ⟨Or.inl isKept, (apart object isKept).2⟩
      · exact ⟨Or.inr (Or.inl isLower), fun isTop => once.2.2 object isLower object isTop rfl⟩
  · exact fun object isKept => (apart object isKept).1
  · exact once.1

theorem bind
    (accounted : Accounted keys kept layers)
    (unlisted : object ∉ layers.flatten) :
    Accounted (Heap.adding keys object) (object :: kept) layers := by
  constructor
  · intro other
    rw [Heap.mem_adding, accounted.mem_iff, List.mem_cons]
    tauto
  · intro other member
    rcases List.mem_cons.mp member with rfl | isKept
    · exact unlisted
    · exact accounted.apart other isKept
  · exact accounted.once

/-- An object that is allocated is listed by the newest frame, and by no other. -/
theorem allocate
    (accounted : Accounted keys kept layers)
    (unbound : object ∉ keys)
    (entered : layers ≠ []) :
    Accounted (Heap.adding keys object) kept
      (layers.dropLast ++ [(layers.getLast?.getD []) ++ [object]]) := by
  have flat : (layers.dropLast ++ [(layers.getLast?.getD []) ++ [object]]).flatten =
      layers.flatten ++ [object] := by
    obtain ⟨lower, top, rfl⟩ := List.eq_nil_or_concat layers |>.resolve_left entered
    simp
  rw [accounted.mem_iff, not_or] at unbound
  constructor
  · intro other
    rw [flat, Heap.mem_adding, accounted.mem_iff, List.mem_append, List.mem_singleton, or_assoc]
  · intro other isKept
    rw [flat, List.mem_append, List.mem_singleton, not_or]
    refine ⟨accounted.apart other isKept, ?_⟩
    rintro rfl
    exact unbound.1 isKept
  · rw [flat]
    refine List.nodup_append.mpr ⟨accounted.once, List.nodup_singleton object, ?_⟩
    rintro other isListed _ isNew rfl
    rw [List.mem_singleton] at isNew
    exact unbound.2 (isNew ▸ isListed)

end Accounted

/-! ## All states -/

namespace Effect

/--
What is kept for each state besides the objects of its frames: what was bound for it, or for
the state it was forked from until then.
-/
def kept (states : Nat) (kept : Nat → List MemoryObject) : Effect → Nat → List MemoryObject
  | .bind place object => fun other => if other = place then object :: kept place else kept other
  | .fork place => fun other => if other = states then kept place else kept other
  | .none | .create | .enter _ | .leave _ | .allocate _ _ | .unbind _ _ | .terminate _ => kept

/--
A frame allocates what is not bound, nothing is bound for a state that its frames list, and
nothing is taken out of the bindings by itself.
-/
def isPermitted (layout : Layout) : Effect → Bool
  | .bind place object => object ∉ (layout.layers place).flatten
  | .allocate place object => layout.layers place ≠ [] ∧ object ∉ layout.bound place
  | .unbind _ _ => false
  | .none | .create | .fork _ | .enter _ | .leave _ | .terminate _ => true

end Effect

namespace Layout

/-- Every state is in a space of its own and binds what it should. -/
structure Accounts (layout : Layout) (kept : Nat → List MemoryObject) : Prop where
  space_lt : ∀ place < layout.states, layout.space place < layout.spaces
  space_inj : ∀ first < layout.states, ∀ second < layout.states,
    layout.space first = layout.space second → first = second
  unborn : ∀ place, layout.states ≤ place → kept place = []
  accounted : ∀ place < layout.states,
    Accounted (layout.bound place) (kept place) (layout.layers place)

variable {layout : Layout} {kept : Nat → List MemoryObject} {place : Nat}

/-- What one state binds is changed; the others are in other spaces. -/
theorem Accounts.revise
    (accounts : layout.Accounts kept)
    (present : place < layout.states)
    {layers : List (List MemoryObject)}
    {keys : List MemoryObject}
    {later : Nat → List MemoryObject}
    (others : ∀ other ≠ place, later other = kept other)
    (accounted : Accounted keys (later place) layers) :
    (layout.revise place layers keys).Accounts later := by
  constructor
  · exact accounts.space_lt
  · exact accounts.space_inj
  · intro other outside
    rw [others other (Nat.ne_of_gt (Nat.lt_of_lt_of_le present outside))]
    exact accounts.unborn other outside
  · intro other inside
    by_cases here : other = place
    · subst here
      simpa [Layout.bound, Layout.revise] using accounted
    · have elsewhere : layout.space other ≠ layout.space place :=
        fun same => here (accounts.space_inj other inside place present same)
      rw [others other here]
      simpa [Layout.bound, Layout.revise, here, elsewhere] using accounts.accounted other inside

/-- A new state has a space of its own. -/
theorem Accounts.grow
    (accounts : layout.Accounts kept)
    {layers : List (List MemoryObject)}
    {keys : List MemoryObject}
    {later : Nat → List MemoryObject}
    (others : ∀ other ≠ layout.states, later other = kept other)
    (accounted : Accounted keys (later layout.states) layers) :
    (layout.grow layers keys).Accounts later := by
  have isOld {place : Nat} (inside : place < layout.states + 1) (old : place ≠ layout.states) :
      place < layout.states :=
    Nat.lt_of_le_of_ne (Nat.le_of_lt_succ inside) old
  have space_lt {place : Nat} (inside : place < layout.states) := accounts.space_lt place inside
  constructor
  · intro place inside
    show (if place = layout.states then layout.spaces else layout.space place) < layout.spaces + 1
    split
    next => exact Nat.lt_succ_self _
    next old => exact Nat.lt_succ_of_lt (space_lt (isOld inside old))
  · intro first firstInside second secondInside same
    simp only [Layout.grow] at same
    by_cases firstNew : first = layout.states
    · by_cases secondNew : second = layout.states
      · rw [firstNew, secondNew]
      · rw [if_pos firstNew, if_neg secondNew] at same
        exact absurd same.symm (Nat.ne_of_lt (space_lt (isOld secondInside secondNew)))
    · by_cases secondNew : second = layout.states
      · rw [if_neg firstNew, if_pos secondNew] at same
        exact absurd same (Nat.ne_of_lt (space_lt (isOld firstInside firstNew)))
      · rw [if_neg firstNew, if_neg secondNew] at same
        exact accounts.space_inj first (isOld firstInside firstNew) second
          (isOld secondInside secondNew) same
  · intro place outside
    rw [others place (Nat.ne_of_gt outside)]
    exact accounts.unborn place (Nat.le_of_lt outside)
  · intro place inside
    by_cases isNew : place = layout.states
    · subst isNew
      rw [bound_grow_self, layers_grow_self]
      exact accounted
    · have elsewhere := Nat.ne_of_lt (space_lt (isOld inside isNew))
      rw [others place isNew]
      simpa [Layout.bound, Layout.grow, isNew, elsewhere] using
        accounts.accounted place (isOld inside isNew)

/-- Leaving a frame unbinds what it listed, so everything stays accounted for. -/
theorem Accounts.pop
    (accounts : layout.Accounts kept)
    (present : place < layout.states) :
    (layout.pop place).Accounts kept := by
  unfold Layout.pop
  split
  next => exact accounts
  next top last =>
      apply accounts.revise present
      · exact fun _ _ => rfl
      · exact (accounts.accounted place present).leave last

/-- The same for any number of frames. -/
theorem Accounts.iterate_pop
    (accounts : layout.Accounts kept)
    (present : place < layout.states)
    (count : Nat) :
    ((Layout.pop place)^[count] layout).Accounts kept := by
  induction count generalizing layout with
  | zero => exact accounts
  | succ count inductionHypothesis =>
      rw [Function.iterate_succ_apply]
      apply inductionHypothesis (accounts.pop present)
      rw [states_pop]
      exact present

/-- Every permitted effect keeps the account. -/
theorem Accounts.leads
    (accounts : layout.Accounts kept)
    {effect : Effect}
    {later : Layout}
    (present : ∀ place ∈ effect.places, place < layout.states)
    (permitted : effect.isPermitted layout = true)
    (leads : effect.Leads layout later) :
    later.Accounts (effect.kept layout.states kept) := by
  have empty : Accounted [] (kept layout.states) [] := by
    rw [accounts.unborn layout.states (Nat.le_refl _)]
    exact ⟨by simp, by simp, by simp⟩
  cases effect with
  | none => exact leads ▸ accounts
  | create =>
      rcases leads with rfl | rfl | rfl
      · exact accounts
      · exact accounts.grow (fun _ _ => rfl) empty
      · exact accounts.grow (fun _ _ => rfl) empty.enter
  | fork place =>
      cases leads
      apply accounts.grow
      · exact fun other old => if_neg old
      · simp only [Effect.kept, if_true]
        exact accounts.accounted place (present place List.mem_cons_self)
  | enter place =>
      have isState := present place List.mem_cons_self
      rcases leads with rfl | rfl
      · exact accounts
      · exact accounts.revise isState (fun _ _ => rfl) (accounts.accounted place isState).enter
  | leave place =>
      cases leads
      exact accounts.pop (present place List.mem_cons_self)
  | allocate place object =>
      have isState := present place List.mem_cons_self
      obtain ⟨entered, unbound⟩ := of_decide_eq_true permitted
      cases leads
      exact accounts.revise isState (fun _ _ => rfl)
        ((accounts.accounted place isState).allocate unbound entered)
  | bind place object =>
      have isState := present place List.mem_cons_self
      cases leads
      apply accounts.revise isState
      · exact fun other elsewhere => if_neg elsewhere
      · simp only [Effect.kept, if_true]
        exact (accounts.accounted place isState).bind (of_decide_eq_true permitted)
  | unbind place object => cases permitted
  | terminate place =>
      cases leads
      exact accounts.iterate_pop (present place List.mem_cons_self) _

end Layout

/-! ## What an effect leaves -/

namespace Effect

variable {effect : Effect} {before after : Layout} {place : Nat}

/-- No state is lost. -/
theorem Leads.states_le
    (leads : effect.Leads before after)
    (permitted : effect.isPermitted before = true) :
    before.states ≤ after.states := by
  cases effect with
  | none => exact Nat.le_of_eq (leads ▸ rfl)
  | create =>
      rcases leads with rfl | rfl | rfl
      · exact Nat.le_refl _
      · exact Nat.le_succ _
      · exact Nat.le_succ _
  | fork place => exact leads ▸ Nat.le_succ _
  | enter place =>
      rcases leads with rfl | rfl
      · exact Nat.le_refl _
      · exact Nat.le_refl _
  | leave place => exact Nat.le_of_eq (leads ▸ (Layout.states_pop place before).symm)
  | allocate place object => exact Nat.le_of_eq (leads ▸ rfl)
  | bind place object => exact Nat.le_of_eq (leads ▸ rfl)
  | unbind place object => cases permitted
  | terminate place => exact Nat.le_of_eq (leads ▸ (Layout.states_iterate_pop place before _).symm)

theorem mem_kept
    {states : Nat}
    (isState : place < states)
    {kept : Nat → List MemoryObject}
    {object : MemoryObject} :
    object ∈ effect.kept states kept place ↔
      object ∈ kept place ∨ effect = .bind place object := by
  cases effect with
  | bind other bound =>
      simp only [Effect.kept, Effect.bind.injEq]
      by_cases here : place = other
      · subst here
        simp only [if_true, List.mem_cons, true_and, or_comm, eq_comm]
      · simp only [here, if_false, Ne.symm here, false_and, or_false]
  | fork other => simp [Effect.kept, Nat.ne_of_lt isState]
  | none | create | enter _ | leave _ | allocate _ _ | unbind _ _ | terminate _ =>
      simp [Effect.kept]

/-- Whether an effect gives an object to a frame of a state. -/
def allocates (place : Nat) : Effect → Bool
  | .allocate other _ => other = place
  | .none | .create | .fork _ | .enter _ | .leave _ | .bind _ _ | .unbind _ _ | .terminate _ =>
      false

/-- Frames that are not left, and to which nothing is given, list what they did. -/
theorem Leads.take_layers
    (leads : effect.Leads before after)
    (permitted : effect.isPermitted before = true)
    (isState : place < before.states)
    {floor : Nat}
    (above : floor ≤ (before.layers place).length)
    (stillAbove : floor ≤ (after.layers place).length)
    (higher : effect.allocates place = true → floor < (before.layers place).length) :
    (after.layers place).take floor = (before.layers place).take floor := by
  have old := Nat.ne_of_lt isState
  cases effect with
  | none => rw [leads]
  | create =>
      rcases leads with rfl | rfl | rfl
      · rfl
      · simp [Layout.grow, old]
      · simp [Layout.grow, old]
  | fork other =>
      cases leads
      simp [Layout.grow, old]
  | enter other =>
      rcases leads with rfl | rfl
      · rfl
      · by_cases here : place = other
        · subst here
          simp [Layout.revise, List.take_append_of_le_length above]
        · simp [Layout.revise, here]
  | leave other =>
      cases leads
      rw [Layout.layers_pop] at stillAbove ⊢
      by_cases here : place = other
      · subst here
        rw [if_pos rfl] at stillAbove ⊢
        rw [List.length_dropLast] at stillAbove
        rw [List.dropLast_eq_take, List.take_take, Nat.min_eq_left stillAbove]
      · rw [if_neg here]
  | allocate other object =>
      cases leads
      by_cases here : place = other
      · subst here
        have lower : floor ≤ (before.layers place).dropLast.length := by
          rw [List.length_dropLast]
          exact Nat.le_sub_one_of_lt (higher (decide_eq_true rfl))
        simp only [Layout.allocate, Layout.revise, if_true]
        rw [List.take_append_of_le_length lower, List.dropLast_eq_take, List.take_take,
          Nat.min_eq_left (List.length_dropLast ▸ lower)]
      · simp [Layout.allocate, Layout.revise, here]
  | bind other object =>
      cases leads
      by_cases here : place = other
      · simp [Layout.revise, here]
      · simp [Layout.revise, here]
  | unbind other object => cases permitted
  | terminate other =>
      cases leads
      by_cases here : place = other
      · subst here
        rw [Layout.length_layers_iterate_pop, Nat.sub_self] at stillAbove
        rw [Nat.le_zero.mp stillAbove, List.take_zero, List.take_zero]
      · rw [Layout.layers_iterate_pop_of_ne other before here]

end Effect

end Diverge

import SelectPlan.Planner
import SelectPlan.Proofs.Expr.Preorder

/-!
# Walks over the nodes of an expression

`Expr.visit` runs an action on the nodes of an expression.  This file proves, of every
action that keeps a state and may fail, that the walk calls it on the nodes in preorder
up to and including the first on which it fails, hands the state that one call leaves to
the next, and has the outcome of the last call (`Ends`).  Predicates are checked by such
a walk, so the error that is reported is that of the first offending node.

## Strategy

In any monad the walk is the loop over the list of nodes (`visit_eq_forM`).  The tree is
then out of the way, and what a loop comes to is an induction on the list
(`exists_ends`, `Ends.outcome_eq`).

That an action is called on a node does not show in its outcome.  It shows in that of an
action which does the same and writes down each node (`recording`): what is proved of all
actions holds of this one too, and so gives the list that it wrote
(`ends_recording_iff`).  An action that only fails or succeeds is one whose state has no
content (`still`).
-/

namespace SelectPlan

namespace Expr

/-! ## The loop over the nodes -/

/-- A walk is a loop over the nodes of the expression. -/
theorem visit_eq_forM {m : Type → Type} [Monad m] [LawfulMonad m] (action : Expr → m Unit)
    (expr : Expr) : expr.visit action = forM expr.nodes action := by
  induction expr with
  | ident name => simp [visit, nodes]
  | literal value => simp [visit, nodes]
  | unary op operand ih => rw [visit, nodes, List.forM_cons, ih]
  | binary left op right ihleft ihright =>
      rw [visit, nodes, List.forM_cons, List.forM_append, ihleft, ihright]
  | aliased expr name ih => rw [visit, nodes, List.forM_cons, ih]

variable {σ ε : Type}

/-- An action on nodes that keeps a state and may fail.  What it did to the state before
it failed is kept. -/
abbrev Visitor (σ ε : Type) : Type := Expr → ExceptT ε (StateM σ) Unit

/-- The outcome of an action that starts in a state, and the state it leaves. -/
def outcome (action : ExceptT ε (StateM σ) Unit) (state : σ) : Except ε Unit × σ :=
  (action.run.run state).run

variable {visitor : Visitor σ ε} {nodes before rest called : List Expr} {node : Expr}
  {state between final : σ} {error : ε} {result : Except ε Unit}

theorem outcome_bind (first next : ExceptT ε (StateM σ) Unit) (state : σ) :
    outcome (first >>= fun _ => next) state =
      match outcome first state with
      | (.ok (), between) => outcome next between
      | (.error error, final) => (.error error, final) := by
  simp only [outcome, ExceptT.run_bind, StateT.run_bind, Id.run_bind]
  rcases (first.run.run state).run with ⟨_ | _, _⟩ <;> rfl

theorem outcome_forM_cons_of_ok (h : outcome (visitor node) state = (.ok (), between)) :
    outcome (forM (node :: rest) visitor) state = outcome (forM rest visitor) between := by
  rw [List.forM_cons, outcome_bind, h]

theorem outcome_forM_cons_of_error (h : outcome (visitor node) state = (.error error, final)) :
    outcome (forM (node :: rest) visitor) state = (.error error, final) := by
  rw [List.forM_cons, outcome_bind, h]

/-! ## Where a walk ends -/

/-- Called on each of the nodes in turn, the visitor never fails, and takes one state to
the other. -/
inductive Threads (visitor : Visitor σ ε) : σ → List Expr → σ → Prop
  | nil (state : σ) : Threads visitor state [] state
  | cons {state between final : σ} {node : Expr} {rest : List Expr}
      (hnode : outcome (visitor node) state = (.ok (), between))
      (hrest : Threads visitor between rest final) : Threads visitor state (node :: rest) final

/-- A walk over the nodes calls the visitor on `called`, with this result and final
state: on all nodes if it never fails, and up to the first on which it fails otherwise. -/
inductive Ends (visitor : Visitor σ ε) (state : σ) (nodes : List Expr) :
    List Expr → Except ε Unit → σ → Prop
  | finished {final : σ} (h : Threads visitor state nodes final) :
      Ends visitor state nodes nodes (.ok ()) final
  | failed {before after : List Expr} {node : Expr} {between final : σ} {error : ε}
      (hnodes : nodes = before ++ node :: after) (hbefore : Threads visitor state before between)
      (hnode : outcome (visitor node) between = (.error error, final)) :
      Ends visitor state nodes (before ++ [node]) (.error error) final

theorem threads_nil_iff : Threads visitor state [] final ↔ state = final := by
  constructor
  · intro h
    cases h with
    | nil => rfl
  · rintro rfl
    exact .nil state

theorem threads_cons_iff : Threads visitor state (node :: rest) final ↔
    ∃ between, outcome (visitor node) state = (.ok (), between) ∧
      Threads visitor between rest final := by
  constructor
  · intro h
    cases h with
    | cons hnode hrest => exact ⟨_, hnode, hrest⟩
  · rintro ⟨between, hnode, hrest⟩
    exact .cons hnode hrest

theorem Threads.outcome_append (h : Threads visitor state before between) (rest : List Expr) :
    outcome (forM (before ++ rest) visitor) state = outcome (forM rest visitor) between := by
  induction h with
  | nil state => rfl
  | cons hnode _ ih => rw [List.cons_append, outcome_forM_cons_of_ok hnode, ih]

theorem Ends.outcome_eq (h : Ends visitor state nodes called result final) :
    outcome (forM nodes visitor) state = (result, final) := by
  cases h with
  | finished h =>
      have hloop := h.outcome_append []
      rwa [List.append_nil] at hloop
  | failed hnodes hbefore hnode =>
      rw [hnodes, hbefore.outcome_append, outcome_forM_cons_of_error hnode]

theorem Ends.cons (hnode : outcome (visitor node) state = (.ok (), between))
    (h : Ends visitor between rest called result final) :
    Ends visitor state (node :: rest) (node :: called) result final := by
  cases h with
  | finished h => exact .finished (.cons hnode h)
  | failed hrest hbefore hlast =>
      exact .failed (congrArg (node :: ·) hrest) (.cons hnode hbefore) hlast

theorem exists_ends (visitor : Visitor σ ε) (nodes : List Expr) (state : σ) :
    ∃ called result final, Ends visitor state nodes called result final := by
  induction nodes generalizing state with
  | nil => exact ⟨[], .ok (), state, .finished (.nil state)⟩
  | cons node rest ih =>
      rcases hnode : outcome (visitor node) state with ⟨error | ⟨⟩, between⟩
      · exact ⟨[node], .error error, between, .failed rfl (.nil state) hnode⟩
      · obtain ⟨called, result, final, hends⟩ := ih between
        exact ⟨node :: called, result, final, hends.cons hnode⟩

/-- A walk has one outcome, and it is that of its last call. -/
theorem outcome_visit_iff (visitor : Visitor σ ε) (expr : Expr) (state : σ)
    (result : Except ε Unit) (final : σ) :
    outcome (expr.visit visitor) state = (result, final) ↔
      ∃ called, Ends visitor state expr.nodes called result final := by
  rw [visit_eq_forM]
  constructor
  · intro h
    obtain ⟨called, result', final', hends⟩ := exists_ends visitor expr.nodes state
    rw [hends.outcome_eq, Prod.mk.injEq] at h
    obtain ⟨rfl, rfl⟩ := h
    exact ⟨called, hends⟩
  · rintro ⟨called, hends⟩
    exact hends.outcome_eq

/-! ## The calls of a walk -/

/-- The visitor, with a list of the nodes it has been called on beside its state. -/
def recording (visitor : Visitor σ ε) : Visitor (List Expr × σ) ε :=
  fun node => ExceptT.mk fun (called, state) =>
    let (result, final) := outcome (visitor node) state
    (result, (called ++ [node], final))

theorem outcome_recording_iff {earlier : List Expr} :
    outcome (recording visitor node) (earlier, state) = (result, (called, final)) ↔
      called = earlier ++ [node] ∧ outcome (visitor node) state = (result, final) := by
  have hrecording : outcome (recording visitor node) (earlier, state) =
      ((outcome (visitor node) state).1, (earlier ++ [node], (outcome (visitor node) state).2)) :=
    rfl
  rw [hrecording, Prod.mk.injEq, Prod.mk.injEq, and_left_comm, eq_comm (a := called),
    Prod.ext_iff]

theorem threads_recording_iff {earlier : List Expr} :
    Threads (recording visitor) (earlier, state) nodes (called, final) ↔
      called = earlier ++ nodes ∧ Threads visitor state nodes final := by
  induction nodes generalizing earlier state with
  | nil => simp [threads_nil_iff, eq_comm]
  | cons node rest ih =>
      simp only [threads_cons_iff, Prod.exists, outcome_recording_iff, ih]
      constructor
      · rintro ⟨_, between, ⟨rfl, hnode⟩, rfl, hrest⟩
        exact ⟨List.append_assoc .., between, hnode, hrest⟩
      · rintro ⟨rfl, between, hnode, hrest⟩
        exact ⟨_, between, ⟨rfl, hnode⟩, by rw [List.append_assoc, List.singleton_append], hrest⟩

/-- The nodes that are written down are those that the visitor is called on. -/
theorem ends_recording_iff {earlier reached : List Expr} :
    Ends (recording visitor) (earlier, state) nodes reached result (called, final) ↔
      called = earlier ++ reached ∧ Ends visitor state nodes reached result final := by
  constructor
  · intro h
    cases h with
    | finished h =>
        obtain ⟨rfl, hthreads⟩ := threads_recording_iff.mp h
        exact ⟨rfl, .finished hthreads⟩
    | @failed _ _ _ between _ _ hnodes hbefore hnode =>
        obtain ⟨written, own⟩ := between
        obtain ⟨rfl, hthreads⟩ := threads_recording_iff.mp hbefore
        obtain ⟨rfl, hown⟩ := outcome_recording_iff.mp hnode
        exact ⟨List.append_assoc .., .failed hnodes hthreads hown⟩
  · rintro ⟨rfl, h⟩
    cases h with
    | finished h => exact .finished (threads_recording_iff.mpr ⟨rfl, h⟩)
    | failed hnodes hbefore hnode =>
        rw [← List.append_assoc]
        exact .failed hnodes (threads_recording_iff.mpr ⟨rfl, hbefore⟩)
          (outcome_recording_iff.mpr ⟨rfl, hnode⟩)

theorem outcome_visit_recording_iff (visitor : Visitor σ ε) (expr : Expr) (state : σ)
    (called : List Expr) (result : Except ε Unit) (final : σ) :
    outcome (expr.visit (recording visitor)) ([], state) = (result, (called, final)) ↔
      Ends visitor state expr.nodes called result final := by
  rw [outcome_visit_iff]
  simp only [ends_recording_iff, List.nil_append, exists_eq_left']

/-! ## Walks without a state -/

variable {action : Expr → Except ε Unit} {expr : Expr}

/-- An action that only fails or succeeds, as one that keeps a state of no content. -/
def still (action : Expr → Except ε Unit) : Visitor Unit ε :=
  fun node => ExceptT.mk (pure (action node))

theorem outcome_still (action : Expr → Except ε Unit) (node : Expr) :
    outcome (still action node) () = (action node, ()) :=
  rfl

theorem outcome_visit_still (action : Expr → Except ε Unit) (expr : Expr) :
    outcome (expr.visit (still action)) () = (expr.visit action, ()) := by
  rw [visit_eq_forM, visit_eq_forM]
  induction expr.nodes with
  | nil => rfl
  | cons node rest ih =>
      rw [List.forM_cons, List.forM_cons, outcome_bind, outcome_still]
      cases action node with
      | error error => rfl
      | ok _ => exact ih

theorem threads_still_iff :
    Threads (still action) () nodes () ↔ ∀ node ∈ nodes, action node = .ok () := by
  induction nodes with
  | nil => simp [threads_nil_iff]
  | cons node rest ih => simp [threads_cons_iff, outcome_still, ih]

theorem visit_eq_iff {result : Except ε Unit} :
    expr.visit action = result ↔ ∃ called, Ends (still action) () expr.nodes called result () := by
  rw [← outcome_visit_iff, outcome_visit_still, Prod.mk.injEq, and_iff_left rfl]

theorem visit_eq_ok_iff :
    expr.visit action = .ok () ↔ ∀ node ∈ expr.nodes, action node = .ok () := by
  rw [visit_eq_iff, ← threads_still_iff]
  constructor
  · rintro ⟨called, hends⟩
    cases hends with
    | finished h => exact h
  · intro h
    exact ⟨expr.nodes, .finished h⟩

theorem visit_eq_error_iff :
    expr.visit action = .error error ↔ ∃ before node after, expr.nodes = before ++ node :: after ∧
      (∀ earlier ∈ before, action earlier = .ok ()) ∧ action node = .error error := by
  rw [visit_eq_iff]
  constructor
  · rintro ⟨called, hends⟩
    cases hends with
    | failed hnodes hbefore hnode =>
        exact ⟨_, _, _, hnodes, threads_still_iff.mp hbefore, (Prod.mk.inj hnode).1⟩
  · rintro ⟨before, node, after, hnodes, hbefore, hnode⟩
    refine ⟨before ++ [node], .failed hnodes (threads_still_iff.mpr hbefore) ?_⟩
    rw [outcome_still, hnode]

end Expr

/-! ## Predicates -/

namespace Planner

variable {scope : Scope} {node : Expr} {error : Error}

/-- A node may not stand in a predicate, for a reason that is an error. -/
inductive Offends (scope : Scope) : Expr → Error → Prop
  | column {ident : Ident} (h : resolves scope ident = false) :
      Offends scope (.ident ident) (.unknownPredicateColumn ident.name)
  | aliased {content : Expr} {name : Ident} :
      Offends scope (.aliased content name) (.invalidExpression "predicate")

theorem checkNode_eq_error_iff :
    checkNode scope node = .error error ↔ Offends scope node error := by
  constructor
  · intro h
    cases node with
    | ident ident =>
        cases hresolves : resolves scope ident with
        | false =>
            rw [checkNode, hresolves] at h
            cases h
            exact .column hresolves
        | true =>
            rw [checkNode, hresolves] at h
            cases h
    | aliased content name =>
        cases h
        exact .aliased
    | _ => cases h
  · intro h
    cases h with
    | column hresolves =>
        rw [checkNode, hresolves]
        rfl
    | aliased => rfl

theorem checkNode_eq_ok_iff :
    checkNode scope node = .ok () ↔ ∀ error, ¬ Offends scope node error := by
  simp only [← checkNode_eq_error_iff]
  cases checkNode scope node <;> simp

/-- A predicate has no offending node just if each name in it refers to a column and no
alias stands at any depth. -/
theorem forall_not_offends_iff {predicate : Expr} :
    (∀ node ∈ predicate.nodes, ∀ error, ¬ Offends scope node error) ↔
      (∀ place ident, predicate.node? place = some (.ident ident) → resolves scope ident = true) ∧
      ∀ place content name, predicate.node? place ≠ some (.aliased content name) := by
  constructor
  · intro h
    constructor
    · intro place ident hplace
      rw [← Bool.not_eq_false]
      intro hfalse
      exact h _ (Expr.mem_nodes_iff.mpr ⟨place, hplace⟩) _ (.column hfalse)
    · intro place content name hplace
      exact h _ (Expr.mem_nodes_iff.mpr ⟨place, hplace⟩) _ .aliased
  · rintro ⟨hresolves, haliases⟩ node hmem error hoffends
    obtain ⟨place, hplace⟩ := Expr.mem_nodes_iff.mp hmem
    cases hoffends with
    | column hfalse => exact absurd (hresolves place _ hplace) (by simp [hfalse])
    | aliased => exact haliases place _ _ hplace

end Planner

/-- A walk calls an action that keeps a state and may fail on the nodes in preorder, up
to and including the first on which it fails, and comes to the outcome of the last call.
So a predicate is refused with the error of its first offending node, and accepted just
if each name in it refers to a column and no alias stands at any depth. -/
theorem walk_exact {σ ε : Type} (visitor : Expr.Visitor σ ε) (state : σ) (scope : Scope)
    (expr : Expr) :
    (∀ list, expr.Preorder list ↔ list = expr.nodes) ∧
    (∀ called result final,
      Expr.outcome (expr.visit (Expr.recording visitor)) ([], state) =
          (result, (called, final)) ↔
        Expr.Ends visitor state expr.nodes called result final) ∧
    (∀ result final, Expr.outcome (expr.visit visitor) state = (result, final) ↔
      ∃ called, Expr.Ends visitor state expr.nodes called result final) ∧
    (∀ error, Planner.checkPredicate scope expr = .error error ↔
      ∃ before node after, expr.nodes = before ++ node :: after ∧
        (∀ earlier ∈ before, ∀ other, ¬ Planner.Offends scope earlier other) ∧
        Planner.Offends scope node error) ∧
    (Planner.checkPredicate scope expr = .ok () ↔
      (∀ place ident, expr.node? place = some (.ident ident) →
        Planner.resolves scope ident = true) ∧
      ∀ place content name, expr.node? place ≠ some (.aliased content name)) := by
  refine ⟨fun list => Expr.preorder_iff, Expr.outcome_visit_recording_iff visitor expr state,
    Expr.outcome_visit_iff visitor expr state, ?_, ?_⟩
  · intro error
    rw [Planner.checkPredicate, Expr.visit_eq_error_iff]
    simp only [Planner.checkNode_eq_ok_iff, Planner.checkNode_eq_error_iff]
  · rw [Planner.checkPredicate, Expr.visit_eq_ok_iff, ← Planner.forall_not_offends_iff]
    simp only [Planner.checkNode_eq_ok_iff]

/-- In `a = b OR c = d` the name `b` is the fourth node. -/
example :
    let name (text : String) : Expr := .ident ⟨text⟩
    let equal (left right : String) : Expr := .binary (name left) (.compare .eq) (name right)
    let visitor : Expr.Visitor Nat String := fun node => do
      modify (· + 1)
      if node = name "b" then throw "b"
    Expr.outcome ((Expr.binary (equal "a" "b") .or (equal "c" "d")).visit visitor) 0 =
      (.error "b", 4) := by
  rfl

end SelectPlan

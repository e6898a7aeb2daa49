import Mathlib.Data.List.Sort
import SelectPlan.Expr

/-!
# The nodes of an expression in preorder

A place in an expression says how to come to a node from the root: which child to
take at each node on the way down, counted from the left.  In the order of lists, a
place comes before all places below it, and what is below one child before what is
below the next.  So the preorder of an expression is the list of its nodes in the
order of their places (`Preorder`), and there is one such list, `nodes`
(`preorder_iff`).

Nothing is lost where nodes are equal: they are listed once for each place.
-/

namespace SelectPlan.Expr

/-! ## Children -/

/-- The children of a node, from left to right. -/
def children : Expr → List Expr
  | ident _ | literal _ => []
  | unary _ operand => [operand]
  | binary left _ right => [left, right]
  | aliased expr _ => [expr]

theorem nodes_eq (expr : Expr) : expr.nodes = expr :: expr.children.flatMap nodes := by
  cases expr <;> simp [nodes, children]

/-- What holds of an expression if it holds of its children, holds of all. -/
theorem children_induction {motive : Expr → Prop}
    (step : ∀ expr : Expr, (∀ child ∈ expr.children, motive child) → motive expr) (expr : Expr) :
    motive expr := by
  induction expr with
  | ident name => exact step _ (by simp [children])
  | literal value => exact step _ (by simp [children])
  | unary op operand ih => exact step _ (by simpa [children] using ih)
  | binary left op right ihleft ihright =>
      exact step _ (by simpa [children] using ⟨ihleft, ihright⟩)
  | aliased expr name ih => exact step _ (by simpa [children] using ih)

/-! ## Lists in the order of places -/

/-- The list holds the nodes that are at places, one for each place, in the order of the
places. -/
def Ordered (held : List Nat → Expr → Prop) (list : List Expr) : Prop :=
  ∃ placed : List (List Nat × Expr),
    placed.map Prod.snd = list ∧
    (placed.Pairwise fun first second => first.1 < second.1) ∧
    ∀ place node, (place, node) ∈ placed ↔ held place node

variable {held held' : List Nat → Expr → Prop} {list list' : List Expr}

theorem Ordered.congr (h : Ordered held list)
    (hheld : ∀ place node, held place node ↔ held' place node) : Ordered held' list := by
  obtain ⟨placed, hlist, hplaced, hmem⟩ := h
  exact ⟨placed, hlist, hplaced, fun place node => (hmem place node).trans (hheld place node)⟩

theorem ordered_nil : Ordered (fun _ _ => False) [] :=
  ⟨[], by simp⟩

theorem ordered_root (expr : Expr) : Ordered (fun place node => place = [] ∧ node = expr) [expr] :=
  ⟨[([], expr)], by simp⟩

/-- The nodes below a child are in the order in which they are in the child. -/
theorem Ordered.below (h : Ordered held list) (index : Nat) :
    Ordered (fun place node => ∃ rest, place = index :: rest ∧ held rest node) list := by
  obtain ⟨placed, rfl, hplaced, hmem⟩ := h
  refine ⟨placed.map fun (place, node) => (index :: place, node), by simp, ?_, ?_⟩
  · rw [List.pairwise_map]
    exact hplaced.imp fun hlt => List.cons_lt_cons_iff.mpr (.inr ⟨rfl, hlt⟩)
  · intro place node
    simp only [List.mem_map, Prod.exists, Prod.mk.injEq]
    constructor
    · rintro ⟨rest, _, hrest, rfl, rfl⟩
      exact ⟨rest, rfl, (hmem _ _).mp hrest⟩
    · rintro ⟨rest, rfl, hheld⟩
      exact ⟨rest, node, (hmem _ _).mpr hheld, rfl, rfl⟩

theorem Ordered.append (h : Ordered held list) (h' : Ordered held' list')
    (hlt : ∀ place node place' node', held place node → held' place' node' → place < place') :
    Ordered (fun place node => held place node ∨ held' place node) (list ++ list') := by
  obtain ⟨placed, rfl, hplaced, hmem⟩ := h
  obtain ⟨placed', rfl, hplaced', hmem'⟩ := h'
  refine ⟨placed ++ placed', List.map_append, ?_, ?_⟩
  · refine List.pairwise_append.mpr ⟨hplaced, hplaced', ?_⟩
    intro first hfirst second hsecond
    exact hlt _ _ _ _ ((hmem _ _).mp hfirst) ((hmem' _ _).mp hsecond)
  · intro place node
    rw [List.mem_append, hmem, hmem']

/-- There is one list of what is at the places. -/
theorem Ordered.unique (h : Ordered held list) (h' : Ordered held list') : list = list' := by
  obtain ⟨placed, rfl, hplaced, hmem⟩ := h
  obtain ⟨placed', rfl, hplaced', hmem'⟩ := h'
  have _ : Std.Irrefl fun first second : List Nat × Expr => first.1 < second.1 :=
    ⟨fun _ => List.lt_irrefl _⟩
  have _ : Std.Antisymm fun first second : List Nat × Expr => first.1 < second.1 :=
    ⟨fun _ _ hlt hgt => absurd hgt (List.lt_asymm hlt)⟩
  have hsame : placed = placed' :=
    hplaced.eq_of_mem_iff hplaced' fun ⟨place, node⟩ =>
      (hmem place node).trans (hmem' place node).symm
  rw [hsame]

/-! ## The preorder -/

/-- The node at a place. -/
def node? : List Nat → Expr → Option Expr
  | [], expr => some expr
  | index :: place, expr => expr.children[index]?.bind (node? place)

/-- The list holds the nodes of the expression in the order of their places. -/
def Preorder (expr : Expr) (list : List Expr) : Prop :=
  Ordered (fun place node => expr.node? place = some node) list

/-- The preorders of children, put after one another, are in the order of their places.
The children are counted on from `start`. -/
theorem ordered_children {children : List Expr}
    (h : ∀ child ∈ children, child.Preorder child.nodes) (start : Nat) :
    Ordered (fun place node => ∃ index rest, place = (start + index) :: rest ∧
      children[index]?.bind (node? rest) = some node) (children.flatMap nodes) := by
  induction children generalizing start with
  | nil => exact ordered_nil.congr (by simp)
  | cons child others ih =>
      obtain ⟨hchild, hothers⟩ := List.forall_mem_cons.mp h
      rw [List.flatMap_cons]
      apply ((hchild.below start).append (ih hothers (start + 1)) ?_).congr
      · intro place node
        constructor
        · rintro (⟨rest, rfl, hnode⟩ | ⟨index, rest, rfl, hnode⟩)
          · exact ⟨0, rest, rfl, hnode⟩
          · exact ⟨index + 1, rest, by rw [Nat.add_assoc, Nat.add_comm 1], hnode⟩
        · rintro ⟨_ | index, rest, rfl, hnode⟩
          · exact .inl ⟨rest, rfl, hnode⟩
          · exact .inr ⟨index, rest, by rw [Nat.add_assoc, Nat.add_comm 1], hnode⟩
      · rintro _ node _ node' ⟨rest, rfl, -⟩ ⟨index, rest', rfl, -⟩
        exact List.cons_lt_cons_iff.mpr (.inl (by omega))

theorem preorder_nodes (expr : Expr) : expr.Preorder expr.nodes := by
  induction expr using children_induction with
  | step expr ih =>
      rw [nodes_eq]
      apply ((ordered_root expr).append (ordered_children ih 0) ?_).congr
      · intro place node
        cases place with
        | nil => simp [node?, eq_comm]
        | cons index place => simp [node?]
      · rintro _ node _ node' ⟨rfl, -⟩ ⟨index, rest, rfl, -⟩
        exact List.nil_lt_cons _ _

/-- The preorder of an expression is the list of its nodes, and no other list. -/
theorem preorder_iff {expr : Expr} : expr.Preorder list ↔ list = expr.nodes := by
  constructor
  · intro h
    exact Ordered.unique h expr.preorder_nodes
  · rintro rfl
    exact expr.preorder_nodes

theorem mem_nodes_iff {expr node : Expr} :
    node ∈ expr.nodes ↔ ∃ place, expr.node? place = some node := by
  obtain ⟨placed, hnodes, -, hmem⟩ := expr.preorder_nodes
  simp [← hnodes, hmem]

end SelectPlan.Expr

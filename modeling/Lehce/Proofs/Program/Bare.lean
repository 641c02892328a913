import Lehce.Program.Node

/-!
# Trees up to positions

`Node.bare` puts every node of a tree at the origin. Two trees are the same up to
positions when their bare trees are equal.
-/

namespace Lehce

/-- The first column of the first line. -/
def Position.origin : Position := ⟨0, 0⟩

open Position (origin)

mutual

/-- A tree with all its nodes at the origin. -/
def Node.bare : Node → Node
  | .literal _ value => .literal origin value
  | .symbol _ name => .symbol origin name
  | .path _ parts => .path origin parts
  | .binary _ left op right => .binary origin left.bare op right.bare
  | .control _ left op right => .control origin left.bare op right.bare
  | .assignment _ target op value => .assignment origin target.bare op value.bare
  | .block _ items => .block origin (Node.bareAll items)
  | .function _ name params _ body => .function origin name params origin (Node.bareAll body)
  | .call _ callee args used => .call origin callee.bare (Node.bareAll args) used
  | .list _ items => .list origin (Node.bareAll items)
  | .dict _ entries => .dict origin (Node.bareEntries entries)
  | .prefixed _ op operand used => .prefixed origin op operand.bare used
  | .suffixed _ op operand used => .suffixed origin op operand.bare used
  | .index _ body key => .index origin body.bare key.bare
  | .branch _ condition _ body otherwise =>
    .branch origin condition.bare origin (Node.bareAll body)
      (match otherwise with
      | some other => some other.bare
      | none => none)
  | .returns _ value =>
    .returns origin (match value with
      | some value => some value.bare
      | none => none)
  | .breaks _ => .breaks origin
  | .continues _ => .continues origin
  | .endlessLoop _ _ body => .endlessLoop origin origin (Node.bareAll body)
  | .whileLoop _ condition _ body =>
    .whileLoop origin condition.bare origin (Node.bareAll body)
  | .nothing _ => .nothing origin

/-- Some trees with all their nodes at the origin. -/
def Node.bareAll : List Node → List Node
  | [] => []
  | node :: rest => node.bare :: Node.bareAll rest

/-- The entries of a dictionary with all nodes of their values at the origin. -/
def Node.bareEntries : List (String × Node) → List (String × Node)
  | [] => []
  | (key, value) :: rest => (key, value.bare) :: Node.bareEntries rest

end

namespace Node

@[simp]
theorem bareAll_eq_map (nodes : List Node) : bareAll nodes = nodes.map bare := by
  induction nodes with
  | nil => rfl
  | cons node rest ih => simp [bareAll, ih]

@[simp]
theorem bareEntries_eq_map (entries : List (String × Node)) :
    bareEntries entries = entries.map fun entry => (entry.1, entry.2.bare) := by
  induction entries with
  | nil => rfl
  | cons entry rest ih => simp [bareEntries, ih]

@[simp]
theorem bare_branch (position bodyPosition : Position) (condition : Node) (body : List Node)
    (otherwise : Option Node) : (branch position condition bodyPosition body otherwise).bare =
      .branch origin condition.bare origin (body.map bare) (otherwise.map bare) := by
  cases otherwise <;> simp [bare]

@[simp]
theorem bare_returns (position : Position) (value : Option Node) :
    (returns position value).bare = .returns origin (value.map bare) := by
  cases value <;> simp [bare]

/-- A node that is a symbol up to positions is that symbol. -/
theorem eq_symbol_of_bare {node : Node} {position : Position} {name : String}
    (same : node.bare = (symbol position name).bare) :
    ∃ position, node = .symbol position name := by
  cases node <;> simp_all [bare]

/-- A node that is a path up to positions is that path. -/
theorem eq_path_of_bare {node : Node} {position : Position} {parts : List String}
    (same : node.bare = (path position parts).bare) :
    ∃ position, node = .path position parts := by
  cases node <;> simp_all [bare]

/-- A node that is a literal up to positions is that literal. -/
theorem eq_literal_of_bare {node : Node} {position : Position} {value : Datum}
    (same : node.bare = (literal position value).bare) :
    ∃ position, node = .literal position value := by
  cases node <;> simp_all [bare]

end Node

end Lehce

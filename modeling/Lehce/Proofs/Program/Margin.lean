import Lehce.Program.Statement

/-!
# Trees up to columns

`Node.atMargin` puts every node of a tree at the first column of its line. Two trees are
the same up to columns when their trees at the margin are equal. What the readers make of
a node does not depend on columns.
-/

namespace Lehce

/-- The first column of the same line. -/
def Position.atMargin (position : Position) : Position := ⟨position.line, 0⟩

mutual

/-- A tree with all its nodes in the first column. -/
def Node.atMargin : Node → Node
  | .literal position value => .literal position.atMargin value
  | .symbol position name => .symbol position.atMargin name
  | .path position parts => .path position.atMargin parts
  | .binary position left op right =>
    .binary position.atMargin left.atMargin op right.atMargin
  | .control position left op right =>
    .control position.atMargin left.atMargin op right.atMargin
  | .assignment position target op value =>
    .assignment position.atMargin target.atMargin op value.atMargin
  | .block position items => .block position.atMargin (Node.allAtMargin items)
  | .function position name params bodyPosition body =>
    .function position.atMargin name params bodyPosition.atMargin (Node.allAtMargin body)
  | .call position callee args used =>
    .call position.atMargin callee.atMargin (Node.allAtMargin args) used
  | .list position items => .list position.atMargin (Node.allAtMargin items)
  | .dict position entries => .dict position.atMargin (Node.entriesAtMargin entries)
  | .prefixed position op operand used => .prefixed position.atMargin op operand.atMargin used
  | .suffixed position op operand used => .suffixed position.atMargin op operand.atMargin used
  | .index position body key => .index position.atMargin body.atMargin key.atMargin
  | .branch position condition bodyPosition body otherwise =>
    .branch position.atMargin condition.atMargin bodyPosition.atMargin (Node.allAtMargin body)
      (match otherwise with
      | some other => some other.atMargin
      | none => none)
  | .returns position value =>
    .returns position.atMargin (match value with
      | some value => some value.atMargin
      | none => none)
  | .breaks position => .breaks position.atMargin
  | .continues position => .continues position.atMargin
  | .endlessLoop position bodyPosition body =>
    .endlessLoop position.atMargin bodyPosition.atMargin (Node.allAtMargin body)
  | .whileLoop position condition bodyPosition body =>
    .whileLoop position.atMargin condition.atMargin bodyPosition.atMargin (Node.allAtMargin body)
  | .nothing position => .nothing position.atMargin

/-- Some trees with all their nodes in the first column. -/
def Node.allAtMargin : List Node → List Node
  | [] => []
  | node :: rest => node.atMargin :: Node.allAtMargin rest

/-- The entries of a dictionary with all nodes of their values in the first column. -/
def Node.entriesAtMargin : List (String × Node) → List (String × Node)
  | [] => []
  | (key, value) :: rest => (key, value.atMargin) :: Node.entriesAtMargin rest

end

/-- A program with all its nodes in the first column. -/
def Program.atMargin (program : Program) : Program :=
  ⟨program.position.atMargin, program.items.map Node.atMargin⟩

namespace Node

@[simp]
theorem allAtMargin_eq_map (nodes : List Node) : allAtMargin nodes = nodes.map atMargin := by
  induction nodes with
  | nil => rfl
  | cons node rest ih => exact congrArg (node.atMargin :: ·) ih

@[simp]
theorem entriesAtMargin_eq_map (entries : List (String × Node)) :
    entriesAtMargin entries = entries.map fun entry => (entry.1, entry.2.atMargin) := by
  induction entries with
  | nil => rfl
  | cons entry rest ih => exact congrArg ((entry.1, entry.2.atMargin) :: ·) ih

@[simp]
theorem atMargin_branch (position bodyPosition : Position) (condition : Node) (body : List Node)
    (otherwise : Option Node) :
    (branch position condition bodyPosition body otherwise).atMargin =
      .branch position.atMargin condition.atMargin bodyPosition.atMargin (body.map atMargin)
        (otherwise.map atMargin) := by
  rw [← allAtMargin_eq_map]
  cases otherwise <;> rfl

@[simp]
theorem atMargin_returns (position : Position) (value : Option Node) :
    (returns position value).atMargin = .returns position.atMargin (value.map atMargin) := by
  cases value <;> rfl

@[simp]
theorem position_atMargin (node : Node) : node.atMargin.position = node.position.atMargin := by
  cases node with
  | branch _ _ _ _ otherwise => cases otherwise <;> rfl
  | returns _ value => cases value <;> rfl
  | _ => rfl

theorem atMargin_asStatement (node : Node) :
    node.asStatement.atMargin = node.atMargin.asStatement := by
  cases node with
  | prefixed position op operand used => cases op <;> rfl
  | branch _ _ _ _ otherwise => cases otherwise <;> rfl
  | returns _ value => cases value <;> rfl
  | _ => rfl

variable {node : Node} {position : Position}

/-- A node that is a symbol up to columns is that symbol. -/
theorem eq_symbol_of_atMargin {name : String}
    (same : (symbol position name).atMargin = node.atMargin) :
    ∃ place, node = .symbol place name ∧ position.atMargin = place.atMargin := by
  cases node with
  | symbol place other =>
      injection same with samePlace sameName
      exact ⟨place, by rw [sameName], samePlace⟩
  | branch => rw [atMargin_branch] at same; cases same
  | returns => rw [atMargin_returns] at same; cases same
  | _ => cases same

/-- A node that is a path up to columns is that path. -/
theorem eq_path_of_atMargin {parts : List String}
    (same : (path position parts).atMargin = node.atMargin) :
    ∃ place, node = .path place parts ∧ position.atMargin = place.atMargin := by
  cases node with
  | path place others =>
      injection same with samePlace sameParts
      exact ⟨place, by rw [sameParts], samePlace⟩
  | branch => rw [atMargin_branch] at same; cases same
  | returns => rw [atMargin_returns] at same; cases same
  | _ => cases same

/-- A node that is an index up to columns is that index. -/
theorem eq_index_of_atMargin {body key : Node}
    (same : (index position body key).atMargin = node.atMargin) :
    ∃ place other otherKey, node = .index place other otherKey := by
  cases node with
  | index place other otherKey => exact ⟨place, other, otherKey, rfl⟩
  | branch => rw [atMargin_branch] at same; cases same
  | returns => rw [atMargin_returns] at same; cases same
  | _ => cases same

/-- A node that is a literal up to columns is that literal. -/
theorem eq_literal_of_atMargin {value : Datum}
    (same : (literal position value).atMargin = node.atMargin) :
    ∃ place, node = .literal place value := by
  cases node with
  | literal place other =>
      injection same with _ sameValue
      exact ⟨place, by rw [sameValue]⟩
  | branch => rw [atMargin_branch] at same; cases same
  | returns => rw [atMargin_returns] at same; cases same
  | _ => cases same

/-- Where nodes are the same up to columns, they start on the same line. -/
theorem position_of_atMargin {other : Node} (same : node.atMargin = other.atMargin) :
    node.position.atMargin = other.position.atMargin := by
  rw [← position_atMargin, ← position_atMargin, same]

end Node

theorem Dyadic.atMargin_node (operator : Dyadic) (left right : Node) :
    (operator.node left right).atMargin = operator.node left.atMargin right.atMargin := by
  unfold Dyadic.node
  rw [Node.position_atMargin]
  split <;> rfl

theorem atMargin_withReturn (position : Position) (body : List Node) :
    (withReturn position body).map Node.atMargin =
      withReturn position.atMargin (body.map Node.atMargin) := by
  unfold withReturn
  rw [List.getLast?_map]
  cases last : body.getLast? with
  | none => simp [Node.atMargin]
  | some node => cases node <;> simp [Node.atMargin, Node.position]

end Lehce

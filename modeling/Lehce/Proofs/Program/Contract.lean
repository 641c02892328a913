import Lehce.Proofs.Program.Occurrences
import Lehce.Proofs.Program.Reading

/-!
# What readers promise

A program that was read, from whatever tokens, has a form that needs no further check.
`Program.IsShaped` says so along the tree. `Node.IsLawful` says it once more of each node
by itself, wherever in the program it stands, bodies of functions included.
-/

namespace Lehce

namespace Node

/-- The nodes directly below a node. -/
def children : Node → List Node
  | .function _ _ _ _ body => body
  | node => node.parts

theorem sizeOf_child_lt {node child : Node} (member : child ∈ node.children) :
    sizeOf child < sizeOf node := by
  have below : ∀ {nodes : List Node}, child ∈ nodes → sizeOf child < sizeOf nodes :=
    List.sizeOf_lt_of_mem
  cases node with
  | literal | symbol | path | breaks | continues | nothing => simp [children, parts] at member
  | binary | control | assignment | index | prefixed | suffixed =>
      simp only [children, parts, List.mem_cons, List.not_mem_nil, or_false] at member
      simp only [binary.sizeOf_spec, control.sizeOf_spec, assignment.sizeOf_spec,
        index.sizeOf_spec, prefixed.sizeOf_spec, suffixed.sizeOf_spec]
      grind
  | block | list | function | endlessLoop =>
      simp only [children, parts] at member
      have smaller := below member
      simp only [block.sizeOf_spec, list.sizeOf_spec, function.sizeOf_spec,
        endlessLoop.sizeOf_spec]
      omega
  | call | whileLoop =>
      simp only [call.sizeOf_spec, whileLoop.sizeOf_spec]
      rcases List.mem_cons.1 member with rfl | member
      · omega
      · have smaller := below member
        omega
  | dict position entries =>
      rcases List.mem_map.1 member with ⟨⟨key, value⟩, entryMember, rfl⟩
      have smaller := List.sizeOf_lt_of_mem entryMember
      simp only [Prod.mk.sizeOf_spec] at smaller
      simp only [dict.sizeOf_spec]
      omega
  | branch position condition bodyPosition body otherwise =>
      simp only [branch.sizeOf_spec]
      simp only [children, parts, List.mem_cons, List.mem_append, Option.mem_toList] at member
      rcases member with rfl | member | rfl
      · omega
      · have smaller := below member
        omega
      · simp only [Option.some.sizeOf_spec]
        omega
  | returns position value =>
      simp only [children, parts, Option.mem_toList] at member
      subst member
      simp only [returns.sizeOf_spec, Option.some.sizeOf_spec]
      omega

/-- A deep walk meets a node and then the nodes below it. -/
theorem mem_occurrences_children {node occurrence : Node} :
    occurrence ∈ node.occurrences true ↔
      occurrence = node ∨ ∃ child ∈ node.children, occurrence ∈ child.occurrences true := by
  cases node with
  | branch _ _ _ _ otherwise =>
      cases otherwise <;> simp [occurrences, children, parts, or_and_right, exists_or]
  | returns _ value => cases value <;> simp [occurrences, children, parts]
  | dict _ entries => simp [occurrences, children, parts, occurrencesEntries_eq]
  | _ => simp [occurrences, children, parts]

/-- What passes from nodes to the nodes below them holds of every occurrence. -/
theorem forall_occurrences {holds : Node → Prop}
    (inherited : ∀ node, holds node → ∀ child ∈ node.children, holds child) (node : Node)
    (here : holds node) : ∀ occurrence ∈ node.occurrences true, holds occurrence := by
  intro occurrence inside
  rcases mem_occurrences_children.1 inside with rfl | ⟨child, member, inside⟩
  · exact here
  · have smaller := sizeOf_child_lt member
    exact forall_occurrences inherited child (inherited node here child member) occurrence inside
termination_by sizeOf node

/-- The nodes that can be assigned. -/
inductive IsTarget : Node → Prop where
  | symbol (position : Position) (name : String) : IsTarget (.symbol position name)
  | index (position : Position) (body key : Node) : IsTarget (.index position body key)

/-- The nodes that `++` and `--` can step. -/
inductive IsSymbol : Node → Prop where
  | symbol (position : Position) (name : String) : IsSymbol (.symbol position name)

/-- What a branch can go on with. -/
inductive IsAlternative : Node → Prop where
  | block (position : Position) (items : List Node) : IsAlternative (.block position items)
  | branch {node : Node} (chained : node.isBranch) : IsAlternative node

/-- What a node promises by itself. -/
def IsLawful : Node → Prop
  | .binary _ _ op _ => op.isArithmetic
  | .control _ _ op _ => op.isComparison ∨ op.isLogical
  | .assignment _ target op _ => op.isAssignment ∧ target.IsTarget
  | .call _ callee _ _ => callee.IsName
  | .dict _ entries => (entries.map (·.1)).Nodup
  | .prefixed _ op operand _ =>
    op = .not ∨ (op = .negate ∧ operand.isLiteral = false) ∨ (op.isStep ∧ operand.IsSymbol)
  | .suffixed _ op operand _ => op.isStep ∧ operand.IsSymbol
  | .branch _ _ _ _ otherwise => ∀ other ∈ otherwise, other.IsAlternative
  | .function _ _ params _ body => params.Nodup ∧ EndsWithReturn body
  | _ => True

/-- The trees that stand somewhere in a program. -/
inductive IsPart (allowed : Float → Prop) : Node → Prop where
  | expression {node : Node} (shape : node.IsExpression allowed) : IsPart allowed node
  | statement {inLoop inFunction : Bool} {node : Node}
      (shape : node.IsStatement allowed inLoop inFunction) : IsPart allowed node
  | block {inLoop inFunction : Bool} {position : Position} {items : List Node}
      (shapes : ∀ item ∈ items, item.IsStatement allowed inLoop inFunction) :
      IsPart allowed (.block position items)

variable {allowed : Float → Prop} {node : Node}

theorem IsExpression.symbol (position : Position) (name : String) :
    (Node.symbol position name).IsExpression allowed := .name (.symbol position name)

theorem IsExpression.isLawful (shape : node.IsExpression allowed) : node.IsLawful := by
  cases shape with
  | literal | nothing | list | index => trivial
  | name named => cases named <;> trivial
  | binary arithmetic => exact arithmetic
  | comparison compares => exact .inl compares
  | logical decides => exact .inr decides
  | call named => exact named
  | dict distinct => exact distinct
  | not => exact .inl rfl
  | negate unfolded => exact .inr (.inl ⟨rfl, unfolded⟩)
  | stepBefore steps => exact .inr (.inr ⟨steps, .symbol _ _⟩)
  | stepAfter steps => exact ⟨steps, .symbol _ _⟩

theorem IsStatement.isLawful {inLoop inFunction : Bool}
    (shape : node.IsStatement allowed inLoop inFunction) : node.IsLawful := by
  cases shape with
  | value shape => exact shape.isLawful
  | call named => exact named
  | stepBefore steps => exact .inr (.inr ⟨steps, .symbol _ _⟩)
  | stepAfter steps => exact ⟨steps, .symbol _ _⟩
  | assignment assigns => exact ⟨assigns, .symbol _ _⟩
  | itemAssignment assigns => exact ⟨assigns, .index _ _ _⟩
  | branch => simp [IsLawful]
  | branchElse => simpa [IsLawful] using IsAlternative.block _ _
  | branchChain _ _ chained => simpa [IsLawful] using IsAlternative.branch chained
  | function distinct _ ended => exact ⟨distinct, ended⟩
  | endlessLoop | whileLoop | breaks | continues | returns => trivial

theorem IsPart.isLawful (part : node.IsPart allowed) : node.IsLawful := by
  cases part with
  | expression shape => exact shape.isLawful
  | statement shape => exact shape.isLawful
  | block => trivial

theorem IsExpression.children (shape : node.IsExpression allowed) :
    ∀ child ∈ node.children, child.IsExpression allowed := by
  cases shape with
  | literal | nothing => simp [Node.children, parts]
  | name named => cases named <;> simp [Node.children, parts]
  | binary _ leftShape rightShape | comparison _ leftShape rightShape
  | logical _ leftShape rightShape | index leftShape rightShape =>
      simpa [Node.children, parts] using ⟨leftShape, rightShape⟩
  | call named argShapes => simpa [Node.children, parts] using ⟨.name named, argShapes⟩
  | list itemShapes => simpa [Node.children, parts] using itemShapes
  | dict _ valueShapes =>
      intro child member
      rcases List.mem_map.1 member with ⟨entry, entryMember, rfl⟩
      exact valueShapes entry entryMember
  | not operandShape | negate _ operandShape => simpa [Node.children, parts] using operandShape
  | stepBefore | stepAfter => simpa [Node.children, parts] using IsExpression.symbol _ _

theorem IsStatement.children {inLoop inFunction : Bool}
    (shape : node.IsStatement allowed inLoop inFunction) :
    ∀ child ∈ node.children, child.IsPart allowed := by
  intro child member
  cases shape with
  | value shape => exact .expression (shape.children child member)
  | call named argShapes =>
      rcases List.mem_cons.1 member with rfl | member
      · exact .expression (.name named)
      · exact .expression (argShapes child member)
  | stepBefore | stepAfter =>
      simp only [Node.children, parts, List.mem_singleton] at member
      subst member
      exact .expression (.symbol _ _)
  | assignment _ _ _ valueShape =>
      simp only [Node.children, parts, List.mem_cons, List.not_mem_nil, or_false] at member
      rcases member with rfl | rfl
      · exact .expression (.symbol _ _)
      · exact .expression valueShape
  | itemAssignment _ _ bodyShape keyShape valueShape =>
      simp only [Node.children, parts, List.mem_cons, List.not_mem_nil, or_false] at member
      rcases member with rfl | rfl
      · exact .expression (.index bodyShape keyShape)
      · exact .expression valueShape
  | branch conditionShape bodyShapes =>
      simp only [Node.children, parts, List.mem_cons, List.mem_append, Option.mem_toList,
        reduceCtorEq, or_false] at member
      rcases member with rfl | member
      · exact .expression conditionShape
      · exact .statement (bodyShapes child member)
  | branchElse conditionShape bodyShapes otherShapes =>
      simp only [Node.children, parts, List.mem_cons, List.mem_append, Option.mem_toList,
        Option.some.injEq] at member
      rcases member with rfl | member | rfl
      · exact .expression conditionShape
      · exact .statement (bodyShapes child member)
      · exact .block otherShapes
  | branchChain conditionShape bodyShapes _ otherShape =>
      simp only [Node.children, parts, List.mem_cons, List.mem_append, Option.mem_toList,
        Option.some.injEq] at member
      rcases member with rfl | member | rfl
      · exact .expression conditionShape
      · exact .statement (bodyShapes child member)
      · exact .statement otherShape
  | endlessLoop bodyShapes => exact .statement (bodyShapes child member)
  | whileLoop conditionShape bodyShapes =>
      rcases List.mem_cons.1 member with rfl | member
      · exact .expression conditionShape
      · exact .statement (bodyShapes child member)
  | breaks | continues => simp [Node.children, parts] at member
  | returns valueShape =>
      simp only [Node.children, parts, Option.mem_toList, Option.some.injEq] at member
      subst member
      exact .expression valueShape
  | function _ bodyShapes => exact .statement (bodyShapes child member)

theorem IsPart.children (part : node.IsPart allowed) :
    ∀ child ∈ node.children, child.IsPart allowed := by
  cases part with
  | expression shape => exact fun child member => .expression (shape.children child member)
  | statement shape => exact shape.children
  | block shapes => exact fun child member => .statement (shapes child member)

/-- Every node in a statement is lawful. -/
theorem IsStatement.occurrences_lawful {inLoop inFunction : Bool}
    (shape : node.IsStatement allowed inLoop inFunction) :
    ∀ occurrence ∈ node.occurrences true, occurrence.IsLawful := by
  intro occurrence inside
  have parts := forall_occurrences (fun _ part => IsPart.children part) node
    (IsPart.statement shape) occurrence inside
  exact parts.isLawful

end Node

theorem signless_true : Signless fun _ => True := ⟨fun _ => trivial, fun _ _ => trivial⟩

/--
A program that is read has the shape of a program: `kır` and `devam` stand only inside loops
and `döndür` only inside functions, and the value of a call, `++` or `--` is marked as used
exactly where it is no statement. Every node in it keeps what it promises by itself.
-/
theorem Program.contract_ofTokens {tokens : List Token} {program : Program}
    (read : Program.ofTokens tokens = .ok program) :
    program.IsShaped (fun _ => True) ∧
      ∀ node ∈ Node.occurrencesAll true program.items, node.IsLawful := by
  have proper : ∀ token ∈ tokens, token.kind.IsProper fun _ => True := by
    intro token _
    cases token.kind <;> trivial
  have shaped := isShaped_ofTokens signless_true proper read
  refine ⟨shaped, fun node inside => ?_⟩
  rcases Node.mem_occurrencesAll.1 inside with ⟨item, member, inside⟩
  exact (shaped item member).occurrences_lawful node inside

/-- A program with a definition, a loop and a branch, and calls that are statements or are not. -/
def countdown : String :=
  "fonk say(n):\n    döngü n > 0:\n        n--\n        n == 2 ise:\n            devam\n" ++
    "        değilse:\n            yaz(-n, \x7b'a': n++\x7d)\nsay(3)\n"

theorem contract_countdown : ∃ tokens program, Token.scan countdown = .ok tokens ∧
    Program.ofTokens tokens = .ok program ∧ program.IsShaped (fun _ => True) ∧
      ∀ node ∈ Node.occurrencesAll true program.items, node.IsLawful := by
  rcases Program.exists_ofSource countdown (fun _ => True) (by decide +kernel) with
    ⟨program, read, -⟩
  rw [Program.ofSource, bind_eq_ok] at read
  rcases read with ⟨tokens, scanned, read⟩
  exact ⟨tokens, program, scanned, read, Program.contract_ofTokens read⟩

end Lehce

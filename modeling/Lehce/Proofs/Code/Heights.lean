import Lehce.Proofs.Code.Regions

/-!
# Operands along the code

How many operands a statement has at each of its instructions. Every statement starts
without operands of its own. What is known of an instruction in its place is a `Mark`, and
scanning the code of an expression gives its marks.

Marks are closed when every instruction finds its operands and leads to marks with as many
operands as it leaves. At the top level a statement may leave a value behind; there the next
mark has fewer operands. Where values are dropped that never happens.
-/

namespace Lehce.Code

/-- An instruction in its place, with how many operands its statement has in front of it. -/
structure Mark where
  offset : Nat
  instruction : Instruction
  height : Nat
  drops : Bool

/-- How many operands the statement has behind the instruction. -/
def Mark.after (mark : Mark) : Nat :=
  mark.height - mark.instruction.takes + mark.instruction.leaves

/-- The marks of some instructions. -/
def scan (drops : Bool) (offset height : Nat) : List Instruction → List Mark
  | [] => []
  | instruction :: rest =>
    ⟨offset, instruction, height, drops⟩ :: scan drops (offset + instruction.size)
      (height - instruction.takes + instruction.leaves) rest

/-- How many operands there are behind some instructions. -/
def heightAfter (height : Nat) : List Instruction → Nat
  | [] => height
  | instruction :: rest =>
    heightAfter (height - instruction.takes + instruction.leaves) rest

/-- An offset has as many operands as there are, or fewer where values are not dropped. -/
def Leads (heights : Nat → Nat → Prop) (drops : Bool) (offset height : Nat) : Prop :=
  ∃ left ≤ height, heights offset left ∧ (drops = true → left = height)

/-- An instruction finds its operands, and what it leads to has the operands that it leaves. -/
structure Mark.IsClosed (heights : Nat → Nat → Prop) (mark : Mark) : Prop where
  enough : mark.instruction.takes ≤ mark.height
  next : mark.instruction.falls = true →
    Leads heights mark.drops (mark.offset + mark.instruction.size) mark.after
  target : ∀ target, mark.instruction.target? = some target →
    Leads heights mark.drops target mark.after

/--
Instructions are closed in any code that they are part of, if their end and the goals that
they jump to have the right heights there.
-/
def Steady (goal : Nat → Nat → Prop) (drops : Bool) (offset height : Nat)
    (code : List Instruction) : Prop :=
  ∀ heights : Nat → Nat → Prop,
    (∀ mark ∈ scan drops offset height code, heights mark.offset mark.height) →
    Leads heights drops (offset + codeSize code) (heightAfter height code) →
    (∀ target left, goal target left → Leads heights drops target left) →
      ∀ mark ∈ scan drops offset height code, mark.IsClosed heights

section Scanning

variable {drops : Bool} {offset height : Nat} {goal : Nat → Nat → Prop}
  {front back : List Instruction}

theorem heightAfter_append (height : Nat) (front back : List Instruction) :
    heightAfter height (front ++ back) = heightAfter (heightAfter height front) back := by
  induction front generalizing height with
  | nil => rfl
  | cons instruction rest ih => exact ih _

theorem scan_append (drops : Bool) (offset height : Nat) (front back : List Instruction) :
    scan drops offset height (front ++ back) = scan drops offset height front ++
      scan drops (offset + codeSize front) (heightAfter height front) back := by
  induction front generalizing offset height with
  | nil => rfl
  | cons instruction rest ih =>
      simp only [List.cons_append, scan, ih, codeSize_cons, heightAfter, Nat.add_assoc]

/-- Marks name the instructions and where they stand. -/
theorem map_scan (drops : Bool) (offset height : Nat) (code : List Instruction) :
    (scan drops offset height code).map (fun mark => (mark.offset, Piece.plain mark.instruction)) =
      placed offset (plainPieces code) := by
  induction code generalizing offset height with
  | nil => rfl
  | cons instruction rest ih =>
      simp only [scan, List.map_cons, ih, plainPieces_cons, placed_cons]
      rfl

theorem drops_of_mem_scan {code : List Instruction} {mark : Mark}
    (member : mark ∈ scan drops offset height code) : mark.drops = drops := by
  induction code generalizing offset height with
  | nil => cases member
  | cons instruction rest ih =>
      rcases List.mem_cons.1 member with rfl | later
      · rfl
      · exact ih later

theorem leads_of_heights {heights : Nat → Nat → Prop} (known : heights offset height) :
    Leads heights drops offset height :=
  ⟨height, Nat.le_refl _, known, fun _ => rfl⟩

theorem Steady.nil : Steady goal drops offset height [] :=
  fun _ _ _ _ _ member => (List.not_mem_nil member).elim

theorem Steady.append (first : Steady goal drops offset height front)
    (second : Steady goal drops (offset + codeSize front) (heightAfter height front) back) :
    Steady goal drops offset height (front ++ back) := by
  cases back with
  | nil => rwa [List.append_nil]
  | cons instruction rest =>
      intro heights known ends goals
      rw [scan_append] at known ⊢
      rw [List.forall_mem_append] at known ⊢
      rw [codeSize_append, heightAfter_append, ← Nat.add_assoc] at ends
      -- The front ends where the back starts, which has a mark.
      have middle := known.2 _ List.mem_cons_self
      exact ⟨first heights known.1 (leads_of_heights middle) goals,
        second heights known.2 ends goals⟩

theorem Steady.append_at {middle between : Nat} (first : Steady goal drops offset height front)
    (middleEq : offset + codeSize front = middle) (betweenEq : heightAfter height front = between)
    (second : Steady goal drops middle between back) :
    Steady goal drops offset height (front ++ back) := by
  subst middleEq betweenEq
  exact first.append second

/-- An instruction that does not jump is closed when it finds its operands. -/
theorem Steady.single {instruction : Instruction} (enough : instruction.takes ≤ height)
    (straight : instruction.target? = none) :
    Steady goal drops offset height [instruction] := by
  intro heights known ends goals mark member
  rw [scan, scan, List.mem_singleton] at member
  subst member
  refine ⟨enough, fun _ => ends, ?_⟩
  intro target leads
  rw [straight] at leads
  cases leads

/-- A conditional jump is closed when its target is a goal. -/
theorem Steady.compare {target : Nat} (small : target ≤ maxOperand)
    (goes : goal target height) :
    Steady goal drops offset (height + 1) [.compare target.toUInt16] := by
  intro heights known ends goals mark member
  rw [scan, scan, List.mem_singleton] at member
  subst member
  refine ⟨Nat.le_add_left 1 height, fun _ => ends, ?_⟩
  rintro place ⟨⟩
  rw [toNat_toUInt16 small]
  exact goals _ _ goes

/-- A goal that is the end of the code is none. -/
theorem Steady.reach {fewer : Nat → Nat → Prop} {code : List Instruction}
    (steady : Steady goal drops offset height code)
    (reached : ∀ target left, goal target left →
      (target = offset + codeSize code ∧ left = heightAfter height code) ∨ fewer target left) :
    Steady fewer drops offset height code := by
  intro heights known ends goals
  refine steady heights known ends ?_
  intro target left goes
  rcases reached target left goes with ⟨rfl, rfl⟩ | stays
  · exact ends
  · exact goals target left stays

end Scanning

section Expressions

variable {allowed : Float → Prop} {functions : Functions} {place : Surroundings}

theorem Fits.part {scope : Scope} {node part : Node} (fits : Fits functions scope node)
    (member : part ∈ node.parts) : Fits functions scope part := fun occurrence inside =>
  fits occurrence (Node.mem_occurrences_iff.2 (.inr ⟨part, member, inside⟩))

theorem Fits.few {scope : Scope} {position : Position} {callee : Node} {args : List Node}
    {used : Bool} (fits : Fits functions scope (.call position callee args used)) :
    args.length ≤ 255 := by
  have misfit := fits _ (Node.mem_occurrences_self false _)
  rw [callMisfit?] at misfit
  split at misfit
  · split at misfit
    · cases misfit
    · omega
  · cases misfit

/-- Some code is steady and leaves a number of operands more. -/
structure Leaves (added offset : Nat) (code : List Instruction) : Prop where
  height : ∀ height, heightAfter height code = height + added
  steady : ∀ goal drops height, Steady goal drops offset height code

theorem Leaves.append {added more middle offset : Nat} {front back : List Instruction}
    (first : Leaves added offset front) (middleEq : offset + codeSize front = middle)
    (second : Leaves more middle back) :
    Leaves (added + more) offset (front ++ back) where
  height height := by rw [heightAfter_append, first.height, second.height, Nat.add_assoc]
  steady goal drops height :=
    (first.steady goal drops height).append_at middleEq (first.height height)
      (second.steady goal drops _)

/-- Code that leaves the operands of an instruction is followed by it. -/
theorem Leaves.concat {added offset : Nat} {code : List Instruction}
    (leaves : Leaves added offset code) (instruction : Instruction) (enough : instruction.takes ≤ added)
    (straight : instruction.target? = none) :
    Leaves (added - instruction.takes + instruction.leaves) offset (code ++ [instruction]) where
  height height := by
    rw [heightAfter_append, leaves.height]
    simp only [heightAfter]
    omega
  steady goal drops height := by
    refine (leaves.steady goal drops height).append_at rfl (leaves.height height) ?_
    exact .single (by omega) straight

theorem leaves_nil (offset : Nat) : Leaves 0 offset [] :=
  ⟨fun _ => rfl, fun _ _ _ => .nil⟩

theorem leaves_load (offset : Nat) (slot : UInt16) : Leaves 1 offset [.load slot] :=
  (leaves_nil offset).concat (.load slot) (Nat.le_refl 0) rfl

/-- The code of an expression leaves one operand. -/
def ExpressionLeaves (functions : Functions) (place : Surroundings) (node : Node) : Prop :=
  ∀ offset, offset + node.expressionSize ≤ maxOperand → Fits functions place.scope node →
    Leaves 1 offset (assembleExpression functions place offset node)

theorem codeSize_assembleExpression (functions : Functions) (place : Surroundings) {node : Node}
    (shape : node.IsExpression allowed) (start : Nat) : codeSize (assembleExpression functions place start node) =
      node.expressionSize :=
  size_assembleExpression functions place shape start

theorem leaves_both {left right : Node} (leftShape : left.IsExpression allowed)
    (leftLeaves : ExpressionLeaves functions place left)
    (rightLeaves : ExpressionLeaves functions place right)
    (leftFits : Fits functions place.scope left) (rightFits : Fits functions place.scope right)
    {instruction : Instruction} (takes : instruction.takes = 2) (leaves : instruction.leaves = 1)
    (straight : instruction.target? = none) {offset : Nat}
    (small : offset + left.expressionSize + right.expressionSize ≤ maxOperand) :
    Leaves 1 offset (assembleExpression functions place offset left ++
      (assembleExpression functions place (offset + left.expressionSize) right ++
        [instruction])) := by
  have both := (leftLeaves offset (by omega) leftFits).append
    (by rw [codeSize_assembleExpression _ _ leftShape])
    (rightLeaves (offset + left.expressionSize) (by omega) rightFits)
  have whole := both.concat instruction (by omega) straight
  rw [takes, leaves, List.append_assoc] at whole
  exact whole

theorem leaves_expressions {nodes : List Node} (shapes : ∀ node ∈ nodes, node.IsExpression allowed)
    (leaves : ∀ node ∈ nodes, ExpressionLeaves functions place node)
    (fits : ∀ node ∈ nodes, Fits functions place.scope node) (offset : Nat)
    (small : offset + Node.expressionsSize nodes ≤ maxOperand) :
    Leaves nodes.length offset (assembleExpressions functions place offset nodes) := by
  induction nodes generalizing offset with
  | nil =>
      rw [assembleExpressions]
      exact leaves_nil offset
  | cons node rest ih =>
      rcases List.forall_mem_cons.1 shapes with ⟨shape, restShapes⟩
      rcases List.forall_mem_cons.1 leaves with ⟨nodeLeaves, restLeaves⟩
      rcases List.forall_mem_cons.1 fits with ⟨nodeFits, restFits⟩
      rw [Node.expressionsSize] at small
      rw [assembleExpressions, List.length_cons, Nat.add_comm]
      exact (nodeLeaves offset (by omega) nodeFits).append
        (by rw [codeSize_assembleExpression _ _ shape])
        (ih restShapes restLeaves restFits _ (by omega))

theorem leaves_entries {entries : List (String × Node)}
    (shapes : ∀ entry ∈ entries, entry.2.IsExpression allowed)
    (leaves : ∀ entry ∈ entries, ExpressionLeaves functions place entry.2)
    (fits : ∀ entry ∈ entries, Fits functions place.scope entry.2) (offset : Nat)
    (small : offset + Node.entriesSize entries ≤ maxOperand) :
    Leaves (2 * entries.length) offset (assembleEntries functions place offset entries) := by
  induction entries generalizing offset with
  | nil =>
      rw [assembleEntries]
      exact leaves_nil offset
  | cons entry rest ih =>
      rcases List.forall_mem_cons.1 shapes with ⟨shape, restShapes⟩
      rcases List.forall_mem_cons.1 leaves with ⟨entryLeaves, restLeaves⟩
      rcases List.forall_mem_cons.1 fits with ⟨entryFits, restFits⟩
      rw [Node.entriesSize] at small
      have value := entryLeaves (offset + 3) (by omega) entryFits
      have others := ih restShapes restLeaves restFits (offset + 3 + entry.2.expressionSize)
        (by omega)
      have whole := (leaves_load offset (literalAddress place.scope (.text entry.1))).append rfl
        (value.append (by rw [codeSize_assembleExpression _ _ shape]) others)
      have count : 2 * (entry :: rest).length = 1 + (1 + 2 * rest.length) := by
        rw [List.length_cons]
        omega
      rw [assembleEntries, count]
      exact whole

theorem leaves_call (used : Bool) {position : Position} {callee : Node} {args : List Node}
    (argShapes : ∀ arg ∈ args, arg.IsExpression allowed)
    (argLeaves : ∀ arg ∈ args, ExpressionLeaves functions place arg) {offset : Nat}
    (small : offset + (Node.call position callee args used).expressionSize ≤ maxOperand)
    (fits : Fits functions place.scope (.call position callee args used)) :
    Leaves (if used then 1 else 0) offset
      (assembleExpression functions place offset (.call position callee args used)) := by
  have few := fits.few
  rw [Node.expressionSize] at small
  have args' := leaves_expressions argShapes argLeaves
    (fun arg member => fits.part (by simp [Node.parts, member])) offset (by omega)
  have count : args.length.toUInt8.toNat = args.length := by
    rw [Nat.toUInt8, UInt8.toNat_ofNat']
    omega
  have whole := args'.concat
    (.call (nameAddress functions place callee) args.length.toUInt8 used)
    (by simp [Instruction.takes, count]) rfl
  rw [Instruction.takes, Instruction.leaves, count, Nat.sub_self, Nat.zero_add] at whole
  rw [assembleExpression]
  exact whole

theorem leaves_stepBefore (used : Bool) {position operandPosition : Position} {op : Op}
    (steps : op.isStep) {name : String} (offset : Nat) :
    Leaves (if used then 1 else 0) offset (assembleExpression functions place offset
      (.prefixed position op (.symbol operandPosition name) used)) := by
  have code : assembleExpression functions place offset
      (.prefixed position op (.symbol operandPosition name) used) =
        [.load (variableAddress place.scope name), .unary (stepOp op)] ++
          [if used then .fastStore (variableAddress place.scope name)
          else .store (variableAddress place.scope name)] := by
    cases op <;> first | rfl | cases steps
  have loads := leaves_load offset (variableAddress place.scope name)
  have value := loads.concat (.unary (stepOp op)) (Nat.le_refl 1) rfl
  rw [code]
  cases used with
  | true =>
      exact value.concat (.fastStore (variableAddress place.scope name))
        (Nat.le_refl 1) rfl
  | false =>
      exact value.concat (.store (variableAddress place.scope name))
        (Nat.le_refl 1) rfl

theorem leaves_stepAfter (used : Bool) {position operandPosition : Position} {op : Op}
    {name : String} (offset : Nat) :
    Leaves (if used then 1 else 0) offset (assembleExpression functions place offset
      (.suffixed position op (.symbol operandPosition name) used)) := by
  have loads := leaves_load offset (variableAddress place.scope name)
  rw [assembleExpression]
  cases used with
  | true =>
      have copies := loads.concat .dup (Nat.le_refl 1) rfl
      have value := copies.concat (.unary (stepOp op)) (Nat.le_succ 1) rfl
      exact value.concat (.store (variableAddress place.scope name))
        (Nat.le_succ 1) rfl
  | false =>
      have value := loads.concat (.unary (stepOp op)) (Nat.le_refl 1) rfl
      exact value.concat (.store (variableAddress place.scope name))
        (Nat.le_refl 1) rfl

/-- Whichever operand of `ve` or `veya` decides, it is the one that is left. -/
theorem leaves_deciding {left right : Node} (leftShape : left.IsExpression allowed)
    (rightShape : right.IsExpression allowed)
    (rightLeaves : ExpressionLeaves functions place right)
    (rightFits : Fits functions place.scope right) {tests : List Instruction} {offset middle stop : Nat}
    (testing : Leaves 2 offset (assembleExpression functions place offset left ++ tests))
    (middleEq : middle = offset + left.expressionSize + codeSize tests + 4)
    (stopEq : stop = middle + right.expressionSize) (small : stop ≤ maxOperand) :
    Leaves 1 offset (assembleExpression functions place offset left ++
      (tests ++ .compare stop.toUInt16 :: .pop ::
        assembleExpression functions place middle right)) := by
  have leftSize : codeSize (assembleExpression functions place offset left) = _ :=
    codeSize_assembleExpression _ _ leftShape offset
  have rightSize : codeSize (assembleExpression functions place middle right) = _ :=
    codeSize_assembleExpression _ _ rightShape middle
  have rightPart := rightLeaves middle (by omega) rightFits
  have code : assembleExpression functions place offset left ++ (tests ++
      .compare stop.toUInt16 :: .pop :: assembleExpression functions place middle right) =
    (assembleExpression functions place offset left ++ tests) ++ ([.compare stop.toUInt16] ++
      ([.pop] ++ assembleExpression functions place middle right)) := by simp
  have compareSize : Instruction.size (.compare stop.toUInt16) = 3 := rfl
  have popSize : Instruction.size .pop = 1 := rfl
  have ending : ∀ height, heightAfter height (assembleExpression functions place offset left ++
      (tests ++ .compare stop.toUInt16 :: .pop ::
        assembleExpression functions place middle right)) = height + 1 := by
    intro height
    rw [code, heightAfter_append, testing.height, heightAfter_append, heightAfter_append,
      rightPart.height]
    rfl
  refine ⟨ending, fun goal drops height => ?_⟩
  have whole : Steady (fun target left => target = stop ∧ left = height + 1) drops offset height
      (assembleExpression functions place offset left ++
        (tests ++ .compare stop.toUInt16 :: .pop ::
          assembleExpression functions place middle right)) := by
    rw [code]
    refine (testing.steady _ drops height).append_at rfl (testing.height height) ?_
    refine (Steady.compare small ⟨rfl, rfl⟩).append_at rfl rfl ?_
    refine (Steady.single (Nat.le_add_left 1 height) rfl).append_at ?_ rfl
      (rightPart.steady _ drops height)
    simp only [codeSize_append, codeSize_cons, codeSize_nil, compareSize, popSize, leftSize]
    omega
  refine whole.reach ?_
  rintro target left ⟨rfl, rfl⟩
  refine .inl ⟨?_, (ending height).symm⟩
  simp only [codeSize_append, codeSize_cons, compareSize, popSize, leftSize, rightSize]
  omega

theorem leaves_logical {position : Position} {left right : Node} {op : Op} (decides : op.isLogical)
    (leftShape : left.IsExpression allowed) (rightShape : right.IsExpression allowed)
    (leftLeaves : ExpressionLeaves functions place left)
    (rightLeaves : ExpressionLeaves functions place right) :
    ExpressionLeaves functions place (.control position left op right) := by
  intro offset small fits
  have leftFits : Fits functions place.scope left := fits.part (by simp [Node.parts])
  have rightFits : Fits functions place.scope right := fits.part (by simp [Node.parts])
  simp only [Node.expressionSize, decides, if_true] at small
  have copies := (leftLeaves offset (by omega) leftFits).concat .dup
    (Nat.le_refl 1) rfl
  cases op <;> cases decides
  · rw [assembleExpression]
    exact leaves_deciding leftShape rightShape rightLeaves rightFits copies rfl rfl
      (by simp at small ⊢; omega)
  · have negates := copies.concat (.unary .not) (Nat.le_succ 1) rfl
    rw [List.append_assoc] at negates
    rw [assembleExpression]
    exact leaves_deciding leftShape rightShape rightLeaves rightFits negates rfl rfl
      (by simp at small ⊢; omega)

/-- The code of every expression leaves one operand. -/
theorem leaves_expression (functions : Functions) (place : Surroundings) {node : Node}
    (shape : node.IsExpression allowed) :
    ExpressionLeaves functions place node := by
  induction shape with
  | literal known | nothing =>
      intro offset small fits
      rw [assembleExpression]
      exact leaves_load offset _
  | name named =>
      intro offset small fits
      cases named <;>
      · rw [assembleExpression]
        · exact leaves_load offset _
        all_goals simp
  | binary arithmetic leftShape rightShape leftLeaves rightLeaves =>
      intro offset small fits
      rw [Node.expressionSize] at small
      rw [assembleExpression]
      exact leaves_both leftShape leftLeaves rightLeaves (fits.part (by simp [Node.parts]))
        (fits.part (by simp [Node.parts])) rfl rfl rfl (by omega)
  | @comparison position left right op compares leftShape rightShape leftLeaves rightLeaves =>
      intro offset small fits
      rcases comparisonOp?_isSome compares with ⟨operation, found⟩
      have notLogical : op.isLogical = false := by
        cases op <;> first | rfl | cases compares
      simp only [Node.expressionSize, notLogical, Bool.false_eq_true, if_false] at small
      rw [assembleExpression, found]
      exact leaves_both leftShape leftLeaves rightLeaves (fits.part (by simp [Node.parts]))
        (fits.part (by simp [Node.parts])) rfl rfl rfl (by omega)
  | logical decides leftShape rightShape leftLeaves rightLeaves =>
      exact leaves_logical decides leftShape rightShape leftLeaves rightLeaves
  | call named argShapes argLeaves =>
      intro offset small fits
      exact leaves_call true argShapes argLeaves small fits
  | @list position items itemShapes itemLeaves =>
      intro offset small fits
      have length := length_le_expressionsSize itemShapes
      rw [Node.expressionSize] at small
      have count : items.length.toUInt16.toNat = items.length := toNat_toUInt16 (by omega)
      have values := leaves_expressions itemShapes itemLeaves
        (fun item member => fits.part (by simp [Node.parts, member])) offset (by omega)
      have whole := values.concat (.initList items.length.toUInt16)
        (by simp [Instruction.takes, count]) rfl
      rw [Instruction.takes, count, Nat.sub_self] at whole
      rw [assembleExpression]
      exact whole
  | @dict position entries distinct valueShapes valueLeaves =>
      intro offset small fits
      have length := length_le_entriesSize entries
      rw [Node.expressionSize] at small
      have count : entries.length.toUInt16.toNat = entries.length := toNat_toUInt16 (by omega)
      have values := leaves_entries valueShapes valueLeaves
        (fun entry member => fits.part (by simp [Node.parts]; exact ⟨_, member⟩))
        offset (by omega)
      have whole := values.concat (.initDict entries.length.toUInt16)
        (by simp [Instruction.takes, count]) rfl
      rw [Instruction.takes, count, Nat.sub_self] at whole
      rw [assembleExpression]
      exact whole
  | not operandShape operandLeaves =>
      intro offset small fits
      simp only [Node.expressionSize, Op.isStep, Bool.false_eq_true, if_false] at small
      rw [assembleExpression]
      exact (operandLeaves offset (by omega) (fits.part (by simp [Node.parts]))).concat
        (.unary .not) (Nat.le_refl 1) rfl
  | negate unfolded operandShape operandLeaves =>
      intro offset small fits
      simp only [Node.expressionSize, Op.isStep, Bool.false_eq_true, if_false] at small
      rw [assembleExpression]
      · exact (operandLeaves offset (by omega) (fits.part (by simp [Node.parts]))).concat
          (.unary .negate) (Nat.le_refl 1) rfl
      all_goals simp
  | stepBefore steps operandPosition name =>
      intro offset small fits
      exact leaves_stepBefore true steps offset
  | stepAfter steps operandPosition name =>
      intro offset small fits
      exact leaves_stepAfter true offset
  | index bodyShape keyShape bodyLeaves keyLeaves =>
      intro offset small fits
      rw [Node.expressionSize] at small
      rw [assembleExpression]
      exact leaves_both bodyShape bodyLeaves keyLeaves (fits.part (by simp [Node.parts]))
        (fits.part (by simp [Node.parts])) rfl rfl rfl (by omega)

end Expressions

end Lehce.Code

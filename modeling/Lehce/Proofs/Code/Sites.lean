import Lehce.Proofs.Code.StatementHeights

/-!
# Where statements stand

The places of a program at which its operands can be told: where a statement starts, and
where the condition of a loop does. A `Site` is such a place with the loops around it that
belong to the same scope. Inside a loop and inside the body of a function all values of
statements are dropped.
-/

namespace Lehce.Code

/-- A part of the code. -/
structure Range where
  start : Nat
  stop : Nat
  deriving DecidableEq

/-- Whether an offset lies in a part of the code. -/
def Range.Covers (range : Range) (offset : Nat) : Prop :=
  range.start ≤ offset ∧ offset < range.stop

/-- A place at which a statement or the condition of a loop starts, and the loops around it. -/
structure Site where
  offset : Nat
  inFunction : Bool
  loops : List Range

mutual

/-- The sites of a statement and of those in it. -/
def statementSites (drops inFunction : Bool) (loops : List Range) (start : Nat) (node : Node) :
    List Site :=
  match node with
  | .block _ items => statementsSites drops inFunction loops start items
  | .branch _ condition _ body otherwise =>
    let first := start + condition.expressionSize + 3
    ⟨start, inFunction, loops⟩ :: (statementsSites drops inFunction loops first body ++
      match otherwise with
      | none => []
      | some other =>
        statementSites drops inFunction loops (first + Node.statementsSize drops body + 3) other)
  | .whileLoop _ condition _ body =>
    let first := start + condition.expressionSize + 3
    let inside := ⟨start, first + Node.statementsSize true body + 3⟩ :: loops
    ⟨start, inFunction, loops⟩ :: ⟨start, inFunction, inside⟩ ::
      statementsSites true inFunction inside first body
  | .endlessLoop _ _ body =>
    ⟨start, inFunction, loops⟩ :: statementsSites true inFunction
      (⟨start, start + Node.statementsSize true body + 3⟩ :: loops) start body
  | .function _ _ _ _ body =>
    ⟨start, inFunction, loops⟩ :: statementsSites true true [] (start + 3) body
  | _ => [⟨start, inFunction, loops⟩]

/-- The sites of some statements. -/
def statementsSites (drops inFunction : Bool) (loops : List Range) (start : Nat) :
    List Node → List Site
  | [] => []
  | node :: rest =>
    statementSites drops inFunction loops start node ++
      statementsSites drops inFunction loops (start + node.statementSize drops) rest

end

/-- The sites of a program. -/
def programSites (program : Program) : List Site :=
  statementsSites false false [] 0 program.items

section Ranges

variable {allowed : Float → Prop} {functions : Functions}

/-- All marks lie in a part of the code. -/
def Within (start stop : Nat) (marks : List Mark) : Prop :=
  ∀ mark ∈ marks, start ≤ mark.offset ∧ mark.offset < stop

theorem within_of_placed {start stop : Nat} {marks : List Mark} {pieces : List Piece}
    (places : marks.map Mark.placed = placed start pieces)
    (size : start + piecesSize pieces ≤ stop) : Within start stop marks := by
  intro mark member
  have standing : mark.placed ∈ placed start pieces := by
    rw [← places]
    exact List.mem_map_of_mem member
  have bounds := placed_bounds standing
  exact ⟨bounds.1, Nat.lt_of_lt_of_le bounds.2 size⟩

theorem within_scan (drops : Bool) (start height : Nat) (code : List Instruction) :
    Within start (start + codeSize code) (scan drops start height code) :=
  within_of_placed (map_placed_scan drops start height code) (Nat.le_refl _)

theorem within_statement (exits : Exit → Nat) {place : Surroundings} {inLoop inFunction : Bool}
    {node : Node} (shape : node.IsStatement allowed inLoop inFunction) (start : Nat) :
    Within start (start + node.statementSize place.drops)
      (markStatement functions place exits start node) := by
  refine within_of_placed (map_markStatement exits shape start) (Nat.le_of_eq ?_)
  rw [piecesSize_map_fillAll, size_assembleStatement functions place shape]

/-- A part of the code that starts without operands, and in which all values are dropped. -/
structure IsTight (marks : List Mark) (range : Range) : Prop where
  nonempty : range.start < range.stop
  starts : ∃ mark ∈ marks, mark.offset = range.start ∧ mark.height = 0
  drops : ∀ mark ∈ marks, range.Covers mark.offset → mark.drops = true

theorem drops_statements {place : Surroundings} {exits : Exit → Nat} {nodes : List Node}
    (drops : ∀ node ∈ nodes, ∀ start, ∀ mark ∈ markStatement functions place exits start node,
      mark.drops = true) (start : Nat) :
    ∀ mark ∈ markStatements functions place exits start nodes, mark.drops = true := by
  induction nodes generalizing start with
  | nil => simp [markStatements]
  | cons node rest ih =>
      rcases List.forall_mem_cons.1 drops with ⟨first, others⟩
      rw [markStatements, List.forall_mem_append]
      exact ⟨first start, ih others _⟩

theorem drops_scan {drops : Bool} (dropped : drops = true) (offset height : Nat)
    (code : List Instruction) : ∀ mark ∈ scan drops offset height code, mark.drops = true :=
  fun _ member => (drops_of_mem_scan member).trans dropped

/-- Where values are dropped, all marks say so. -/
theorem drops_statement (exits : Exit → Nat) {place : Surroundings} (dropped : place.drops = true)
    {inLoop inFunction : Bool} {node : Node} (shape : node.IsStatement allowed inLoop inFunction)
    (start : Nat) :
    ∀ mark ∈ markStatement functions place exits start node, mark.drops = true := by
  induction shape generalizing place start exits with
  | value shape lasting =>
      rw [markStatement_of_valued exits shape.isValued]
      exact drops_scan dropped _ _ _
  | call | stepBefore | stepAfter =>
      rw [markStatement_of_valued exits rfl]
      exact drops_scan dropped _ _ _
  | assignment | itemAssignment | returns | breaks | continues =>
      simp only [markStatement]
      exact drops_scan dropped _ _ _
  | branch conditionShape bodyShapes bodyDrops =>
      simp only [markStatement, List.forall_mem_append]
      exact ⟨drops_scan dropped _ _ _,
        drops_statements (fun item member => bodyDrops item member exits dropped) _⟩
  | branchElse conditionShape bodyShapes otherShapes bodyDrops otherDrops =>
      simp only [markStatement, List.forall_mem_append]
      exact ⟨drops_scan dropped _ _ _,
        drops_statements (fun item member => bodyDrops item member exits dropped) _,
        drops_scan dropped _ _ _,
        drops_statements (fun item member => otherDrops item member exits dropped) _⟩
  | branchChain conditionShape bodyShapes chained otherShape bodyDrops otherDrops =>
      simp only [markStatement, List.forall_mem_append]
      exact ⟨drops_scan dropped _ _ _,
        drops_statements (fun item member => bodyDrops item member exits dropped) _,
        drops_scan dropped _ _ _, otherDrops exits dropped _⟩
  | endlessLoop bodyShapes bodyDrops =>
      simp only [markStatement, List.forall_mem_append]
      exact ⟨drops_statements
          (fun item member => bodyDrops item member _ (looping_drops place)) _,
        drops_scan rfl _ _ _⟩
  | whileLoop conditionShape bodyShapes bodyDrops =>
      simp only [markStatement, List.forall_mem_append]
      exact ⟨drops_scan rfl _ _ _, drops_statements
          (fun item member => bodyDrops item member _ (looping_drops place)) _,
        drops_scan rfl _ _ _⟩
  | function distinct bodyShapes ended bodyDrops =>
      simp only [markStatement, List.forall_mem_append]
      exact ⟨drops_scan dropped _ _ _,
        drops_statements (fun item member => bodyDrops item member exits rfl) _⟩

theorem drops_items (functions : Functions) (exits : Exit → Nat) {place : Surroundings}
    (dropped : place.drops = true) {inLoop inFunction : Bool} {nodes : List Node}
    (shapes : ∀ node ∈ nodes, node.IsStatement allowed inLoop inFunction) (start : Nat) :
    ∀ mark ∈ markStatements functions place exits start nodes, mark.drops = true :=
  drops_statements (fun node member => drops_statement exits dropped (shapes node member)) start

end Ranges

section Surveys

variable {allowed : Float → Prop} {functions : Functions} {start middle stop : Nat}
  {marks more : List Mark} {bodies others : List Body} {sites rest : List Site}
  {inFunction : Bool} {loops : List Range}

/-- A tight part of the code lies in another part. -/
structure IsTightIn (start stop : Nat) (marks : List Mark) (range : Range) : Prop
    extends IsTight marks range where
  first : start ≤ range.start
  last : range.stop ≤ stop

/-- A site has no operands, and it is known in which function and in which loops it is. -/
structure Site.IsIn (start stop : Nat) (marks : List Mark) (bodies : List Body)
    (inFunction : Bool) (loops : List Range) (site : Site) : Prop where
  mark : ∃ mark ∈ marks, mark.offset = site.offset ∧ mark.height = 0
  function : site.inFunction = true →
    inFunction = true ∨ ∃ body ∈ bodies, body.Covers site.offset
  loops : ∀ range ∈ site.loops, range ∈ loops ∨ IsTightIn start stop marks range

/-- What is known of a part of the code, given the function and the loops around it. -/
structure Surveyed (start stop : Nat) (marks : List Mark) (bodies : List Body)
    (inFunction : Bool) (loops : List Range) (sites : List Site) : Prop where
  ordered : start ≤ stop
  within : Within start stop marks
  tightBodies : ∀ body ∈ bodies, IsTightIn start stop marks ⟨body.entry, body.stop⟩
  knownSites : ∀ site ∈ sites, site.IsIn start stop marks bodies inFunction loops

theorem IsTightIn.append_right {range : Range} (tight : IsTightIn start middle marks range)
    (ordered : middle ≤ stop) (behind : Within middle stop more) :
    IsTightIn start stop (marks ++ more) range := by
  have last := tight.last
  refine ⟨⟨tight.nonempty, ?_, ?_⟩, tight.first, by omega⟩
  · exact exists_mark_append tight.starts
  · intro mark member covers
    rcases List.mem_append.1 member with here | there
    · exact tight.drops mark here covers
    · have far := (behind mark there).1
      have near := covers.2
      omega

theorem IsTightIn.append_left {range : Range} (tight : IsTightIn middle stop more range)
    (ordered : start ≤ middle) (before : Within start middle marks) :
    IsTightIn start stop (marks ++ more) range := by
  have first := tight.first
  refine ⟨⟨tight.nonempty, ?_, ?_⟩, by omega, tight.last⟩
  · rcases tight.starts with ⟨mark, member, same⟩
    exact ⟨mark, List.mem_append_right _ member, same⟩
  · intro mark member covers
    rcases List.mem_append.1 member with there | here
    · have far := (before mark there).2
      have near := covers.1
      omega
    · exact tight.drops mark here covers

/-- Parts of the code that stand one behind the other. -/
theorem Surveyed.append (front : Surveyed start middle marks bodies inFunction loops sites)
    (back : Surveyed middle stop more others inFunction loops rest) :
    Surveyed start stop (marks ++ more) (bodies ++ others) inFunction loops (sites ++ rest) := by
  have ordered := front.ordered
  have backOrdered := back.ordered
  refine ⟨by omega, ?_, ?_, ?_⟩
  · intro mark member
    rcases List.mem_append.1 member with early | late
    · have bounds := front.within mark early
      omega
    · have bounds := back.within mark late
      omega
  · intro body member
    rcases List.mem_append.1 member with early | late
    · exact (front.tightBodies body early).append_right backOrdered back.within
    · exact (back.tightBodies body late).append_left ordered front.within
  · intro site member
    rcases List.mem_append.1 member with early | late
    · rcases front.knownSites site early with ⟨mark, function, around⟩
      refine ⟨exists_mark_append mark, ?_, ?_⟩
      · intro inside
        rcases function inside with outer | ⟨body, bodyMember, covers⟩
        · exact .inl outer
        · exact .inr ⟨body, List.mem_append_left _ bodyMember, covers⟩
      · intro range rangeMember
        exact (around range rangeMember).imp_right
          (·.append_right backOrdered back.within)
    · rcases back.knownSites site late with ⟨⟨mark, markMember, same⟩, function, around⟩
      refine ⟨⟨mark, List.mem_append_right _ markMember, same⟩, ?_, ?_⟩
      · intro inside
        rcases function inside with outer | ⟨body, bodyMember, covers⟩
        · exact .inl outer
        · exact .inr ⟨body, List.mem_append_right _ bodyMember, covers⟩
      · intro range rangeMember
        exact (around range rangeMember).imp_right
          (·.append_left ordered front.within)

theorem surveyed_nil (start : Nat) : Surveyed start start [] [] inFunction loops [] :=
  ⟨Nat.le_refl _, by simp [Within], by simp, by simp⟩

theorem surveyed_scan (inFunction : Bool) (loops : List Range) (drops : Bool) (start : Nat)
    (code : List Instruction) :
    Surveyed start (start + codeSize code) (scan drops start 0 code) [] inFunction loops [] :=
  ⟨Nat.le_add_right _ _, within_scan _ _ _ _, by simp, by simp⟩

/-- A whole part of the code is tight. -/
theorem Surveyed.tight (surveyed : Surveyed start stop marks bodies inFunction loops sites)
    (starts : ∃ mark ∈ marks, mark.offset = start ∧ mark.height = 0)
    (drops : ∀ mark ∈ marks, mark.drops = true) : IsTightIn start stop marks ⟨start, stop⟩ := by
  rcases starts with ⟨mark, member, offset, without⟩
  have nonempty : start < stop := offset ▸ (surveyed.within mark member).2
  exact ⟨⟨nonempty, ⟨mark, member, offset, without⟩, fun other member _ => drops other member⟩,
    Nat.le_refl _, Nat.le_refl _⟩

/-- The start of a part of the code is a site when it has no operands. -/
theorem Surveyed.cons (surveyed : Surveyed start stop marks bodies inFunction loops sites)
    (starts : ∃ mark ∈ marks, mark.offset = start ∧ mark.height = 0) :
    Surveyed start stop marks bodies inFunction loops
      (⟨start, inFunction, loops⟩ :: sites) := by
  refine ⟨surveyed.ordered, surveyed.within, surveyed.tightBodies, ?_⟩
  intro site member
  rcases List.mem_cons.1 member with rfl | later
  · exact ⟨starts, .inl, fun range rangeMember => .inl rangeMember⟩
  · exact surveyed.knownSites site later

/-- What is around a loop, given what is inside it. -/
theorem Surveyed.loop
    (surveyed : Surveyed start stop marks bodies inFunction (⟨start, stop⟩ :: loops) sites)
    (starts : ∃ mark ∈ marks, mark.offset = start ∧ mark.height = 0)
    (drops : ∀ mark ∈ marks, mark.drops = true) :
    Surveyed start stop marks bodies inFunction loops sites := by
  refine ⟨surveyed.ordered, surveyed.within, surveyed.tightBodies, ?_⟩
  intro site member
  rcases surveyed.knownSites site member with ⟨mark, function, around⟩
  refine ⟨mark, function, ?_⟩
  intro range rangeMember
  rcases around range rangeMember with known | tight
  · rcases List.mem_cons.1 known with rfl | outer
    · exact .inr (surveyed.tight starts drops)
    · exact .inl outer
  · exact .inr tight

/-- What is around a body, given what is inside it. -/
theorem Surveyed.function {definition : Definition}
    (surveyed : Surveyed start stop marks bodies true [] sites)
    (starts : ∃ mark ∈ marks, mark.offset = start ∧ mark.height = 0)
    (drops : ∀ mark ∈ marks, mark.drops = true) :
    Surveyed start stop marks (⟨definition, start, stop⟩ :: bodies) inFunction loops sites := by
  refine ⟨surveyed.ordered, surveyed.within, ?_, ?_⟩
  · intro body member
    rcases List.mem_cons.1 member with rfl | inner
    · exact surveyed.tight starts drops
    · exact surveyed.tightBodies body inner
  · intro site member
    rcases surveyed.knownSites site member with ⟨⟨mark, markMember, same⟩, _, around⟩
    have bounds := surveyed.within mark markMember
    rw [same.1] at bounds
    refine ⟨⟨mark, markMember, same⟩, fun _ => .inr ⟨_, List.mem_cons_self, bounds⟩, ?_⟩
    intro range rangeMember
    rcases around range rangeMember with never | tight
    · cases never
    · exact .inr tight

/-- A statement is surveyed wherever it stands. -/
def StatementSurveyed (functions : Functions) (place : Surroundings) (node : Node) : Prop :=
  ∀ (exits : Exit → Nat) (start : Nat) (inFunction : Bool) (loops : List Range),
    Surveyed start (start + node.statementSize place.drops)
      (markStatement functions place exits start node) (statementBodies place.drops start node)
      inFunction loops (statementSites place.drops inFunction loops start node)

theorem surveyed_statements {place : Surroundings} {nodes : List Node}
    (surveyed : ∀ node ∈ nodes, StatementSurveyed functions place node) (exits : Exit → Nat)
    (start : Nat) (inFunction : Bool) (loops : List Range) :
    Surveyed start (start + Node.statementsSize place.drops nodes)
      (markStatements functions place exits start nodes)
      (statementsBodies place.drops start nodes) inFunction loops
      (statementsSites place.drops inFunction loops start nodes) := by
  induction nodes generalizing start with
  | nil =>
      rw [markStatements, statementsBodies, statementsSites, Node.statementsSize]
      exact surveyed_nil start
  | cons node rest ih =>
      rcases List.forall_mem_cons.1 surveyed with ⟨first, others⟩
      rw [markStatements, statementsBodies, statementsSites, Node.statementsSize, ← Nat.add_assoc]
      exact (first exits start inFunction loops).append (ih others _)

theorem surveyed_plain {place : Surroundings} {inLoop inside : Bool} {node : Node}
    (shape : node.IsStatement allowed inLoop inside)
    (noBodies : ∀ start, statementBodies place.drops start node = [])
    (oneSite : ∀ start inFunction loops, statementSites place.drops inFunction loops start node =
      [⟨start, inFunction, loops⟩]) : StatementSurveyed functions place node := by
  intro exits start inFunction loops
  rw [noBodies, oneSite]
  refine Surveyed.cons ⟨Nat.le_add_right _ _, within_statement exits shape start, by simp, by simp⟩
    (exists_mark_start exits shape start)

/-- A condition with the jump that it decides on. -/
theorem surveyed_condition (functions : Functions) (place : Surroundings) {condition : Node}
    (conditionShape : condition.IsExpression allowed) (inFunction : Bool) (loops : List Range)
    (drops : Bool) (start target : Nat) :
    Surveyed start (start + condition.expressionSize + 3)
      (scan drops start 0 (assembleExpression functions place start condition ++
        [.compare target.toUInt16])) [] inFunction loops [] := by
  have surveyed := surveyed_scan inFunction loops drops start
    (assembleExpression functions place start condition ++ [.compare target.toUInt16])
  rwa [codeSize_append, codeSize_assembleExpression _ _ conditionShape, ← Nat.add_assoc] at surveyed

theorem surveyed_branchOther {place : Surroundings} {position bodyPosition : Position}
    {condition other : Node} {body : List Node} (conditionShape : condition.IsExpression allowed)
    (bodySurveyed : ∀ item ∈ body, StatementSurveyed functions place item)
    (otherSurveyed : StatementSurveyed functions place other) :
    StatementSurveyed functions place
      (.branch position condition bodyPosition body (some other)) := by
  intro exits start inFunction loops
  simp only [markStatement, statementBodies, statementSites, Node.statementSize]
  generalize secondEq : start + condition.expressionSize + 3 +
    Node.statementsSize place.drops body = second
  have tests := surveyed_condition functions place conditionShape inFunction loops place.drops start (second + 3)
  have inside := surveyed_statements bodySurveyed exits (start + condition.expressionSize + 3)
    inFunction loops
  rw [secondEq] at inside
  have skips := surveyed_scan inFunction loops place.drops second
    [.jump (second + 3 + other.statementSize place.drops).toUInt16]
  have otherwise := otherSurveyed exits (second + 3) inFunction loops
  have whole := tests.append (inside.append (skips.append otherwise))
  have stop : start + (condition.expressionSize + 3 + Node.statementsSize place.drops body +
    (3 + other.statementSize place.drops)) = second + 3 + other.statementSize place.drops := by omega
  rw [stop]
  exact whole.cons (exists_mark_append (exists_mark_scan _ _ (by simp)))

theorem surveyed_endlessLoop {place : Surroundings} {position bodyPosition : Position}
    {body : List Node} {inLoop inside : Bool}
    (shape : Node.IsStatement allowed inLoop inside (.endlessLoop position bodyPosition body))
    (bodyShapes : ∀ item ∈ body, item.IsStatement allowed true inside)
    (bodySurveyed : ∀ item ∈ body, StatementSurveyed functions place.looping item) :
    StatementSurveyed functions place (.endlessLoop position bodyPosition body) := by
  intro exits start inFunction loops
  have starts : ∃ mark ∈ markStatement functions place exits start
      (.endlessLoop position bodyPosition body), mark.offset = start ∧ mark.height = 0 :=
    exists_mark_start exits shape start
  have drops := drops_items functions
    (loopExits start (start + Node.statementsSize true body + 3)) (looping_drops place) bodyShapes
    start
  simp only [markStatement] at starts
  simp only [markStatement, statementBodies, statementSites, Node.statementSize, ← Nat.add_assoc]
  generalize stopEq : start + Node.statementsSize true body + 3 = stop at starts drops ⊢
  have inner := surveyed_statements bodySurveyed (loopExits start stop) start inFunction
    (⟨start, stop⟩ :: loops)
  rw [looping_drops] at inner
  have again := surveyed_scan inFunction (⟨start, stop⟩ :: loops) true
    (start + Node.statementsSize true body) [.jump start.toUInt16]
  have stopSize : start + Node.statementsSize true body + codeSize [.jump start.toUInt16] = stop :=
    stopEq
  rw [stopSize] at again
  have whole := inner.append again
  rw [List.append_nil, List.append_nil] at whole
  refine (whole.loop starts ?_).cons starts
  rw [List.forall_mem_append]
  exact ⟨drops, drops_scan rfl _ _ _⟩

theorem surveyed_whileLoop {place : Surroundings} {position bodyPosition : Position}
    {condition : Node} {body : List Node} {inside : Bool}
    (conditionShape : condition.IsExpression allowed)
    (bodyShapes : ∀ item ∈ body, item.IsStatement allowed true inside)
    (bodySurveyed : ∀ item ∈ body, StatementSurveyed functions place.looping item) :
    StatementSurveyed functions place (.whileLoop position condition bodyPosition body) := by
  intro exits start inFunction loops
  simp only [markStatement, statementBodies, statementSites, Node.statementSize, ← Nat.add_assoc]
  generalize firstEq : start + condition.expressionSize + 3 = first
  generalize stopEq : first + Node.statementsSize true body + 3 = stop
  have tests := surveyed_condition functions place conditionShape inFunction
    (⟨start, stop⟩ :: loops) true start stop
  rw [firstEq] at tests
  have inner := surveyed_statements bodySurveyed (loopExits start stop) first inFunction
    (⟨start, stop⟩ :: loops)
  rw [looping_drops] at inner
  have drops := drops_items functions (loopExits start stop) (looping_drops place) bodyShapes first
  have again := surveyed_scan inFunction (⟨start, stop⟩ :: loops) true
    (first + Node.statementsSize true body) [.jump start.toUInt16]
  have stopSize : first + Node.statementsSize true body + codeSize [.jump start.toUInt16] = stop :=
    stopEq
  rw [stopSize] at again
  have whole := tests.append (inner.append again)
  rw [List.append_nil, List.nil_append, List.append_nil, List.nil_append] at whole
  have starts : ∃ mark ∈ scan true start 0 (assembleExpression functions place start condition ++
      [.compare stop.toUInt16]) ++
        (markStatements functions place.looping (loopExits start stop) first body ++
          scan true (first + Node.statementsSize true body) 0 [.jump start.toUInt16]),
      mark.offset = start ∧ mark.height = 0 :=
    exists_mark_append (exists_mark_scan _ _ (by simp))
  refine ((whole.cons starts).loop starts ?_).cons starts
  rw [List.forall_mem_append, List.forall_mem_append]
  exact ⟨drops_scan rfl _ _ _, drops, drops_scan rfl _ _ _⟩

theorem surveyed_function {place : Surroundings} {position bodyPosition : Position} {name : String}
    {params : List String} {body : List Node}
    (bodyShapes : ∀ item ∈ body, item.IsStatement allowed false true)
    (ended : Node.EndsWithReturn body)
    (bodySurveyed : ∀ item ∈ body,
      StatementSurveyed functions (innerPlace functions place name) item) :
    StatementSurveyed functions place (.function position name params bodyPosition body) := by
  intro exits start inFunction loops
  simp only [markStatement, statementBodies, statementSites, Node.statementSize, ← Nat.add_assoc]
  generalize stopEq : start + 3 + Node.statementsSize true body = stop
  have skips := surveyed_scan inFunction loops place.drops start
    [.jump stop.toUInt16]
  have inner := surveyed_statements bodySurveyed exits (start + 3) true []
  rw [innerPlace_drops, stopEq] at inner
  have drops := drops_items functions exits (innerPlace_drops functions place name) bodyShapes
    (start + 3)
  have starts : ∃ mark ∈ markStatements functions (innerPlace functions place name) exits
      (start + 3) body, mark.offset = start + 3 ∧ mark.height = 0 := by
    cases body with
    | nil =>
        rcases ended with ⟨front, _, _, never⟩
        simp at never
    | cons first rest =>
        rw [markStatements]
        exact exists_mark_append
          (exists_mark_start exits (bodyShapes first List.mem_cons_self) (start + 3))
  exact (skips.append (inner.function starts drops)).cons
    (exists_mark_append (exists_mark_scan _ _ (by simp)))

/-- Every statement is surveyed. -/
theorem surveyed_statement {inLoop inside : Bool} {node : Node}
    (shape : node.IsStatement allowed inLoop inside) (place : Surroundings) :
    StatementSurveyed functions place node := by
  have whole := shape
  induction shape generalizing place with
  | value shape lasting =>
      refine surveyed_plain whole (fun start => statementBodies_of_valued _ _ shape.isValued) ?_
      intro start inFunction loops
      cases shape with
      | name named => cases named <;> simp [statementSites]
      | _ => simp [statementSites]
  | call | stepBefore | stepAfter | assignment | itemAssignment | breaks | continues | returns =>
      exact surveyed_plain whole (fun start => by simp [statementBodies])
        fun start inFunction loops => by simp [statementSites]
  | @branch inLoop inside position bodyPosition condition body conditionShape bodyShapes
      bodySurveyed =>
      intro exits start inFunction loops
      simp only [markStatement, statementBodies, statementSites, Node.statementSize, List.append_nil,
        Nat.add_zero, ← Nat.add_assoc]
      have tests := surveyed_condition functions place conditionShape inFunction loops place.drops start
        (start + condition.expressionSize + 3 + Node.statementsSize place.drops body)
      have inside := surveyed_statements
        (fun item member => bodySurveyed item member place (bodyShapes item member)) exits
        (start + condition.expressionSize + 3) inFunction loops
      exact (tests.append inside).cons (exists_mark_append (exists_mark_scan _ _ (by simp)))
  | branchElse conditionShape bodyShapes otherShapes bodySurveyed otherSurveyed =>
      refine surveyed_branchOther conditionShape
        (fun item member => bodySurveyed item member place (bodyShapes item member)) ?_
      intro exits start inFunction loops
      simp only [markStatement, statementBodies, statementSites, Node.statementSize]
      exact surveyed_statements
        (fun item member => otherSurveyed item member place (otherShapes item member)) exits start
        inFunction loops
  | branchChain conditionShape bodyShapes chained otherShape bodySurveyed otherSurveyed =>
      exact surveyed_branchOther conditionShape
        (fun item member => bodySurveyed item member place (bodyShapes item member))
        (otherSurveyed place otherShape)
  | @endlessLoop inLoop inside position bodyPosition body bodyShapes bodySurveyed =>
      exact surveyed_endlessLoop whole bodyShapes
        fun item member => bodySurveyed item member place.looping (bodyShapes item member)
  | whileLoop conditionShape bodyShapes bodySurveyed =>
      exact surveyed_whileLoop conditionShape bodyShapes
        fun item member => bodySurveyed item member place.looping (bodyShapes item member)
  | function distinct bodyShapes ended bodySurveyed =>
      exact surveyed_function bodyShapes ended
        fun item member => bodySurveyed item member _ (bodyShapes item member)

end Surveys

end Lehce.Code

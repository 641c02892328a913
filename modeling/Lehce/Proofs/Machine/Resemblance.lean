import Lehce.Proofs.Machine.Effects

/-!
# Machines that are alike

Two machines are alike when they differ at most in the room on their stacks and in how many
calls they allow. What a machine computes depends on neither: `execute_matches` takes alike
machines through the same instruction and finds them alike again, whatever the instruction.
The one exception is a call that the first machine refuses for its depth.
-/

namespace Lehce.Machine

open Code (Instruction)

/-- Machines that differ at most in the room on their stacks and in how many calls they allow. -/
structure Alike (m other : Machine) : Prop where
  ip : other.ip = m.ip
  operands : other.operands.values = m.operands.values
  frame : other.frame = m.frame
  callers : other.callers = m.callers
  host : other.host = m.host

/-- Machines that are alike, of which the second one allows some more calls. -/
structure Shadows (more : Nat) (m other : Machine) : Prop extends Alike m other where
  callDepth : other.callDepth = m.callDepth + more

/--
What alike machines make of one instruction. Either it is the same, and they are alike again,
or the first machine has too many calls in progress, and is left as it is.
-/
inductive Matches (more : Nat) (m : Machine) : Step → Step → Prop where
  | done {after other : Machine} (shadows : after.Shadows more other) :
      Matches more m (.done after) (.done other)
  | fault {after other : Machine} (shadows : after.Shadows more other) (fault : Fault) :
      Matches more m (.fault after fault) (.fault other fault)
  | unreadable {after other : Machine} (shadows : after.Shadows more other) (fault : Fault) :
      Matches more m (.unreadable after fault) (.unreadable other fault)
  | crash {after other : Machine} (shadows : after.Shadows more other) (crash : Crash) :
      Matches more m (.crash after crash) (.crash other crash)
  | overflows {fault : Fault} (other : Step) (short : 0 < more)
      (kind : fault.kind = .stackOverflow) : Matches more m (.fault m fault) other

variable {unit : Code.Unit} {registry : Option Registry} {more : Nat} {m other : Machine}

theorem Alike.height (alike : m.Alike other) : other.operands.height = m.operands.height := by
  have lengths := congrArg List.length alike.operands
  simpa only [Stack.length_values] using lengths

theorem Alike.peek (alike : m.Alike other) (depth : Nat) : other.peek depth = m.peek depth := by
  rw [Machine.peek, Machine.peek, Stack.peek_eq, Stack.peek_eq, alike.operands]

theorem Alike.top (alike : m.Alike other) (count : Nat) : other.top count = m.top count := by
  apply Array.toList_inj.1
  rw [Machine.top, Machine.top, Stack.toList_top, Stack.toList_top, alike.operands]

theorem Alike.need (alike : m.Alike other) (count : Nat) : other.need count = m.need count := by
  rw [Machine.need, Machine.need, alike.height, alike.frame, alike.ip]

namespace Shadows

theorem push (shadows : m.Shadows more other) (value : Value) :
    (m.push value).Shadows more (other.push value) where
  ip := shadows.ip
  operands := by
    rw [push_operands, push_operands, Stack.values_push, Stack.values_push, shadows.operands]
  frame := shadows.frame
  callers := shadows.callers
  host := shadows.host
  callDepth := shadows.callDepth

theorem drop (shadows : m.Shadows more other) (count : Nat) :
    (m.drop count).Shadows more (other.drop count) where
  ip := shadows.ip
  operands := by
    rw [drop_operands, drop_operands, Stack.values_drop, Stack.values_drop, shadows.operands]
  frame := shadows.frame
  callers := shadows.callers
  host := shadows.host
  callDepth := shadows.callDepth

theorem withIp (shadows : m.Shadows more other) (ip : Nat) :
    ({ m with ip } : Machine).Shadows more { other with ip } :=
  ⟨⟨rfl, shadows.operands, shadows.frame, shadows.callers, shadows.host⟩, shadows.callDepth⟩

theorem withHost (shadows : m.Shadows more other) (host : Host) :
    ({ m with host } : Machine).Shadows more { other with host } :=
  ⟨⟨shadows.ip, shadows.operands, shadows.frame, shadows.callers, rfl⟩, shadows.callDepth⟩

theorem withFrame (shadows : m.Shadows more other) (frame : Frame) :
    ({ m with frame } : Machine).Shadows more { other with frame } :=
  ⟨⟨shadows.ip, shadows.operands, rfl, shadows.callers, shadows.host⟩, shadows.callDepth⟩

theorem pushNew (shadows : m.Shadows more other) (new : Heap → Value × Heap) :
    (Machine.pushNew new m).Shadows more (Machine.pushNew new other) := by
  rw [pushNew_eq, pushNew_eq, shadows.host]
  exact (shadows.push _).withHost _

theorem leave (shadows : m.Shadows more other) (caller : Frame) (result : Value) :
    (Machine.leave m caller result).Shadows more (Machine.leave other caller result) := by
  have left : ({ m with
      ip := m.frame.returnTo.toNat
      operands := m.operands.truncate m.frame.base
      frame := caller
      callers := m.callers.pop } : Machine).Shadows more { other with
      ip := other.frame.returnTo.toNat
      operands := other.operands.truncate other.frame.base
      frame := caller
      callers := other.callers.pop } := by
    refine ⟨⟨by rw [shadows.frame], ?_, rfl, by rw [shadows.callers], shadows.host⟩,
      shadows.callDepth⟩
    rw [Stack.values_truncate, Stack.values_truncate, shadows.operands, shadows.height,
      shadows.frame]
  unfold Machine.leave
  rw [shadows.frame]
  rw [shadows.frame] at left
  simp only
  split
  · exact left.push result
  · exact left

end Shadows

namespace Matches

variable {start : Machine}

theorem withOperands (shadows : m.Shadows more other) (count : Nat)
    {next otherNext : Machine → Step} (goesOn : Matches more start (next m) (otherNext other)) :
    Matches more start (withOperands m count next) (withOperands other count otherNext) := by
  unfold Machine.withOperands
  rw [shadows.need]
  split
  · exact .fault shadows _
  · exact goesOn

theorem pushResult (shadows : m.Shadows more other) (result : Except Fault Value) :
    Matches more start (pushResult m result) (pushResult other result) := by
  cases result with
  | ok value => exact .done (shadows.push value)
  | error fault => exact .fault (shadows.push .empty) fault

theorem failCall (shadows : m.Shadows more other) (count : Nat) (used : Bool) (fault : Fault) :
    Matches more start (failCall m count used fault) (failCall other count used fault) := by
  cases used with
  | true => exact .fault ((shadows.drop count).push .empty) fault
  | false => exact .fault (shadows.drop count) fault

theorem callNative (shadows : m.Shadows more other) (name : String) (count : Nat) (used : Bool) :
    Matches more start (callNative registry m name count used)
      (callNative registry other name count used) := by
  unfold Machine.callNative
  rw [shadows.top, shadows.host]
  split
  · exact .crash (shadows.drop count) _
  split
  · exact failCall shadows count used _
  · rename_i native _
    have called : ∀ (host : Host) (value : Value),
        (if used then ({ m.drop count with host } : Machine).push value
          else { m.drop count with host }).Shadows more
        (if used then ({ other.drop count with host } : Machine).push value
          else { other.drop count with host }) := by
      intro host value
      have left := (shadows.drop count).withHost host
      cases used with
      | true => exact left.push value
      | false => exact left
    simp only
    split
    · exact .done (called _ _)
    · exact .fault (called _ _) _
    · exact .fault (called _ _) _
    · exact .crash (called _ _) _

/-- A call is entered by both machines, or refused by both, or refused by the first for its depth. -/
theorem callFunction (shadows : m.Shadows more other) (ref : FunctionRef) (count : Nat)
    (used : Bool) :
    Matches more m (callFunction unit m ref count used) (callFunction unit other ref count used) := by
  have frames : other.frameCount = m.frameCount := by
    rw [frameCount, frameCount, shadows.callers]
  unfold Machine.callFunction
  rw [shadows.callDepth, frames, shadows.top]
  split
  · exact failCall shadows count used _
  · split
    · exact .fault shadows _
    · split
      · exact .fault shadows _
      · rename_i storage _ _
        by_cases deep : m.callDepth ≤ m.frameCount
        · rw [if_pos deep]
          cases more with
          | zero => exact if_pos deep ▸ .fault shadows _
          | succ more => exact .overflows _ (Nat.succ_pos more) rfl
        · have shallow : ¬m.callDepth + more ≤ m.frameCount := by omega
          rw [if_neg deep, if_neg shallow]
          split
          · exact .crash shadows _
          · refine .done ⟨⟨rfl, (shadows.drop count).operands, ?_, ?_, shadows.host⟩,
              shadows.callDepth⟩
            · simp only [drop_ip, drop_operands, Stack.height_drop, shadows.ip, shadows.height]
            · simp only [drop_callers, shadows.callers, shadows.frame]

theorem call (shadows : m.Shadows more other) (slot count : Nat) (used : Bool) :
    Matches more m (call unit registry m slot count used)
      (call unit registry other slot count used) := by
  unfold Machine.call
  rw [shadows.frame]
  split
  · exact .fault shadows _
  · refine withOperands shadows count ?_
    split
    · split
      · exact callNative shadows _ count used
      · exact callFunction shadows _ count used
    · exact failCall shadows count used _

theorem return_ (shadows : m.Shadows more other) :
    Matches more start (return_ unit m) (return_ unit other) := by
  refine withOperands shadows 1 ?_
  have back : other.callers.back? = m.callers.back? := by rw [shadows.callers]
  rw [back, shadows.peek]
  split
  · exact .done (shadows.withIp _)
  · exact .done (shadows.leave _ _)

theorem makeList (shadows : m.Shadows more other) (count : Nat) :
    Matches more start (makeList m count) (makeList other count) := by
  refine withOperands shadows count ?_
  simp only [shadows.top]
  exact .done ((shadows.drop count).pushNew _)

theorem makeDict (shadows : m.Shadows more other) (pairs : Nat) :
    Matches more start (makeDict m pairs) (makeDict other pairs) := by
  refine withOperands shadows (2 * pairs) ?_
  simp only [shadows.top]
  have pushed := (shadows.drop (2 * pairs)).pushNew
    (·.newDict (Dict.ofList (pairEntries (m.top (2 * pairs)).toList)))
  split
  · exact .done pushed
  · exact .fault pushed _

end Matches

/-- Alike machines execute an instruction alike. -/
theorem execute_matches (unit : Code.Unit) (registry : Option Registry)
    (shadows : m.Shadows more other) (at_ : Nat) (instruction : Instruction) :
    Matches more m (execute unit registry m at_ instruction)
      (execute unit registry other at_ instruction) := by
  cases instruction with
  | load slot =>
      simp only [execute, shadows.frame]
      split
      · exact .fault shadows _
      · exact .done (shadows.push _)
  | store slot =>
      simp only [execute, drop_frame, shadows.frame]
      split
      · exact .fault shadows _
      · refine .withOperands shadows 1 ?_
        simp only [shadows.frame, shadows.peek]
        exact .done ((shadows.drop 1).withFrame _)
  | fastStore slot =>
      simp only [execute, shadows.frame]
      split
      · exact .fault shadows _
      · refine .withOperands shadows 1 ?_
        simp only [shadows.frame, shadows.peek]
        exact .done (shadows.withFrame _)
  | jump target =>
      simp only [execute]
      split
      · exact .fault shadows _
      · exact .done (shadows.withIp _)
  | compare target =>
      simp only [execute]
      split
      · exact .fault shadows _
      · refine .withOperands shadows 1 ?_
        simp only [shadows.peek, shadows.host]
        split
        · exact .done (shadows.drop 1)
        · exact .done ((shadows.drop 1).withIp _)
  | call slot count used => exact .call shadows _ _ _
  | return_ => exact .return_ shadows
  | initList count => exact .makeList shadows _
  | initDict count => exact .makeDict shadows _
  | binary op =>
      simp only [execute]
      refine .withOperands shadows 2 ?_
      simp only [drop_host, shadows.peek, shadows.host]
      split
      · exact .done ((shadows.drop 2).push _)
      · exact .done ((shadows.drop 2).pushNew _)
      · exact .fault ((shadows.drop 2).push _) _
      · exact .crash (shadows.drop 2) _
  | unary op =>
      simp only [execute]
      refine .withOperands shadows 1 ?_
      simp only [drop_host, shadows.peek, shadows.host]
      exact .pushResult (shadows.drop 1) _
  | dup =>
      simp only [execute]
      refine .withOperands shadows 1 ?_
      rw [shadows.peek]
      exact .done (shadows.push _)
  | dup2 =>
      simp only [execute]
      refine .withOperands shadows 2 ?_
      rw [shadows.peek, shadows.peek]
      exact .done ((shadows.push _).push _)
  | pop =>
      simp only [execute]
      exact .withOperands shadows 1 (.done (shadows.drop 1))
  | getItem =>
      simp only [execute]
      refine .withOperands shadows 2 ?_
      simp only [drop_host, shadows.peek, shadows.host]
      exact .pushResult (shadows.drop 2) _
  | setItem =>
      simp only [execute]
      refine .withOperands shadows 3 ?_
      simp only [drop_host, shadows.peek, shadows.host]
      split
      · refine .done ?_
        unfold changeHeap
        rw [(shadows.drop 3).host]
        exact (shadows.drop 3).withHost _
      · exact .fault (shadows.drop 3) _

/--
Alike machines step alike, unless the first one refuses a call for its depth; then it has passed
the call and is the same in all else.
-/
theorem step_matches (unit : Code.Unit) (registry : Option Registry)
    (shadows : m.Shadows more other) :
    ∃ ip, Matches more { m with ip } (step unit registry m) (step unit registry other) := by
  rw [step_eq_decode, step_eq_decode, shadows.ip]
  split
  · exact ⟨_, execute_matches unit registry (shadows.withIp _) _ _⟩
  · refine ⟨m.ip, ?_⟩
    simp only
    split
    · exact .unreadable shadows _
    · exact .fault (shadows.withIp _) _
  · exact ⟨m.ip, .unreadable shadows _⟩
  · exact ⟨m.ip, .done shadows⟩

end Lehce.Machine

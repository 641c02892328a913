import Lehce.Proofs.Machine.Items
import Lehce.Proofs.Value.Endlessness

/-!
# What operations come to

Every operation on every operands comes to a value or to the items of a new list, or it fails
with a fault of operands that do not go together or of an index outside its container, and
then it has changed nothing. Only two things end a run: the repetition of a text that no memory
holds, and following a list or dictionary without an end, which must contain itself for that.
-/

namespace Lehce.Machine

open Code (BinaryOp UnaryOp Instruction)

open Relation

variable {heap : Heap} {op : BinaryOp} {left right : Value} {text : String} {count : Float}
  {n : Int}

/-- A fault is one of operands that do not go together or of an index outside its container. -/
def IsMild (fault : Fault) : Prop := fault.kind = .typeMismatch ∨ fault.kind = .indexOutOfRange

theorem fatal_of_isMild {fault : Fault} (mild : IsMild fault) : fault.kind.fatal = false := by
  rcases mild with kind | kind <;> rw [kind] <;> rfl

/-- An outcome is a value or the items of a new list, or a fault that is mild. -/
inductive Outcome.Answers : Outcome → Prop where
  | value (value : Value) : Answers (.value value)
  | items (items : Array Value) : Answers (.items items)
  | fault {fault : Fault} (mild : IsMild fault) : Answers (.fault fault)

/-- An operation repeats a text as often as a number tells. -/
inductive RepeatsText (text : String) (count : Float) : BinaryOp → Value → Value → Prop where
  | behind : RepeatsText text count .multiply (.text text) (.number count)
  | before : RepeatsText text count .multiply (.number count) (.text text)

/-- A count that is an integer is one of 64 bits. -/
def CountFits (op : BinaryOp) (left right : Value) : Prop :=
  ∀ text count n, RepeatsText text count op left right → Number.IsInteger count n →
    Number.fitsInt64 n

/-- What ends a repetition with so many bytes that no memory holds them. -/
def overflow (bytes : Nat) : Crash :=
  if -Number.minInt64 ≤ bytes then .repeatOverflow else .tooLong

/-- No number of comparisons one inside the other tells whether two values are equal. -/
def Unsettled (heap : Heap) (left right : Value) : Prop :=
  ∀ depth, unroll heap.equalStep depth (left, right) = none

/-- An operation compares or writes out values, and there is no end to it. -/
inductive Endless (heap : Heap) : BinaryOp → Value → Value → Prop where
  | equal {left right : Value} (unsettled : Unsettled heap left right) :
      Endless heap .equal left right
  | notEqual {left right : Value} (unsettled : Unsettled heap left right) :
      Endless heap .notEqual left right
  | behind {text : String} {right : Value} (endless : ¬heap.Ends right) :
      Endless heap .add (.text text) right
  | before {left : Value} {text : String} (endless : ¬heap.Ends left) :
      Endless heap .add left (.text text)

/-- An operation is too much for any machine. -/
inductive Overwhelms (heap : Heap) (op : BinaryOp) (left right : Value) : Crash → Prop where
  | overflows {text : String} {count : Float} {n : Int}
      (repeats : RepeatsText text count op left right) (whole : Number.IsInteger count n)
      (many : 1 < n) (beyond : maxTextBytes < text.utf8ByteSize * n.toNat) :
      Overwhelms heap op left right (overflow (text.utf8ByteSize * n.toNat))
  | endless (endless : Endless heap op left right) : Overwhelms heap op left right .endless

section Repetition

theorem repeatText_of_not (none : ¬∃ n, 0 ≤ n ∧ Number.IsInteger count n) :
    repeatText text count = .value .empty := by
  unfold repeatText
  cases found : Number.integer? count with
  | none => rfl
  | some n =>
      have negative : n < 0 := by
        by_contra nonnegative
        exact none ⟨n, not_lt.1 nonnegative, Number.integer?_eq_some_iff.1 found⟩
      simp only [if_pos negative]

theorem join_replicate_empty (times : Nat) : String.join (List.replicate times "") = "" := by
  induction times with
  | zero => rfl
  | succ times ih => rw [List.replicate_succ, String.join_cons, ih]; rfl

theorem repeatText_of_isInteger (whole : Number.IsInteger count n) (nonnegative : 0 ≤ n)
    (fits : Number.fitsInt64 n) :
    repeatText text count =
      if 1 < n ∧ maxTextBytes < text.utf8ByteSize * n.toNat then
        .crash (overflow (text.utf8ByteSize * n.toNat))
      else .value (.text (String.join (List.replicate n.toNat text))) := by
  have small : ¬-Number.minInt64 ≤ n := by
    simp only [Number.fitsInt64, Bool.and_eq_true, decide_eq_true_eq] at fits
    omega
  have countable : (maxTextBytes : Int) < -Number.minInt64 := by decide
  simp only [repeatText, Number.integer?_eq_some_iff.2 whole, if_neg (not_lt.2 nonnegative),
    if_neg small]
  rcases lt_or_ge 1 n with many | few
  · rw [if_neg (by omega), if_neg (by omega)]
    by_cases beyond : maxTextBytes < text.utf8ByteSize * n.toNat
    · have bytes : text.utf8ByteSize * n.toNat ≠ 0 := Nat.ne_zero_of_lt beyond
      rw [if_neg bytes, if_pos beyond, if_pos (And.intro many beyond), overflow]
      split <;> rfl
    · have held : ¬(1 < n ∧ maxTextBytes < text.utf8ByteSize * n.toNat) := fun both => beyond both.2
      rw [if_neg held, if_neg (by omega), if_neg beyond]
      split
      · rename_i none
        have empty : text = "" := by
          rcases Nat.mul_eq_zero.1 none with bytes | times
          · exact String.utf8ByteSize_eq_zero_iff.1 bytes
          · omega
        rw [empty, join_replicate_empty]
      · rfl
  · have held : ¬(1 < n ∧ maxTextBytes < text.utf8ByteSize * n.toNat) :=
      fun both => not_lt.2 few both.1
    rw [if_neg held]
    obtain rfl | rfl : n = 0 ∨ n = 1 := by omega
    · rfl
    · simp [String.join]

end Repetition

section Binary

/-- Values that cannot be ordered, added or joined do not go together. -/
theorem mild_mismatch (op : BinaryOp) (left right : Value) : IsMild (mismatch op left right) :=
  .inl rfl

theorem answers_ofEnding {α : Type} (result : α → Value) {answer : Option α}
    (ends : answer.isSome) : (Outcome.ofEnding result answer).Answers := by
  rcases Option.isSome_iff_exists.1 ends with ⟨value, rfl⟩
  exact .value _

theorem display_isSome_iff {value : Value} : (heap.display value).isSome ↔ heap.Ends value := by
  rw [Heap.display, Option.isSome_map, Heap.datum_isSome_iff]

theorem answers_addValues (ends : ¬Endless heap .add left right) :
    (addValues heap left right).Answers := by
  unfold addValues
  split
  · exact .value _
  · have written := not_not.1 fun endless => ends (.behind endless)
    exact answers_ofEnding _ (display_isSome_iff.2 written)
  · have written := not_not.1 fun endless => ends (.before endless)
    exact answers_ofEnding _ (display_isSome_iff.2 written)
  · exact .items _
  · exact .fault (.inl rfl)

theorem RepeatsText.unique {other : String} {otherCount : Float}
    (first : RepeatsText text count op left right)
    (second : RepeatsText other otherCount op left right) : text = other ∧ count = otherCount := by
  cases first <;> cases second <;> exact ⟨rfl, rfl⟩

theorem RepeatsText.applyBinary (repeats : RepeatsText text count op left right) :
    applyBinary op heap left right = repeatText text count := by
  cases repeats <;> rfl

/-- A repetition that memory holds is a value. -/
theorem RepeatsText.answers (repeats : RepeatsText text count op left right)
    (fits : CountFits op left right) (holds : ∀ crash, ¬Overwhelms heap op left right crash) :
    (repeatText text count).Answers := by
  by_cases whole : ∃ n, 0 ≤ n ∧ Number.IsInteger count n
  · rcases whole with ⟨n, nonnegative, whole⟩
    rw [repeatText_of_isInteger whole nonnegative (fits text count n repeats whole),
      if_neg fun both => holds _ (.overflows repeats whole both.1 both.2)]
    exact .value _
  · rw [repeatText_of_not whole]
    exact .value _

/-- An operation without an end ends the run. -/
theorem Endless.applyBinary (endless : Endless heap op left right) :
    applyBinary op heap left right = .crash .endless := by
  have unwritten {value : Value} (endless : ¬heap.Ends value) : heap.display value = none :=
    Option.not_isSome_iff_eq_none.1 fun ends => endless (display_isSome_iff.1 ends)
  have text (content : String) : heap.Ends (.text content) := Heap.datum_isSome_iff.1 rfl
  cases endless with
  | equal unsettled =>
      exact congrArg (Outcome.ofEnding Value.bool) (Heap.equal_eq_none_iff.2 unsettled)
  | notEqual unsettled =>
      exact congrArg (Outcome.ofEnding fun same => .bool !same)
        (Heap.equal_eq_none_iff.2 unsettled)
  | @behind content right endless =>
      have adds : Machine.applyBinary .add heap (.text content) right =
          .ofEnding (fun text => .text (content ++ text)) (heap.display right) := by
        cases right with
        | text other => exact absurd (text other) endless
        | _ => rfl
      rw [adds, unwritten endless]
      rfl
  | @before left content endless =>
      have adds : Machine.applyBinary .add heap left (.text content) =
          .ofEnding (fun text => .text (text ++ content)) (heap.display left) := by
        cases left with
        | text other => exact absurd (text other) endless
        | _ => rfl
      rw [adds, unwritten endless]
      rfl

/-- What an operation crashes by that is too much for any machine. -/
theorem Overwhelms.applyBinary {crash : Crash} (overwhelms : Overwhelms heap op left right crash)
    (fits : CountFits op left right) : applyBinary op heap left right = .crash crash := by
  cases overwhelms with
  | overflows repeats whole many beyond =>
      rw [repeats.applyBinary, repeatText_of_isInteger whole (by omega)
        (fits _ _ _ repeats whole), if_pos ⟨many, beyond⟩]
  | endless endless => exact endless.applyBinary

/-- There is no end to one of the operands then. -/
theorem Endless.not_ends (endless : Endless heap op left right) :
    ∃ value, (value = left ∨ value = right) ∧ ¬heap.Ends value := by
  cases endless with
  | equal unsettled | notEqual unsettled =>
      refine ⟨left, .inl rfl, fun ends => ?_⟩
      have answers := Heap.equal_isSome (b := right) (.inl ends)
      rw [Heap.equal_eq_none_iff.2 unsettled] at answers
      cases answers
  | behind endless => exact ⟨_, .inr rfl, endless⟩
  | before endless => exact ⟨_, .inl rfl, endless⟩

/-- What is followed without an end contains something that contains itself. -/
theorem Endless.exists_circle (endless : Endless heap op left right) :
    ∃ value, (value = left ∨ value = right) ∧
      ∃ inner, heap.Contains value inner ∧ TransGen heap.Holds inner inner := by
  rcases endless.not_ends with ⟨value, operand, goesOn⟩
  rw [Heap.ends_iff] at goesOn
  push Not at goesOn
  exact ⟨value, operand, goesOn⟩

/-- An operation that repeats no text answers if there is an end to it. -/
theorem answers_applyBinary (others : ∀ text count, ¬RepeatsText text count op left right)
    (ends : ¬Endless heap op left right) :
    (Machine.applyBinary op heap left right).Answers := by
  have settles (same : Unsettled heap left right → Endless heap op left right) :
      (heap.equal left right).isSome :=
    Option.isSome_iff_ne_none.2 fun none => ends (same (Heap.equal_eq_none_iff.1 none))
  unfold Machine.applyBinary
  split
  case h_1 => exact answers_ofEnding _ (settles .equal)
  case h_2 => exact answers_ofEnding _ (settles .notEqual)
  case h_3 | h_4 | h_5 | h_6 =>
    split
    · exact .value _
    · exact .fault (mild_mismatch _ _ _)
  case h_7 =>
    split
    · exact .value _
    · exact answers_addValues ends
  case h_8 | h_10 | h_11 =>
    split
    · exact .value _
    · exact .fault (mild_mismatch _ _ _)
  case h_9 =>
    split
    · exact .value _
    · split
      · contradiction
      · exact absurd .behind (others _ _)
      · exact absurd .before (others _ _)
      · exact .fault (mild_mismatch _ _ _)

/-- An operation that is not too much for any machine answers. -/
theorem answers_of_not_overwhelms (fits : CountFits op left right)
    (holds : ∀ crash, ¬Overwhelms heap op left right crash) :
    (Machine.applyBinary op heap left right).Answers := by
  by_cases repeated : ∃ text count, RepeatsText text count op left right
  · rcases repeated with ⟨text, count, repeats⟩
    rw [repeats.applyBinary]
    exact repeats.answers fits holds
  · exact answers_applyBinary (fun text count repeats => repeated ⟨_, _, repeats⟩)
      fun endless => holds _ (.endless endless)

theorem applyBinary_eq_crash_iff {crash : Crash} (fits : CountFits op left right) :
    Machine.applyBinary op heap left right = .crash crash ↔
      Overwhelms heap op left right crash := by
  refine ⟨fun crashes => ?_, fun overwhelms => overwhelms.applyBinary fits⟩
  by_cases overwhelmed : ∃ other, Overwhelms heap op left right other
  · rcases overwhelmed with ⟨other, overwhelms⟩
    rw [overwhelms.applyBinary fits] at crashes
    cases crashes
    exact overwhelms
  · have answers := answers_of_not_overwhelms fits fun other overwhelms =>
      overwhelmed ⟨other, overwhelms⟩
    rw [crashes] at answers
    cases answers

end Binary

section Others

variable {container index value : Value}

theorem applyUnary_cases (op : UnaryOp) (heap : Heap) (operand : Value) :
    (∃ value, applyUnary op heap operand = .ok value) ∨
      Fails .typeMismatch (applyUnary op heap operand) := by
  unfold applyUnary
  split
  any_goals exact .inl ⟨_, rfl⟩
  exact .inr ⟨_, rfl⟩

theorem listPlace_cases (items : Array Value) (index : Value) :
    (∃ place, listPlace items index = .ok place) ∨
      Fails .typeMismatch (listPlace items index) ∨
      Fails .indexOutOfRange (listPlace items index) := by
  unfold listPlace
  split
  · exact .inr (.inl ⟨_, rfl⟩)
  · split
    · exact .inr (.inr ⟨_, rfl⟩)
    · exact .inl ⟨_, rfl⟩

theorem textItem_cases (text : String) (index : Value) :
    (∃ value, textItem text index = .ok value) ∨
      Fails .typeMismatch (textItem text index) ∨ Fails .indexOutOfRange (textItem text index) := by
  simp only [textItem]
  split
  · exact .inr (.inl ⟨_, rfl⟩)
  · split
    · exact .inl ⟨_, rfl⟩
    · exact .inr (.inr ⟨_, rfl⟩)

theorem getItem_cases (heap : Heap) (container index : Value) :
    (∃ value, getItem heap container index = .ok value) ∨
      Fails .typeMismatch (getItem heap container index) ∨
      Fails .indexOutOfRange (getItem heap container index) := by
  cases container with
  | list place =>
      rcases listPlace_cases (heap.items place) index with ⟨i, found⟩ | fails | fails
      · exact .inl ⟨_, by rw [getItem, found]; rfl⟩
      · exact .inr (.inl (fails_list fails .empty).1)
      · exact .inr (.inr (fails_list fails .empty).1)
  | dict place =>
      cases index with
      | text key => exact .inl ⟨_, rfl⟩
      | _ => exact .inr (.inl ⟨_, rfl⟩)
  | text content => exact textItem_cases content index
  | _ => exact .inr (.inl ⟨_, rfl⟩)

theorem setItem_cases (heap : Heap) (container index value : Value) :
    (∃ change, setItem heap container index value = .ok change) ∨
      Fails .typeMismatch (setItem heap container index value) ∨
      Fails .indexOutOfRange (setItem heap container index value) := by
  cases container with
  | list place =>
      rcases listPlace_cases (heap.items place) index with ⟨i, found⟩ | fails | fails
      · exact .inl ⟨_, by rw [setItem, found]; rfl⟩
      · exact .inr (.inl (fails_list fails value).2.1)
      · exact .inr (.inr (fails_list fails value).2.1)
  | dict place =>
      cases index with
      | text key => exact .inl ⟨_, rfl⟩
      | _ => exact .inr (.inl ⟨_, rfl⟩)
  | _ => exact .inr (.inl ⟨_, rfl⟩)

end Others

section Zeros

/-- A number that stands for zero is equal to zero, whatever its sign. -/
theorem beq_zero {x : Float} (zero : Number.IsInteger x 0) : (x == 0) = true := by
  rcases zero with ⟨negative, magnitude, finite, same⟩
  rcases Number.assemble_parts finite with ⟨holds, assembled⟩
  have absent : magnitude.significand = 0 := by
    have value : magnitude.value = 0 := by
      cases negative <;> simpa using same.symm
    rw [Number.Scaled.value, mul_eq_zero] at value
    rcases value with significand | scale
    · exact_mod_cast significand
    · exact absurd scale (by positivity)
  rw [← assembled, holds.eq_zero absent]
  cases negative <;> decide +kernel

theorem applyBinary_zero {x y : Float} (division : op = .divide ∨ op = .modulo)
    (zero : Number.IsInteger y 0) :
    Machine.applyBinary op heap (.number x) (.number y) = .value .empty := by
  have divides : arithmetic op x y = .empty := by
    rcases division with rfl | rfl <;> simp only [arithmetic, beq_zero zero, if_true]
  rw [← divides]
  rcases division with rfl | rfl <;> rfl

end Zeros

section Instructions

variable {m : Machine} {unit : Code.Unit} {registry : Option Registry} {at_ : Nat}
  {instruction : Instruction}

/-- An instruction operates on the topmost operands, and that is not too much for a machine. -/
inductive Operates (m : Machine) : Instruction → Prop where
  | binary {op : BinaryOp} (fits : CountFits op (m.peek 1) (m.peek 0))
      (holds : ∀ crash, ¬Overwhelms m.host.heap op (m.peek 1) (m.peek 0) crash) :
      Operates m (.binary op)
  | unary (op : UnaryOp) : Operates m (.unary op)
  | getItem : Operates m .getItem
  | setItem : Operates m .setItem

/-- A machine after an instruction has failed, with the empty value in place of its result. -/
def failed (m : Machine) (instruction : Instruction) : Machine :=
  if instruction.leaves = 0 then m.drop instruction.takes
  else (m.drop instruction.takes).push .empty

theorem host_failed (m : Machine) (instruction : Instruction) :
    (m.failed instruction).host = m.host := by
  unfold failed
  split <;> rfl

/-- A step goes on, or it fails mildly and only drops its operands. -/
def GoesOn (m : Machine) (instruction : Instruction) (outcome : Step) : Prop :=
  (∃ after, outcome = .done after) ∨
    ∃ fault, IsMild fault ∧ outcome = .fault (m.failed instruction) fault

theorem goesOn_pushResult {result : Except Fault Value} (leaves : instruction.leaves = 1)
    (mild : (∃ value, result = .ok value) ∨ Fails .typeMismatch result ∨
      Fails .indexOutOfRange result) :
    GoesOn m instruction (pushResult (m.drop instruction.takes) result) := by
  rcases mild with ⟨value, rfl⟩ | ⟨detail, rfl⟩ | ⟨detail, rfl⟩
  · exact .inl ⟨_, rfl⟩
  · exact .inr ⟨_, .inl rfl, by rw [failed, leaves]; rfl⟩
  · exact .inr ⟨_, .inr rfl, by rw [failed, leaves]; rfl⟩

/-- An instruction that operates goes on, or it fails mildly and only drops its operands. -/
theorem goesOn_execute (operates : Operates m instruction)
    (enough : m.frame.base + instruction.takes ≤ m.operands.height) :
    GoesOn m instruction (execute unit registry m at_ instruction) := by
  cases operates with
  | @binary op fits holds =>
      rw [execute, withOperands_of_le (n := 2) enough]
      have answers : (Machine.applyBinary op (m.drop 2).host.heap (m.peek 1) (m.peek 0)).Answers :=
        answers_of_not_overwhelms fits holds
      simp only
      cases outcome : Machine.applyBinary op (m.drop 2).host.heap (m.peek 1) (m.peek 0) with
      | value value => exact .inl ⟨_, rfl⟩
      | items items => exact .inl ⟨_, rfl⟩
      | fault fault =>
          rw [outcome] at answers
          cases answers with
          | fault mild => exact .inr ⟨fault, mild, rfl⟩
      | crash =>
          rw [outcome] at answers
          cases answers
  | unary op =>
      rw [execute, withOperands_of_le (n := 1) enough]
      exact goesOn_pushResult rfl ((applyUnary_cases op _ _).imp_right .inl)
  | getItem =>
      rw [execute, withOperands_of_le (n := 2) enough]
      exact goesOn_pushResult rfl (getItem_cases _ _ _)
  | setItem =>
      rw [execute, withOperands_of_le (n := 3) enough]
      simp only
      rcases setItem_cases (m.drop 3).host.heap (m.peek 2) (m.peek 1) (m.peek 0) with
        ⟨change, sets⟩ | ⟨detail, sets⟩ | ⟨detail, sets⟩ <;> rw [sets]
      · exact .inl ⟨_, rfl⟩
      · exact .inr ⟨_, .inl rfl, rfl⟩
      · exact .inr ⟨_, .inr rfl, rfl⟩

end Instructions

/--
Every operation comes to a value or fails mildly, but for the repetition of a text that no
memory holds, and for following values without an end, of which one must contain itself. A
division by zero is empty, and an instruction that fails drops its operands, leaves the empty
value in place of a result and changes nothing else.
-/
theorem operations_answer (heap : Heap) :
    (∀ op left right, CountFits op left right →
      (∀ crash, Machine.applyBinary op heap left right = .crash crash ↔
        Overwhelms heap op left right crash) ∧
      ((∀ crash, ¬Overwhelms heap op left right crash) →
        (Machine.applyBinary op heap left right).Answers)) ∧
    (∀ op left right, Endless heap op left right →
      ∃ value, (value = left ∨ value = right) ∧
        ∃ inner, heap.Contains value inner ∧ TransGen heap.Holds inner inner) ∧
    (∀ op operand, (∃ value, applyUnary op heap operand = .ok value) ∨
      Fails .typeMismatch (applyUnary op heap operand)) ∧
    (∀ container index, (∃ value, getItem heap container index = .ok value) ∨
      Fails .typeMismatch (getItem heap container index) ∨
      Fails .indexOutOfRange (getItem heap container index)) ∧
    (∀ container index value, (∃ change, setItem heap container index value = .ok change) ∨
      (Fails .typeMismatch (setItem heap container index value) ∨
        Fails .indexOutOfRange (setItem heap container index value)) ∧
      written heap container index value = heap) ∧
    (∀ op x y, op = .divide ∨ op = .modulo → Number.IsInteger y 0 →
      Machine.applyBinary op heap (.number x) (.number y) = .value .empty) ∧
    (∀ fault, IsMild fault → fault.kind.fatal = false) ∧
    ∀ unit registry m at_ instruction, Operates m instruction →
      m.frame.base + instruction.takes ≤ m.operands.height →
      m.GoesOn instruction (execute unit registry m at_ instruction) ∧
      (m.failed instruction).host = m.host := by
  refine ⟨fun op left right fits => ⟨fun crash => applyBinary_eq_crash_iff fits,
    answers_of_not_overwhelms fits⟩, fun op left right endless => endless.exists_circle,
    fun op operand => applyUnary_cases op heap operand,
    getItem_cases heap, fun container index value => ?_,
    fun op x y division zero => applyBinary_zero division zero,
    fun fault mild => fatal_of_isMild mild,
    fun unit registry m at_ instruction operates enough =>
      ⟨goesOn_execute operates enough, host_failed m instruction⟩⟩
  · rcases setItem_cases heap container index value with sets | fails | fails
    · exact .inl sets
    · exact .inr ⟨.inl fails, written_of_fails fails⟩
    · exact .inr ⟨.inr fails, written_of_fails fails⟩

/-- A machine that is about to repeat a text three times. -/
def aboutToRepeat : Machine where
  operands := ((Stack.ofSize 2).push (.text "ab")).push (.number (Number.ofInt 3))
  frame := { memory := #[] }
  callDepth := 1
  host := {}

/-- A list that holds nothing but itself. -/
def circular : Heap := { cells := #[.list #[.list 0]] }

theorem not_ends_circular : ¬circular.Ends (.list 0) := by
  have holds : circular.Holds (.list 0) (.list 0) := by simp [Heap.Holds, circular, Heap.items]
  rw [Heap.ends_iff]
  exact fun acyclic => acyclic _ .refl (.single holds)

/-- A text is repeated, a number is divided by zero, and a list that holds itself is written out. -/
theorem operations_answer_aboutToRepeat :
    Operates aboutToRepeat (.binary .multiply) ∧
    aboutToRepeat.GoesOn (.binary .multiply)
      (execute nestedCall none aboutToRepeat 0 (.binary .multiply)) ∧
    Number.IsInteger (Number.ofInt 0) 0 ∧
    Machine.applyBinary .modulo {} (.number (Number.ofInt 7)) (.number (Number.ofInt 0)) =
      .value .empty ∧
    IsMild (mismatch .add .empty .empty) ∧ (mismatch .add .empty .empty).kind.fatal = false ∧
    CountFits .add (.text "") (.list 0) ∧ Endless circular .add (.text "") (.list 0) ∧
    Machine.applyBinary .add circular (.text "") (.list 0) = .crash .endless ∧
    ∃ value, (value = .text "" ∨ value = .list 0) ∧
      ∃ inner, circular.Contains value inner ∧ TransGen circular.Holds inner inner := by
  have left : aboutToRepeat.peek 1 = .text "ab" := rfl
  have right : aboutToRepeat.peek 0 = .number (Number.ofInt 3) := rfl
  have three : Number.IsInteger (Number.ofInt 3) 3 := Number.isInteger_ofInt (by decide)
  have zero : Number.IsInteger (Number.ofInt 0) 0 := Number.isInteger_ofInt (by decide)
  have operates : Operates aboutToRepeat (.binary .multiply) := by
    constructor <;> rw [left, right]
    · rintro text count n ⟨⟩ whole
      rw [whole.unique three]
      rfl
    · intro crash overwhelms
      cases overwhelms with
      | endless endless => cases endless
      | overflows repeats whole many beyond =>
          cases repeats
          rw [whole.unique three] at beyond
          exact absurd beyond (by decide +kernel)
  have fits : CountFits .add (.text "") (.list 0) := by
    rintro text count n ⟨⟩
  have endless : Endless circular .add (.text "") (.list 0) := .behind not_ends_circular
  have mild : IsMild (mismatch .add .empty .empty) := mild_mismatch _ _ _
  rcases operations_answer {} with ⟨-, -, -, -, -, divides, notFatal, goes⟩
  rcases operations_answer circular with ⟨crashes, circles, -⟩
  exact ⟨operates, (goes nestedCall none aboutToRepeat 0 _ operates (by decide)).1, zero,
    divides .modulo _ _ (.inr rfl) zero, mild, notFatal _ mild, fits, endless,
    ((crashes .add _ _ fits).1 .endless).2 (.endless endless), circles .add _ _ endless⟩

/-- The repetition of two characters nine quintillion times is no answer. -/
theorem not_answers_hugeRepetition :
    CountFits .multiply (.text "ab") (.number (Number.ofInt 9000000000000000000)) ∧
    ¬(Machine.applyBinary .multiply {} (.text "ab")
      (.number (Number.ofInt 9000000000000000000))).Answers := by
  have whole : Number.IsInteger (Number.ofInt 9000000000000000000) 9000000000000000000 :=
    Number.integer?_eq_some_iff.1 (by decide +kernel)
  have crashes : Machine.applyBinary .multiply {} (.text "ab")
      (.number (Number.ofInt 9000000000000000000)) = .crash .repeatOverflow := by
    rw [RepeatsText.behind.applyBinary, repeatText_of_isInteger whole (by decide) (by decide),
      if_pos (by decide +kernel), overflow, if_pos (by decide +kernel)]
  refine ⟨?_, fun answers => ?_⟩
  · rintro text count n ⟨⟩ other
    rw [other.unique whole]
    decide
  · rw [crashes] at answers
    cases answers

end Lehce.Machine

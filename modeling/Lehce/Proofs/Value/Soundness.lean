import Lehce.Machine.Operators
import Lehce.Natives.Standard
import Lehce.Proofs.Value.Gathering

/-!
# Where functions come from

A running program can only get hold of functions by their names, and only pass them on. What
operators make of values with nothing but allowed functions has no others, and a heap of such
values stays one. Native functions that work on nothing but their arguments, the input and the
output make up no functions either; all standard ones are of this sort. A value is sound when
it is no function of the program, or a known one.
-/

namespace Lehce

/-- A function in a value is an allowed one. -/
def Value.Within (allowed : FunctionRef → Prop) : Value → Prop
  | .function ref => allowed ref
  | _ => True

/-- All values of a list or a dictionary are within the allowed ones. -/
def Cell.Within (allowed : FunctionRef → Prop) : Cell → Prop
  | .list items => ∀ item ∈ items, item.Within allowed
  | .dict entries => ∀ entry ∈ entries.entries, entry.2.Within allowed

/-- All values of a heap are within the allowed ones. -/
def Heap.Within (allowed : FunctionRef → Prop) (heap : Heap) : Prop :=
  ∀ cell ∈ heap.cells, cell.Within allowed

/-- A function of the program in a value is a known one. -/
abbrev Value.Sound (known : FunctionRef → Prop) (value : Value) : Prop :=
  value.Within fun ref => ref.native = false → known ref

/-- All values of a heap are sound. -/
abbrev Heap.Sound (known : FunctionRef → Prop) (heap : Heap) : Prop :=
  heap.Within fun ref => ref.native = false → known ref

variable {allowed : FunctionRef → Prop} {heap : Heap}

theorem Value.within_of_forall (all : ∀ ref, allowed ref) (value : Value) :
    value.Within allowed := by
  cases value with
  | function ref => exact all ref
  | _ => trivial

theorem Heap.within_of_forall (all : ∀ ref, allowed ref) (heap : Heap) : heap.Within allowed := by
  intro cell _
  cases cell with
  | list items => exact fun item _ => item.within_of_forall all
  | dict entries => exact fun entry _ => entry.2.within_of_forall all

@[simp]
theorem Value.within_empty : Value.empty.Within allowed := trivial

theorem Value.Within.orEmpty {value : Value} (within : value.Within allowed) :
    value.orEmpty.Within allowed := by
  cases value with
  | absent => trivial
  | _ => exact within

theorem Heap.within_empty : Heap.Within allowed {} := by simp [Heap.Within]

namespace Heap.Within

theorem items (within : heap.Within allowed) (place : Nat) :
    ∀ item ∈ heap.items place, item.Within allowed := by
  intro item member
  unfold Heap.items at member
  split at member
  · rename_i found
    exact within _ (Array.mem_of_getElem? found) item member
  · cases member
    contradiction

theorem entries (within : heap.Within allowed) (place : Nat) :
    ∀ entry ∈ (heap.entries place).entries, entry.2.Within allowed := by
  intro entry member
  unfold Heap.entries at member
  split at member
  · rename_i found
    exact within _ (Array.mem_of_getElem? found) entry member
  · cases member

theorem allocate (within : heap.Within allowed) {cell : Cell} (cellWithin : cell.Within allowed) :
    (heap.allocate cell).2.Within allowed := by
  intro other member
  rcases Array.mem_push.1 member with old | rfl
  · exact within other old
  · exact cellWithin

theorem newList (within : heap.Within allowed) {items : Array Value}
    (itemsWithin : ∀ item ∈ items, item.Within allowed) : (heap.newList items).2.Within allowed :=
  within.allocate itemsWithin

theorem newDict (within : heap.Within allowed) {dict : Dict Value}
    (entriesWithin : ∀ entry ∈ dict.entries, entry.2.Within allowed) :
    (heap.newDict dict).2.Within allowed :=
  within.allocate entriesWithin

theorem modify (within : heap.Within allowed) (place : Nat) {change : Cell → Cell}
    (keeps : ∀ cell, cell.Within allowed → (change cell).Within allowed) :
    Heap.Within allowed ⟨heap.cells.modify place change⟩ := by
  intro cell member
  rcases Array.mem_iff_getElem?.1 member with ⟨index, found⟩
  rw [Array.getElem?_modify] at found
  split at found
  · rcases Option.map_eq_some_iff.1 found with ⟨earlier, earlierFound, rfl⟩
    exact keeps earlier (within earlier (Array.mem_of_getElem? earlierFound))
  · exact within cell (Array.mem_of_getElem? found)

theorem modifyItems (within : heap.Within allowed) (place : Nat)
    {change : Array Value → Array Value}
    (keeps : ∀ items, (∀ item ∈ items, item.Within allowed) →
      ∀ item ∈ change items, item.Within allowed) :
    (heap.modifyItems place change).Within allowed := by
  apply within.modify
  intro cell cellWithin
  cases cell with
  | list items => exact keeps items cellWithin
  | dict entries => exact cellWithin

theorem modifyEntries (within : heap.Within allowed) (place : Nat)
    {change : Dict Value → Dict Value}
    (keeps : ∀ dict, (∀ entry ∈ dict.entries, entry.2.Within allowed) →
      ∀ entry ∈ (change dict).entries, entry.2.Within allowed) :
    (heap.modifyEntries place change).Within allowed := by
  apply within.modify
  intro cell cellWithin
  cases cell with
  | list items => exact cellWithin
  | dict entries => exact keeps entries cellWithin

end Heap.Within

theorem Dict.get?_within {dict : Dict Value} {key : String} {value : Value}
    (within : ∀ entry ∈ dict.entries, entry.2.Within allowed) (found : dict.get? key = some value) :
    value.Within allowed :=
  within (key, value) (dict.inStep.mem_of_get? found)

namespace Machine

theorem getItem_within (within : heap.Within allowed) {container index value : Value}
    (found : getItem heap container index = .ok value) : value.Within allowed := by
  cases container with
  | list place =>
      simp only [getItem, bind, Except.bind] at found
      split at found
      · cases found
      · rename_i position _
        cases found
        cases item : (heap.items place)[position]? with
        | none => trivial
        | some value => exact (within.items place value (Array.mem_of_getElem? item)).orEmpty
  | dict place =>
      cases index with
      | text key =>
          cases found
          cases entry : (heap.entries place).get? key with
          | none => trivial
          | some value => exact (Dict.get?_within (within.entries place) entry).orEmpty
      | _ => cases found
  | text content =>
      simp only [getItem, textItem] at found
      split at found
      · cases found
      · split at found
        · cases found
          trivial
        · cases found
  | _ => cases found

theorem setItem_within {container index value : Value} {change : Heap → Heap}
    (found : setItem heap container index value = .ok change) (valueWithin : value.Within allowed)
    {other : Heap} (within : other.Within allowed) : (change other).Within allowed := by
  cases container with
  | list place =>
      simp only [setItem, bind, Except.bind] at found
      split at found
      · cases found
      · cases found
        apply within.modifyItems
        intro items itemsWithin item member
        rcases Array.mem_or_eq_of_mem_setIfInBounds member with old | rfl
        · exact itemsWithin item old
        · exact valueWithin
  | dict place =>
      cases index with
      | text key =>
          cases found
          apply within.modifyEntries
          intro dict entriesWithin entry member
          have put : entry ∈ putEntry key value dict.entries :=
            dict.inStep.entries_set key value ▸ member
          rcases mem_putEntry put with rfl | old
          · exact valueWithin
          · exact entriesWithin entry old
      | _ => cases found
  | _ => cases found

theorem applyUnary_within {op : Code.UnaryOp} {operand value : Value}
    (found : applyUnary op heap operand = .ok value) : value.Within allowed := by
  cases op with
  | not =>
      cases found
      trivial
  | _ =>
      cases operand with
      | number n =>
          cases found
          trivial
      | _ => cases found

/-- What an operation comes to is within. -/
def Outcome.Within (allowed : FunctionRef → Prop) : Outcome → Prop
  | .value result => result.Within allowed
  | .items list => ∀ item ∈ list, item.Within allowed
  | .fault _ | .crash _ => True

theorem ofEnding_within {α : Type} {result : α → Value}
    (within : ∀ answer, (result answer).Within allowed) (answer : Option α) :
    (Outcome.ofEnding result answer).Within allowed := by
  cases answer with
  | none => trivial
  | some answer => exact within answer

theorem addValues_within (within : heap.Within allowed) (left right : Value) :
    (addValues heap left right).Within allowed := by
  unfold addValues
  split
  · trivial
  · exact ofEnding_within (fun _ => by trivial) _
  · exact ofEnding_within (fun _ => by trivial) _
  · intro item member
    rcases Array.mem_append.1 member with early | late
    · exact within.items _ item early
    · exact within.items _ item late
  · trivial

theorem repeatText_within (text : String) (count : Float) :
    (repeatText text count).Within allowed := by
  unfold repeatText
  split
  · trivial
  · simp only
    repeat' split
    all_goals trivial

theorem arithmetic_within (op : Code.BinaryOp) (a b : Float) :
    (Outcome.value (arithmetic op a b)).Within allowed := by
  simp only [Outcome.Within, arithmetic]
  split
  any_goals trivial
  all_goals split <;> trivial

theorem applyBinary_within (within : heap.Within allowed) (op : Code.BinaryOp)
    (left right : Value) : (applyBinary op heap left right).Within allowed := by
  unfold applyBinary
  split
  · exact ofEnding_within (fun _ => by trivial) _
  · exact ofEnding_within (fun _ => by trivial) _
  any_goals
    split <;> trivial
  all_goals
    split
    · exact arithmetic_within ..
    · split
      · exact addValues_within within ..
      · exact repeatText_within ..
      · exact repeatText_within ..
      · trivial

end Machine

/-- What a native function came to makes up no functions, and is no fatal fault. -/
structure NativeResult.Keeps (allowed : FunctionRef → Prop) (result : NativeResult) : Prop where
  heap : result.host.heap.Within allowed
  value : result.value.Within allowed
  mild : ∀ fault, result.failure = some (.fault fault) → fault.kind.fatal = false

/-- Nor does it crash for anything but a value without an end. -/
structure NativeResult.Behaves (allowed : FunctionRef → Prop) (result : NativeResult) : Prop
    extends result.Keeps allowed where
  endless : ∀ crash, result.failure = some (.crash crash) → crash = .endless

/-- A native function passes on nothing but functions that are allowed. -/
def Native.Keeps (allowed : FunctionRef → Prop) (native : Native) : Prop :=
  ∀ (args : List Value) (host : Host),
    (∀ arg ∈ args, arg.Within allowed) → host.heap.Within allowed →
      (native.run args host).Keeps allowed

/-- And it crashes for nothing but a value without an end. -/
def Native.Behaves (allowed : FunctionRef → Prop) (native : Native) : Prop :=
  ∀ (args : List Value) (host : Host),
    (∀ arg ∈ args, arg.Within allowed) → host.heap.Within allowed →
      (native.run args host).Behaves allowed

/-- All native functions of a registry pass on nothing but allowed functions. -/
def Registry.Keeps (allowed : FunctionRef → Prop) (registry : Registry) : Prop :=
  ∀ native ∈ registry.natives, native.Keeps allowed

/-- What a native function came to makes up no functions of the program. -/
abbrev NativeResult.Honest (known : FunctionRef → Prop) (result : NativeResult) : Prop :=
  result.Keeps fun ref => ref.native = false → known ref

/-- A native function that works on nothing but its arguments, the input and the output. -/
def Native.Honest (native : Native) : Prop :=
  ∀ (known : FunctionRef → Prop) (args : List Value) (host : Host),
    (∀ arg ∈ args, arg.Sound known) → host.heap.Sound known →
      (native.run args host).Honest known

/-- All native functions of a registry are honest. -/
def Registry.Honest (registry : Registry) : Prop := ∀ native ∈ registry.natives, native.Honest

/-- A call runs the function, or fails for the number of its arguments. -/
theorem Native.call_eq (native : Native) (args : List Value) (host : Host) :
    native.call args host = native.run args host ∨
      ∃ detail, native.call args host =
        { host, failure := some (.fault (.runtime .argumentCountMismatch detail)) } := by
  unfold Native.call
  cases native.arity with
  | none => exact .inl rfl
  | some count =>
      by_cases fits : args.length == count
      · left
        simp [fits]
      · right
        exact ⟨_, by simp only [fits]; rfl⟩

theorem Native.Keeps.call {native : Native} (keeps : native.Keeps allowed) {args : List Value}
    {host : Host} (argsWithin : ∀ arg ∈ args, arg.Within allowed)
    (hostWithin : host.heap.Within allowed) : (native.call args host).Keeps allowed := by
  rcases native.call_eq args host with runs | ⟨detail, fails⟩
  · rw [runs]
    exact keeps args host argsWithin hostWithin
  · rw [fails]
    refine ⟨hostWithin, trivial, ?_⟩
    rintro fault ⟨⟩
    rfl

theorem Registry.Keeps.find? {registry : Registry} (keeps : registry.Keeps allowed)
    {name : String} {native : Native} (found : registry.find? name = some native) :
    native.Keeps allowed :=
  keeps native (List.mem_of_find?_eq_some found)

theorem Registry.Honest.keeps {registry : Registry} (honest : registry.Honest)
    (known : FunctionRef → Prop) :
    registry.Keeps fun ref => ref.native = false → known ref :=
  fun native member => honest native member known

namespace Natives

variable {host : Host} {args : List Value}

theorem behaves_pure (hostWithin : host.heap.Within allowed) {value : Value}
    (within : value.Within allowed) : (pure_ host value).Behaves allowed :=
  ⟨⟨hostWithin, within, by rintro fault ⟨⟩⟩, by rintro crash ⟨⟩⟩

theorem behaves_fail (hostWithin : host.heap.Within allowed) {kind : Fault.Kind}
    (mild : kind.fatal = false) (detail : String) : (fail host kind detail).Behaves allowed := by
  refine ⟨⟨hostWithin, trivial, ?_⟩, by rintro crash ⟨⟩⟩
  rintro fault ⟨⟩
  exact mild

theorem behaves_wrongKind (hostWithin : host.heap.Within allowed) (name : String)
    (wanted : ValueKind) (arg : Value) : (wrongKind host name wanted arg).Behaves allowed :=
  behaves_fail hostWithin rfl _

theorem behaves_withTexts (hostWithin : host.heap.Within allowed) (values : List Value)
    {next : List String → NativeResult} (behaves : ∀ texts, (next texts).Behaves allowed) :
    (withTexts host values next).Behaves allowed := by
  unfold withTexts
  split
  · exact behaves _
  · refine ⟨⟨hostWithin, trivial, by rintro fault ⟨⟩⟩, ?_⟩
    rintro crash ⟨⟩
    rfl

theorem behaves_writeAll (ending : String) (args : List Value)
    (hostWithin : host.heap.Within allowed) : (writeAll ending args host).Behaves allowed :=
  behaves_withTexts hostWithin args fun _ =>
    ⟨⟨hostWithin, trivial, by rintro fault ⟨⟩⟩, by rintro crash ⟨⟩⟩

theorem behaves_readLine (hostWithin : host.heap.Within allowed) :
    (readLine host).Behaves allowed := by
  unfold readLine
  split
  · exact behaves_pure hostWithin trivial
  · exact ⟨⟨hostWithin, trivial, by rintro fault ⟨⟩⟩, by rintro crash ⟨⟩⟩

theorem behaves_numeric (name : String) (f : Float → Float) : (numeric name f).Behaves allowed := by
  intro args host argsWithin hostWithin
  simp only [numeric]
  split
  · exact behaves_pure hostWithin trivial
  · exact behaves_wrongKind hostWithin ..
  · exact behaves_pure hostWithin trivial

theorem behaves_textual (name : String) {f : String → Value}
    (within : ∀ text, (f text).Within allowed) : (textual name f).Behaves allowed := by
  intro args host argsWithin hostWithin
  simp only [textual]
  split
  · exact behaves_pure hostWithin (within _)
  · exact behaves_wrongKind hostWithin ..
  · exact behaves_pure hostWithin trivial

theorem behaves_join (hostWithin : host.heap.Within allowed) :
    (join args host).Behaves allowed := by
  unfold join
  split
  · exact behaves_withTexts hostWithin _ fun _ => behaves_pure hostWithin trivial
  · exact behaves_wrongKind hostWithin ..
  · exact behaves_wrongKind hostWithin ..
  · exact behaves_pure hostWithin trivial

theorem behaves_append (argsWithin : ∀ arg ∈ args, arg.Within allowed)
    (hostWithin : host.heap.Within allowed) : (append args host).Behaves allowed := by
  unfold append
  split
  · refine ⟨⟨?_, trivial, by rintro fault ⟨⟩⟩, by rintro crash ⟨⟩⟩
    apply hostWithin.modifyItems
    intro items itemsWithin item member
    rcases Array.mem_push.1 member with old | rfl
    · exact itemsWithin item old
    · exact argsWithin item (by simp)
  · exact behaves_wrongKind hostWithin ..
  · exact behaves_pure hostWithin trivial

theorem behaves_popItem (hostWithin : host.heap.Within allowed) :
    (popItem args host).Behaves allowed := by
  unfold popItem
  split
  · split
    · rename_i place _ _ last found
      refine ⟨⟨?_, hostWithin.items place last (Array.mem_of_back? found), by rintro fault ⟨⟩⟩,
        by rintro crash ⟨⟩⟩
      apply hostWithin.modifyItems
      intro items itemsWithin item member
      rw [Array.mem_def, Array.toList_pop] at member
      exact itemsWithin item (Array.mem_def.2 ((List.dropLast_sublist _).subset member))
    · exact behaves_fail hostWithin rfl _
  · exact behaves_wrongKind hostWithin ..
  · exact behaves_pure hostWithin trivial

theorem behaves_listLength (hostWithin : host.heap.Within allowed) :
    (listLength args host).Behaves allowed := by
  unfold listLength
  split
  · exact behaves_pure hostWithin trivial
  · exact behaves_wrongKind hostWithin ..
  · exact behaves_pure hostWithin trivial

theorem behaves_keys (hostWithin : host.heap.Within allowed) : (keys args host).Behaves allowed := by
  unfold keys
  split
  · refine ⟨⟨hostWithin.newList ?_, trivial, by rintro fault ⟨⟩⟩, by rintro crash ⟨⟩⟩
    intro item member
    rcases List.mem_map.1 (List.mem_toArray.1 member) with ⟨key, _, rfl⟩
    trivial
  · exact behaves_wrongKind hostWithin ..
  · exact behaves_pure hostWithin trivial

theorem behaves_lookup (argsWithin : ∀ arg ∈ args, arg.Within allowed)
    (hostWithin : host.heap.Within allowed) : (lookup args host).Behaves allowed := by
  unfold lookup
  split
  · exact behaves_fail hostWithin rfl _
  · split
    · rename_i place key rest _
      split
      · rename_i value found
        exact behaves_pure hostWithin (Dict.get?_within (hostWithin.entries place) found)
      · cases rest with
        | nil => exact behaves_pure hostWithin trivial
        | cons first others => exact behaves_pure hostWithin (argsWithin first (by simp))
    · exact behaves_wrongKind hostWithin ..
    · exact behaves_wrongKind hostWithin ..
    · exact behaves_pure hostWithin trivial

theorem behaves_length (hostWithin : host.heap.Within allowed) :
    (length args host).Behaves allowed := by
  unfold length
  split
  · exact behaves_pure hostWithin trivial
  · exact behaves_pure hostWithin trivial
  · exact behaves_pure hostWithin trivial
  · exact behaves_fail hostWithin rfl _
  · exact behaves_pure hostWithin trivial

/-- All standard native functions behave. -/
theorem behaves_standard (allowed : FunctionRef → Prop) :
    ∀ native ∈ standard.natives, native.Behaves allowed := by
  simp only [standard, io, num, text, list, dict, base, List.forall_mem_append,
    List.forall_mem_cons]
  refine ⟨⟨⟨⟨⟨⟨?_, ?_, ?_, by simp⟩, ?_, ?_, ?_, ?_, ?_, by simp⟩, ?_, ?_, ?_, ?_, by simp⟩,
    ?_, ?_, ?_, by simp⟩, ?_, ?_, by simp⟩, ?_, ?_, ?_, by simp⟩
  · exact fun args host _ hostWithin => behaves_writeAll _ args hostWithin
  · exact fun args host _ hostWithin => behaves_writeAll _ args hostWithin
  · exact fun args host _ hostWithin => behaves_readLine hostWithin
  · exact behaves_numeric _ _
  · exact behaves_numeric _ _
  · exact behaves_numeric _ _
  · exact behaves_numeric _ _
  · exact behaves_numeric _ _
  · exact behaves_textual _ fun _ => trivial
  · exact behaves_textual _ fun _ => trivial
  · exact behaves_textual _ fun _ => trivial
  · exact fun args host _ hostWithin => behaves_join hostWithin
  · exact fun args host _ hostWithin => behaves_listLength hostWithin
  · exact fun args host argsWithin hostWithin => behaves_append argsWithin hostWithin
  · exact fun args host _ hostWithin => behaves_popItem hostWithin
  · exact fun args host _ hostWithin => behaves_keys hostWithin
  · exact fun args host argsWithin hostWithin => behaves_lookup argsWithin hostWithin
  · exact fun args host _ hostWithin => behaves_pure hostWithin trivial
  · exact fun args host _ hostWithin =>
      behaves_withTexts hostWithin _ fun _ => behaves_pure hostWithin trivial
  · exact fun args host _ hostWithin => behaves_length hostWithin

/-- All standard native functions pass on nothing but what is allowed. -/
theorem keeps_standard (allowed : FunctionRef → Prop) : standard.Keeps allowed :=
  fun native member args host argsWithin hostWithin =>
    (behaves_standard allowed native member args host argsWithin hostWithin).toKeeps

/-- Standard native functions crash by nothing but a value without an end. -/
theorem endless_of_crash {native : Native} (member : native ∈ standard.natives) (args : List Value)
    (host : Host) {crash : Crash} (crashes : (native.run args host).failure = some (.crash crash)) :
    crash = .endless :=
  (behaves_standard (fun _ => True) native member args host
    (fun arg _ => arg.within_of_forall fun _ => trivial)
    (host.heap.within_of_forall fun _ => trivial)).endless crash crashes

/-- All standard native functions are honest. -/
theorem honest_standard : standard.Honest :=
  fun native member known =>
    keeps_standard (fun ref => ref.native = false → known ref) native member

end Natives

end Lehce

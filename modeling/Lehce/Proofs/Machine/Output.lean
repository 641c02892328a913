import Lehce.Natives.Standard
import Lehce.Proofs.Machine.Isolation
import Lehce.Proofs.Value.Soundness

/-!
# Output

What has been written stays written. No instruction writes but a call of a native function,
and a native function that appends to the output leaves alone what is there. So the output
of a run starts with the output of every earlier part of it.
-/

namespace Lehce

/-- All that was written at one time is still written at another, and maybe more behind it. -/
def Host.Writes (host later : Host) : Prop := ∃ text, later.output = host.output ++ text

/-- A native function that does nothing to the output but append to it. -/
def Native.Appends (native : Native) : Prop :=
  ∀ (args : List Value) (host : Host), host.Writes (native.run args host).host

/-- The native functions that a machine can call append to the output. -/
def Registry.AllAppend (registry : Option Registry) : Prop :=
  ∀ natives, registry = some natives → ∀ native ∈ natives.natives, native.Appends

namespace Host.Writes

variable {host later last : Host}

theorem refl (host : Host) : host.Writes host := ⟨"", by simp⟩

theorem of_eq (same : later.output = host.output) : host.Writes later := ⟨"", by simp [same]⟩

theorem trans (first : host.Writes later) (second : later.Writes last) : host.Writes last := by
  rcases first with ⟨early, firstEq⟩
  rcases second with ⟨late, secondEq⟩
  exact ⟨early ++ late, by rw [secondEq, firstEq, String.append_assoc]⟩

end Host.Writes

namespace Natives

variable (args : List Value) (host : Host)

theorem writes_withTexts (values : List Value) {next : List String → NativeResult}
    (writes : ∀ texts, host.Writes (next texts).host) :
    host.Writes (withTexts host values next).host := by
  unfold withTexts
  split
  · exact writes _
  · exact .refl host

theorem writes_writeAll (ending : String) : host.Writes (writeAll ending args host).host :=
  writes_withTexts host args fun _ => ⟨_, rfl⟩

theorem writes_readLine : host.Writes (readLine host).host := by
  unfold readLine
  split <;> exact .of_eq rfl

theorem appends_numeric (name : String) (f : Float → Float) : (numeric name f).Appends := by
  intro args host
  simp only [numeric]
  split <;> exact .of_eq rfl

theorem appends_textual (name : String) (f : String → Value) : (textual name f).Appends := by
  intro args host
  simp only [textual]
  split <;> exact .of_eq rfl

theorem writes_join : host.Writes (join args host).host := by
  unfold join
  split
  · exact writes_withTexts host _ fun _ => .of_eq rfl
  all_goals exact .of_eq rfl

theorem writes_append : host.Writes (append args host).host := by
  unfold append
  split <;> exact .of_eq rfl

theorem writes_popItem : host.Writes (popItem args host).host := by
  unfold popItem
  split
  · split <;> exact .of_eq rfl
  · exact .of_eq rfl
  · exact .of_eq rfl

theorem writes_listLength : host.Writes (listLength args host).host := by
  unfold listLength
  split <;> exact .of_eq rfl

theorem writes_keys : host.Writes (keys args host).host := by
  unfold keys
  split <;> exact .of_eq rfl

theorem writes_lookup : host.Writes (lookup args host).host := by
  unfold lookup
  split
  · exact .of_eq rfl
  · split
    · split <;> exact .of_eq rfl
    all_goals exact .of_eq rfl

theorem writes_length : host.Writes (length args host).host := by
  unfold length
  split <;> exact .of_eq rfl

/-- The standard native functions append to the output. -/
theorem appends_standard : ∀ native ∈ standard.natives, native.Appends := by
  simp only [standard, io, num, text, list, dict, base, List.forall_mem_append,
    List.forall_mem_cons]
  refine ⟨⟨⟨⟨⟨⟨?_, ?_, ?_, by simp⟩, ?_, ?_, ?_, ?_, ?_, by simp⟩, ?_, ?_, ?_, ?_, by simp⟩,
    ?_, ?_, ?_, by simp⟩, ?_, ?_, by simp⟩, ?_, ?_, ?_, by simp⟩
  · exact fun args host => writes_writeAll args host _
  · exact fun args host => writes_writeAll args host _
  · exact fun _ => writes_readLine
  · exact appends_numeric _ _
  · exact appends_numeric _ _
  · exact appends_numeric _ _
  · exact appends_numeric _ _
  · exact appends_numeric _ _
  · exact appends_textual _ _
  · exact appends_textual _ _
  · exact appends_textual _ _
  · exact writes_join
  · exact writes_listLength
  · exact writes_append
  · exact writes_popItem
  · exact writes_keys
  · exact writes_lookup
  · exact fun _ host => .refl host
  · exact fun _ host => writes_withTexts host _ fun _ => .refl host
  · exact writes_length

end Natives

theorem Native.Appends.call {native : Native} (appends : native.Appends) (args : List Value)
    (host : Host) : host.Writes (native.call args host).host := by
  rcases native.call_eq args host with runs | ⟨detail, fails⟩
  · rw [runs]
    exact appends args host
  · rw [fails]
    exact .refl host

/-- Without some of its functions a registry still appends. -/
theorem Registry.AllAppend.without {registry : Registry}
    (appends : Registry.AllAppend (some registry)) (names : List String) :
    Registry.AllAppend (some (registry.without names)) := by
  rintro natives ⟨⟩ native member
  exact appends registry rfl native (List.mem_of_mem_filter member)

namespace Machine

open Code (Instruction)

variable {unit : Code.Unit} {registry : Option Registry} {m after : Machine}

theorem host_leave (caller : Frame) (result : Value) : (leave m caller result).host = m.host := by
  unfold leave
  simp only
  split <;> rfl

theorem writes_withOperands (count : Nat) {next : Machine → Step}
    (goesOn : m.host.Writes (next m).machine.host) :
    m.host.Writes (withOperands m count next).machine.host := by
  unfold withOperands
  split
  · exact .refl m.host
  · exact goesOn

theorem writes_pushResult (result : Except Fault Value) :
    m.host.Writes (pushResult m result).machine.host := by
  cases result <;> exact .refl m.host

theorem writes_failCall (count : Nat) (used : Bool) (fault : Fault) :
    m.host.Writes (failCall m count used fault).machine.host := by
  cases used <;> exact .refl m.host

theorem writes_callNative (appends : Registry.AllAppend registry) (name : String) (count : Nat)
    (used : Bool) : m.host.Writes (callNative registry m name count used).machine.host := by
  unfold callNative
  split
  · exact .refl m.host
  rename_i natives
  split
  · exact writes_failCall count used _
  · rename_i native listed
    have written := (appends natives rfl native (List.mem_of_find?_eq_some listed)).call
      (m.top count).toList m.host
    simp only
    split
    all_goals cases used <;> exact written

theorem writes_call (appends : Registry.AllAppend registry) (slot count : Nat) (used : Bool) :
    m.host.Writes (call unit registry m slot count used).machine.host := by
  unfold call
  split
  · exact .refl m.host
  · refine writes_withOperands count ?_
    split
    · split
      · exact writes_callNative appends _ count used
      · unfold callFunction
        split
        · exact writes_failCall count used _
        · split
          · exact .refl m.host
          · split
            · exact .refl m.host
            · split
              · exact .refl m.host
              · split <;> exact .refl m.host
    · exact writes_failCall count used _

theorem writes_return : m.host.Writes (return_ unit m).machine.host := by
  refine writes_withOperands 1 ?_
  split
  · exact .refl m.host
  · exact .of_eq (congrArg Host.output (host_leave _ _))

theorem writes_makeDict (pairs : Nat) : m.host.Writes (makeDict m pairs).machine.host := by
  refine writes_withOperands (2 * pairs) ?_
  simp only
  split <;> exact .of_eq rfl

/-- An instruction writes nothing, or it calls a native function. -/
theorem writes_execute (appends : Registry.AllAppend registry) (at_ : Nat)
    (instruction : Instruction) :
    m.host.Writes (execute unit registry m at_ instruction).machine.host := by
  cases instruction with
  | load slot =>
      rw [execute]
      split <;> exact .refl m.host
  | store slot | fastStore slot =>
      rw [execute]
      split
      · exact .refl m.host
      · exact writes_withOperands 1 (.refl m.host)
  | jump target =>
      rw [execute]
      split <;> exact .refl m.host
  | compare target =>
      rw [execute]
      split
      · exact .refl m.host
      · refine writes_withOperands 1 ?_
        simp only
        split <;> exact .refl m.host
  | call slot count used => exact writes_call appends _ _ _
  | return_ => exact writes_return
  | initList count =>
      rw [execute, makeList]
      exact writes_withOperands _ (.of_eq rfl)
  | initDict count => exact writes_makeDict _
  | binary op =>
      rw [execute]
      refine writes_withOperands 2 ?_
      simp only
      split <;> exact .of_eq rfl
  | unary op =>
      rw [execute]
      exact writes_withOperands 1 (writes_pushResult (m := m.drop 1) _)
  | dup | pop =>
      rw [execute]
      exact writes_withOperands 1 (.refl m.host)
  | dup2 =>
      rw [execute]
      exact writes_withOperands 2 (.refl m.host)
  | getItem =>
      rw [execute]
      exact writes_withOperands 2 (writes_pushResult (m := m.drop 2) _)
  | setItem =>
      rw [execute]
      refine writes_withOperands 3 ?_
      simp only
      split <;> exact .of_eq rfl

theorem Moves.writes (moves : Moves unit registry m after)
    (appends : Registry.AllAppend registry) : m.host.Writes after.host := by
  rcases moves with ⟨inside⟩
  rw [step_eq_decode]
  split
  · rename_i instruction _
    exact writes_execute appends m.ip instruction (m := { m with ip := m.ip + instruction.size })
  · simp only
    split <;> exact .refl m.host
  · exact .refl m.host
  · exact .refl m.host

end Machine

namespace Run

variable {unit : Code.Unit} {registry : Option Registry} {policy : Policy}

/-- What is written in a run stays written, however long it goes on. -/
theorem writes_advance (appends : Registry.AllAppend registry) (steps : Nat) (run : Run) :
    run.machine.host.Writes (advance unit registry policy steps run).2.machine.host := by
  induction steps generalizing run with
  | zero => exact .refl _
  | succ steps ih =>
      rw [advance_succ]
      have advances := advances_next unit registry policy run
      generalize run.next unit registry policy = outcome at advances
      cases advances with
      | done inside steps | goesOn inside steps =>
          exact ((Machine.moves_of_step inside steps).writes appends).trans (ih _)
      | stops inside steps | unreadable inside steps | crashes inside steps =>
          exact (Machine.moves_of_step inside steps).writes appends
      | finishes => exact .refl _

end Run

end Lehce

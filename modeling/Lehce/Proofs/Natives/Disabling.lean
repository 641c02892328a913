import Lehce.Proofs.Code.Narrowing
import Lehce.Proofs.Image.Zeros
import Lehce.Proofs.Machine.Safety

/-!
# Disabled native functions

A run only calls native functions that the constants of its unit name. So a unit whose
constants name none that were taken away runs as if nothing had been, and its image is loaded
as before. A program that is compiled although functions were taken away is such a unit.
-/

namespace Lehce

open Code (Instruction)

section Running

variable {allowed : FunctionRef → Prop} {first second : Registry} {unit : Code.Unit}

/-- Two registries have the same native functions for all references that are allowed. -/
def Registry.SameFor (allowed : FunctionRef → Prop) (first second : Registry) : Prop :=
  ∀ ref, allowed ref → ref.native = true → second.find? ref.name = first.find? ref.name

theorem Machine.call_of_sameFor {m : Machine} (same : Registry.SameFor allowed first second)
    (within : m.Within allowed) (slot count : Nat) (used : Bool) :
    call unit (some second) m slot count used = call unit (some first) m slot count used := by
  unfold call
  cases found : m.frame.memory[slot]? with
  | none => rfl
  | some callee =>
      cases callee with
      | function ref =>
          cases native : ref.native with
          | false => simp only [native, Bool.false_eq_true, if_false]
          | true =>
              have calleeAllowed : allowed ref :=
                within.frame (.function ref) (Array.mem_of_getElem? found)
              simp only [callNative, same ref calleeAllowed native]
      | _ => rfl

theorem Machine.step_of_sameFor {m : Machine} (same : Registry.SameFor allowed first second)
    (within : m.Within allowed) : step unit (some second) m = step unit (some first) m := by
  rw [step_eq_decode, step_eq_decode]
  cases Code.decode unit.opcodes m.ip with
  | error problem => cases problem <;> rfl
  | ok instruction =>
      have passed : ({ m with ip := m.ip + instruction.size } : Machine).Within allowed :=
        ⟨within.operands, within.memory, within.heap⟩
      cases instruction with
      | call slot count used => exact call_of_sameFor same passed _ _ _
      | _ => rfl

/-- Runs with native functions that are the same for all allowed references are the same. -/
theorem Run.advance_of_sameFor (same : Registry.SameFor allowed first second)
    (keep : first.Keeps allowed) (unitWithin : unit.Within allowed) (policy : Policy)
    (steps : Nat) {run : Run} (within : run.machine.Within allowed) :
    advance unit (some second) policy steps run = advance unit (some first) policy steps run := by
  have keep : Registry.AllKeep allowed (some first) := by
    rintro natives ⟨⟩
    exact keep
  induction steps generalizing run with
  | zero => rfl
  | succ steps ih =>
      have sameNext : run.next unit (some second) policy = run.next unit (some first) policy := by
        rw [next, next, Machine.step_of_sameFor same within]
      rw [advance_succ, advance_succ, sameNext]
      have advances := advances_next unit (some first) policy run
      cases moves : run.next unit (some first) policy with
      | inr ended => rfl
      | inl later =>
          rw [moves] at advances
          refine ih ?_
          cases advances with
          | done inside steps =>
              exact (Machine.moves_of_step inside steps).within within keep unitWithin
          | goesOn inside steps =>
              exact (Machine.moves_of_step inside steps).within within keep unitWithin

end Running

section Constants

variable {registry : Registry} {names : List String} {unit : Code.Unit}

/-- No constant of a unit is a native function with one of some names. -/
def Code.Unit.Avoids (unit : Code.Unit) (names : List String) : Prop :=
  ∀ storage ∈ unit.storages, ∀ ref, Datum.function ref ∈ storage.constants →
    ref.native = true → ref.name ∉ names

theorem Code.Unit.Avoids.within (avoids : unit.Avoids names) :
    unit.Within fun ref => ref.native = true → ref.name ∉ names := by
  intro storage member datum datumMember
  cases datum with
  | function ref => exact avoids storage member ref datumMember
  | _ => trivial

theorem Registry.sameFor_without (registry : Registry) (names : List String) :
    Registry.SameFor (fun ref => ref.native = true → ref.name ∉ registry.removed names)
      registry (registry.without names) :=
  fun _ other native => find?_without_of_not_mem (other native)

theorem Datum.Relinks.known {natives : Code.Resolver} {functions : List FunctionRef}
    {ref : FunctionRef} (relinks : (Datum.function ref).Relinks natives functions)
    (native : ref.native = true) : natives ref.name = some ref.name := by
  cases relinks with
  | native full => exact full
  | function own =>
      rw [native] at own
      cases own

/-- The constants of a unit that is linked without some functions are none of them. -/
theorem Code.Unit.Relinks.avoids (qualified : registry.IsQualified)
    (relinks : unit.Relinks (registry.without names).resolve) :
    unit.Avoids (registry.removed names) := by
  intro storage member ref refMember native
  have known := (relinks.constants storage member _ refMember).known native
  exact ((Registry.resolve_without_eq_some_iff qualified).1 known).2

theorem Code.Unit.Avoids.relinks (qualified : registry.IsQualified)
    (avoids : unit.Avoids (registry.removed names)) (relinks : unit.Relinks registry.resolve) :
    unit.Relinks (registry.without names).resolve where
  numbered := relinks.numbered
  own := relinks.own
  distinct := relinks.distinct
  constants storage member datum datumMember := by
    have linked := relinks.constants storage member datum datumMember
    cases linked with
    | native full =>
        refine .native ((Registry.resolve_without_eq_some_iff qualified).2 ⟨full, ?_⟩)
        exact avoids storage member _ datumMember rfl
    | function own listed => exact .function own listed
    | _ => constructor

/-- A unit whose constants avoid what was taken from a registry runs as if nothing had been. -/
theorem Code.Unit.Avoids.run_eq (avoids : unit.Avoids (registry.removed names))
    (keeps : ∀ allowed, registry.Keeps allowed) {memory : Array Value}
    (fresh : unit.freshMemory? = some memory) (setup : Setup) (input : List Char) :
    unit.run { setup with registry := some (registry.without names) } memory { input } =
      unit.run { setup with registry := some registry } memory { input } := by
  rcases Option.map_eq_some_iff.1 fresh with ⟨storage, found, rfl⟩
  exact Run.advance_of_sameFor (registry.sameFor_without names) (keeps _) avoids.within
    setup.policy setup.steps (Machine.within_start setup.limits
      (Machine.within_freshMemory avoids.within (Array.mem_of_getElem? found)) Heap.within_empty)

end Constants

section Images

variable {fewer natives : Code.Resolver} {image : Image} {unit : Code.Unit}

namespace Image

theorem loadValue_of_narrows (narrows : Code.Narrows fewer natives) {table : List FunctionRef}
    {value : StoredValue} {datum : Datum} (loads : loadValue fewer table value = .ok datum) :
    loadValue natives table value = .ok datum := by
  unfold loadValue at loads ⊢
  split at loads
  any_goals exact loads
  split at loads
  · rename_i native
    rw [if_pos native]
    split at loads
    · rename_i key ref found
      rw [Code.resolveNative_of_narrows narrows found]
      exact loads
    · cases loads
  · rename_i own
    rw [if_neg own]
    exact loads

/-- A native function that is loaded is one that is known. -/
theorem known_of_loadValue {table : List FunctionRef} (own : ∀ ref ∈ table, ref.native = false)
    {value : StoredValue} {ref : FunctionRef}
    (loads : loadValue natives table value = .ok (.function ref)) (native : ref.native = true) :
    ∃ name, natives name = some ref.name := by
  unfold loadValue at loads
  split at loads
  any_goals cases loads
  split at loads
  · split at loads
    · rename_i key found resolved
      cases loads
      rcases Option.map_eq_some_iff.1 resolved with ⟨full, known, same⟩
      cases same
      exact ⟨value.text, known⟩
    · cases loads
  · split at loads
    · rename_i found listed
      cases loads
      rw [own _ (List.mem_of_find?_eq_some listed)] at native
      cases native
    · cases loads

theorem own_of_mem_functionTable {functions : List StoredFunction} :
    ∀ ref ∈ functionTable functions, ref.native = false := by
  have kept : ∀ table : List FunctionRef, (∀ ref ∈ table, ref.native = false) →
      ∀ ref ∈ functions.foldl
        (fun table f => table.filter (·.name != f.name) ++ [loadFunction f]) table,
        ref.native = false := by
    induction functions with
    | nil => exact fun _ own => own
    | cons function rest ih =>
        intro table own
        refine ih _ fun ref member => ?_
        rcases List.mem_append.1 member with old | new
        · exact own ref (List.mem_filter.1 old).1
        · rw [List.mem_singleton.1 new]
          rfl
  exact kept [] (by simp)

/-- An image that is loaded with some native functions is loaded alike with more. -/
theorem toUnit_of_narrows (narrows : Code.Narrows fewer natives)
    (loads : image.toUnit fewer = .ok unit) : image.toUnit natives = .ok unit := by
  rcases toUnit_eq_ok_iff.1 loads with ⟨version, storages, loaded, made⟩
  refine toUnit_eq_ok_iff.2 ⟨version, storages, ?_, made⟩
  refine mapM_eq_ok_iff.2 ((mapM_eq_ok_iff.1 loaded).imp fun stored storage one => ?_)
  rcases loadStorage_eq_ok_iff.1 one with ⟨constants, each, same⟩
  refine loadStorage_eq_ok_iff.2 ⟨constants, ?_, same⟩
  exact mapM_eq_ok_iff.2 ((mapM_eq_ok_iff.1 each).imp fun _ _ => loadValue_of_narrows narrows)

/-- The native functions in a loaded unit are known. -/
theorem known_of_toUnit (loads : image.toUnit natives = .ok unit) {storage : Code.Storage}
    (member : storage ∈ unit.storages) {ref : FunctionRef}
    (constant : Datum.function ref ∈ storage.constants) (native : ref.native = true) :
    ∃ name, natives name = some ref.name := by
  rcases exists_loadValue loads member constant with ⟨value, loaded⟩
  exact known_of_loadValue own_of_mem_functionTable loaded native

theorem mem_function_unsigned {storage : Code.Storage} {ref : FunctionRef}
    (constant : Datum.function ref ∈ storage.constants) :
    Datum.function ref ∈ storage.unsigned.constants :=
  Array.mem_map.2 ⟨.function ref, constant, rfl⟩

/--
The image of a unit is loaded with a registry from which functions were taken if and only if
no constant of the unit is one of them.
-/
theorem loads_without_iff {codec : Codec} (faithful : codec.IsFaithful) {registry : Registry}
    {names : List String} (qualified : registry.IsQualified)
    (relinks : unit.Relinks registry.resolve) (small : unit.IsSmall) :
    ∃ bytes, save codec unit = .ok bytes ∧
      ((∃ loaded, load codec (registry.without names).resolve bytes = .ok loaded) ↔
        unit.Avoids (registry.removed names)) := by
  rcases load_save_unsigned faithful relinks small with ⟨bytes, saves, loads⟩
  refine ⟨bytes, saves, ?_, fun avoids => ?_⟩
  · rintro ⟨loaded, loadsFewer⟩
    rcases load_eq_ok_iff.1 loads with ⟨image, decodes, linked⟩
    rcases load_eq_ok_iff.1 loadsFewer with ⟨other, decodesOther, linkedFewer⟩
    rw [decodes] at decodesOther
    cases decodesOther
    have same := toUnit_of_narrows (Registry.narrows_without qualified names) linkedFewer
    rw [linked] at same
    cases same
    intro storage member ref constant native
    have listed : storage.unsigned ∈ (reloaded unit.unsigned).storages :=
      mem_storages_unsigned.2 ⟨storage, member, rfl⟩
    rcases known_of_toUnit linkedFewer listed (mem_function_unsigned constant) native with
      ⟨name, known⟩
    exact ((Registry.resolve_without_eq_some_iff qualified).1 known).2
  · rcases load_save_unsigned faithful (avoids.relinks qualified relinks) small with
      ⟨others, savesAgain, loadsFewer⟩
    rw [saves] at savesAgain
    cases savesAgain
    exact ⟨_, loadsFewer⟩

end Image

end Images

namespace Natives

open Code (compileSource)

/--
Taking functions from the standard registry never changes what a program means. A source that
is compiled without them is compiled with them to the same unit, which runs alike, whatever the
input, the limits and the consumer of its faults. A source that is compiled with them only is
refused without them for a name that is not known. And the image of a unit, written by any
faithful codec, is loaded without them exactly when no constant of the unit is one of them. The
bound on texts is that of all strings, which a machine counts with a signed 64-bit integer.
-/
theorem meaning_without (disabled : List String) (source : String) :
    (∀ unit, compileSource (standard.without disabled).resolve source = .ok unit →
      compileSource standard.resolve source = .ok unit ∧
      ∀ memory, unit.freshMemory? = some memory → ∀ (setup : Setup) input,
        unit.run { setup with registry := some (standard.without disabled) } memory { input } =
          unit.run { setup with registry := some standard } memory { input }) ∧
    (∀ unit error, compileSource standard.resolve source = .ok unit →
      compileSource (standard.without disabled).resolve source = .error error →
      ∃ fault, error = .fault fault ∧ fault.kind = .unresolvedSymbol) ∧
    ∀ codec : Image.Codec, codec.IsFaithful →
      ∀ unit, compileSource standard.resolve source = .ok unit →
        (∀ text ∈ unit.texts, Text.IsShort text) →
        ∃ bytes, Image.save codec unit = .ok bytes ∧
          ((∃ loaded, Image.load codec (standard.without disabled).resolve bytes = .ok loaded) ↔
            unit.Avoids (standard.removed disabled)) := by
  have qualified := isQualified_standard
  have narrows := Registry.narrows_without qualified disabled
  cases read : Program.ofSource source with
  | error fault =>
      have refused : ∀ natives, compileSource natives source = .error (.fault fault) := by
        intro natives
        simp only [compileSource, read]
        rfl
      simp [refused]
  | ok program =>
      have compiles : ∀ natives, compileSource natives source = Code.compile natives program := by
        intro natives
        simp only [compileSource, read]
        rfl
      have shaped := Program.isShaped_ofSource read
      simp only [compiles]
      refine ⟨?_, ?_, ?_⟩
      · intro unit made
        have spec := Code.compile_spec (standard.without disabled).resolve shaped
        rw [made] at spec
        rcases spec with ⟨functions, top, rest, compiled⟩
        have relinks := compiled.relinks shaped fun _ _ => Registry.resolve_full
        refine ⟨Code.compile_of_narrows narrows made, fun memory fresh => ?_⟩
        exact (relinks.avoids qualified).run_eq keeps_standard fresh
      · intro unit error made refused
        exact Code.unresolved_of_narrows shaped narrows made refused
      · intro codec faithful unit made texts
        have spec := Code.compile_spec standard.resolve shaped
        rw [made] at spec
        rcases spec with ⟨functions, top, rest, compiled⟩
        exact Image.loads_without_iff faithful qualified
          (compiled.relinks shaped fun _ _ => Registry.resolve_full)
          (compiled.isSmall shaped texts)

open Code (sharedFunctionName WellScoped scopeTexts) in
/-- A source that does without some functions, but not without `length`. -/
theorem meaning_without_sharedFunctionName :
    (∃ unit memory, compileSource (standard.without ["num.abs", "io.print"]).resolve
        sharedFunctionName = .ok unit ∧
      compileSource standard.resolve sharedFunctionName = .ok unit ∧
      unit.freshMemory? = some memory ∧ (∀ (setup : Setup) input,
        unit.run { setup with registry := some (standard.without ["num.abs", "io.print"]) }
            memory { input } =
          unit.run { setup with registry := some standard } memory { input }) ∧
      Image.Codec.cbor.IsFaithful ∧ (∀ text ∈ unit.texts, Text.IsShort text) ∧
      ∃ bytes, Image.save .cbor unit = .ok bytes ∧
        ((∃ loaded, Image.load .cbor (standard.without ["length"]).resolve bytes = .ok loaded) ↔
          unit.Avoids (standard.removed ["length"]))) ∧
    ∃ fault, compileSource (standard.without ["length"]).resolve sharedFunctionName =
      .error (.fault fault) ∧ fault.kind = .unresolvedSymbol := by
  rcases Program.exists_ofSource sharedFunctionName (fun program =>
      WellScoped (standard.without ["num.abs", "io.print"]).resolve program ∧
        ¬WellScoped (standard.without ["length"]).resolve program ∧
        ∀ scope ∈ scopeTexts program, scope.IsStorable standard.resolve)
    (by decide +kernel) with ⟨program, read, wellScoped, unscoped, storable⟩
  have shaped := Program.isShaped_ofSource read
  have compiles : ∀ natives, compileSource natives sharedFunctionName =
      Code.compile natives program := by
    intro natives
    simp only [compileSource, read]
    rfl
  rcases Code.exists_unit shaped wellScoped with ⟨unit, made⟩
  have without := meaning_without ["num.abs", "io.print"] sharedFunctionName
  rcases without.1 unit ((compiles _).trans made) with ⟨same, runs⟩
  rcases Code.exists_freshMemory read made with ⟨memory, fresh⟩
  have spec := Code.compile_spec standard.resolve shaped
  rw [← compiles, same] at spec
  rcases spec with ⟨functions, top, rest, compiled⟩
  have texts := compiled.isShort_texts shaped storable
  have images := (meaning_without ["length"] sharedFunctionName).2.2 .cbor
    Image.Codec.isFaithful_cbor unit same texts
  refine ⟨⟨unit, memory, (compiles _).trans made, same, fresh, runs memory fresh,
    Image.Codec.isFaithful_cbor, texts, images⟩, ?_⟩
  cases refused : Code.compile (standard.without ["length"]).resolve program with
  | ok other =>
      have accepts := (Code.compile_iff_wellScoped read
        (standard.without ["length"]).resolve).1.1 ⟨other, refused⟩
      exact absurd accepts unscoped
  | error error =>
      have fails := (compiles (standard.without ["length"]).resolve).trans refused
      rcases (meaning_without ["length"] sharedFunctionName).2.1 unit error same fails with
        ⟨fault, rfl, kind⟩
      exact ⟨fault, fails, kind⟩

end Natives

end Lehce

import Lehce.Proofs.Code.Compiled
import Lehce.Proofs.Token.Proper

/-!
# Which programs are compiled

A program that was read from a source is compiled exactly when it is well scoped, and a
refusal names a condition that it does not satisfy. All other faults that emission can
raise are for trees that no source has.
-/

namespace Lehce.Code

variable {natives : Resolver} {program : Program} {functions : Functions} {top : Scope}
  {rest : List Scope} {unit : Unit}

/-- A scope that serves a text in which all calls fit satisfies all conditions on it. -/
theorem Scope.Serves.conditions {scope : Scope} {text : ScopeText}
    (lists : functions.Lists (definitions program))
    (serves : scope.Serves functions natives text.params text.body)
    (fits : ∀ item ∈ text.body, Fits functions scope item) :
    (∀ node ∈ text.nodes, IsKnown natives (functionNames program) text.binds node) ∧
      (∀ node ∈ text.nodes, PassesArity (definitions program) text.binds node ∧
        PassesFew node) ∧
      text.slots natives (functionNames program) ≤ 65535 := by
  refine ⟨fun node member => ?_, fun node member => ?_, ?_⟩
  · exact (isResolved_iff lists node).1 (serves.resolved node member)
  · rcases Node.mem_occurrencesAll.1 member with ⟨item, itemMember, inside⟩
    have fit := fits item itemMember node inside
    rw [serves.binds_eq text] at fit
    exact (callMisfit?_eq_none_iff lists node).1 fit
  · have few := serves.fits
    rw [serves.slotCount_eq, Code.slotCount_eq lists] at few
    exact few

/-- Each scope of a compiled program satisfies all conditions on it. -/
theorem Compiled.conditions (shaped : program.IsShaped Number.IsNumber)
    (compiled : Compiled natives program functions top rest unit) {text : ScopeText}
    (member : text ∈ scopeTexts program) :
    (∀ node ∈ text.nodes, IsKnown natives (functionNames program) text.binds node) ∧
      (∀ node ∈ text.nodes, PassesArity (definitions program) text.binds node ∧
        PassesFew node) ∧
      text.slots natives (functionNames program) ≤ 65535 := by
  rcases List.mem_cons.1 member with rfl | inner
  · exact compiled.topServes.conditions compiled.lists compiled.fits.here
  · rcases List.mem_map.1 inner with ⟨definition, listed, rfl⟩
    have bodyListed := listed
    rw [← programBodies_definitions shaped] at bodyListed
    rcases List.mem_map.1 bodyListed with ⟨body, bodyMember, rfl⟩
    rcases List.mem_iff_getElem?.1 listed with ⟨number, found⟩
    rcases innerPlace_serves top compiled.lists compiled.serves found with
      ⟨scope, _, place, serves⟩
    refine Scope.Serves.conditions compiled.lists serves ?_
    rw [← place]
    exact compiled.fits.inside body bodyMember

theorem Compiled.wellScoped (shaped : program.IsShaped Number.IsNumber)
    (compiled : Compiled natives program functions top rest unit) :
    WellScoped natives program where
  distinct := compiled.lists.indexes.nodup
  known _ member := (compiled.conditions shaped member).1
  arity _ member node inside := ((compiled.conditions shaped member).2.1 node inside).1
  few _ member node inside := ((compiled.conditions shaped member).2.1 node inside).2
  slots _ member := (compiled.conditions shaped member).2.2
  size := compiled.small

/-- A well-scoped program is compiled. -/
theorem exists_unit (shaped : program.IsShaped Number.IsNumber)
    (wellScoped : WellScoped natives program) : ∃ unit, compile natives program = .ok unit := by
  have spec := compile_spec natives shaped
  cases result : compile natives program with
  | ok unit => exact ⟨unit, rfl⟩
  | error error =>
      rw [result] at spec
      rcases spec with ⟨fault, _, violates⟩
      exact (violates.not_wellScoped wellScoped).elim

/--
The program of a source is compiled if and only if it is well scoped, and when it is
refused, the fault tells of a condition that it violates.
-/
theorem compile_iff_wellScoped {source : String} (read : Program.ofSource source = .ok program)
    (natives : Resolver) :
    ((∃ unit, compile natives program = .ok unit) ↔ WellScoped natives program) ∧
      ∀ error, compile natives program = .error error →
        ∃ fault, error = .fault fault ∧ Violates natives program fault := by
  have shaped := Program.isShaped_ofSource read
  have spec := compile_spec natives shaped
  refine ⟨⟨?_, exists_unit shaped⟩, ?_⟩
  · rintro ⟨unit, compiles⟩
    rw [compiles] at spec
    rcases spec with ⟨functions, top, rest, compiled⟩
    exact compiled.wellScoped shaped
  · intro error refused
    rw [refused] at spec
    exact spec

/-- A source with a name that is a variable of two scopes. -/
def sharedName : String := "fonk f(a):\n    b = a\n    döndür b\nb = f(1)\nf(b)\n"

theorem compile_sharedName :
    ∃ program, Program.ofSource sharedName = .ok program ∧
      WellScoped (fun _ => none) program ∧ ∃ unit, compile (fun _ => none) program = .ok unit := by
  rcases Program.exists_ofSource sharedName (WellScoped fun _ => none) (by decide +kernel) with
    ⟨program, read, wellScoped⟩
  exact ⟨program, read, wellScoped, (compile_iff_wellScoped read fun _ => none).1.2 wellScoped⟩

end Lehce.Code

import Lehce.Code.Listing
import Lehce.Proofs.Code.Acceptance
import Lehce.Proofs.Code.Regions

/-!
# Compiled code is well formed

The code of a unit can be read back, all its jumps are settled, and every function has a
region of its own: from the entry of the function to the target of the jump before it.
Regions may contain the regions of other functions, so an instruction belongs to the
innermost region around it. What belongs to a function, or to the top level, uses only
slots of its storage, and its jumps stay with the same owner.
-/

namespace Lehce.Code

/-- The word at an offset of some code. -/
def wordAt? (code : Array UInt8) (offset : Nat) : Option Nat := do
  let low ← code[offset]?
  let high ← code[offset + 1]?
  return low.toNat + 256 * high.toNat

/-- The region of a function ends where the jump before its entry leads. -/
structure HasRegion (listing : List (Nat × Instruction)) (ref : FunctionRef) (start stop : Nat) :
    Prop where
  entry : ref.entry = start
  skip : ∃ place target, place + 3 = start ∧ (place, .jump target) ∈ listing ∧
    target.toNat = stop

/-- Whether an offset lies in the region of a function. -/
def RegionCovers (listing : List (Nat × Instruction)) (ref : FunctionRef) (offset : Nat) : Prop :=
  ∃ start stop, HasRegion listing ref start stop ∧ start ≤ offset ∧ offset < stop

/-- Whether an offset belongs to a function, or to the top level, and not to one inside it. -/
def Unit.Belongs (unit : Unit) (listing : List (Nat × Instruction)) :
    Option FunctionRef → Nat → Prop
  | none, offset => ∀ ref ∈ unit.functions, ¬RegionCovers listing ref offset
  | some owner, offset => owner ∈ unit.functions ∧ RegionCovers listing owner offset ∧
      ∀ ref ∈ unit.functions, owner.entry < ref.entry → ¬RegionCovers listing ref offset

/-- The storage of a function, or of the top level. -/
def Unit.storageOf? (unit : Unit) : Option FunctionRef → Option Storage
  | none => unit.storages[0]?
  | some owner => unit.storages[owner.storage.toNat]?

/-- A location has a target, and everything that uses it holds just that target. -/
structure Unit.Settles (unit : Unit) (location : Location) : Prop where
  resolved : location.resolved = true
  uses : ∃ target : Nat, location.target = target ∧ ∀ use ∈ location.uses,
    ∃ offset : Nat, use = offset ∧ wordAt? unit.opcodes offset = some target

/-- An instruction uses only slots of its owner, and continues only where its owner does. -/
structure Unit.Keeps (unit : Unit) (listing : List (Nat × Instruction))
    (owner : Option FunctionRef) (instruction : Instruction) : Prop where
  slots : ∃ storage, unit.storageOf? owner = some storage ∧
    instruction.KeepsTo storage.constants.size storage.size
  targets : ∀ target, instruction.target? = some target →
    (target ∈ listing.map (·.1) ∧ unit.Belongs listing owner target) ∨
      (owner = none ∧ target = unit.opcodes.size)

/-- The code of a unit consists of some instructions, and they are in order. -/
structure Unit.WellFormed (unit : Unit) (listing : List (Nat × Instruction)) : Prop where
  decoded : decodeAll unit.opcodes = .ok listing
  listed : ∃ text, unit.listing = .ok text
  settled : ∀ location ∈ unit.locations, unit.Settles location
  targets : ∀ offset instruction target, (offset, instruction) ∈ listing →
    instruction.target? = some target →
      target ∈ listing.map (·.1) ∨ target = unit.opcodes.size
  regions : ∀ ref ∈ unit.functions, ∃ start stop, HasRegion listing ref start stop ∧
    start ∈ listing.map (·.1) ∧ start < stop ∧ (stop - 1, .return_) ∈ listing
  owned : ∀ offset ∈ listing.map (·.1), ∃ owner, unit.Belongs listing owner offset
  kept : ∀ owner offset instruction, (offset, instruction) ∈ listing →
    unit.Belongs listing owner offset → unit.Keeps listing owner instruction

theorem mem_located_iff {start offset : Nat} {instructions : List Instruction}
    {instruction : Instruction} : (offset, instruction) ∈ located start instructions ↔
      (offset, .plain instruction) ∈ placed start (plainPieces instructions) := by
  induction instructions generalizing start with
  | nil => simp [located, plainPieces]
  | cons first rest ih =>
      rw [located, plainPieces_cons, placed_cons, List.mem_cons, List.mem_cons, ih]
      simp [Instruction.size, Piece.size, Piece.draft]

theorem isPlace_plainPieces_iff {start offset : Nat} {instructions : List Instruction} :
    IsPlace start (plainPieces instructions) offset ↔
      offset ∈ (located start instructions).map (·.1) := by
  constructor
  · rintro ⟨piece, member⟩
    have known := mem_of_placed member
    simp only [plainPieces, List.mem_map] at known
    rcases known with ⟨instruction, _, rfl⟩
    exact List.mem_map.2 ⟨_, mem_located_iff.2 member, rfl⟩
  · intro member
    rcases List.mem_map.1 member with ⟨⟨place, instruction⟩, located, rfl⟩
    exact ⟨_, mem_located_iff.1 located⟩

/-- The operand of a jump is the word behind its first byte. -/
theorem wordAt?_jump {code : Array UInt8} {offset : Nat} {instruction : Instruction}
    {target : Nat} (stands : Stands code offset [instruction])
    (leads : instruction.target? = some target) : wordAt? code (offset + 1) = some target := by
  have word : ∀ operand : UInt16, (operand.toNat % 256).toUInt8.toNat +
      256 * (operand.toNat / 256).toUInt8.toNat = operand.toNat := by
    intro operand
    have bound : operand.toNat < 65536 := operand.toNat_lt
    simp only [Nat.toUInt8, UInt8.toNat_ofNat']
    omega
  cases instruction with
  | jump operand | compare operand =>
      cases leads
      have low : code[offset + 1]? = _ := stands.bytes (by decide : 1 < 3)
      have high : code[offset + 1 + 1]? = _ := stands.bytes (by decide : 2 < 3)
      rw [wordAt?, low, high]
      exact congrArg some (word operand)
  | _ => cases leads

section

variable {natives : Resolver} {program : Program} {functions : Functions} {top : Scope}
  {rest : List Scope} {unit : Unit}

/-- The code of a compiled program is in order. -/
theorem Compiled.laid (shaped : program.IsShaped Number.IsNumber)
    (compiled : Compiled natives program functions top rest unit) :
    Laid functions (top :: rest).toArray top (fun _ => False) 0
      (programPieces functions natives top rest program) (programBodies program) := by
  have restBounded : ∀ scope ∈ rest, scope.Bounded := by
    intro scope member
    rcases List.mem_iff_getElem.1 member with ⟨number, inside, rfl⟩
    have sameLength := compiled.serves.length_eq
    exact ((List.forall₂_iff_get.1 compiled.serves).2 number (by omega) inside).bounded
  have allBounded : ∀ scope ∈ (top :: rest).toArray, scope.Bounded := by
    intro scope member
    rw [List.mem_toArray] at member
    rcases List.mem_cons.1 member with rfl | later
    · exact compiled.topServes.bounded
    · exact restBounded scope later
  refine laid_statements shaped (fun item member => laid_statement (shaped item member)
    (topPlace natives top rest) compiled.topServes.bounded allBounded) ?_
    (ready_program shaped compiled.lists compiled.topServes compiled.serves)
  have small := compiled.small
  simpa [Program.codeSize, topPlace, Surroundings.drops] using small

/-- The scope and the storage of a body have the same slots. -/
theorem Compiled.storage_body (shaped : program.IsShaped Number.IsNumber)
    (compiled : Compiled natives program functions top rest unit) {number : Nat} {body : Body}
    (found : (programBodies program)[number]? = some body) :
    ∃ storage, unit.storageOf? (some (body.ref number)) = some storage ∧
      storage.constants.size = (innerScope functions (top :: rest).toArray
        body.definition.name).constants.size ∧
      storage.locals.size = (innerScope functions (top :: rest).toArray
        body.definition.name).locals.size := by
  have listed := definition_of_body shaped found
  rcases innerPlace_serves top compiled.lists compiled.serves listed with
    ⟨scope, scopeFound, place, _⟩
  have index : (body.ref number).storage.toNat = number + 1 := by
    simp only [Body.ref, definitionRef]
    omega
  have scopeEq : innerScope functions (top :: rest).toArray body.definition.name = scope := place
  rw [scopeEq, Unit.storageOf?, index, compiled.storage_inner listed scopeFound]
  exact ⟨_, rfl, by simp [storageOf], rfl⟩

theorem hasRegion_body {inner : Scope} {code : List Instruction} {bodies : List Body} {body : Body}
    (region : IsRegion inner 0 (plainPieces code) bodies body)
    (small : codeSize code ≤ maxOperand) (number : Nat) :
    HasRegion (located 0 code) (body.ref number) body.entry body.stop := by
  have first := region.first
  have inside := region.inside
  refine ⟨rfl, body.entry - 3, body.stop.toUInt16, by omega, ?_, ?_⟩
  · exact mem_located_iff.2 region.skipped
  · rw [codeSize] at small
    exact toNat_toUInt16 (by omega)

/-- A function has only one region. -/
theorem HasRegion.unique {code : List Instruction} {ref : FunctionRef} {start stop : Nat}
    {otherStart otherStop : Nat} (region : HasRegion (located 0 code) ref start stop)
    (other : HasRegion (located 0 code) ref otherStart otherStop) :
    start = otherStart ∧ stop = otherStop := by
  have starts := region.entry.symm.trans other.entry
  rcases region.skip with ⟨place, target, before, skip, rfl⟩
  rcases other.skip with ⟨otherPlace, otherTarget, otherBefore, otherSkip, rfl⟩
  have places : otherPlace = place := by omega
  subst places
  have same := placed_unique (mem_located_iff.1 skip) (mem_located_iff.1 otherSkip)
  cases same
  exact ⟨by omega, rfl⟩

/-- The region of a function is its body. -/
theorem regionCovers_iff {inner : Scope} {code : List Instruction} {bodies : List Body}
    {body : Body} (region : IsRegion inner 0 (plainPieces code) bodies body)
    (small : codeSize code ≤ maxOperand) (number offset : Nat) :
    RegionCovers (located 0 code) (body.ref number) offset ↔ body.Covers offset := by
  have own := hasRegion_body region small number
  constructor
  · rintro ⟨start, stop, hasRegion, covers⟩
    rcases own.unique hasRegion with ⟨rfl, rfl⟩
    exact covers
  · intro covers
    exact ⟨body.entry, body.stop, own, covers⟩

/-- An offset lies outside all bodies, or there is an innermost body around it. -/
theorem isFree_or_holds (bodies : List Body) (offset : Nat) :
    IsFree bodies offset ∨ ∃ body ∈ bodies, body.Holds bodies offset := by
  induction bodies with
  | nil => exact .inl (by simp [IsFree])
  | cons first rest ih =>
      by_cases covers : first.Covers offset
      · right
        rcases ih with free | ⟨body, member, holds⟩
        · refine ⟨first, List.mem_cons_self, covers, ?_⟩
          intro other otherMember deeper
          rcases List.mem_cons.1 otherMember with rfl | later
          · omega
          · exact free other later
        · by_cases deeper : body.entry < first.entry
          · refine ⟨first, List.mem_cons_self, covers, ?_⟩
            intro other otherMember further
            rcases List.mem_cons.1 otherMember with rfl | later
            · omega
            · exact holds.2 other later (by omega)
          · refine ⟨body, List.mem_cons_of_mem _ member, holds.1, ?_⟩
            intro other otherMember further
            rcases List.mem_cons.1 otherMember with rfl | later
            · omega
            · exact holds.2 other later further
      · rcases ih with free | ⟨body, member, holds⟩
        · exact .inl (List.forall_mem_cons.2 ⟨covers, free⟩)
        · refine .inr ⟨body, List.mem_cons_of_mem _ member, holds.1, ?_⟩
          intro other otherMember further
          rcases List.mem_cons.1 otherMember with rfl | later
          · exact covers
          · exact holds.2 other later further

section Owners

variable {code : List Instruction}

theorem Compiled.laid_code (shaped : program.IsShaped Number.IsNumber)
    (compiled : Compiled natives program functions top rest unit)
    (pieces : programPieces functions natives top rest program = plainPieces code) :
    Laid functions (top :: rest).toArray top (fun _ => False) 0 (plainPieces code)
      (programBodies program) := by
  rw [← pieces]
  exact compiled.laid shaped

theorem Compiled.size_code (shaped : program.IsShaped Number.IsNumber)
    (compiled : Compiled natives program functions top rest unit)
    (pieces : programPieces functions natives top rest program = plainPieces code) :
    codeSize code = unit.opcodes.size := by
  rw [codeSize, ← pieces, size_program shaped, compiled.size]

theorem Compiled.small_code (shaped : program.IsShaped Number.IsNumber)
    (compiled : Compiled natives program functions top rest unit)
    (pieces : programPieces functions natives top rest program = plainPieces code) :
    codeSize code ≤ maxOperand := by
  rw [compiled.size_code shaped pieces, compiled.size]
  exact compiled.small

theorem Compiled.covers_iff (shaped : program.IsShaped Number.IsNumber)
    (compiled : Compiled natives program functions top rest unit)
    (pieces : programPieces functions natives top rest program = plainPieces code)
    {body : Body} (member : body ∈ programBodies program) (number offset : Nat) :
    RegionCovers (located 0 code) (body.ref number) offset ↔ body.Covers offset := by
  exact regionCovers_iff ((compiled.laid_code shaped pieces).regions body member)
    (compiled.small_code shaped pieces) number offset

theorem Compiled.belongs_none_iff (shaped : program.IsShaped Number.IsNumber)
    (compiled : Compiled natives program functions top rest unit)
    (pieces : programPieces functions natives top rest program = plainPieces code)
    {offset : Nat} :
    unit.Belongs (located 0 code) none offset ↔ IsFree (programBodies program) offset := by
  constructor
  · intro belongs body member
    rcases List.mem_iff_getElem?.1 member with ⟨number, found⟩
    rw [← compiled.covers_iff shaped pieces member number]
    exact belongs _ ((compiled.mem_functions_iff shaped).2 ⟨number, body, found, rfl⟩)
  · intro free ref member
    rcases (compiled.mem_functions_iff shaped).1 member with ⟨number, body, found, rfl⟩
    have listed := List.mem_of_getElem? found
    rw [compiled.covers_iff shaped pieces listed number]
    exact free body listed

theorem Compiled.belongs_some_iff (shaped : program.IsShaped Number.IsNumber)
    (compiled : Compiled natives program functions top rest unit)
    (pieces : programPieces functions natives top rest program = plainPieces code)
    {number : Nat} {body : Body} (found : (programBodies program)[number]? = some body)
    {offset : Nat} :
    unit.Belongs (located 0 code) (some (body.ref number)) offset ↔
      body.Holds (programBodies program) offset := by
  have deeper_iff : ∀ (other : Body) (place : Nat),
      (body.ref number).entry < (other.ref place).entry ↔ body.entry < other.entry := by
    intro other place
    simp [Body.ref]
  have listed := List.mem_of_getElem? found
  have isFunction := (compiled.mem_functions_iff shaped).2 ⟨number, body, found, rfl⟩
  rw [Unit.Belongs, Body.Holds, compiled.covers_iff shaped pieces listed number]
  constructor
  · rintro ⟨_, covers, innermost⟩
    refine ⟨covers, ?_⟩
    intro other member deeper
    rcases List.mem_iff_getElem?.1 member with ⟨place, otherFound⟩
    rw [← compiled.covers_iff shaped pieces member place]
    exact innermost _ ((compiled.mem_functions_iff shaped).2 ⟨place, other, otherFound, rfl⟩)
      ((deeper_iff other place).2 deeper)
  · rintro ⟨covers, innermost⟩
    refine ⟨isFunction, covers, ?_⟩
    intro ref member deeper
    rcases (compiled.mem_functions_iff shaped).1 member with ⟨place, other, otherFound, rfl⟩
    have otherListed := List.mem_of_getElem? otherFound
    rw [compiled.covers_iff shaped pieces otherListed place]
    exact innermost other otherListed ((deeper_iff other place).1 deeper)

theorem Compiled.bytes_code (compiled : Compiled natives program functions top rest unit)
    (pieces : programPieces functions natives top rest program = plainPieces code) :
    unit.opcodes.toList = code.flatMap Instruction.encode := by
  rw [compiled.code, pieces]
  simp [piecesBytes, plainPieces, List.flatMap_map, Piece.draft]

/-- Every location of a compiled program is settled. -/
theorem Compiled.settles (shaped : program.IsShaped Number.IsNumber)
    (compiled : Compiled natives program functions top rest unit)
    (pieces : programPieces functions natives top rest program = plainPieces code)
    {location : Location} (member : location ∈ unit.locations) : unit.Settles location := by
  have settled := compiled.settled location member
  rcases settled.inside with ⟨target, targetEq, inside⟩
  have small := compiled.small
  rw [size_program shaped] at inside
  have word : location.target.toNat.toUInt16.toNat = target := by
    rw [targetEq, Int.toNat_natCast]
    exact toNat_toUInt16 (by omega)
  refine ⟨settled.resolved, target, targetEq, ?_⟩
  intro use useMember
  rcases settled.uses use useMember with ⟨offset, rfl, piece, standing, jumps⟩
  refine ⟨offset + 1, rfl, ?_⟩
  rw [pieces] at standing
  have stands : ∀ instruction, piece = .plain instruction →
      Stands unit.opcodes offset [instruction] := by
    rintro instruction rfl
    exact (stands_of_bytes (compiled.bytes_code pieces)).of_located (mem_located_iff.2 standing)
  rcases jumps with rfl | rfl
  · exact wordAt?_jump (stands _ rfl) (congrArg some word)
  · exact wordAt?_jump (stands _ rfl) (congrArg some word)

/-- What belongs to the top level keeps to it. -/
theorem Compiled.keeps_top (shaped : program.IsShaped Number.IsNumber)
    (compiled : Compiled natives program functions top rest unit)
    (pieces : programPieces functions natives top rest program = plainPieces code)
    {offset : Nat} {instruction : Instruction}
    (standing : (offset, instruction) ∈ located 0 code)
    (free : IsFree (programBodies program) offset) :
    unit.Keeps (located 0 code) none instruction := by
  rcases (compiled.laid_code shaped pieces).own offset instruction (mem_located_iff.1 standing)
    free with ⟨admits, targets⟩
  refine ⟨⟨_, compiled.storage_top, ?_⟩, ?_⟩
  · simpa [Scope.Admits, storageOf, Storage.size] using admits
  · intro target leads
    rcases targets target leads with (atEnd | ⟨place, targetFree⟩) | never
    · refine .inr ⟨rfl, ?_⟩
      rw [← compiled.size_code shaped pieces, codeSize, atEnd, Nat.zero_add]
    · exact .inl ⟨isPlace_plainPieces_iff.1 place,
        (compiled.belongs_none_iff shaped pieces).2 targetFree⟩
    · exact never.elim

/-- What belongs to a function keeps to it. -/
theorem Compiled.keeps_function (shaped : program.IsShaped Number.IsNumber)
    (compiled : Compiled natives program functions top rest unit)
    (pieces : programPieces functions natives top rest program = plainPieces code)
    {offset : Nat} {instruction : Instruction}
    (standing : (offset, instruction) ∈ located 0 code) {number : Nat} {body : Body}
    (found : (programBodies program)[number]? = some body)
    (holds : body.Holds (programBodies program) offset) :
    unit.Keeps (located 0 code) (some (body.ref number)) instruction := by
  have region := (compiled.laid_code shaped pieces).regions body (List.mem_of_getElem? found)
  rcases region.holds offset _ (mem_located_iff.1 standing) holds with
    ⟨known, same, admits, targets⟩
  cases same
  rcases compiled.storage_body shaped found with ⟨storage, storageFound, constants, locals⟩
  refine ⟨⟨storage, storageFound, ?_⟩, ?_⟩
  · rw [Storage.size, constants, locals]
    exact admits
  · intro target leads
    rcases targets target leads with ⟨place, targetHolds⟩
    exact .inl ⟨isPlace_plainPieces_iff.1 place,
      (compiled.belongs_some_iff shaped pieces found).2 targetHolds⟩

theorem Compiled.keeps (shaped : program.IsShaped Number.IsNumber)
    (compiled : Compiled natives program functions top rest unit)
    (pieces : programPieces functions natives top rest program = plainPieces code)
    (owner : Option FunctionRef) {offset : Nat} {instruction : Instruction}
    (standing : (offset, instruction) ∈ located 0 code)
    (belongs : unit.Belongs (located 0 code) owner offset) :
    unit.Keeps (located 0 code) owner instruction := by
  cases owner with
  | none =>
      exact compiled.keeps_top shaped pieces standing
        ((compiled.belongs_none_iff shaped pieces).1 belongs)
  | some ref =>
      rcases (compiled.mem_functions_iff shaped).1 belongs.1 with ⟨number, body, found, rfl⟩
      exact compiled.keeps_function shaped pieces standing found
        ((compiled.belongs_some_iff shaped pieces found).1 belongs)

theorem Compiled.owned (shaped : program.IsShaped Number.IsNumber)
    (compiled : Compiled natives program functions top rest unit)
    (pieces : programPieces functions natives top rest program = plainPieces code)
    (offset : Nat) : ∃ owner, unit.Belongs (located 0 code) owner offset := by
  rcases isFree_or_holds (programBodies program) offset with free | ⟨body, member, holds⟩
  · exact ⟨none, (compiled.belongs_none_iff shaped pieces).2 free⟩
  · rcases List.mem_iff_getElem?.1 member with ⟨number, found⟩
    exact ⟨some (body.ref number), (compiled.belongs_some_iff shaped pieces found).2 holds⟩

/-- Every function has a region, which ends with a return. -/
theorem Compiled.region (shaped : program.IsShaped Number.IsNumber)
    (compiled : Compiled natives program functions top rest unit)
    (pieces : programPieces functions natives top rest program = plainPieces code)
    {ref : FunctionRef} (member : ref ∈ unit.functions) :
    ∃ start stop, HasRegion (located 0 code) ref start stop ∧
      start ∈ (located 0 code).map (·.1) ∧ start < stop ∧
        (stop - 1, .return_) ∈ located 0 code := by
  rcases (compiled.mem_functions_iff shaped).1 member with ⟨number, body, found, rfl⟩
  have listed := List.mem_of_getElem? found
  have region := (compiled.laid_code shaped pieces).regions body listed
  have first := region.first
  have last := region.last
  have inside := region.inside
  refine ⟨body.entry, body.stop,
    hasRegion_body region (compiled.small_code shaped pieces) number, ?_, last, ?_⟩
  · have skipSize : (Piece.plain (.jump body.stop.toUInt16)).size = 3 := rfl
    have next := isPlace_next region.skipped (by omega)
    rw [skipSize, Nat.sub_add_cancel (by omega)] at next
    exact isPlace_plainPieces_iff.1 next
  · exact mem_located_iff.2 region.returns

theorem Compiled.wellFormed (shaped : program.IsShaped Number.IsNumber)
    (compiled : Compiled natives program functions top rest unit) :
    ∃ listing, unit.WellFormed listing := by
  rcases pieces_program shaped functions natives top rest with ⟨code, pieces⟩
  have decoded := decodeAll_eq (compiled.bytes_code pieces)
  refine ⟨located 0 code, decoded, ?_, ?_, ?_, ?_, ?_, ?_⟩
  · simp [Unit.listing, decoded, bind, Except.bind, pure, Except.pure]
  · intro location member
    exact compiled.settles shaped pieces member
  · intro offset instruction target standing leads
    rcases compiled.owned shaped pieces offset with ⟨owner, belongs⟩
    rcases (compiled.keeps shaped pieces owner standing belongs).targets target leads with
      ⟨place, _⟩ | ⟨_, atEnd⟩
    · exact .inl place
    · exact .inr atEnd
  · intro ref member
    exact compiled.region shaped pieces member
  · intro offset member
    exact compiled.owned shaped pieces offset
  · intro owner offset instruction standing belongs
    exact compiled.keeps shaped pieces owner standing belongs

end Owners

/-- Whenever the program of a source is compiled, the unit is well formed. -/
theorem compile_wellFormed {source : String} (read : Program.ofSource source = .ok program)
    (compiles : compile natives program = .ok unit) : ∃ listing, unit.WellFormed listing := by
  have shaped := Program.isShaped_ofSource read
  have spec := compile_spec natives shaped
  rw [compiles] at spec
  rcases spec with ⟨functions, top, rest, compiled⟩
  exact compiled.wellFormed shaped

end

/-- A source with loops, a branch and nested functions. -/
def nestedFunctions : String :=
  "fonk f(a):\n    fonk g(b):\n        a = b ve 1\n        döndür a\n    döngü a < 3:\n" ++
    "        a++\n        eğer a == 2: kır\n    döndür g(a)\nf(1)\n"

theorem wellFormed_nestedFunctions :
    ∃ program unit, Program.ofSource nestedFunctions = .ok program ∧
      compile (fun _ => none) program = .ok unit ∧ ∃ listing, unit.WellFormed listing := by
  rcases Program.exists_ofSource nestedFunctions (WellScoped fun _ => none) (by decide +kernel) with
    ⟨program, read, wellScoped⟩
  rcases exists_unit (Program.isShaped_ofSource read) wellScoped with ⟨unit, compiles⟩
  exact ⟨program, unit, read, compiles, compile_wellFormed read compiles⟩

end Lehce.Code

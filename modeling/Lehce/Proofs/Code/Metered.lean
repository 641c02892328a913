import Lehce.Proofs.Code.Sites
import Lehce.Proofs.Code.WellFormed
import Lehce.Proofs.Machine.Provenance

/-!
# Metered units

What is known of every compiled unit: it is well formed, it has marks for all its
instructions, and these are closed. Its functions can be called: each has a storage with room
for the arguments and starts without operands. Its constants hold no other functions of the
program than these.
-/

namespace Lehce.Code

/-- How many operands there are at an offset: as a mark says, and none at the end. -/
def Unit.HeightAt (unit : Unit) (marks : List Mark) (offset height : Nat) : Prop :=
  (∃ mark ∈ marks, mark.offset = offset ∧ mark.height = height) ∨
    (offset = unit.opcodes.size ∧ height = 0)

/-- A unit is well formed, has closed marks, and can call its functions. -/
structure Unit.Metered (unit : Unit) (listing : List (Nat × Instruction)) (marks : List Mark) :
    Prop where
  wellFormed : unit.WellFormed listing
  listed : ∀ offset instruction, (offset, instruction) ∈ listing ↔
    ∃ mark ∈ marks, mark.offset = offset ∧ mark.instruction = instruction
  reads : ∀ mark ∈ marks, decode unit.opcodes mark.offset = .ok mark.instruction
  unique : ∀ mark ∈ marks, ∀ other ∈ marks, mark.offset = other.offset → mark = other
  apart : ∀ mark ∈ marks, ∀ other ∈ marks, mark.offset < other.offset →
    mark.offset + mark.instruction.size ≤ other.offset
  closed : ∀ mark ∈ marks, mark.IsClosed (unit.HeightAt marks)
  starts : unit.HeightAt marks 0 0
  entries : ∀ ref ∈ unit.functions, ∃ mark ∈ marks, (mark.offset : Int) = ref.entry ∧
    mark.height = 0
  inner : ∀ ref ∈ unit.functions, ∀ mark ∈ marks, RegionCovers listing ref mark.offset →
    mark.drops = true
  callees : ∀ ref ∈ unit.functions, ref.native = false ∧ 0 < ref.storage ∧
    ∃ storage, unit.storages[ref.storage.toNat]? = some storage ∧
      ref.arity ≤ storage.locals.size
  top : ∃ storage, unit.storages[0]? = some storage
  sound : unit.Sound (· ∈ unit.functions)

/-- The marks of a program. -/
def programMarks (functions : Functions) (natives : Resolver) (top : Scope) (rest : List Scope)
    (program : Program) : List Mark :=
  markStatements functions (topPlace natives top rest) (fun _ => 0) 0 program.items

theorem pairwise_placed (start : Nat) (pieces : List Piece) :
    ((placed start pieces).map (·.1)).Pairwise (· < ·) := by
  induction pieces generalizing start with
  | nil => simp
  | cons piece rest ih =>
      have positive : 0 < piece.size := piece.draft.size_pos
      simp only [placed_cons, List.map_cons, List.pairwise_cons, List.mem_map]
      refine ⟨?_, ih _⟩
      rintro offset ⟨⟨place, other⟩, member, rfl⟩
      have behind := (placed_bounds member).1
      dsimp only
      omega

theorem placed_apart {start offset other : Nat} {pieces : List Piece} {piece next : Piece}
    (member : (offset, piece) ∈ placed start pieces) (later : (other, next) ∈ placed start pieces)
    (before : offset < other) : offset + piece.size ≤ other := by
  induction pieces generalizing start with
  | nil => cases member
  | cons first rest ih =>
      rw [placed_cons] at member later
      rcases List.mem_cons.1 later with same | inRest
      · cases same
        rcases List.mem_cons.1 member with same | inRest
        · cases same
          omega
        · have bounds := (placed_bounds inRest).1
          omega
      · rcases List.mem_cons.1 member with same | memberRest
        · cases same
          exact (placed_bounds inRest).1
        · exact ih memberRest inRest

section

variable {natives : Resolver} {program : Program} {functions : Functions} {top : Scope}
  {rest : List Scope} {unit : Unit} {code : List Instruction}

/-- The marks of a program stand where its code does. -/
theorem map_programMarks (shaped : program.IsShaped Number.IsNumber)
    (pieces : programPieces functions natives top rest program = plainPieces code) :
    (programMarks functions natives top rest program).map Mark.placed =
      placed 0 (plainPieces code) := by
  have plain : assembleStatements functions (topPlace natives top rest) 0 program.items =
    plainPieces code := pieces
  rw [programMarks, map_markStatements _ shaped
    fun node member => map_markStatement _ (shaped node member), plain, map_fillAll_plainPieces]

theorem mem_programMarks_iff (shaped : program.IsShaped Number.IsNumber)
    (pieces : programPieces functions natives top rest program = plainPieces code)
    {offset : Nat} {instruction : Instruction} :
    (offset, instruction) ∈ located 0 code ↔
      ∃ mark ∈ programMarks functions natives top rest program,
        mark.offset = offset ∧ mark.instruction = instruction := by
  rw [mem_located_iff, ← map_programMarks shaped pieces, List.mem_map]
  simp [Mark.placed]

theorem unique_programMarks (shaped : program.IsShaped Number.IsNumber)
    (pieces : programPieces functions natives top rest program = plainPieces code) :
    ∀ mark ∈ programMarks functions natives top rest program,
      ∀ other ∈ programMarks functions natives top rest program,
        mark.offset = other.offset → mark = other := by
  have ascending := pairwise_placed 0 (plainPieces code)
  rw [← map_programMarks shaped pieces, List.map_map] at ascending
  have distinct := ascending.imp (S := (· ≠ ·)) fun less => Nat.ne_of_lt less
  intro mark member other otherMember same
  exact List.inj_on_of_nodup_map distinct member otherMember same

theorem apart_programMarks (shaped : program.IsShaped Number.IsNumber)
    (pieces : programPieces functions natives top rest program = plainPieces code) :
    ∀ mark ∈ programMarks functions natives top rest program,
      ∀ other ∈ programMarks functions natives top rest program,
        mark.offset < other.offset → mark.offset + mark.instruction.size ≤ other.offset := by
  have standing : ∀ mark ∈ programMarks functions natives top rest program,
      mark.placed ∈ placed 0 (plainPieces code) := by
    intro mark member
    rw [← map_programMarks shaped pieces]
    exact List.mem_map_of_mem member
  intro mark member other otherMember before
  exact placed_apart (standing mark member) (standing other otherMember) before

theorem Compiled.closed (shaped : program.IsShaped Number.IsNumber)
    (compiled : Compiled natives program functions top rest unit) :
    unit.HeightAt (programMarks functions natives top rest program) 0 0 ∧
      ∀ mark ∈ programMarks functions natives top rest program,
        mark.IsClosed (unit.HeightAt (programMarks functions natives top rest program)) := by
  have known : ∀ mark ∈ programMarks functions natives top rest program,
      unit.HeightAt (programMarks functions natives top rest program) mark.offset mark.height :=
    fun mark member => .inl ⟨mark, member, rfl, rfl⟩
  have ends : unit.HeightAt (programMarks functions natives top rest program)
      (0 + Node.statementsSize (topPlace natives top rest).drops program.items) 0 := by
    refine .inr ⟨?_, rfl⟩
    rw [Nat.zero_add, compiled.size]
    rfl
  refine ⟨heights_statements shaped known ends, ?_⟩
  refine closes_statements shaped (fun node member => closes_statement (shaped node member) _) ?_
    compiled.fits (fun never => Bool.noConfusion never) known ends
  rw [Nat.zero_add]
  exact compiled.small

theorem surveyed_program (shaped : program.IsShaped Number.IsNumber) (functions : Functions)
    (natives : Resolver) (top : Scope) (rest : List Scope) :
    Surveyed 0 (0 + program.codeSize) (programMarks functions natives top rest program)
      (programBodies program) false [] (programSites program) :=
  surveyed_statements (fun node member =>
    surveyed_statement (shaped node member) (topPlace natives top rest)) (fun _ => 0) 0 false []

/-- A function of a compiled program can be called. -/
theorem Compiled.callee (shaped : program.IsShaped Number.IsNumber)
    (compiled : Compiled natives program functions top rest unit) {number : Nat} {body : Body}
    (found : (programBodies program)[number]? = some body) :
    0 < (body.ref number).storage ∧ ∃ storage,
      unit.storages[(body.ref number).storage.toNat]? = some storage ∧
        (body.ref number).arity ≤ storage.locals.size := by
  have listed := definition_of_body shaped found
  rcases innerPlace_serves top compiled.lists compiled.serves listed with
    ⟨scope, scopeFound, _, serves⟩
  have index : (body.ref number).storage.toNat = number + 1 := by
    simp only [Body.ref, definitionRef]
    omega
  refine ⟨by simp only [Body.ref, definitionRef]; omega, _,
    by rw [index]; exact compiled.storage_inner listed scopeFound, ?_⟩
  have distinct := (shaped_definitions shaped _ (List.mem_of_getElem? listed)).distinct
  have fewer := (serves.paramsFirst distinct).length_le
  rw [Array.length_toList] at fewer
  simp only [Body.ref, definitionRef, storageOf]
  omega

/-- The table knows a function with its entry. -/
theorem Compiled.find?_setEntries (shaped : program.IsShaped Number.IsNumber)
    (compiled : Compiled natives program functions top rest unit) {number : Nat} {body : Body}
    (found : (programBodies program)[number]? = some body) :
    (functions.setEntries (programBodies program)).find? body.definition.name =
      some (body.ref number) := by
  have lists := compiled.lists_bodies shaped
  have place : functions.places[body.definition.name]? = some number :=
    (lists.indexes body.definition.name number).2 (by simp [found])
  rw [Functions.find?, Functions.places_setEntries, place, Option.bind_some,
    lists.refs_setEntries found]

theorem Scope.HoldsConstants.mem {scope : Scope} {constants : List (ConstantKey × Datum)}
    (holds : scope.HoldsConstants constants) {datum : Datum} (member : datum ∈ scope.constants) :
    ∃ key, (key, datum) ∈ constants := by
  rcases holds with ⟨keys, _, length, _, values⟩
  rcases Array.mem_iff_getElem?.1 member with ⟨place, found⟩
  have inside : place < keys.length := by
    rw [length]
    exact (Array.getElem?_eq_some_iff.1 found).1
  have looked := values place keys[place] (List.getElem?_eq_getElem inside)
  rw [found] at looked
  rcases List.lookup_eq_some_iff.1 looked.symm with ⟨front, back, split, _⟩
  exact ⟨keys[place], by rw [split]; simp⟩

/-- The constants that a node may add to its scope. -/
inductive Contributes (functions : Functions) (natives : Resolver) : Node → Datum → Prop where
  | literal {position : Position} {value : Datum} (scalar : isScalar value = true) :
      Contributes functions natives (.literal position value) value
  | nothing {position : Position} : Contributes functions natives (.nothing position) .empty
  | key {position : Position} {entries : List (String × Node)} {entry : String × Node}
      (listed : entry ∈ entries) : Contributes functions natives (.dict position entries) (.text entry.1)
  | function {position : Position} {name : String} {ref : FunctionRef}
      (found : functions.find? name = some ref) :
      Contributes functions natives (.symbol position name) (.function ref)
  | native {position : Position} {name full : String} (found : natives name = some full) :
      Contributes functions natives (.symbol position name)
        (.function { name := full, native := true, arity := -1 })
  | path {position : Position} {parts : List String} {full : String}
      (found : natives (pathName parts) = some full) :
      Contributes functions natives (.path position parts)
        (.function { name := full, native := true, arity := -1 })

theorem contributes_of_nodeConstants {bound : String → Bool} {node : Node} {key : ConstantKey}
    {value : Datum} (member : (key, value) ∈ nodeConstants functions natives bound node) :
    Contributes functions natives node value := by
  cases node with
  | literal position literal =>
      simp only [nodeConstants, List.mem_map, Option.mem_toList] at member
      rcases member with ⟨found, keyed, same⟩
      cases same
      refine .literal ?_
      cases value with
      | absent | list | dict | function => cases keyed
      | _ => rfl
  | nothing =>
      simp only [nodeConstants, List.mem_singleton] at member
      cases member
      exact .nothing
  | dict position entries =>
      simp only [nodeConstants, List.mem_map] at member
      rcases member with ⟨entry, listed, same⟩
      cases same
      exact .key listed
  | symbol position name =>
      simp only [nodeConstants] at member
      split at member
      · cases member
      · simp only [List.mem_map, Option.mem_toList] at member
        rcases member with ⟨⟨found, ref⟩, resolved, same⟩
        cases same
        unfold resolveFunction at resolved
        split at resolved
        · rename_i own found
          cases resolved
          exact .function found
        · rcases Option.map_eq_some_iff.1 resolved with ⟨full, fullFound, same⟩
          cases same
          exact .native fullFound
  | path position parts =>
      simp only [nodeConstants, List.mem_map, Option.mem_toList] at member
      rcases member with ⟨⟨found, ref⟩, resolved, same⟩
      cases same
      rcases Option.map_eq_some_iff.1 resolved with ⟨full, fullFound, same⟩
      cases same
      exact .path fullFound
  | _ => simp [nodeConstants] at member

/-- Every constant of a storage is one that a node of its scope adds. -/
theorem Scope.Serves.exists_node {params : List String} {body : List Node} {scope : Scope}
    (serves : scope.Serves functions natives params body) {linked : Functions} {index : Nat}
    {name : String} {arity : Nat} {datum : Datum}
    (member : datum ∈ (storageOf linked index name arity scope).constants) :
    ∃ node ∈ Node.occurrencesAll false body, ∃ value, Contributes functions natives node value ∧
      datum = linkConstant linked value := by
  rcases Array.mem_map.1 member with ⟨constant, constantMember, rfl⟩
  rcases serves.holdsConstants.mem constantMember with ⟨key, listed⟩
  rcases List.mem_flatMap.1 listed with ⟨node, nodeMember, inNode⟩
  exact ⟨node, nodeMember, constant, contributes_of_nodeConstants inNode, rfl⟩

/-- A constant that is a function of the program is linked to the function of that name. -/
theorem Compiled.linkConstant_own (shaped : program.IsShaped Number.IsNumber)
    (compiled : Compiled natives program functions top rest unit) {name : String}
    {ref : FunctionRef} (known : functions.find? name = some ref) :
    ∃ linked ∈ unit.functions, linked.name = name ∧
      linkConstant (functions.setEntries (programBodies program)) (.function ref) =
        .function linked := by
  have listed : name ∈ (definitions program).map (·.name) := by
    by_contra absent
    rw [(compiled.lists.find?_eq_none_iff name).2 absent] at known
    cases known
  rcases List.mem_map.1 listed with ⟨definition, member, rfl⟩
  rcases List.mem_iff_getElem?.1 member with ⟨number, found⟩
  rw [compiled.lists.find? found] at known
  cases known
  rw [← programBodies_definitions shaped, List.getElem?_map] at found
  rcases Option.map_eq_some_iff.1 found with ⟨body, bodyFound, rfl⟩
  have linked : (functions.setEntries (programBodies program)).find?
      (definitionRef number body.definition).name = some (body.ref number) :=
    compiled.find?_setEntries shaped bodyFound
  refine ⟨body.ref number, (compiled.mem_functions_iff shaped).2 ⟨number, body, bodyFound, rfl⟩,
    rfl, ?_⟩
  rw [linkConstant, linked]
  rfl

theorem Compiled.sound_storage (shaped : program.IsShaped Number.IsNumber)
    (compiled : Compiled natives program functions top rest unit) {params : List String}
    {body : List Node} {scope : Scope} (serves : scope.Serves functions natives params body)
    (index : Nat) (name : String) (arity : Nat) :
    ∀ datum ∈ (storageOf (functions.setEntries (programBodies program)) index name arity
      scope).constants, (Value.ofScalar datum).Sound (· ∈ unit.functions) := by
  intro datum member
  rcases serves.exists_node member with ⟨node, _, value, contributes, rfl⟩
  cases contributes with
  | literal scalar =>
      cases value with
      | function ref => cases scalar
      | _ => trivial
  | nothing | key => trivial
  | native | path =>
      intro own
      cases own
  | function known =>
      rcases compiled.linkConstant_own shaped known with ⟨linked, linkedMember, _, same⟩
      rw [same]
      exact fun _ => linkedMember

/-- The functions among the constants of a compiled program are its own. -/
theorem Compiled.sound (shaped : program.IsShaped Number.IsNumber)
    (compiled : Compiled natives program functions top rest unit) :
    unit.Sound (· ∈ unit.functions) := by
  intro storage member
  rw [← Array.mem_toList_iff, compiled.storages_eq] at member
  rcases List.mem_map.1 member with ⟨⟨⟨⟨name, arity⟩, scope⟩, index⟩, entry, rfl⟩
  have inScopes : scope ∈ top :: rest :=
    (List.of_mem_zip (List.fst_mem_of_mem_zipIdx entry)).2
  rcases List.mem_cons.1 inScopes with rfl | inner
  · exact compiled.sound_storage shaped compiled.topServes _ _ _
  · rcases List.mem_iff_getElem.1 inner with ⟨number, inside, rfl⟩
    rcases List.forall₂_iff_get.1 compiled.serves with ⟨length, served⟩
    exact compiled.sound_storage shaped (served number (by omega) inside) _ _ _

/-- Every compiled unit is metered. -/
theorem Compiled.metered (shaped : program.IsShaped Number.IsNumber)
    (compiled : Compiled natives program functions top rest unit) :
    ∃ listing, unit.Metered listing (programMarks functions natives top rest program) := by
  rcases pieces_program shaped functions natives top rest with ⟨code, pieces⟩
  rcases compiled.wellFormed shaped with ⟨listing, wellFormed⟩
  have decoded := decodeAll_eq (compiled.bytes_code pieces)
  have same : listing = located 0 code := by
    rw [wellFormed.decoded] at decoded
    exact Except.ok.inj decoded
  subst same
  have surveyed := surveyed_program shaped functions natives top rest
  refine ⟨_, wellFormed, fun _ _ => mem_programMarks_iff shaped pieces, ?_,
    unique_programMarks shaped pieces, apart_programMarks shaped pieces,
    (compiled.closed shaped).2, (compiled.closed shaped).1, ?_, ?_, ?_,
    ⟨_, compiled.storage_top⟩, compiled.sound shaped⟩
  · intro mark member
    have standing := (mem_programMarks_iff shaped pieces).2 ⟨mark, member, rfl, rfl⟩
    exact ((stands_of_bytes (compiled.bytes_code pieces)).of_located standing).read
  · intro ref member
    rcases (compiled.mem_functions_iff shaped).1 member with ⟨number, body, found, rfl⟩
    rcases (surveyed.tightBodies body (List.mem_of_getElem? found)).starts with
      ⟨mark, markMember, offset, height⟩
    exact ⟨mark, markMember, by rw [offset]; rfl, height⟩
  · intro ref member mark markMember covers
    rcases (compiled.mem_functions_iff shaped).1 member with ⟨number, body, found, rfl⟩
    have listed := List.mem_of_getElem? found
    rw [compiled.covers_iff shaped pieces listed] at covers
    exact (surveyed.tightBodies body listed).drops mark markMember covers
  · intro ref member
    rcases (compiled.mem_functions_iff shaped).1 member with ⟨number, body, found, rfl⟩
    exact ⟨rfl, compiled.callee shaped found⟩

/-- A site starts without operands; those in functions and in loops lie in parts that are tight. -/
structure Unit.Charts (unit : Unit) (listing : List (Nat × Instruction)) (marks : List Mark)
    (site : Site) : Prop where
  mark : ∃ mark ∈ marks, mark.offset = site.offset ∧ mark.height = 0
  function : site.inFunction = true → ∃ ref ∈ unit.functions, RegionCovers listing ref site.offset
  loops : ∀ range ∈ site.loops, IsTight marks range ∧ range.stop ≤ unit.opcodes.size

theorem Compiled.charts (shaped : program.IsShaped Number.IsNumber)
    (compiled : Compiled natives program functions top rest unit)
    {listing : List (Nat × Instruction)}
    (decoded : decodeAll unit.opcodes = .ok listing) {site : Site}
    (member : site ∈ programSites program) :
    unit.Charts listing (programMarks functions natives top rest program) site := by
  rcases pieces_program shaped functions natives top rest with ⟨code, pieces⟩
  rw [decodeAll_eq (compiled.bytes_code pieces)] at decoded
  cases decoded
  have surveyed := surveyed_program shaped functions natives top rest
  rcases surveyed.knownSites site member with ⟨mark, function, loops⟩
  refine ⟨mark, ?_, ?_⟩
  · intro inFunction
    rcases function inFunction with never | ⟨body, bodyMember, covers⟩
    · cases never
    · rcases List.mem_iff_getElem?.1 bodyMember with ⟨number, found⟩
      exact ⟨body.ref number, (compiled.mem_functions_iff shaped).2 ⟨number, body, found, rfl⟩,
        (compiled.covers_iff shaped pieces bodyMember number _).2 covers⟩
  · intro range rangeMember
    rcases loops range rangeMember with never | tight
    · cases never
    · refine ⟨tight.toIsTight, ?_⟩
      have last := tight.last
      rwa [Nat.zero_add, ← compiled.size] at last

/-- Whenever the program of a source is compiled, the unit is metered and its sites are known. -/
theorem exists_metered {source : String} (read : Program.ofSource source = .ok program)
    (compiles : compile natives program = .ok unit) :
    ∃ listing marks, unit.Metered listing marks ∧
      ∀ site ∈ programSites program, unit.Charts listing marks site := by
  have shaped := Program.isShaped_ofSource read
  have spec := compile_spec natives shaped
  rw [compiles] at spec
  rcases spec with ⟨functions, top, rest, compiled⟩
  rcases compiled.metered shaped with ⟨listing, metered⟩
  exact ⟨listing, _, metered, fun site member =>
    compiled.charts shaped metered.wellFormed.decoded member⟩

end

namespace Unit.Metered

variable {unit : Unit} {listing : List (Nat × Instruction)} {marks : List Mark}

theorem inside (metered : unit.Metered listing marks) {mark : Mark} (member : mark ∈ marks) :
    mark.offset + mark.instruction.size ≤ unit.opcodes.size :=
  Machine.size_le_of_decode (metered.reads mark member)

/-- An offset with a mark has one height only. -/
theorem height_unique (metered : unit.Metered listing marks) {mark : Mark} (member : mark ∈ marks)
    {height : Nat} (known : unit.HeightAt marks mark.offset height) : height = mark.height := by
  rcases known with ⟨other, otherMember, same, rfl⟩ | ⟨atEnd, _⟩
  · rw [metered.unique other otherMember mark member same]
  · have inside := metered.inside member
    have positive := mark.instruction.size_pos
    omega

/-- The region of a function lies between a jump over it and a return. -/
theorem exists_region (metered : unit.Metered listing marks) {ref : FunctionRef}
    (member : ref ∈ unit.functions) :
    ∃ skip ∈ marks, ∃ last ∈ marks, skip.instruction.falls = false ∧
      last.instruction.falls = false ∧ ref.entry = skip.offset + skip.instruction.size ∧
      skip.offset + skip.instruction.size ≤ last.offset ∧
      ∀ offset, RegionCovers listing ref offset ↔
        skip.offset + skip.instruction.size ≤ offset ∧
          offset < last.offset + last.instruction.size := by
  rcases metered.wellFormed.regions ref member with ⟨start, stop, region, _, ordered, returns⟩
  rcases region.skip with ⟨place, target, next, skips, targetEq⟩
  rcases (metered.listed _ _).1 skips with ⟨skip, skipMember, rfl, skipInstruction⟩
  rcases (metered.listed _ _).1 returns with ⟨last, lastMember, lastOffset, lastInstruction⟩
  have skipSize : skip.instruction.size = 3 := by rw [skipInstruction]; rfl
  have lastSize : last.instruction.size = 1 := by rw [lastInstruction]; rfl
  refine ⟨skip, skipMember, last, lastMember, by rw [skipInstruction]; rfl,
    by rw [lastInstruction]; rfl, ?_, by omega, fun offset => ⟨?_, ?_⟩⟩
  · rw [region.entry]
    omega
  · rintro ⟨otherStart, otherStop, other, behind, before⟩
    have sameStart : otherStart = start := by
      have entries := other.entry.symm.trans region.entry
      omega
    subst sameStart
    rcases other.skip with ⟨otherPlace, otherTarget, otherNext, otherSkips, rfl⟩
    rcases (metered.listed _ _).1 otherSkips with ⟨otherSkip, otherMember, rfl, otherInstruction⟩
    have same := metered.unique otherSkip otherMember skip skipMember (by omega)
    rw [← same, otherInstruction] at skipInstruction
    cases skipInstruction
    omega
  · intro covers
    exact ⟨start, stop, region, by omega, by omega⟩

/-- An instruction and the one that follows it lie in the same regions. -/
theorem covers_next (metered : unit.Metered listing marks) {ref : FunctionRef}
    (member : ref ∈ unit.functions) {mark : Mark} (marked : mark ∈ marks)
    (falls : mark.instruction.falls = true) :
    RegionCovers listing ref (mark.offset + mark.instruction.size) ↔
      RegionCovers listing ref mark.offset := by
  rcases metered.exists_region member with
    ⟨skip, skipMember, last, lastMember, skipFalls, lastFalls, _, _, covers⟩
  have notSkip : mark.offset ≠ skip.offset := by
    intro same
    rw [metered.unique mark marked skip skipMember same, skipFalls] at falls
    cases falls
  have notLast : mark.offset ≠ last.offset := by
    intro same
    rw [metered.unique mark marked last lastMember same, lastFalls] at falls
    cases falls
  have beforeSkip := metered.apart mark marked skip skipMember
  have behindSkip := metered.apart skip skipMember mark marked
  have beforeLast := metered.apart mark marked last lastMember
  have behindLast := metered.apart last lastMember mark marked
  have positive := skip.instruction.size_pos
  have lastPositive := last.instruction.size_pos
  rw [covers, covers]
  omega

theorem belongs_next (metered : unit.Metered listing marks) {owner : Option FunctionRef}
    {mark : Mark} (marked : mark ∈ marks) (falls : mark.instruction.falls = true)
    (belongs : unit.Belongs listing owner mark.offset) :
    unit.Belongs listing owner (mark.offset + mark.instruction.size) := by
  cases owner with
  | none =>
      intro ref member
      rw [metered.covers_next member marked falls]
      exact belongs ref member
  | some owner =>
      rcases belongs with ⟨member, covers, innermost⟩
      refine ⟨member, (metered.covers_next member marked falls).2 covers, ?_⟩
      intro ref refMember inner
      rw [metered.covers_next refMember marked falls]
      exact innermost ref refMember inner

/-- The end of the code belongs to the top level and to no function. -/
theorem belongs_end_iff (metered : unit.Metered listing marks) (owner : Option FunctionRef) :
    unit.Belongs listing owner unit.opcodes.size ↔ owner = none := by
  have outside : ∀ ref ∈ unit.functions, ¬RegionCovers listing ref unit.opcodes.size := by
    intro ref member
    rcases metered.exists_region member with ⟨_, _, last, lastMember, _, _, _, _, covers⟩
    have inside := metered.inside lastMember
    rw [covers]
    omega
  cases owner with
  | none => exact ⟨fun _ => rfl, fun _ => outside⟩
  | some owner => exact ⟨fun belongs => (outside owner belongs.1 belongs.2.1).elim, nofun⟩

theorem belongs_entry (metered : unit.Metered listing marks) {ref : FunctionRef}
    (member : ref ∈ unit.functions) : unit.Belongs listing (some ref) ref.entry.toNat := by
  rcases metered.exists_region member with ⟨skip, _, last, _, _, _, entry, ordered, covers⟩
  have positive := last.instruction.size_pos
  refine ⟨member, (covers _).2 (by omega), ?_⟩
  intro inner innerMember behind
  rcases metered.exists_region innerMember with ⟨_, _, _, _, _, _, innerEntry, _, innerCovers⟩
  rw [innerCovers]
  omega

theorem belongs_target (metered : unit.Metered listing marks) {owner : Option FunctionRef}
    {mark : Mark} (marked : mark ∈ marks) (belongs : unit.Belongs listing owner mark.offset)
    {target : Nat} (leads : mark.instruction.target? = some target) :
    unit.Belongs listing owner target := by
  have standing := (metered.listed _ _).2 ⟨mark, marked, rfl, rfl⟩
  rcases (metered.wellFormed.kept owner _ _ standing belongs).targets target leads with
    ⟨_, kept⟩ | ⟨rfl, rfl⟩
  · exact kept
  · exact (metered.belongs_end_iff none).2 rfl

/-- What belongs to a function drops the values of its statements. -/
theorem drops_of_belongs (metered : unit.Metered listing marks) {ref : FunctionRef} {mark : Mark}
    (marked : mark ∈ marks) (belongs : unit.Belongs listing (some ref) mark.offset) :
    mark.drops = true :=
  metered.inner ref belongs.1 mark marked belongs.2.1

end Unit.Metered

end Lehce.Code

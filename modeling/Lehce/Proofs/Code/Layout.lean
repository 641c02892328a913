import Lehce.Proofs.Code.Decoding
import Lehce.Proofs.Code.EmissionLogic

/-!
# How code is laid out

The bodies of functions stand in the code of the statements around them, each behind the
jump that skips it, and may contain further bodies. `Laid` says that pieces of code and
the bodies in them are in order: an instruction uses slots of the scope that it belongs
to, a jump leads to an instruction that belongs to the same scope, and every body ends
with a return. An instruction belongs to the innermost body around it, or else to the
scope of the statements themselves.

Jumps out of the pieces may lead to the offsets that satisfy `goal`, until these are
known to be inside. The laws follow the ways in which statements are put together.
-/

namespace Lehce.Code

/-- The offset that an instruction may continue at. -/
def Instruction.target? : Instruction → Option Nat
  | .jump target | .compare target => some target.toNat
  | _ => none

/-- How many operands an instruction takes. -/
def Instruction.takes : Instruction → Nat
  | .load _ | .jump _ => 0
  | .store _ | .fastStore _ | .compare _ | .return_ | .unary _ | .dup | .pop => 1
  | .binary _ | .dup2 | .getItem => 2
  | .setItem => 3
  | .call _ count _ => count.toNat
  | .initList count => count.toNat
  | .initDict count => 2 * count.toNat

/-- How many operands an instruction leaves in their place; a call does so when it is over. -/
def Instruction.leaves : Instruction → Nat
  | .store _ | .jump _ | .compare _ | .return_ | .pop | .setItem => 0
  | .load _ | .fastStore _ | .initList _ | .initDict _ | .binary _ | .unary _ | .getItem => 1
  | .dup => 2
  | .dup2 => 4
  | .call _ _ used => if used then 1 else 0

/-- The slot that an instruction uses. -/
def Instruction.slot? : Instruction → Option Nat
  | .load slot | .store slot | .fastStore slot | .call slot _ _ => some slot.toNat
  | _ => none

/-- Whether an instruction can be followed by the one that stands behind it. -/
def Instruction.falls : Instruction → Bool
  | .jump _ | .return_ => false
  | _ => true

/-- Whether an instruction uses only slots of a memory, and stores only behind its constants. -/
def Instruction.KeepsTo (constants size : Nat) : Instruction → Prop
  | .load slot | .call slot _ _ => slot.toNat < size
  | .store slot | .fastStore slot => constants ≤ slot.toNat ∧ slot.toNat < size
  | _ => True

/-- Whether an instruction uses only slots of a scope. -/
def Scope.Admits (scope : Scope) (instruction : Instruction) : Prop :=
  instruction.KeepsTo scope.constants.size (scope.constants.size + scope.locals.size)

/-- Whether an offset lies in a body. -/
def Body.Covers (body : Body) (offset : Nat) : Prop := body.entry ≤ offset ∧ offset < body.stop

/-- Whether an offset lies in none of some bodies. -/
def IsFree (bodies : List Body) (offset : Nat) : Prop := ∀ body ∈ bodies, ¬body.Covers offset

/-- Whether an offset lies in a body, but in none of the bodies inside that body. -/
def Body.Holds (bodies : List Body) (body : Body) (offset : Nat) : Prop :=
  body.Covers offset ∧ ∀ other ∈ bodies, body.entry < other.entry → ¬other.Covers offset

/-- Whether an instruction stands at an offset. -/
def IsPlace (start : Nat) (pieces : List Piece) (offset : Nat) : Prop :=
  ∃ piece, (offset, piece) ∈ placed start pieces

/-- An offset is the end of some pieces, or that of an instruction outside all bodies. -/
def IsBoundary (start : Nat) (pieces : List Piece) (bodies : List Body) (offset : Nat) : Prop :=
  offset = start + piecesSize pieces ∨ (IsPlace start pieces offset ∧ IsFree bodies offset)

/-- The scope of the function with a name. -/
def innerScope (functions : Functions) (scopes : Array Scope) (name : String) : Scope :=
  ((functions.find? name).bind fun ref => scopes[ref.storage.toNat]?).getD {}

/-- A body stands behind the jump that skips it, ends with a return, and is left by no jump. -/
structure IsRegion (scope : Scope) (start : Nat) (pieces : List Piece) (bodies : List Body)
    (body : Body) : Prop where
  first : start + 3 ≤ body.entry
  last : body.entry < body.stop
  inside : body.stop ≤ start + piecesSize pieces
  skipped : (body.entry - 3, .plain (.jump body.stop.toUInt16)) ∈ placed start pieces
  returns : (body.stop - 1, .plain .return_) ∈ placed start pieces
  holds : ∀ offset piece, (offset, piece) ∈ placed start pieces → body.Holds bodies offset →
    ∃ instruction, piece = .plain instruction ∧ scope.Admits instruction ∧
      ∀ target, instruction.target? = some target →
        IsPlace start pieces target ∧ body.Holds bodies target

/-- Pieces of code and the bodies in them are in order. -/
structure Laid (functions : Functions) (scopes : Array Scope) (scope : Scope) (goal : Nat → Prop)
    (start : Nat) (pieces : List Piece) (bodies : List Body) : Prop where
  own : ∀ offset instruction, (offset, .plain instruction) ∈ placed start pieces →
    IsFree bodies offset → scope.Admits instruction ∧
      ∀ target, instruction.target? = some target → IsBoundary start pieces bodies target ∨ goal target
  regions : ∀ body ∈ bodies,
    IsRegion (innerScope functions scopes body.definition.name) start pieces bodies body

theorem placed_bounds {start : Nat} {pieces : List Piece} {offset : Nat} {piece : Piece}
    (member : (offset, piece) ∈ placed start pieces) :
    start ≤ offset ∧ offset < start + piecesSize pieces := by
  induction pieces generalizing start with
  | nil => cases member
  | cons first rest ih =>
      have positive : 0 < first.size := first.draft.size_pos
      rw [placed_cons] at member
      rw [piecesSize_cons]
      rcases List.mem_cons.1 member with same | later
      · cases same
        omega
      · have bounds := ih later
        omega

/-- At most one piece stands at an offset. -/
theorem placed_unique {start : Nat} {pieces : List Piece} {offset : Nat} {piece other : Piece}
    (member : (offset, piece) ∈ placed start pieces)
    (otherMember : (offset, other) ∈ placed start pieces) : piece = other := by
  induction pieces generalizing start with
  | nil => cases member
  | cons first rest ih =>
      have positive : 0 < first.size := first.draft.size_pos
      rw [placed_cons] at member otherMember
      rcases List.mem_cons.1 member with same | later
      · rcases List.mem_cons.1 otherMember with otherSame | otherLater
        · cases same
          cases otherSame
          rfl
        · cases same
          have behind := (placed_bounds otherLater).1
          omega
      · rcases List.mem_cons.1 otherMember with otherSame | otherLater
        · cases otherSame
          have behind := (placed_bounds later).1
          omega
        · exact ih later otherLater

theorem mem_of_placed {start : Nat} {pieces : List Piece} {offset : Nat} {piece : Piece}
    (member : (offset, piece) ∈ placed start pieces) : piece ∈ pieces := by
  induction pieces generalizing start with
  | nil => cases member
  | cons first rest ih =>
      rw [placed_cons] at member
      rcases List.mem_cons.1 member with same | later
      · cases same
        exact List.mem_cons_self
      · exact List.mem_cons_of_mem _ (ih later)

theorem IsPlace.bounds {start : Nat} {pieces : List Piece} {offset : Nat}
    (place : IsPlace start pieces offset) : start ≤ offset ∧ offset < start + piecesSize pieces := by
  rcases place with ⟨piece, member⟩
  exact placed_bounds member

/-- Behind a piece that is not the last one stands another. -/
theorem isPlace_next {start : Nat} {pieces : List Piece} {offset : Nat} {piece : Piece}
    (member : (offset, piece) ∈ placed start pieces)
    (more : offset + piece.size < start + piecesSize pieces) :
    IsPlace start pieces (offset + piece.size) := by
  induction pieces generalizing start with
  | nil => cases member
  | cons first rest ih =>
      rw [placed_cons] at member
      rw [piecesSize_cons] at more
      rcases List.mem_cons.1 member with same | later
      · cases same
        cases rest with
        | nil =>
            simp only [piecesSize_nil] at more
            omega
        | cons second others => exact ⟨second, by simp⟩
      · rcases ih later (by omega) with ⟨next, nextMember⟩
        exact ⟨next, List.mem_cons_of_mem _ nextMember⟩

theorem IsPlace.append_right {start : Nat} {front : List Piece} {offset : Nat}
    (place : IsPlace start front offset) (back : List Piece) :
    IsPlace start (front ++ back) offset := by
  rcases place with ⟨piece, member⟩
  refine ⟨piece, ?_⟩
  rw [placed_append]
  exact List.mem_append_left _ member

theorem IsPlace.append_left {start : Nat} {back : List Piece} {offset : Nat} (front : List Piece)
    (place : IsPlace (start + piecesSize front) back offset) :
    IsPlace start (front ++ back) offset := by
  rcases place with ⟨piece, member⟩
  refine ⟨piece, ?_⟩
  rw [placed_append]
  exact List.mem_append_right _ member

namespace Laid

variable {functions : Functions} {scopes : Array Scope} {scope : Scope} {goal : Nat → Prop}
  {start : Nat} {pieces front back : List Piece} {bodies frontBodies backBodies : List Body}

theorem isBoundary_start (laid : Laid functions scopes scope goal start pieces bodies) :
    IsBoundary start pieces bodies start := by
  cases pieces with
  | nil => exact .inl rfl
  | cons first rest =>
      refine .inr ⟨⟨first, List.mem_cons_self⟩, ?_⟩
      intro body member covers
      have behind := (laid.regions body member).first
      have reached := covers.1
      omega

theorem isBoundary_append_left (laid : Laid functions scopes scope goal start front frontBodies)
    {target : Nat} (boundary : IsBoundary (start + piecesSize front) back backBodies target) :
    IsBoundary start (front ++ back) (frontBodies ++ backBodies) target := by
  rcases boundary with atEnd | ⟨place, free⟩
  · left
    rw [piecesSize_append]
    omega
  · refine .inr ⟨place.append_left front, ?_⟩
    intro body member covers
    rcases List.mem_append.1 member with inFront | inBack
    · have before := (laid.regions body inFront).inside
      have reached := place.bounds.1
      have inside := covers.2
      omega
    · exact free body inBack covers

theorem isBoundary_append_at {middle : Nat}
    (laid : Laid functions scopes scope goal start front frontBodies)
    (middleEq : start + piecesSize front = middle) {target : Nat}
    (boundary : IsBoundary middle back backBodies target) :
    IsBoundary start (front ++ back) (frontBodies ++ backBodies) target := by
  subst middleEq
  exact laid.isBoundary_append_left boundary

theorem isBoundary_append_right (laid : Laid functions scopes scope goal start front frontBodies)
    (following : Laid functions scopes scope goal (start + piecesSize front) back backBodies)
    {target : Nat} (boundary : IsBoundary start front frontBodies target) :
    IsBoundary start (front ++ back) (frontBodies ++ backBodies) target := by
  rcases boundary with rfl | ⟨place, free⟩
  · exact laid.isBoundary_append_left following.isBoundary_start
  · refine .inr ⟨place.append_right back, ?_⟩
    intro body member covers
    rcases List.mem_append.1 member with inFront | inBack
    · exact free body inFront covers
    · have behind := (following.regions body inBack).first
      have reached := covers.1
      have inside := place.bounds.2
      omega

theorem isRegion_append_right (laid : Laid functions scopes scope goal start front frontBodies)
    (following : Laid functions scopes scope goal (start + piecesSize front) back backBodies)
    {body : Body} (member : body ∈ frontBodies) :
    IsRegion (innerScope functions scopes body.definition.name) start (front ++ back)
      (frontBodies ++ backBodies) body := by
  have region := laid.regions body member
  have inside := region.inside
  have apart : ∀ other ∈ backBodies, ∀ offset, body.Covers offset → ¬other.Covers offset := by
    intro other otherMember offset covers otherCovers
    have behind := (following.regions other otherMember).first
    have reached := otherCovers.1
    have before := covers.2
    omega
  refine ⟨region.first, region.last, ?_, ?_, ?_, ?_⟩
  · rw [piecesSize_append]
    omega
  · rw [placed_append]
    exact List.mem_append_left _ region.skipped
  · rw [placed_append]
    exact List.mem_append_left _ region.returns
  · intro offset piece standing holds
    rw [placed_append] at standing
    rcases List.mem_append.1 standing with early | late
    · rcases region.holds offset piece early
        ⟨holds.1, fun other otherMember => holds.2 other (List.mem_append_left _ otherMember)⟩ with
        ⟨instruction, plain, admits, targets⟩
      refine ⟨instruction, plain, admits, ?_⟩
      intro target leads
      rcases targets target leads with ⟨place, targetHolds⟩
      refine ⟨place.append_right back, targetHolds.1, ?_⟩
      intro other otherMember deeper
      rcases List.mem_append.1 otherMember with inFront | inBack
      · exact targetHolds.2 other inFront deeper
      · exact apart other inBack target targetHolds.1
    · have reached := (placed_bounds late).1
      have before := holds.1.2
      omega

theorem isRegion_append_left (laid : Laid functions scopes scope goal start front frontBodies)
    (following : Laid functions scopes scope goal (start + piecesSize front) back backBodies)
    {body : Body} (member : body ∈ backBodies) :
    IsRegion (innerScope functions scopes body.definition.name) start (front ++ back)
      (frontBodies ++ backBodies) body := by
  have region := following.regions body member
  have first := region.first
  have inside := region.inside
  refine ⟨by omega, region.last, ?_, ?_, ?_, ?_⟩
  · rw [piecesSize_append]
    omega
  · rw [placed_append]
    exact List.mem_append_right _ region.skipped
  · rw [placed_append]
    exact List.mem_append_right _ region.returns
  · intro offset piece standing holds
    rw [placed_append] at standing
    rcases List.mem_append.1 standing with early | late
    · have before := (placed_bounds early).2
      have reached := holds.1.1
      omega
    · rcases region.holds offset piece late
        ⟨holds.1, fun other otherMember => holds.2 other (List.mem_append_right _ otherMember)⟩ with
        ⟨instruction, plain, admits, targets⟩
      refine ⟨instruction, plain, admits, ?_⟩
      intro target leads
      rcases targets target leads with ⟨place, targetHolds⟩
      refine ⟨place.append_left front, targetHolds.1, ?_⟩
      intro other otherMember deeper
      rcases List.mem_append.1 otherMember with inFront | inBack
      · have earlier := laid.regions other inFront
        have ending := earlier.inside
        have nonempty := earlier.last
        omega
      · exact targetHolds.2 other inBack deeper

/-- Pieces in order that stand one after the other are in order. -/
theorem append (laid : Laid functions scopes scope goal start front frontBodies)
    (following : Laid functions scopes scope goal (start + piecesSize front) back backBodies) :
    Laid functions scopes scope goal start (front ++ back) (frontBodies ++ backBodies) := by
  constructor
  · intro offset instruction standing free
    rw [placed_append] at standing
    rcases List.mem_append.1 standing with early | late
    · rcases laid.own offset instruction early
        (fun body member => free body (List.mem_append_left _ member)) with ⟨admits, targets⟩
      refine ⟨admits, ?_⟩
      intro target leads
      rcases targets target leads with boundary | goes
      · exact .inl (laid.isBoundary_append_right following boundary)
      · exact .inr goes
    · rcases following.own offset instruction late
        (fun body member => free body (List.mem_append_right _ member)) with ⟨admits, targets⟩
      refine ⟨admits, ?_⟩
      intro target leads
      rcases targets target leads with boundary | goes
      · exact .inl (laid.isBoundary_append_left boundary)
      · exact .inr goes
  · intro body member
    rcases List.mem_append.1 member with inFront | inBack
    · exact laid.isRegion_append_right following inFront
    · exact laid.isRegion_append_left following inBack

theorem append_at {middle : Nat} (laid : Laid functions scopes scope goal start front frontBodies)
    (middleEq : start + piecesSize front = middle)
    (following : Laid functions scopes scope goal middle back backBodies) :
    Laid functions scopes scope goal start (front ++ back) (frontBodies ++ backBodies) := by
  subst middleEq
  exact laid.append following

/-- An instruction outside all bodies is in order when it leads to a goal. -/
theorem single {piece : Piece} (admits : ∀ instruction, piece = .plain instruction →
      scope.Admits instruction ∧ ∀ target, instruction.target? = some target → goal target) :
    Laid functions scopes scope goal start [piece] [] := by
  refine ⟨?_, by simp⟩
  intro offset instruction standing free
  rw [placed_cons, placed_nil, List.mem_singleton] at standing
  cases standing
  rcases admits instruction rfl with ⟨fits, targets⟩
  exact ⟨fits, fun target leads => .inr (targets target leads)⟩

theorem nil : Laid functions scopes scope goal start [] [] :=
  ⟨fun offset instruction standing => (List.not_mem_nil standing).elim, by simp⟩

/-- Goals that turn out to be boundaries are no longer goals. -/
theorem reach {fewer : Nat → Prop} (laid : Laid functions scopes scope goal start pieces bodies)
    (reached : ∀ target, goal target → IsBoundary start pieces bodies target ∨ fewer target) :
    Laid functions scopes scope fewer start pieces bodies := by
  refine ⟨?_, laid.regions⟩
  intro offset instruction standing free
  rcases laid.own offset instruction standing free with ⟨admits, targets⟩
  refine ⟨admits, ?_⟩
  intro target leads
  rcases targets target leads with boundary | goes
  · exact .inl boundary
  · exact reached target goes

theorem isPlace_map_fill {exit : Exit} {target offset : Nat} (place : IsPlace start pieces offset) :
    IsPlace start (pieces.map (Piece.fill exit target)) offset := by
  rcases place with ⟨piece, member⟩
  refine ⟨piece.fill exit target, ?_⟩
  rw [placed_map_fill]
  exact List.mem_map.2 ⟨_, member, rfl⟩

theorem isRegion_map_fill {exit : Exit} {target : Nat} {body : Body}
    (region : IsRegion scope start pieces bodies body) :
    IsRegion scope start (pieces.map (Piece.fill exit target)) bodies body := by
  refine ⟨region.first, region.last, ?_, ?_, ?_, ?_⟩
  · rw [piecesSize_map_fill]
    exact region.inside
  · rw [placed_map_fill]
    exact List.mem_map.2 ⟨_, region.skipped, rfl⟩
  · rw [placed_map_fill]
    exact List.mem_map.2 ⟨_, region.returns, rfl⟩
  · intro offset piece standing holds
    rw [placed_map_fill] at standing
    rcases List.mem_map.1 standing with ⟨⟨place, filled⟩, member, same⟩
    cases same
    rcases region.holds offset filled member holds with ⟨instruction, rfl, admits, targets⟩
    refine ⟨instruction, rfl, admits, ?_⟩
    intro next leads
    rcases targets next leads with ⟨nextPlace, nextHolds⟩
    exact ⟨isPlace_map_fill nextPlace, nextHolds⟩

/-- Jumps that leave a loop lead to where the loop is left. -/
theorem fill (laid : Laid functions scopes scope goal start pieces bodies) (exit : Exit)
    {target : Nat} (small : target ≤ maxOperand) :
    Laid functions scopes scope (fun next => next = target ∨ goal next) start
      (pieces.map (Piece.fill exit target)) bodies := by
  refine ⟨?_, fun body member => isRegion_map_fill (laid.regions body member)⟩
  intro offset instruction standing free
  rw [placed_map_fill] at standing
  rcases List.mem_map.1 standing with ⟨⟨place, piece⟩, member, same⟩
  cases piece with
  | hole draft => cases same
  | plain known =>
      cases same
      rcases laid.own offset instruction member free with ⟨admits, targets⟩
      refine ⟨admits, ?_⟩
      intro next leads
      rcases targets next leads with (atEnd | ⟨nextPlace, nextFree⟩) | goes
      · exact .inl (.inl (by rw [piecesSize_map_fill]; exact atEnd))
      · exact .inl (.inr ⟨isPlace_map_fill nextPlace, nextFree⟩)
      · exact .inr (.inr goes)
  | leave other =>
      simp only [Piece.fill, Prod.mk.injEq] at same
      split at same
      · cases same.2
        refine ⟨trivial, ?_⟩
        rintro next ⟨⟩
        refine .inr (.inl ?_)
        rw [Nat.toUInt16, UInt16.toNat_ofNat']
        simp only [maxOperand] at small
        omega
      · cases same.2

theorem isRegion_cons {inner : Scope} {body outer : Body} (around : outer.entry < body.entry)
    (region : IsRegion inner start pieces bodies body) :
    IsRegion inner start pieces (outer :: bodies) body := by
  refine ⟨region.first, region.last, region.inside, region.skipped, region.returns, ?_⟩
  intro offset piece standing holds
  rcases region.holds offset piece standing
    ⟨holds.1, fun other member => holds.2 other (List.mem_cons_of_mem _ member)⟩ with
    ⟨instruction, plain, admits, targets⟩
  refine ⟨instruction, plain, admits, ?_⟩
  intro target leads
  rcases targets target leads with ⟨place, targetHolds⟩
  refine ⟨place, targetHolds.1, ?_⟩
  intro other member deeper
  rcases List.mem_cons.1 member with rfl | later
  · omega
  · exact targetHolds.2 other later deeper

/-- A body is in order around what is in order inside it. -/
theorem isRegion_function {inner : Scope} {body : Body}
    (laid : Laid functions scopes inner (fun _ => False) body.entry front bodies)
    (plain : ∀ piece ∈ front, ∃ instruction, piece = .plain instruction)
    (entry : body.entry = start + 3) (stop : body.stop = body.entry + piecesSize front + 1) :
    IsRegion inner start (.plain (.jump body.stop.toUInt16) :: (front ++ [.plain .return_]))
      (body :: bodies) body := by
  have jumpSize : (Piece.plain (.jump body.stop.toUInt16)).size = 3 := rfl
  have frontPlaces : ∀ offset piece, (offset, piece) ∈ placed body.entry front →
      (offset, piece) ∈ placed start
        (.plain (.jump body.stop.toUInt16) :: (front ++ [.plain .return_])) := by
    intro offset piece standing
    rw [placed_cons, placed_append, jumpSize, ← entry]
    exact List.mem_cons_of_mem _ (List.mem_append_left _ standing)
  have lastPlace : (body.stop - 1, Piece.plain .return_) ∈ placed start
      (.plain (.jump body.stop.toUInt16) :: (front ++ [.plain .return_])) := by
    rw [placed_cons, placed_append, jumpSize, ← entry, stop, Nat.add_sub_cancel]
    exact List.mem_cons_of_mem _ (List.mem_append_right _ List.mem_cons_self)
  refine ⟨by omega, by omega, ?_, ?_, lastPlace, ?_⟩
  · simp only [piecesSize_cons, piecesSize_append, piecesSize_nil, jumpSize]
    have returnSize : (Piece.plain .return_).size = 1 := rfl
    omega
  · rw [entry, Nat.add_sub_cancel]
    exact List.mem_cons_self
  · intro offset piece standing holds
    have free : IsFree bodies offset := by
      intro other member covers
      have behind := (laid.regions other member).first
      exact holds.2 other (List.mem_cons_of_mem _ member) (by omega) covers
    rw [placed_cons, placed_append, jumpSize, ← entry] at standing
    rcases List.mem_cons.1 standing with skip | later
    · cases skip
      have reached := holds.1.1
      omega
    rcases List.mem_append.1 later with early | last
    · rcases plain piece (mem_of_placed early) with ⟨instruction, rfl⟩
      rcases laid.own offset instruction early free with ⟨admits, targets⟩
      refine ⟨instruction, rfl, admits, ?_⟩
      intro target leads
      rcases targets target leads with (atEnd | ⟨⟨next, nextStanding⟩, nextFree⟩) | goes
      · -- The end of the front is where the return stands.
        have place : target = body.stop - 1 := by omega
        rw [place]
        refine ⟨⟨_, lastPlace⟩, ⟨by omega, by omega⟩, ?_⟩
        intro other member deeper covers
        rcases List.mem_cons.1 member with rfl | inside
        · omega
        · have ending := (laid.regions other inside).inside
          have before := covers.2
          omega
      · have bounds := placed_bounds nextStanding
        refine ⟨⟨next, frontPlaces _ _ nextStanding⟩, ⟨bounds.1, by omega⟩, ?_⟩
        intro other member deeper covers
        rcases List.mem_cons.1 member with rfl | inside
        · omega
        · exact nextFree other inside covers
      · exact goes.elim
    · rw [placed_cons, placed_nil, List.mem_singleton] at last
      cases last
      exact ⟨.return_, rfl, trivial, fun target leads => by cases leads⟩

/-- A definition is in order when its body is. -/
theorem function (body : Body) (laid : Laid functions scopes
      (innerScope functions scopes body.definition.name) (fun _ => False) body.entry front bodies)
    (plain : ∀ piece ∈ front, ∃ instruction, piece = .plain instruction)
    (entry : body.entry = start + 3) (stop : body.stop = body.entry + piecesSize front + 1)
    (small : body.stop ≤ maxOperand) :
    Laid functions scopes scope goal start
      (.plain (.jump body.stop.toUInt16) :: (front ++ [.plain .return_])) (body :: bodies) := by
  have jumpSize : (Piece.plain (.jump body.stop.toUInt16)).size = 3 := rfl
  have returnSize : (Piece.plain .return_).size = 1 := rfl
  have stopEq : body.stop.toUInt16.toNat = body.stop := by
    rw [Nat.toUInt16, UInt16.toNat_ofNat']
    simp only [maxOperand] at small
    omega
  constructor
  · intro offset instruction standing free
    rw [placed_cons] at standing
    rcases List.mem_cons.1 standing with skip | later
    · cases skip
      refine ⟨trivial, ?_⟩
      rintro target ⟨⟩
      refine .inl (.inl ?_)
      simp only [piecesSize_cons, piecesSize_append, piecesSize_nil, jumpSize, returnSize, stopEq]
      omega
    · have bounds := placed_bounds later
      simp only [piecesSize_append, piecesSize_cons, piecesSize_nil, jumpSize, returnSize] at bounds
      exact (free body List.mem_cons_self ⟨by omega, by omega⟩).elim
  · intro other member
    rcases List.mem_cons.1 member with rfl | inside
    · exact isRegion_function laid plain entry stop
    · have skip : Laid functions scopes (innerScope functions scopes body.definition.name)
          (fun _ => True) start [.plain (.jump body.stop.toUInt16)] [] :=
        single fun instruction same => by cases same; exact ⟨trivial, fun _ _ => trivial⟩
      have last : Laid functions scopes (innerScope functions scopes body.definition.name)
          (fun _ => True) (body.entry + piecesSize front) [.plain .return_] [] :=
        single fun instruction same => by cases same; exact ⟨trivial, fun _ _ => trivial⟩
      have loose : Laid functions scopes (innerScope functions scopes body.definition.name)
          (fun _ => True) body.entry front bodies := laid.reach fun _ _ => .inr trivial
      have middle := loose.append last
      rw [entry] at middle
      have whole := skip.append middle
      rw [List.append_nil, List.nil_append] at whole
      have behind := (laid.regions other inside).first
      exact isRegion_cons (by omega) (whole.regions other inside)

end Laid

end Lehce.Code

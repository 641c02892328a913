import Lehce.Proofs.Code.Patching

/-!
# How emission extends what has been emitted

`Extends before pieces bodies numbers after` says that emission went from `before` to
`after` and left the given pieces: their bytes stand behind the code, the entries of
the bodies are recorded, and every new location is settled, which means that it is
set and that its jump leads to its target. Only the locations with the given numbers
still wait: these are the jumps that leave the loop around the pieces.

The laws below follow the ways in which emission puts pieces together: one after
the other, behind a jump that is patched later, and in a loop.
-/

namespace Lehce.Code

/-- Records the entries of bodies, one after the other. -/
def Functions.setEntries (functions : Functions) (bodies : List Body) : Functions :=
  bodies.foldl (fun table body => table.setEntry body.definition.name body.entry) functions

theorem Functions.setEntries_append (functions : Functions) (front back : List Body) :
    functions.setEntries (front ++ back) = (functions.setEntries front).setEntries back := by
  simp [setEntries]

/-- Whether a piece is a jump or a comparison with a target. -/
def Piece.JumpsTo (target : UInt16) (piece : Piece) : Prop :=
  piece = .plain (.jump target) ∨ piece = .plain (.compare target)

/-- A location is set inside the code, and what uses it are jumps to its target. -/
structure Settled (start : Nat) (pieces : List Piece) (location : Location) : Prop where
  resolved : location.resolved = true
  inside : ∃ target : Nat, location.target = target ∧ target ≤ start + piecesSize pieces
  uses : ∀ use ∈ location.uses, ∃ offset : Nat, use = (offset + 1 : Nat) ∧
    ∃ piece, (offset, piece) ∈ placed start pieces ∧
      piece.JumpsTo location.target.toNat.toUInt16

theorem Settled.append_right {start : Nat} {front : List Piece} {location : Location}
    (settled : Settled start front location) (back : List Piece) :
    Settled start (front ++ back) location := by
  refine ⟨settled.resolved, ?_, ?_⟩
  · rcases settled.inside with ⟨target, targetEq, bound⟩
    refine ⟨target, targetEq, ?_⟩
    rw [piecesSize_append]
    omega
  · intro use member
    rcases settled.uses use member with ⟨offset, useEq, piece, found, jumps⟩
    refine ⟨offset, useEq, piece, ?_, jumps⟩
    rw [placed_append]
    exact List.mem_append_left _ found

theorem Settled.append_left {start : Nat} {back : List Piece} {location : Location}
    (front : List Piece) (settled : Settled (start + piecesSize front) back location) :
    Settled start (front ++ back) location := by
  refine ⟨settled.resolved, ?_, ?_⟩
  · rcases settled.inside with ⟨target, targetEq, bound⟩
    refine ⟨target, targetEq, ?_⟩
    rw [piecesSize_append]
    omega
  · intro use member
    rcases settled.uses use member with ⟨offset, useEq, piece, found, jumps⟩
    refine ⟨offset, useEq, piece, ?_, jumps⟩
    rw [placed_append]
    exact List.mem_append_right _ found

theorem Settled.fill {start : Nat} {pieces : List Piece} {location : Location}
    (settled : Settled start pieces location) (exit : Exit) (target : Nat) :
    Settled start (pieces.map (Piece.fill exit target)) location := by
  refine ⟨settled.resolved, by simpa using settled.inside, ?_⟩
  intro use member
  rcases settled.uses use member with ⟨offset, useEq, piece, found, jumps⟩
  refine ⟨offset, useEq, piece, ?_, jumps⟩
  rw [placed_map_fill, List.mem_map]
  refine ⟨(offset, piece), found, ?_⟩
  rcases jumps with rfl | rfl <;> rfl

namespace Emission

/-- The state behind an instruction. -/
def appended (s : Emission) (instruction : Instruction) : Emission :=
  { s with draft := { s.draft with code := s.draft.code ++ instruction.encode } }

/-- The state with one location more. -/
def opened (s : Emission) : Emission := { s with draft := s.draft.addLocation.2 }

/-- The state behind a jump to a location. -/
def jumped (s : Emission) (jump : UInt16 → Instruction) (number : Nat) : Emission :=
  { s with draft := ((s.appended (jump 0)).draft.use number
      (((s.appended (jump 0)).draft.code.size : Int) - 2)).draft }

/-- The state after a location is set. -/
def marked (s : Emission) (number target : Nat) : Emission :=
  { s with draft := (s.draft.set number target).draft }

/-- The locations by which the innermost loop is left, the last one first. -/
def exits (s : Emission) : Exit → List Int
  | .breaks => s.breaks
  | .continues => s.continues

/-- The state with no exits. -/
def enclosed (s : Emission) : Emission := { s with breaks := [], continues := [] }

/-- The state with one exit more. -/
def leaving (s : Emission) (exit : Exit) (number : Nat) : Emission :=
  match exit with
  | .breaks => { s with breaks := number :: s.breaks }
  | .continues => { s with continues := number :: s.continues }

/-- The state behind a loop, whose exits are set; the exits of the outer loop are back. -/
def left (s : Emission) (outer : Emission) (start stop : Nat) : Emission :=
  let broken := (s.draft.setAll stop s.breaks.reverse).draft
  let resumed := (broken.setAll start s.continues.reverse).draft
  { s with draft := resumed, breaks := outer.breaks, continues := outer.continues }

@[simp]
theorem opened_code (s : Emission) : s.opened.draft.code = s.draft.code := rfl

@[simp]
theorem enclosed_draft (s : Emission) : s.enclosed.draft = s.draft := rfl

end Emission

/-- The instructions whose operand is a location. -/
inductive IsJump : (UInt16 → Instruction) → Prop where
  | jump : IsJump .jump
  | compare : IsJump .compare

theorem IsJump.encode {jump : UInt16 → Instruction} (isJump : IsJump jump) :
    ∃ op, ∀ target, (jump target).encode = op :: wordBytes target := by
  cases isJump with
  | jump => exact ⟨4, encode_jump⟩
  | compare => exact ⟨5, encode_compare⟩

theorem IsJump.jumpsTo {jump : UInt16 → Instruction} (isJump : IsJump jump) (target : UInt16) :
    (Piece.plain (jump target)).JumpsTo target := by
  cases isJump with
  | jump => exact .inl rfl
  | compare => exact .inr rfl

theorem IsJump.size {jump : UInt16 → Instruction} (isJump : IsJump jump) (target : UInt16) :
    (Piece.plain (jump target)).size = 3 := by
  cases isJump <;> rfl

/-- A jump to a location that is not set is its new use. -/
theorem Emission.jumped_eq {s : Emission} {jump : UInt16 → Instruction} (isJump : IsJump jump)
    {number : Nat} {location : Location} (found : s.draft.locations[number]? = some location)
    (waiting : location.resolved = false) :
    s.jumped jump number =
      { s with draft := ⟨s.draft.code ++ (jump 0).encode,
          s.draft.locations.setIfInBounds number
            { location with uses := location.uses.push (s.draft.code.size + 1 : Nat) }⟩ } := by
  have size : ((s.appended (jump 0)).draft.code.size : Int) - 2 =
      (s.draft.code.size + 1 : Nat) := by
    have length : (jump 0).encode.length = 3 := by cases isJump <;> rfl
    rw [← Array.length_toList]
    simp [Emission.appended, length]
    omega
  rw [Emission.jumped, size, Draft.use, Draft.location?_eq]
  simp only [Emission.appended, found, waiting, Bool.false_eq_true, if_false, Draft.putLocation,
    Int.toNat_natCast]

/-- The state has a location with a number, which is not set and has these uses. -/
def Emission.Awaits (s : Emission) (number : Nat) (uses : Array Int) : Prop :=
  s.draft.locations[number]? = some { uses }

/-- Emission went from one state to another and left some pieces. -/
structure Extends (before : Emission) (pieces : List Piece) (bodies : List Body)
    (numbers : Exit → List Nat) (pending : List Nat) (after : Emission) : Prop where
  code : after.draft.code.toList = before.draft.code.toList ++ piecesBytes pieces
  functions : after.functions = before.functions.setEntries bodies
  exits : ∀ exit, after.exits exit = (numbers exit).reverse.map (↑) ++ before.exits exit
  grows : before.draft.locations.size ≤ after.draft.locations.size
  kept : ∀ number < before.draft.locations.size,
    after.draft.locations[number]? = before.draft.locations[number]?
  fresh : ∀ exit, ∀ number ∈ numbers exit, before.draft.locations.size ≤ number
  waits : ∀ exit, WaitsAt after.draft.locations (numbers exit)
    (exitSites exit before.draft.code.size pieces)
  settled : ∀ number location, before.draft.locations.size ≤ number →
    after.draft.locations[number]? = some location →
      (∃ exit, number ∈ numbers exit) ∨ number ∈ pending ∨
        Settled before.draft.code.size pieces location

/-- No exits. -/
def noExits : Exit → List Nat := fun _ => []

/-- The exits of two parts. -/
def bothExits (numbers others : Exit → List Nat) : Exit → List Nat :=
  fun exit => numbers exit ++ others exit

@[simp]
theorem noExits_both (numbers : Exit → List Nat) : bothExits noExits numbers = numbers := rfl

@[simp]
theorem both_noExits (numbers : Exit → List Nat) : bothExits numbers noExits = numbers := by
  funext exit
  simp [bothExits, noExits]

namespace Extends

variable {before middle after : Emission} {front back pieces : List Piece}
  {first second bodies : List Body} {numbers others : Exit → List Nat}
  {pending later : List Nat}

theorem size_eq (extension : Extends before pieces bodies numbers pending after) :
    after.draft.code.size = before.draft.code.size + piecesSize pieces := by
  rw [← Array.length_toList, extension.code]
  simp

theorem refl (state : Emission) : Extends state [] [] noExits [] state where
  code := by simp
  functions := rfl
  exits := by simp [noExits]
  grows := Nat.le_refl _
  kept := fun _ _ => rfl
  fresh := by simp [noExits]
  waits := fun _ => .nil
  settled := fun number location outside found => by
    have inside := (Array.getElem?_eq_some_iff.1 found).1
    omega

/-- An instruction extends the code by itself. -/
theorem instruction (state : Emission) (instruction : Instruction) :
    Extends state [.plain instruction] [] noExits [] (state.appended instruction) where
  code := by simp [Emission.appended, Piece.draft]
  functions := rfl
  exits := by intro exit; cases exit <;> rfl
  grows := Nat.le_refl _
  kept := fun _ _ => rfl
  fresh := by simp [noExits]
  waits := fun exit => by
    simp only [exitSites_cons_plain, exitSites_nil]
    exact .nil
  settled := fun number location outside found => by
    have inside := (Array.getElem?_eq_some_iff.1 found).1
    simp only [Emission.appended] at inside
    omega

theorem trans (earlier : Extends before front first numbers pending middle)
    (extension : Extends middle back second others later after) :
    Extends before (front ++ back) (first ++ second) (bothExits numbers others)
      (pending ++ later) after where
  code := by rw [extension.code, earlier.code]; simp
  functions := by rw [extension.functions, earlier.functions, Functions.setEntries_append]
  exits := by intro exit; rw [extension.exits, earlier.exits]; simp [bothExits]
  grows := Nat.le_trans earlier.grows extension.grows
  kept := fun number inside => by
    rw [extension.kept number (Nat.lt_of_lt_of_le inside earlier.grows),
      earlier.kept number inside]
  fresh := by
    intro exit number member
    rcases List.mem_append.1 member with old | new
    · exact earlier.fresh exit number old
    · exact Nat.le_trans earlier.grows (extension.fresh exit number new)
  waits := by
    intro exit
    rw [exitSites_append, ← earlier.size_eq]
    refine List.rel_append ?_ (extension.waits exit)
    refine List.Forall₂.imp ?_ (earlier.waits exit)
    rintro number site ⟨location, found, used⟩
    have inside := (Array.getElem?_eq_some_iff.1 found).1
    exact ⟨location, by rw [extension.kept number inside, found], used⟩
  settled := by
    intro number location outside found
    by_cases old : number < middle.draft.locations.size
    · rw [extension.kept number old] at found
      rcases earlier.settled number location outside found with ⟨exit, member⟩ | waiting | settled
      · exact .inl ⟨exit, List.mem_append_left _ member⟩
      · exact .inr (.inl (List.mem_append_left _ waiting))
      · exact .inr (.inr (settled.append_right back))
    · rcases extension.settled number location (by omega) found with
        ⟨exit, member⟩ | waiting | settled
      · exact .inl ⟨exit, List.mem_append_right _ member⟩
      · exact .inr (.inl (List.mem_append_right _ waiting))
      · rw [earlier.size_eq] at settled
        exact .inr (.inr (settled.append_left front))

/-- What waits in a state still waits after the state is extended. -/
theorem awaits (extension : Extends middle pieces bodies numbers pending after) {number : Nat}
    {uses : Array Int} (waiting : middle.Awaits number uses) : after.Awaits number uses := by
  have inside := (Array.getElem?_eq_some_iff.1 waiting).1
  rw [Emission.Awaits, extension.kept number inside, waiting]

theorem awaits_opened (state : Emission) : state.opened.Awaits state.draft.locations.size #[] := by
  simp [Emission.Awaits, Emission.opened, Draft.addLocation]

/-- A new location is pending. -/
theorem opening (state : Emission) :
    Extends state [] [] noExits [state.draft.locations.size] state.opened where
  code := by simp [Emission.opened, Draft.addLocation]
  functions := rfl
  exits := by intro exit; cases exit <;> rfl
  grows := by simp [Emission.opened, Draft.addLocation]
  kept := fun number inside => by
    have different : number ≠ state.draft.locations.size := by omega
    simp [Emission.opened, Draft.addLocation, Array.getElem?_push, different]
  fresh := by simp [noExits]
  waits := fun _ => .nil
  settled := fun number location outside found => by
    have inside := (Array.getElem?_eq_some_iff.1 found).1
    simp only [Emission.opened, Draft.addLocation, Array.size_push] at inside
    exact .inr (.inl (List.mem_singleton.2 (by omega)))

theorem awaits_jumped {jump : UInt16 → Instruction} (isJump : IsJump jump) {number : Nat}
    (waiting : after.Awaits number #[]) :
    (after.jumped jump number).Awaits number #[((after.draft.code.size + 1 : Nat) : Int)] := by
  have inside := (Array.getElem?_eq_some_iff.1 waiting).1
  rw [Emission.Awaits, Emission.jumped_eq isJump waiting rfl]
  simp [inside]

theorem awaits_jumped_of_ne {jump : UInt16 → Instruction} (isJump : IsJump jump)
    {number other : Nat} (waiting : after.Awaits number #[]) (different : other ≠ number)
    {uses : Array Int} (awaits : after.Awaits other uses) :
    (after.jumped jump number).Awaits other uses := by
  rw [Emission.Awaits, Emission.jumped_eq isJump waiting rfl]
  simp only [Array.getElem?_setIfInBounds, if_neg (Ne.symm different)]
  exact awaits

/-- A jump to a pending location. -/
theorem jumping {jump : UInt16 → Instruction} (isJump : IsJump jump)
    (extension : Extends before pieces bodies numbers pending after) {number : Nat}
    (waiting : after.Awaits number #[]) (new : before.draft.locations.size ≤ number)
    (member : number ∈ pending) :
    Extends before (pieces ++ [.hole (jump 0)]) bodies numbers pending
      (after.jumped jump number) := by
  have inside := (Array.getElem?_eq_some_iff.1 waiting).1
  have others : ∀ other, other ≠ number →
      (after.jumped jump number).draft.locations[other]? = after.draft.locations[other]? := by
    intro other different
    rw [Emission.jumped_eq isJump waiting rfl]
    simp only [Array.getElem?_setIfInBounds, if_neg (Ne.symm different)]
  refine ⟨?_, ?_, ?_, ?_, ?_, extension.fresh, ?_, ?_⟩
  · rw [Emission.jumped_eq isJump waiting rfl]
    simp [extension.code, Piece.draft]
  · rw [Emission.jumped_eq isJump waiting rfl]
    exact extension.functions
  · intro exit
    rw [← extension.exits exit]
    cases exit <;> rfl
  · rw [Emission.jumped_eq isJump waiting rfl]
    simpa using extension.grows
  · intro other old
    rw [others other (by omega), extension.kept other old]
  · -- a location that waits for an exit has a use already, so it is not the pending one
    intro exit
    rw [exitSites_append, exitSites_cons_hole, exitSites_nil, List.append_nil]
    refine List.Forall₂.imp ?_ (extension.waits exit)
    rintro other site ⟨location, found, used⟩
    have different : other ≠ number := by
      rintro rfl
      rw [waiting] at found
      cases found
      simp at used
    exact ⟨location, by rw [others other different, found], used⟩
  · intro other location outside found
    by_cases same : other = number
    · exact .inr (.inl (same ▸ member))
    · rw [others other same] at found
      rcases extension.settled other location outside found with left | waits | settled
      · exact .inl left
      · exact .inr (.inl waits)
      · exact .inr (.inr (settled.append_right _))

/-- Filling a hole keeps what is settled. -/
theorem settled_patch {start : Nat} {location : Location} {hole filled : Instruction}
    (sameSize : filled.size = hole.size)
    (settled : Settled start (front ++ .hole hole :: back) location) :
    Settled start (front ++ .plain filled :: back) location := by
  have samePiece : (Piece.plain filled).size = (Piece.hole hole).size := sameSize
  refine ⟨settled.resolved, ?_, ?_⟩
  · simpa only [piecesSize_append, piecesSize_cons, samePiece] using settled.inside
  · intro use member
    rcases settled.uses use member with ⟨offset, useEq, piece, found, jumps⟩
    refine ⟨offset, useEq, piece, ?_, jumps⟩
    rw [placed_append, placed_cons, List.mem_append, List.mem_cons] at found ⊢
    rcases found with inFront | isHole | inBack
    · exact .inl inFront
    · cases isHole
      rcases jumps with wrong | wrong <;> cases wrong
    · rw [samePiece]
      exact .inr (.inr inBack)

/-- Setting a pending location settles it, when the code becomes that of the new pieces. -/
theorem marking (extension : Extends before pieces bodies numbers pending after)
    {number target : Nat} {changed : List Piece}
    (code : (after.marked number target).draft.code.toList =
      before.draft.code.toList ++ piecesBytes changed)
    (isSet : IsSet target [number] after.draft.locations
      (after.marked number target).draft.locations)
    (sites : ∀ exit, exitSites exit before.draft.code.size changed =
      exitSites exit before.draft.code.size pieces)
    (keeps : ∀ location, Settled before.draft.code.size pieces location →
      Settled before.draft.code.size changed location)
    (here : ∀ location, (after.marked number target).draft.locations[number]? = some location →
      Settled before.draft.code.size changed location)
    (new : before.draft.locations.size ≤ number)
    (rest : ∀ other ∈ pending, other = number ∨ other ∈ later) :
    Extends before changed bodies numbers later (after.marked number target) := by
  have others : ∀ other, other ≠ number →
      (after.marked number target).draft.locations[other]? = after.draft.locations[other]? := by
    intro other different
    rw [isSet other, if_neg (by simpa using different)]
  refine ⟨code, extension.functions, ?_, ?_, ?_, extension.fresh, ?_, ?_⟩
  · intro exit
    rw [← extension.exits exit]
    cases exit <;> rfl
  · rw [isSet.size_eq]
    exact extension.grows
  · intro other old
    rw [others other (by omega), extension.kept other old]
  · intro exit
    rw [sites exit]
    exact WaitsAt.of_isSet isSet (extension.waits exit)
  · intro other location outside found
    by_cases same : other = number
    · exact .inr (.inr (here location (same ▸ found)))
    · rw [others other same] at found
      rcases extension.settled other location outside found with left | waiting | settled
      · exact .inl left
      · rcases rest other waiting with equal | still
        · exact absurd equal same
        · exact .inr (.inl still)
      · exact .inr (.inr (keeps location settled))

theorem awaits_marked_of_ne {number other target : Nat}
    (isSet : IsSet target [number] after.draft.locations
      (after.marked number target).draft.locations) (different : other ≠ number)
    {uses : Array Int} (awaits : after.Awaits other uses) :
    (after.marked number target).Awaits other uses := by
  rw [Emission.Awaits, isSet other, if_neg (by simpa using different)]
  exact awaits

section Setting

variable {jump : UInt16 → Instruction} {number target : Nat}

theorem marked_of_used (isJump : IsJump jump)
    (extension : Extends before (front ++ .hole (jump 0) :: back) bodies numbers pending after)
    (waiting : after.Awaits number
      #[((before.draft.code.size + piecesSize front + 1 : Nat) : Int)]) :
    (after.marked number target).draft.code.toList = before.draft.code.toList ++
        piecesBytes (front ++ .plain (jump target.toUInt16) :: back) ∧
      IsSet target [number] after.draft.locations
        (after.marked number target).draft.locations := by
  rcases isJump.encode with ⟨op, encodes⟩
  have zero : (jump 0).encode = [op, 0, 0] := encodes 0
  have length : (before.draft.code.toList ++ piecesBytes front).length =
      before.draft.code.size + piecesSize front := by simp
  have split : after.draft.code.toList = (before.draft.code.toList ++ piecesBytes front) ++
      op :: 0 :: 0 :: piecesBytes back := by
    rw [extension.code]
    simp [Piece.draft, zero]
  have patched := Draft.set_of_used waiting (by rw [length]) split target
  have isSet := isSet_setIfInBounds waiting target
  rw [Emission.marked, patched]
  refine ⟨?_, isSet⟩
  simp [Piece.draft, encodes]

/-- Setting the location of the jump in a hole fills the hole. -/
theorem setting (isJump : IsJump jump) (front : List Piece) (target : Nat) (later : List Nat)
    (extension : Extends before (front ++ .hole (jump 0) :: back) bodies numbers pending after)
    (waiting : after.Awaits number
      #[((before.draft.code.size + piecesSize front + 1 : Nat) : Int)])
    (bound : target ≤ before.draft.code.size + (piecesSize front + 3 + piecesSize back))
    (new : before.draft.locations.size ≤ number)
    (rest : ∀ other ∈ pending, other = number ∨ other ∈ later) :
    Extends before (front ++ .plain (jump target.toUInt16) :: back) bodies numbers later
      (after.marked number target) := by
  rcases extension.marked_of_used isJump waiting with ⟨code, isSet⟩
  have sameSize : (jump target.toUInt16).size = (jump 0).size :=
    (isJump.size target.toUInt16).trans (isJump.size 0).symm
  refine extension.marking code isSet ?_ (fun location => settled_patch sameSize) ?_ new rest
  · intro exit
    simp only [exitSites_append, exitSites_cons_plain, exitSites_cons_hole, sameSize]
  · intro location found
    rw [isSet number, if_pos (List.mem_singleton.2 rfl), waiting] at found
    cases found
    refine ⟨rfl, ⟨target, rfl, ?_⟩, ?_⟩
    · rw [piecesSize_append, piecesSize_cons, isJump.size]
      omega
    · intro use member
      refine ⟨before.draft.code.size + piecesSize front, by simpa using member, _, ?_,
        isJump.jumpsTo _⟩
      rw [placed_append, Int.toNat_natCast]
      exact List.mem_append_right _ List.mem_cons_self

/-- Setting a location that no jump uses changes no piece. -/
theorem settingUnused (extension : Extends before pieces bodies numbers pending after)
    (waiting : after.Awaits number #[])
    (bound : target ≤ before.draft.code.size + piecesSize pieces)
    (new : before.draft.locations.size ≤ number)
    (rest : ∀ other ∈ pending, other = number ∨ other ∈ later) :
    Extends before pieces bodies numbers later (after.marked number target) := by
  have unused := Draft.set_of_unused waiting rfl target
  have isSet : IsSet target [number] after.draft.locations
      (after.marked number target).draft.locations := by
    rw [Emission.marked, unused]
    exact isSet_setIfInBounds waiting target
  have code : (after.marked number target).draft.code.toList =
      before.draft.code.toList ++ piecesBytes pieces := by
    rw [Emission.marked, unused]
    exact extension.code
  refine extension.marking code isSet (fun _ => rfl) (fun _ settled => settled) ?_ new rest
  intro location found
  rw [isSet number, if_pos (List.mem_singleton.2 rfl), waiting] at found
  cases found
  exact ⟨rfl, ⟨target, rfl, bound⟩, by simp⟩

end Setting

/-- The exit by one number. -/
def oneExit (exit : Exit) (number : Nat) : Exit → List Nat :=
  fun other => if other = exit then [number] else []

/-- A jump out of a loop waits for the end of the loop. -/
theorem leaving (exit : Exit) (state : Emission) :
    Extends state [.leave exit] [] (oneExit exit state.draft.locations.size) []
      ((state.opened.leaving exit state.draft.locations.size).jumped .jump
        state.draft.locations.size) := by
  have waiting : (state.opened.leaving exit state.draft.locations.size).Awaits
      state.draft.locations.size #[] := by
    have opened := awaits_opened state
    cases exit <;> exact opened
  have sameDraft : (state.opened.leaving exit state.draft.locations.size).draft =
      state.opened.draft := by cases exit <;> rfl
  have used := awaits_jumped .jump waiting
  have openedSize : state.opened.draft.locations.size = state.draft.locations.size + 1 := by
    simp [Emission.opened, Draft.addLocation]
  rw [Emission.jumped_eq .jump waiting rfl, sameDraft] at used ⊢
  refine ⟨?_, ?_, ?_, ?_, ?_, ?_, ?_, ?_⟩
  · simp [Emission.opened, Draft.addLocation, Piece.draft]
  · cases exit <;> rfl
  · intro other
    cases exit <;> cases other <;> rfl
  · simp only [Array.size_setIfInBounds]
    omega
  · intro number inside
    have different : state.draft.locations.size ≠ number := by omega
    simp only [Array.getElem?_setIfInBounds, if_neg different]
    simp [Emission.opened, Draft.addLocation, Array.getElem?_push, different.symm]
  · intro other number member
    simp only [oneExit] at member
    split at member
    · exact Nat.le_of_eq (List.mem_singleton.1 member).symm
    · cases member
  · intro other
    by_cases same : other = exit
    · subst same
      simp only [oneExit, if_true, exitSites, placed_cons, placed_nil, List.filterMap_cons,
        List.filterMap_nil]
      exact .cons ⟨_, used, rfl⟩ .nil
    · have differs : Piece.leave exit ≠ .leave other := by simpa using Ne.symm same
      simp only [oneExit, same, if_false, exitSites, placed_cons, placed_nil,
        List.filterMap_cons, List.filterMap_nil, differs]
      exact .nil
  · intro number location outside found
    have inside := (Array.getElem?_eq_some_iff.1 found).1
    simp only [Array.size_setIfInBounds] at inside
    have same : number = state.draft.locations.size := by omega
    exact .inl ⟨exit, by simp [oneExit, same]⟩

theorem mem_exitSites {exit : Exit} {start site : Nat}
    (member : site ∈ exitSites exit start pieces) : (site, .leave exit) ∈ placed start pieces := by
  rcases List.mem_filterMap.1 member with ⟨⟨offset, piece⟩, found, kept⟩
  simp only at kept
  split at kept
  · rename_i leaves
    cases kept
    rw [← leaves]
    exact found
  · cases kept

/-- A location that is set as an exit is settled once the exit is filled. -/
theorem settled_exit {exit : Exit} {start target : Nat} {locations : Array Location}
    {exits : List Nat} (waits : WaitsAt locations exits (exitSites exit start pieces))
    (bound : target ≤ start + piecesSize pieces) {number : Nat} (member : number ∈ exits)
    {location : Location} (found : locations[number]? = some location) :
    Settled start (pieces.map (Piece.fill exit target))
      { location with target := target, resolved := true } := by
  rcases List.forall₂_iff_get.1 waits with ⟨sameLength, related⟩
  rcases List.mem_iff_get.1 member with ⟨place, rfl⟩
  rcases related place.1 place.2 (sameLength ▸ place.2) with ⟨other, foundOther, used⟩
  simp only [List.get_eq_getElem] at found foundOther
  rw [found] at foundOther
  cases foundOther
  refine ⟨rfl, ⟨target, rfl, by simpa using bound⟩, ?_⟩
  intro use useMember
  have inside : place.1 < (exitSites exit start pieces).length := sameLength ▸ place.2
  have site := mem_exitSites (List.getElem_mem inside)
  refine ⟨(exitSites exit start pieces)[place.1], ?_, .plain (.jump target.toUInt16), ?_,
    .inl rfl⟩
  · simpa [used] using useMember
  · rw [placed_map_fill, List.mem_map]
    exact ⟨_, site, by simp [Piece.fill]⟩

/-- Behind a loop all its exits are known. -/
theorem looping (extension : Extends before.enclosed pieces bodies numbers [] after)
    (start stop : Nat) (startBound : start ≤ before.draft.code.size + piecesSize pieces)
    (stopBound : stop ≤ before.draft.code.size + piecesSize pieces) :
    Extends before
      ((pieces.map (Piece.fill .breaks stop)).map (Piece.fill .continues start)) bodies noExits []
      (after.left before start stop) := by
  have breaksEq : after.breaks.reverse = (numbers .breaks).map (↑) := by
    have exits := extension.exits .breaks
    simp only [Emission.exits, Emission.enclosed, List.append_nil] at exits
    rw [exits, ← List.map_reverse, List.reverse_reverse]
  have continuesEq : after.continues.reverse = (numbers .continues).map (↑) := by
    have exits := extension.exits .continues
    simp only [Emission.exits, Emission.enclosed, List.append_nil] at exits
    rw [exits, ← List.map_reverse, List.reverse_reverse]
  have length : before.draft.code.toList.length = before.draft.code.size := Array.length_toList
  have code : after.draft.code.toList = before.draft.code.toList ++ piecesBytes pieces :=
    extension.code
  have waitsBreaks := extension.waits .breaks
  have waitsContinues := extension.waits .continues
  simp only [Emission.enclosed] at waitsBreaks waitsContinues
  rcases Draft.setAll_exits .breaks stop code (by rw [length]; exact waitsBreaks) with
    ⟨broken, brokenEq, brokenCode, brokenSet⟩
  have sites : exitSites .continues before.draft.code.size (pieces.map (Piece.fill .breaks stop)) =
      exitSites .continues before.draft.code.size pieces :=
    exitSites_map_fill_of_ne (by decide) _ _ _
  have waitsBroken := WaitsAt.of_isSet brokenSet waitsContinues
  rw [← sites] at waitsBroken
  rcases Draft.setAll_exits .continues start brokenCode (by rw [length]; exact waitsBroken) with
    ⟨resumed, resumedEq, resumedCode, resumedSet⟩
  have draftEq : (after.left before start stop).draft = resumed := by
    simp only [Emission.left, breaksEq, continuesEq, brokenEq, resumedEq]
  have sameSize : resumed.locations.size = after.draft.locations.size :=
    resumedSet.size_eq.trans brokenSet.size_eq
  refine ⟨?_, extension.functions, ?_, ?_, ?_, ?_, ?_, ?_⟩
  · rw [draftEq, resumedCode]
  · intro exit
    cases exit <;> rfl
  · rw [draftEq, sameSize]
    exact extension.grows
  · intro number inside
    have outside : ∀ exit, number ∉ numbers exit := fun exit member =>
      absurd (extension.fresh exit number member) (Nat.not_le.2 inside)
    rw [draftEq, resumedSet number, if_neg (outside .continues), brokenSet number,
      if_neg (outside .breaks)]
    exact extension.kept number inside
  · simp [noExits]
  · intro exit
    cases exit with
    | breaks =>
        rw [exitSites_map_fill_of_ne (by decide), exitSites_map_fill_self]
        exact .nil
    | continues =>
        rw [exitSites_map_fill_self]
        exact .nil
  · intro number location outside found
    refine .inr (.inr ?_)
    rw [draftEq, resumedSet number] at found
    by_cases continued : number ∈ numbers .continues
    · rw [if_pos continued] at found
      rcases Option.map_eq_some_iff.1 found with ⟨earlier, foundEarlier, rfl⟩
      exact settled_exit waitsBroken (by simpa using startBound) continued foundEarlier
    · rw [if_neg continued, brokenSet number] at found
      refine Settled.fill ?_ .continues start
      by_cases left : number ∈ numbers .breaks
      · rw [if_pos left] at found
        rcases Option.map_eq_some_iff.1 found with ⟨earlier, foundEarlier, rfl⟩
        exact settled_exit waitsBreaks stopBound left foundEarlier
      · rw [if_neg left] at found
        refine Settled.fill ?_ .breaks stop
        rcases extension.settled number location outside found with
          ⟨exit, member⟩ | waiting | settled
        · cases exit
          · exact absurd member left
          · exact absurd member continued
        · cases waiting
        · exact settled

/-- A jump to a new location stands between two parts, and the location is set behind them. -/
theorem forward {jump : UInt16 → Instruction} (isJump : IsJump jump)
    (earlier : Extends before.opened front first numbers [] middle)
    (extension : Extends (middle.jumped jump before.draft.locations.size) back second others []
      after) (target : Nat)
    (bound : target ≤ before.draft.code.size + (piecesSize front + 3 + piecesSize back)) :
    Extends before (front ++ .plain (jump target.toUInt16) :: back) (first ++ second)
      (bothExits numbers others) [] (after.marked before.draft.locations.size target) := by
  have waiting := earlier.awaits (awaits_opened before)
  have opened := ((opening before).trans earlier).jumping isJump waiting (Nat.le_refl _)
    (List.mem_append_left _ List.mem_cons_self)
  have size : middle.draft.code.size = before.draft.code.size + piecesSize front := by
    rw [earlier.size_eq]
    rfl
  have used := extension.awaits (awaits_jumped isJump waiting)
  rw [size] at used
  have whole := opened.trans extension
  simp only [List.nil_append, List.append_assoc, List.singleton_append, noExits_both] at whole
  refine setting isJump front target [] whole used bound (Nat.le_refl _) ?_
  intro other member
  simp only [List.mem_singleton] at member
  exact .inl member

/-- The entry of a body is recorded. -/
theorem recording (state : Emission) (body : Body) :
    Extends state [] [body] noExits []
      { state with
        functions := state.functions.setEntry body.definition.name body.entry } where
  code := by simp
  functions := rfl
  exits := by intro exit; cases exit <;> rfl
  grows := Nat.le_refl _
  kept := fun _ _ => rfl
  fresh := by simp [noExits]
  waits := fun _ => .nil
  settled := fun number location outside found => by
    have inside := (Array.getElem?_eq_some_iff.1 found).1
    simp only at inside
    omega

theorem size_opened_jumped {jump : UInt16 → Instruction} (isJump : IsJump jump)
    (state : Emission) :
    (state.opened.jumped jump state.draft.locations.size).draft.code.size =
      state.draft.code.size + 3 := by
  have opened := (opening state).jumping isJump (awaits_opened state)
    (Nat.le_refl _) List.mem_cons_self
  rw [opened.size_eq]
  cases isJump <;> rfl

/--
The two jumps of a branch with an alternative: the first one leads over the second,
which leads behind the alternative.
-/
theorem alternative {start second third : Emission} {body other : List Piece}
    {more : Exit → List Nat}
    (bodyExtension : Extends (start.opened.jumped .compare start.draft.locations.size) body bodies
      numbers [] second)
    (otherExtension : Extends
      ((second.opened.jumped .jump second.draft.locations.size).marked start.draft.locations.size
        (second.draft.code.size + 3)) other first more [] third) :
    Extends start
      (.plain (.compare (second.draft.code.size + 3).toUInt16) :: (body ++
        .plain (.jump third.draft.code.size.toUInt16) :: other))
      (bodies ++ first) (bothExits numbers more) []
      (third.marked second.draft.locations.size third.draft.code.size) := by
  have opened := (opening start).jumping .compare (awaits_opened start) (Nat.le_refl _)
    List.mem_cons_self
  have firstJump := bodyExtension.awaits (awaits_jumped .compare (awaits_opened start))
  have secondSize := bodyExtension.size_eq
  rw [size_opened_jumped .compare] at secondSize
  have grows : start.draft.locations.size < second.draft.locations.size :=
    (Array.getElem?_eq_some_iff.1 firstJump).1
  have different : start.draft.locations.size ≠ second.draft.locations.size := by omega
  have both : Extends start ([] ++ .hole (.compare 0) :: (body ++ [.hole (.jump 0)])) bodies
      numbers [start.draft.locations.size, second.draft.locations.size]
      (second.opened.jumped .jump second.draft.locations.size) := by
    have sequence := ((opened.trans bodyExtension).trans (opening second)).jumping .jump
      (awaits_opened second) (by omega) (by simp)
    simpa using sequence
  have firstWaits : (second.opened.jumped .jump second.draft.locations.size).Awaits
      start.draft.locations.size
      #[((start.draft.code.size + piecesSize [] + 1 : Nat) : Int)] :=
    awaits_jumped_of_ne .jump (awaits_opened second) different
      ((opening second).awaits firstJump)
  -- the first jump is set while the second one is still pending
  have firstSet := setting .compare [] (second.draft.code.size + 3) [second.draft.locations.size]
    both firstWaits
    (by simp [Instruction.opcode, Opcode.operandSize]; omega) (Nat.le_refl _) (by simp)
  have isSet : IsSet (second.draft.code.size + 3) [start.draft.locations.size] _ _ :=
    (marked_of_used .compare both firstWaits).2
  have secondWaits : third.Awaits second.draft.locations.size
      #[((start.draft.code.size +
        piecesSize (.plain (.compare (second.draft.code.size + 3).toUInt16) :: body) + 1 : Nat) :
          Int)] := by
    have waiting := otherExtension.awaits (awaits_marked_of_ne isSet different.symm
      (awaits_jumped .jump (awaits_opened second)))
    have site : second.opened.draft.code.size = start.draft.code.size +
        piecesSize (.plain (.compare (second.draft.code.size + 3).toUInt16) :: body) := by
      simp only [piecesSize_cons, Piece.size_plain, Instruction.opcode, Opcode.operandSize]
      simp only [Emission.opened, Draft.addLocation]
      omega
    rwa [site] at waiting
  have whole : Extends start
      ((.plain (.compare (second.draft.code.size + 3).toUInt16) :: body) ++
        .hole (.jump 0) :: other) (bodies ++ first) (bothExits numbers more)
      [second.draft.locations.size] third := by
    simpa using firstSet.trans otherExtension
  have size := whole.size_eq
  simp only [piecesSize_append, piecesSize_cons, Piece.size_hole, Instruction.opcode,
    Opcode.operandSize] at size
  exact setting .jump _ third.draft.code.size [] whole secondWaits
    (by simp only [piecesSize_cons]; omega) (by omega) (by simp)

theorem size_marked (state : Emission) (number target : Nat) :
    (state.marked number target).draft.code.size = state.draft.code.size :=
  Draft.size_set _ _ _

/-- A loop without a condition: a jump back stands behind its body, and its exits are set. -/
theorem endless {start inner : Emission}
    (extension : Extends start.enclosed.opened pieces bodies numbers [] inner) {stop : Nat}
    (stopEq : stop = start.draft.code.size + piecesSize pieces + 3) :
    Extends start
      (pieces.map (Piece.fill .continues start.draft.code.size ∘ Piece.fill .breaks stop) ++
        [.plain (.jump start.draft.code.size.toUInt16)]) bodies noExits []
      (((inner.appended (.jump start.draft.code.size.toUInt16)).marked
        start.draft.locations.size stop).left start start.draft.code.size stop) := by
  have waiting : (inner.appended (.jump start.draft.code.size.toUInt16)).Awaits
      start.draft.locations.size #[] :=
    (instruction _ _).awaits (extension.awaits (awaits_opened start.enclosed))
  have size : piecesSize (pieces ++ [.plain (.jump start.draft.code.size.toUInt16)]) =
      piecesSize pieces + 3 := by
    simp [Instruction.opcode, Opcode.operandSize]
  have body : Extends start.enclosed
      (pieces ++ [.plain (.jump start.draft.code.size.toUInt16)]) bodies numbers
      [start.draft.locations.size]
      (inner.appended (.jump start.draft.code.size.toUInt16)) := by
    have sequence := ((opening start.enclosed).trans extension).trans
      (instruction _ (.jump start.draft.code.size.toUInt16))
    simpa using sequence
  have closed : Extends start.enclosed _ bodies numbers []
      ((inner.appended (.jump start.draft.code.size.toUInt16)).marked
        start.draft.locations.size stop) :=
    body.settingUnused waiting (by rw [size, Emission.enclosed_draft]; omega) (Nat.le_refl _)
      (by simp)
  have loop := closed.looping start.draft.code.size stop
    (Nat.le_add_right _ _) (by rw [size]; omega)
  simpa using loop

/-- A loop with a condition, which is tested in front of its body. -/
theorem guarded {start tested inner : Emission} {test : List Instruction}
    (condition : Extends start.enclosed.opened (plainPieces test) [] noExits [] tested)
    (extension : Extends (tested.jumped .compare start.draft.locations.size) pieces bodies numbers
      [] inner) {stop : Nat}
    (stopEq : stop = start.draft.code.size + piecesSize (plainPieces test) + 3 +
      piecesSize pieces + 3) :
    Extends start
      (plainPieces test ++ .plain (.compare stop.toUInt16) ::
        (pieces.map (Piece.fill .continues start.draft.code.size ∘ Piece.fill .breaks stop) ++
          [.plain (.jump start.draft.code.size.toUInt16)])) bodies noExits []
      (((inner.appended (.jump start.draft.code.size.toUInt16)).marked
        start.draft.locations.size stop).left start start.draft.code.size stop) := by
  have body := extension.trans (instruction _ (.jump start.draft.code.size.toUInt16))
  have closed : Extends start.enclosed _ _ _ [] _ := forward .compare condition body stop (by
    simp [Instruction.opcode, Opcode.operandSize]
    omega)
  have loop := closed.looping start.draft.code.size stop
    (Nat.le_add_right _ _) (by
      simp [Instruction.opcode, Opcode.operandSize]
      omega)
  simpa using loop

end Extends

end Lehce.Code

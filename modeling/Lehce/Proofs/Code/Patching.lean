import Mathlib.Data.List.Forall2
import Lehce.Proofs.Code.Assembly

/-!
# Patching

What setting a location does to code that is given by its pieces. A location of an
emission is used by at most one jump. Setting it turns that jump into one with a known
target and changes nothing else; setting all locations by which a loop is left fills
the exits of the loop's pieces.
-/

namespace Lehce.Code

theorem encode_jump (target : UInt16) : (Instruction.jump target).encode = 4 :: wordBytes target :=
  rfl

theorem encode_compare (target : UInt16) :
    (Instruction.compare target).encode = 5 :: wordBytes target := rfl

/-- A word is written over the operand of a jump. -/
theorem putWord?_of_split {code : Array UInt8} {front back : List UInt8} {op low high : UInt8}
    (split : code.toList = front ++ op :: low :: high :: back) (target : Nat) :
    putWord? code (front.length + 1 : Nat) target =
      some (front ++ op :: (wordBytes target.toUInt16 ++ back)).toArray := by
  have size : code.size = front.length + (back.length + 3) := by
    rw [← Array.length_toList, split]
    simp
  have inside : (0 : Int) ≤ (front.length + 1 : Nat) ∧
      ((front.length + 1 : Nat) : Int) + 2 ≤ code.size := by omega
  have word : ((target : Int) % 65536).toNat = target.toUInt16.toNat := by
    simp only [Nat.toUInt16, UInt16.toNat_ofNat']
    omega
  have codeEq : code = (front ++ op :: low :: high :: back).toArray := by
    rw [← split]
  unfold putWord?
  rw [if_pos inside]
  simp only [word, Int.toNat_natCast, wordBytes]
  rw [codeEq]
  have behind : ¬front.length + 1 + 1 < front.length := by omega
  have second : front.length + 1 + 1 - front.length = 2 := by omega
  simp [List.set_append, behind, second]

namespace Draft

variable {draft : Draft} {number : Nat} {location : Location}

theorem location?_eq (draft : Draft) (number : Nat) :
    draft.location? number = draft.locations[number]? := by
  have notNegative : ¬((number : Int) < 0) := by omega
  simp [location?, notNegative]

theorem size_write (draft : Draft) (offset target : Int) :
    (draft.write offset target).draft.code.size = draft.code.size := by
  unfold write
  split
  · rename_i code written
    unfold putWord? at written
    split at written
    · cases written
      simp
    · cases written
  · rfl

theorem size_writeAll (target : Int) (offsets : List Int) (draft : Draft) :
    (writeAll target offsets draft).draft.code.size = draft.code.size := by
  induction offsets generalizing draft with
  | nil => rfl
  | cons offset rest ih =>
      have first := size_write draft offset target
      unfold writeAll
      split
      · rename_i after written
        rw [ih, ← first, written]
      · rename_i after written
        rw [← first, written]

/-- Setting a location writes into the code and never extends it. -/
theorem size_set (draft : Draft) (number target : Int) :
    (draft.set number target).draft.code.size = draft.code.size := by
  unfold set
  split
  · rfl
  · rw [size_writeAll]
    rfl

/-- Setting a location that no jump uses only notes its target. -/
theorem set_of_unused (found : draft.locations[number]? = some location)
    (unused : location.uses = #[]) (target : Nat) :
    draft.set number target =
      ⟨⟨draft.code, draft.locations.setIfInBounds number
        { location with target, resolved := true }⟩, true⟩ := by
  unfold set
  rw [location?_eq, found]
  simp [unused, writeAll, putLocation]

/-- Setting a location that one jump uses patches this jump. -/
theorem set_of_used {front back : List UInt8} {op low high : UInt8}
    (found : draft.locations[number]? = some location)
    (used : location.uses = #[((front.length + 1 : Nat) : Int)])
    (split : draft.code.toList = front ++ op :: low :: high :: back) (target : Nat) :
    draft.set number target =
      ⟨⟨(front ++ op :: (wordBytes target.toUInt16 ++ back)).toArray,
        draft.locations.setIfInBounds number { location with target, resolved := true }⟩,
        true⟩ := by
  unfold set
  rw [location?_eq, found]
  simp only [used, writeAll, putLocation, write, putWord?_of_split split, Int.toNat_natCast]

end Draft

/-- The jump at each of some sites is the only use of the location with the number beside it. -/
def WaitsAt (locations : Array Location) (numbers sites : List Nat) : Prop :=
  List.Forall₂ (fun number site => ∃ location, locations[number]? = some location ∧
    location.uses = #[((site + 1 : Nat) : Int)]) numbers sites

/-- Some locations after they have been set. -/
def IsSet (target : Nat) (numbers : List Nat) (before after : Array Location) : Prop :=
  ∀ number, after[number]? =
    if number ∈ numbers then
      before[number]?.map fun location => { location with target := target, resolved := true }
    else before[number]?

theorem IsSet.uses {target : Nat} {numbers : List Nat} {before after : Array Location}
    (isSet : IsSet target numbers before after) {number : Nat} {location : Location}
    (found : before[number]? = some location) :
    ∃ later, after[number]? = some later ∧ later.uses = location.uses := by
  rw [isSet number, found]
  split
  · exact ⟨_, rfl, rfl⟩
  · exact ⟨_, rfl, rfl⟩

theorem IsSet.size_eq {target : Nat} {numbers : List Nat} {before after : Array Location}
    (isSet : IsSet target numbers before after) : after.size = before.size := by
  have same : ∀ number : Nat, after[number]? = none ↔ before[number]? = none := by
    intro number
    rw [isSet number]
    split <;> simp
  have atAfter := (same after.size).1 (by simp)
  have atBefore := (same before.size).2 (by simp)
  simp only [Array.getElem?_eq_none_iff] at atAfter atBefore
  omega

theorem WaitsAt.of_isSet {target : Nat} {numbers : List Nat} {before after : Array Location}
    (isSet : IsSet target numbers before after) {others sites : List Nat}
    (waits : WaitsAt before others sites) : WaitsAt after others sites := by
  refine List.Forall₂.imp ?_ waits
  rintro number site ⟨location, found, used⟩
  rcases isSet.uses found with ⟨later, foundLater, usesLater⟩
  exact ⟨later, foundLater, usesLater.trans used⟩

theorem isSet_setIfInBounds {locations : Array Location} {number : Nat} {location : Location}
    (found : locations[number]? = some location) (target : Nat) :
    IsSet target [number] locations
      (locations.setIfInBounds number { location with target, resolved := true }) := by
  intro other
  simp only [Array.getElem?_setIfInBounds, List.mem_singleton]
  by_cases same : number = other
  · subst same
    have inside : number < locations.size := (Array.getElem?_eq_some_iff.1 found).1
    simp only [inside, if_true, found, Option.map_some]
  · simp [same, Ne.symm same]

theorem IsSet.cons {target number : Nat} {numbers : List Nat} {first second third : Array Location}
    (one : IsSet target [number] first second) (rest : IsSet target numbers second third) :
    IsSet target (number :: numbers) first third := by
  intro other
  have twice : (fun location : Location => { location with target := target, resolved := true }) ∘
      (fun location : Location => { location with target := target, resolved := true }) =
      fun location : Location => { location with target := target, resolved := true } := rfl
  rw [rest other, one other]
  by_cases later : other ∈ numbers
  · by_cases now : other ∈ [number]
    · simp only [later, now, if_true, List.mem_cons, or_true, Option.map_map, twice]
    · simp only [later, now, if_true, if_false, List.mem_cons, or_true]
  · simp only [later, if_false, List.mem_cons, or_false, List.not_mem_nil]

/-- Setting the locations by which a loop is left fills the exits of its pieces. -/
theorem Draft.setAll_exits (exit : Exit) (target : Nat) {pieces : List Piece}
    {front : List UInt8} {draft : Draft} {numbers : List Nat}
    (code : draft.code.toList = front ++ piecesBytes pieces)
    (waits : WaitsAt draft.locations numbers (exitSites exit front.length pieces)) :
    ∃ after, Draft.setAll target (numbers.map (↑)) draft = ⟨after, true⟩ ∧
      after.code.toList = front ++ piecesBytes (pieces.map (Piece.fill exit target)) ∧
      IsSet target numbers draft.locations after.locations := by
  induction pieces generalizing front draft numbers with
  | nil =>
      cases waits
      exact ⟨draft, rfl, code, fun number => by simp⟩
  | cons piece rest ih =>
      by_cases leaves : piece = .leave exit
      · subst leaves
        have sites : exitSites exit front.length (.leave exit :: rest) =
            front.length :: exitSites exit (front.length + 3) rest := by
          simp [exitSites]
        rw [sites] at waits
        rcases List.forall₂_cons_right_iff.1 waits with
          ⟨number, others, ⟨location, found, used⟩, waitsLater, rfl⟩
        have split : draft.code.toList = front ++ 4 :: 0 :: 0 :: piecesBytes rest := by
          rw [code]
          rfl
        have patched := Draft.set_of_used found used split target
        have isSet := isSet_setIfInBounds found target
        have waitsAfter : WaitsAt
            (draft.locations.setIfInBounds number { location with target, resolved := true })
            others (exitSites exit (front ++ (Instruction.jump target.toUInt16).encode).length
              rest) := by
          have length : (front ++ (Instruction.jump target.toUInt16).encode).length =
              front.length + 3 := by simp; rfl
          rw [length]
          exact WaitsAt.of_isSet isSet waitsLater
        have codeNow : (Draft.mk (front ++ 4 :: (wordBytes target.toUInt16 ++
              piecesBytes rest)).toArray (draft.locations.setIfInBounds number
              { location with target, resolved := true })).code.toList =
            (front ++ (Instruction.jump target.toUInt16).encode) ++ piecesBytes rest := by
          simp [encode_jump]
        rcases ih codeNow waitsAfter with ⟨after, setEq, codeAfter, isSetLater⟩
        refine ⟨after, ?_, ?_, isSet.cons isSetLater⟩
        · simp only [List.map_cons, Draft.setAll, patched]
          exact setEq
        · rw [codeAfter]
          simp [Piece.fill, Piece.draft]
      · have sites : exitSites exit front.length (piece :: rest) =
            exitSites exit (front ++ piece.draft.encode).length rest := by
          simp [exitSites, leaves, Piece.size]
        have kept : piece.fill exit target = piece := by
          cases piece with
          | plain | hole => rfl
          | leave other =>
              have different : other ≠ exit := fun same => leaves (by rw [same])
              simp [Piece.fill, different]
        rw [sites] at waits
        rcases ih (by rw [code]; simp) waits with ⟨after, setEq, codeAfter, isSet⟩
        refine ⟨after, setEq, ?_, isSet⟩
        rw [codeAfter]
        simp [kept]

end Lehce.Code

import Lehce.Proofs.Code.Patching

/-!
# Histories of locations

Locations are made, used and set in any order, one at a time or through a group. What was
done is written down in a ledger, which knows of no code: the operands that refer to each
location, and the targets that each was set to. Whatever the order, the operands of a location
hold the target that it was set to last, the rest of the code is as it was, and nothing stops
but the clearing of a group one of whose locations was never set.
-/

namespace Lehce.Code

namespace Draft

/-- What is done to a draft, to its locations and to a group of them. -/
inductive Operation where
  | new
  | use (number offset : Nat)
  | set (number : Nat) (target : Int)
  | add (number : Nat)
  | setGroup (target : Int)
  | clear
  deriving DecidableEq

/-- Why an operation stops. -/
inductive Stop where
  | outside
  | refused (problem : ClearProblem)
  deriving DecidableEq

/-- A draft and a group of its locations, in the order in which they were added. -/
structure Grouped where
  draft : Draft
  group : List Int := []

namespace Grouped

/-- Takes over the draft that an operation left. -/
def edited (state : Grouped) (edited : Edited) : Grouped × Option Stop :=
  ({ state with draft := edited.draft }, if edited.inside then none else some .outside)

/-- Does one operation. A group that may not be cleared stays as it is. -/
def apply (checking : Bool) (state : Grouped) : Operation → Grouped × Option Stop
  | .new => ({ state with draft := state.draft.addLocation.2 }, none)
  | .use number offset => state.edited (state.draft.use number offset)
  | .set number target => state.edited (state.draft.set number target)
  | .add number => ({ state with group := state.group ++ [(number : Int)] }, none)
  | .setGroup target => state.edited (state.draft.setAll target state.group)
  | .clear =>
    match checkCleared checking state.draft state.group with
    | none => ({ state with group := [] }, none)
    | some problem => (state, some (.refused problem))

/-- Does all operations of a history, the first one first. -/
def after (checking : Bool) (state : Grouped) (history : List Operation) : Grouped :=
  history.foldl (fun state operation => (state.apply checking operation).1) state

end Grouped

/-- What was done to locations: how many were made, which operands refer to which, and the
targets that they were set to, in the order in which this was done. -/
structure Ledger where
  count : Nat := 0
  uses : List (Nat × Nat) := []
  sets : List (Nat × Int) := []
  group : List Nat := []

namespace Ledger

/-- The target that a location was set to last. -/
def target? (ledger : Ledger) (number : Nat) : Option Int :=
  ledger.sets.reverse.lookup number

/-- Writes down that a location was set. -/
def set (ledger : Ledger) (number : Nat) (target : Int) : Ledger :=
  { ledger with sets := ledger.sets ++ [(number, target)] }

/-- Writes down that an operand refers to a location. -/
def use (ledger : Ledger) (number offset : Nat) : Ledger :=
  { ledger with uses := ledger.uses ++ [(number, offset)] }

/-- Under checking, a group with a location that was never set is not cleared. -/
def Keeps (checking : Bool) (ledger : Ledger) : Prop :=
  checking = true ∧ ∃ number ∈ ledger.group, ledger.target? number = none

instance (checking : Bool) (ledger : Ledger) : Decidable (ledger.Keeps checking) := by
  unfold Keeps
  infer_instance

/-- Writes an operation down. -/
def note (checking : Bool) (ledger : Ledger) : Operation → Ledger
  | .new => { ledger with count := ledger.count + 1 }
  | .use number offset => ledger.use number offset
  | .set number target => ledger.set number target
  | .add number => { ledger with group := ledger.group ++ [number] }
  | .setGroup target =>
    { ledger with sets := ledger.sets ++ ledger.group.map fun number => (number, target) }
  | .clear => if ledger.Keeps checking then ledger else { ledger with group := [] }

/-- The ledger after a history. -/
def after (checking : Bool) (ledger : Ledger) (history : List Operation) : Ledger :=
  history.foldl (fun ledger operation => ledger.note checking operation) ledger

/-- An operation names locations that were made, and operands inside the code. -/
def Allows (size : Nat) (ledger : Ledger) : Operation → Prop
  | .use number offset => number < ledger.count ∧ offset + 2 ≤ size
  | .set number _ | .add number => number < ledger.count
  | .new | .setGroup _ | .clear => True

/-- Every operation of a history is allowed where it is done. -/
def AllowsAll (checking : Bool) (size : Nat) : Ledger → List Operation → Prop
  | _, [] => True
  | ledger, operation :: rest =>
    ledger.Allows size operation ∧ AllowsAll checking size (ledger.note checking operation) rest

instance (size : Nat) (ledger : Ledger) (operation : Operation) :
    Decidable (ledger.Allows size operation) := by
  cases operation <;> unfold Allows <;> infer_instance

instance decidableAllowsAll (checking : Bool) (size : Nat) (ledger : Ledger) :
    (history : List Operation) → Decidable (ledger.AllowsAll checking size history)
  | [] => isTrue trivial
  | operation :: rest =>
    have := decidableAllowsAll checking size (ledger.note checking operation) rest
    inferInstanceAs (Decidable (_ ∧ _))

/-- Operands of two locations, and two operands of one, have no byte in common. -/
def IsApart (ledger : Ledger) : Prop :=
  ∀ a ∈ ledger.uses, ∀ b ∈ ledger.uses, a = b ∨ a.2 + 2 ≤ b.2 ∨ b.2 + 2 ≤ a.2

instance (ledger : Ledger) : Decidable ledger.IsApart := by
  unfold IsApart
  infer_instance

/-- There is an operand whose location was set, to this target last. -/
def Operand (ledger : Ledger) (offset : Nat) (target : Int) : Prop :=
  ∃ number, (number, offset) ∈ ledger.uses ∧ ledger.target? number = some target

end Ledger

/-- A target is held as a word, little endian. -/
def Holds (code : Array UInt8) (offset : Nat) (target : Int) : Prop :=
  ∃ low high : UInt8, code[offset]? = some low ∧ code[offset + 1]? = some high ∧
    (low.toNat : Int) + 256 * high.toNat = target % 65536

/-- A history in which handles are those of locations that were made and operands lie inside
the code and apart. -/
structure IsHistory (checking : Bool) (size : Nat) (history : List Operation) : Prop where
  allowed : Ledger.AllowsAll checking size {} history
  apart : (Ledger.after checking {} history).IsApart

/-- Code in which the operands of a ledger have been written, and nothing else. -/
structure Ledger.Shows (ledger : Ledger) (code later : Array UInt8) : Prop where
  size : later.size = code.size
  holds : ∀ offset target, ledger.Operand offset target → Holds later offset target
  others : ∀ place, (∀ offset target, ledger.Operand offset target →
    place < offset ∨ offset + 2 ≤ place) → later[place]? = code[place]?

/-- What a ledger tells of the code and the locations that its operations were done on. -/
structure Grouped.Agrees (state : Grouped) (code : Array UInt8) (ledger : Ledger) : Prop where
  shows : ledger.Shows code state.draft.code
  unresolved : state.draft.unresolved = (List.range ledger.count).filter fun number =>
    (∃ use ∈ ledger.uses, use.1 = number) ∧ ledger.target? number = none
  next : state.draft.addLocation.1 = ledger.count

/-- A history does what its ledger tells, at each of its operations, and only the clearing of a
group stops. -/
structure Patches (checking : Bool) (code : Array UInt8) (history : List Operation) : Prop where
  agrees : ∀ front back, history = front ++ back →
    (Grouped.after checking ⟨{ code }, []⟩ front).Agrees code (.after checking {} front)
  stops : ∀ front operation back, history = front ++ operation :: back →
    (((Grouped.after checking ⟨{ code }, []⟩ front).apply checking operation).2 ≠ none ↔
      operation = .clear ∧ (Ledger.after checking {} front).Keeps checking)

section Words

variable {code later last : Array UInt8} {offset : Nat} {target : Int}

theorem Holds.of_eq (holds : Holds code offset target) (first : later[offset]? = code[offset]?)
    (second : later[offset + 1]? = code[offset + 1]?) : Holds later offset target := by
  unfold Holds
  rw [first, second]
  exact holds

/-- A target has been written at some offsets, and nowhere else. -/
structure Writes (target : Int) (offsets : List Nat) (code later : Array UInt8) : Prop where
  size : later.size = code.size
  holds : ∀ offset ∈ offsets, Holds later offset target
  others : ∀ place, (∀ offset ∈ offsets, place < offset ∨ offset + 2 ≤ place) →
    later[place]? = code[place]?

/-- The words that no offset touches are still held. -/
theorem Writes.keeps {target : Int} {offsets : List Nat} (writes : Writes target offsets code later)
    {value : Int} (holds : Holds code offset value)
    (apart : ∀ other ∈ offsets, offset + 2 ≤ other ∨ other + 2 ≤ offset) :
    Holds later offset value := by
  refine holds.of_eq (writes.others offset fun other member => ?_)
    (writes.others (offset + 1) fun other member => ?_)
  · have := apart other member
    omega
  · have := apart other member
    omega

theorem Writes.cons {offsets : List Nat} (first : Writes target [offset] code later)
    (rest : Writes target offsets later last)
    (apart : ∀ other ∈ offsets, offset = other ∨ offset + 2 ≤ other ∨ other + 2 ≤ offset) :
    Writes target (offset :: offsets) code last := by
  refine ⟨rest.size.trans first.size, ?_, ?_⟩
  · intro place member
    by_cases again : place ∈ offsets
    · exact rest.holds place again
    · have same : place = offset := (List.mem_cons.1 member).resolve_right again
      subst same
      refine rest.keeps (first.holds place (by simp)) fun other below => ?_
      exact (apart other below).resolve_left fun same => again (same ▸ below)
  · intro place away
    rw [rest.others place fun other member => away other (by simp [member]),
      first.others place fun other member => away other (by simp_all)]

theorem write_writes (draft : Draft) (target : Int) (inside : offset + 2 ≤ draft.code.size) :
    ∃ code, draft.write offset target = ⟨{ draft with code }, true⟩ ∧
      Writes target [offset] draft.code code := by
  have within : (0 : Int) ≤ offset ∧ (offset : Int) + 2 ≤ draft.code.size := by omega
  unfold write putWord?
  rw [if_pos within]
  refine ⟨_, rfl, by simp, ?_, ?_⟩
  · intro place member
    rw [List.mem_singleton.1 member]
    refine ⟨((target % 65536).toNat % 256).toUInt8, ((target % 65536).toNat / 256).toUInt8,
      ?_, ?_, ?_⟩
    · have here : offset < draft.code.size := by omega
      simp [here]
    · have here : offset + 1 < draft.code.size := by omega
      simp [here]
    · simp only [Nat.toUInt8, UInt8.toNat_ofNat']
      omega
  · intro place away
    have := away offset (by simp)
    have first : offset ≠ place := by omega
    have second : offset + 1 ≠ place := by omega
    simp [first, second]

theorem writeAll_writes (target : Int) {offsets : List Nat} (draft : Draft)
    (inside : ∀ offset ∈ offsets, offset + 2 ≤ draft.code.size)
    (apart : ∀ a ∈ offsets, ∀ b ∈ offsets, a = b ∨ a + 2 ≤ b ∨ b + 2 ≤ a) :
    ∃ code, writeAll target (offsets.map (↑)) draft = ⟨{ draft with code }, true⟩ ∧
      Writes target offsets draft.code code := by
  induction offsets generalizing draft with
  | nil => exact ⟨draft.code, rfl, rfl, by simp, fun _ _ => rfl⟩
  | cons offset rest ih =>
      rcases write_writes draft target (inside offset (by simp)) with ⟨code, written, writes⟩
      have insideRest : ∀ other ∈ rest, other + 2 ≤ code.size := by
        rw [writes.size]
        exact fun other member => inside other (by simp [member])
      rcases ih { draft with code } insideRest fun a first b second =>
        apart a (by simp [first]) b (by simp [second]) with ⟨last, writtenAll, writesAll⟩
      refine ⟨last, ?_, writes.cons writesAll fun other member =>
        apart offset (by simp) other (by simp [member])⟩
      simp only [List.map_cons, writeAll, written]
      exact writtenAll

end Words

namespace Ledger

variable {ledger later : Ledger} {code : Array UInt8} {number offset size : Nat}
  {target value : Int}

@[simp]
theorem target?_set (ledger : Ledger) (number other : Nat) (target : Int) :
    (ledger.set number target).target? other =
      if other = number then some target else ledger.target? other := by
  unfold target? set
  by_cases same : other = number
  · simp [same]
  · simp [List.lookup_cons, same, beq_false_of_ne same]

/-- Setting the locations of a group is setting each of them. -/
theorem foldl_set (target : Int) (numbers : List Nat) (ledger : Ledger) :
    numbers.foldl (fun ledger number => ledger.set number target) ledger =
      { ledger with sets := ledger.sets ++ numbers.map fun number => (number, target) } := by
  induction numbers generalizing ledger with
  | nil => simp
  | cons number rest ih =>
      rw [List.foldl_cons, ih]
      simp [set]

/-- The offsets of the operands that refer to a location. -/
def offsets (ledger : Ledger) (number : Nat) : List Nat :=
  (ledger.uses.filter fun use => use.1 = number).map Prod.snd

theorem mem_offsets : offset ∈ ledger.offsets number ↔ (number, offset) ∈ ledger.uses := by
  simp [offsets]

/-- A location as the ledger tells it. -/
def location (ledger : Ledger) (number : Nat) : Location where
  target := (ledger.target? number).getD 0
  resolved := (ledger.target? number).isSome
  uses := ((ledger.offsets number).map (↑)).toArray

theorem location_set (ledger : Ledger) (number other : Nat) (target : Int) :
    (ledger.set number target).location other =
      if other = number then { ledger.location other with target := target, resolved := true }
      else ledger.location other := by
  unfold location
  rw [target?_set]
  split <;> rfl

theorem location_use (ledger : Ledger) (number offset other : Nat) :
    (ledger.use number offset).location other =
      if other = number then
        { ledger.location other with uses := (ledger.location other).uses.push offset }
      else ledger.location other := by
  unfold location offsets use
  by_cases same : other = number
  · simp [same, target?]
  · simp [same, Ne.symm same, target?]

/-- The ledger speaks of locations that were made, and of operands inside the code. -/
structure IsWithin (size : Nat) (ledger : Ledger) : Prop where
  uses : ∀ use ∈ ledger.uses, use.1 < ledger.count ∧ use.2 + 2 ≤ size
  sets : ∀ set ∈ ledger.sets, set.1 < ledger.count
  group : ∀ number ∈ ledger.group, number < ledger.count

theorem IsWithin.target?_eq_none (within : ledger.IsWithin size)
    (new : ledger.count ≤ number) : ledger.target? number = none := by
  unfold target?
  rw [List.lookup_eq_none_iff]
  intro set member
  have known := within.sets set (List.mem_reverse.1 member)
  have different : number ≠ set.1 := by omega
  simpa using different

theorem IsWithin.location_eq (within : ledger.IsWithin size) (new : ledger.count ≤ number) :
    ledger.location number = {} := by
  have unused : ledger.offsets number = [] := by
    rw [List.eq_nil_iff_forall_not_mem]
    intro offset member
    have := (within.uses _ (mem_offsets.1 member)).1
    simp only at this
    omega
  unfold location
  rw [within.target?_eq_none new, unused]
  rfl

theorem IsWithin.set (within : ledger.IsWithin size) (made : number < ledger.count)
    (target : Int) : (ledger.set number target).IsWithin size := by
  refine ⟨within.uses, fun set member => ?_, within.group⟩
  rcases List.mem_append.1 member with before | now
  · exact within.sets set before
  · rw [List.mem_singleton.1 now]
    exact made

theorem IsWithin.use (within : ledger.IsWithin size) (made : number < ledger.count)
    (inside : offset + 2 ≤ size) : (ledger.use number offset).IsWithin size := by
  refine ⟨fun use member => ?_, within.sets, within.group⟩
  rcases List.mem_append.1 member with before | now
  · exact within.uses use before
  · rw [List.mem_singleton.1 now]
    exact ⟨made, inside⟩

theorem operand_use {place : Nat} : (ledger.use number offset).Operand place value ↔
    ledger.Operand place value ∨ (place = offset ∧ ledger.target? number = some value) := by
  constructor
  · rintro ⟨other, used, isSet⟩
    rcases List.mem_append.1 used with before | now
    · exact .inl ⟨other, before, isSet⟩
    · cases List.mem_singleton.1 now
      exact .inr ⟨rfl, isSet⟩
  · rintro (⟨other, used, isSet⟩ | ⟨rfl, isSet⟩)
    · exact ⟨other, List.mem_append_left _ used, isSet⟩
    · exact ⟨number, List.mem_append_right _ (List.mem_singleton_self _), isSet⟩

theorem Operand.set (operand : (ledger.set number target).Operand offset value) :
    offset ∈ ledger.offsets number ∧ value = target ∨
      ∃ other ≠ number, (other, offset) ∈ ledger.uses ∧ ledger.target? other = some value := by
  rcases operand with ⟨other, used, isSet⟩
  rw [target?_set] at isSet
  split at isSet
  · rename_i same
    subst same
    exact .inl ⟨mem_offsets.2 used, (Option.some.inj isSet).symm⟩
  · rename_i different
    exact .inr ⟨other, different, used, isSet⟩

/-- Code goes on showing a ledger when a target is written at offsets that come to hold it, and
the operands that were there before come to hold it too or are apart from them. -/
theorem Shows.patch {before after : Array UInt8} {offsets : List Nat}
    (shows : ledger.Shows code before) (writes : Writes target offsets before after)
    (kept : ∀ offset value, later.Operand offset value → (offset ∈ offsets ∧ value = target) ∨
      (ledger.Operand offset value ∧
        ∀ other ∈ offsets, offset + 2 ≤ other ∨ other + 2 ≤ offset))
    (covered : ∀ offset ∈ offsets, later.Operand offset target)
    (grows : ∀ offset value, ledger.Operand offset value → ∃ now, later.Operand offset now) :
    later.Shows code after := by
  refine ⟨writes.size.trans shows.size, fun offset value operand => ?_, fun place away => ?_⟩
  · rcases kept offset value operand with ⟨member, rfl⟩ | ⟨earlier, apart⟩
    · exact writes.holds offset member
    · exact writes.keeps (shows.holds offset value earlier) apart
  · rw [writes.others place fun offset member => away offset target (covered offset member)]
    refine shows.others place fun offset value operand => ?_
    rcases grows offset value operand with ⟨now, later⟩
    exact away offset now later

end Ledger

/-- A draft and a group that are as a ledger tells. -/
structure Grouped.Follows (state : Grouped) (code : Array UInt8) (ledger : Ledger) : Prop where
  within : ledger.IsWithin code.size
  shows : ledger.Shows code state.draft.code
  locations : ∀ number, state.draft.locations[number]? =
    if number < ledger.count then some (ledger.location number) else none
  group : state.group = ledger.group.map (↑)

namespace Grouped.Follows

variable {state : Grouped} {code : Array UInt8} {ledger : Ledger} {number offset : Nat}

theorem found (follows : state.Follows code ledger) (made : number < ledger.count) :
    state.draft.location? number = some (ledger.location number) := by
  rw [location?_eq, follows.locations, if_pos made]

theorem size_locations (follows : state.Follows code ledger) :
    state.draft.locations.size = ledger.count := by
  have outside : ∀ number : Nat, state.draft.locations.size ≤ number ↔ ledger.count ≤ number := by
    intro number
    rw [← Array.getElem?_eq_none_iff, follows.locations, ite_eq_right_iff]
    simp
  exact Nat.le_antisymm ((outside _).2 (Nat.le_refl _)) ((outside _).1 (Nat.le_refl _))

/-- Replacing a location as the ledger of one more operation tells it. -/
theorem put (follows : state.Follows code ledger) (later : Ledger) {location : Location}
    (made : number < ledger.count) (count : later.count = ledger.count)
    (told : ∀ other, later.location other =
      if other = number then location else ledger.location other) (other : Nat) :
    (state.draft.putLocation number location).locations[other]? =
      if other < later.count then some (later.location other) else none := by
  simp only [putLocation, Int.toNat_natCast, Array.getElem?_setIfInBounds,
    follows.size_locations, follows.locations, told, count]
  by_cases same : number = other
  · subst same
    simp [made]
  · simp [same, Ne.symm same]

theorem use (follows : state.Follows code ledger) (made : number < ledger.count)
    (inside : offset + 2 ≤ code.size) (apart : (ledger.use number offset).IsApart) :
    ∃ draft, state.draft.use number offset = ⟨draft, true⟩ ∧
      { state with draft }.Follows code (ledger.use number offset) := by
  let recorded := state.draft.putLocation number { ledger.location number with
    uses := (ledger.location number).uses.push offset }
  have within := follows.within.use made inside
  have locations := follows.put (ledger.use number offset) made rfl fun other => by
    rw [ledger.location_use]
    split
    · rename_i same
      rw [same]
    · rfl
  have unfolded : state.draft.use number offset =
      if (ledger.target? number).isSome then recorded.write offset (ledger.location number).target
      else ⟨recorded, true⟩ := by
    unfold Draft.use
    rw [follows.found made]
    rfl
  rw [unfolded]
  cases isSet : ledger.target? number with
  | none =>
      have operands : ∀ place value, (ledger.use number offset).Operand place value ↔
          ledger.Operand place value := by
        simp [Ledger.operand_use, isSet]
      refine ⟨recorded, rfl, within, ⟨follows.shows.size, ?_, ?_⟩, locations, follows.group⟩
      · simp only [operands]
        exact follows.shows.holds
      · simp only [operands]
        exact follows.shows.others
  | some target =>
      have latest : (ledger.location number).target = target := by simp [Ledger.location, isSet]
      obtain ⟨later, written, writes⟩ : ∃ later, recorded.write offset target =
          ⟨{ recorded with code := later }, true⟩ ∧
            Writes target [offset] state.draft.code later :=
        write_writes recorded target (follows.shows.size ▸ inside)
      simp only [Option.isSome_some, if_true, latest]
      refine ⟨_, written, within, follows.shows.patch writes ?_ ?_ ?_, locations, follows.group⟩
      · rintro place value ⟨other, used, last⟩
        have here : (number, offset) ∈ (ledger.use number offset).uses := by simp [Ledger.use]
        rcases apart _ used _ here with same | apart
        · cases same
          exact .inl ⟨by simp, Option.some.inj (last.symm.trans isSet)⟩
        · rcases List.mem_append.1 used with before | now
          · exact .inr ⟨⟨other, before, last⟩, by simpa using apart⟩
          · cases List.mem_singleton.1 now
            omega
      · intro place member
        exact Ledger.operand_use.2 (.inr ⟨List.mem_singleton.1 member, isSet⟩)
      · exact fun place value operand => ⟨value, Ledger.operand_use.2 (.inl operand)⟩

theorem set (follows : state.Follows code ledger) (apart : ledger.IsApart)
    (made : number < ledger.count) (target : Int) :
    ∃ draft, state.draft.set number target = ⟨draft, true⟩ ∧
      { state with draft }.Follows code (ledger.set number target) := by
  let resolved := state.draft.putLocation number { ledger.location number with
    target, resolved := true }
  have inside : ∀ offset ∈ ledger.offsets number, offset + 2 ≤ state.draft.code.size := by
    intro offset member
    rw [follows.shows.size]
    exact (follows.within.uses _ (Ledger.mem_offsets.1 member)).2
  have disjoint : ∀ a ∈ ledger.offsets number, ∀ b ∈ ledger.offsets number,
      a = b ∨ a + 2 ≤ b ∨ b + 2 ≤ a := by
    intro a first b second
    rcases apart _ (Ledger.mem_offsets.1 first) _ (Ledger.mem_offsets.1 second) with same | apart
    · exact .inl (Prod.mk.inj same).2
    · exact .inr apart
  obtain ⟨later, written, writes⟩ : ∃ later,
      writeAll target ((ledger.offsets number).map (↑)) resolved =
        ⟨{ resolved with code := later }, true⟩ ∧
          Writes target (ledger.offsets number) state.draft.code later :=
    writeAll_writes target resolved inside disjoint
  refine ⟨{ resolved with code := later }, ?_, follows.within.set made target,
    follows.shows.patch writes ?_ ?_ ?_, follows.put _ made rfl fun other => ?_, follows.group⟩
  · unfold Draft.set
    rw [follows.found made]
    exact written
  · intro offset value operand
    refine operand.set.imp id ?_
    rintro ⟨other, different, used, isSet⟩
    refine ⟨⟨other, used, isSet⟩, fun place member => ?_⟩
    refine (apart _ used _ (Ledger.mem_offsets.1 member)).resolve_left fun same => ?_
    exact different (Prod.mk.inj same).1
  · exact fun offset member => ⟨number, Ledger.mem_offsets.1 member, by simp⟩
  · rintro offset value ⟨other, used, isSet⟩
    by_cases same : other = number
    · exact ⟨target, other, used, by simp [same]⟩
    · exact ⟨value, other, used, by simp [same, isSet]⟩
  · rw [ledger.location_set]
    split
    · rename_i same
      rw [same]
    · rfl

theorem setAll (apart : ledger.IsApart) (target : Int) {numbers : List Nat}
    (made : ∀ number ∈ numbers, number < ledger.count) (follows : state.Follows code ledger) :
    ∃ draft, state.draft.setAll target (numbers.map (↑)) = ⟨draft, true⟩ ∧
      { state with draft }.Follows code
        (numbers.foldl (fun ledger number => ledger.set number target) ledger) := by
  induction numbers generalizing state ledger with
  | nil => exact ⟨state.draft, rfl, follows⟩
  | cons number rest ih =>
      rcases follows.set apart (made number (by simp)) target with ⟨draft, setFirst, first⟩
      have apartNow : (ledger.set number target).IsApart := apart
      rcases ih apartNow (fun other member => made other (by simp [member])) first with
        ⟨last, setRest, all⟩
      refine ⟨last, ?_, all⟩
      simp only [List.map_cons, Draft.setAll, setFirst]
      exact setRest

/-- Under checking a group is kept for the first of its locations that was never set. -/
theorem checkCleared (follows : state.Follows code ledger) (checking : Bool) {numbers : List Nat}
    (made : ∀ number ∈ numbers, number < ledger.count) :
    Code.checkCleared checking state.draft (numbers.map (↑)) =
      if checking then
        (numbers.find? fun number => ledger.target? number = none).map fun number =>
          .unresolved number
      else none := by
  induction numbers with
  | nil => cases checking <;> rfl
  | cons number rest ih =>
      have later := ih fun other member => made other (by simp [member])
      rw [List.map_cons, Code.checkCleared, follows.found (made number (by simp)), later]
      cases checking with
      | false => rfl
      | true =>
          cases isSet : ledger.target? number with
          | none => simp [Ledger.location, isSet]
          | some target => simp [Ledger.location, isSet]

theorem checkCleared_eq_none {checking : Bool} (follows : state.Follows code ledger) :
    Code.checkCleared checking state.draft state.group = none ↔ ¬ledger.Keeps checking := by
  rw [follows.group, follows.checkCleared checking follows.within.group]
  cases checking with
  | false => simp [Ledger.Keeps]
  | true => simp [Ledger.Keeps]

theorem new (follows : state.Follows code ledger) :
    { state with draft := state.draft.addLocation.2 }.Follows code
      { ledger with count := ledger.count + 1 } := by
  have within : { ledger with count := ledger.count + 1 : Ledger }.IsWithin code.size :=
    ⟨fun use member => ⟨Nat.lt_succ_of_lt (follows.within.uses use member).1,
        (follows.within.uses use member).2⟩,
      fun set member => Nat.lt_succ_of_lt (follows.within.sets set member),
      fun number member => Nat.lt_succ_of_lt (follows.within.group number member)⟩
  refine ⟨within, ⟨follows.shows.size, follows.shows.holds, follows.shows.others⟩,
    fun number => ?_, follows.group⟩
  have told : { ledger with count := ledger.count + 1 : Ledger }.location number =
      ledger.location number := rfl
  simp only [addLocation, Array.getElem?_push, follows.size_locations, follows.locations, told]
  by_cases last : number = ledger.count
  · simp [last, follows.within.location_eq (Nat.le_refl _)]
  · have before : number < ledger.count + 1 ↔ number < ledger.count := by omega
    simp [last, before]

/-- One operation keeps a draft as its ledger tells, and only a clearing stops. -/
theorem apply {checking : Bool} {operation : Operation} (follows : state.Follows code ledger)
    (allowed : ledger.Allows code.size operation)
    (apart : (ledger.note checking operation).IsApart) :
    (state.apply checking operation).1.Follows code (ledger.note checking operation) ∧
      ((state.apply checking operation).2 ≠ none ↔
        operation = .clear ∧ ledger.Keeps checking) := by
  cases operation with
  | new => exact ⟨follows.new, by simp [Grouped.apply]⟩
  | use number offset =>
      rcases follows.use allowed.1 allowed.2 apart with ⟨draft, used, later⟩
      simp only [Grouped.apply, Grouped.edited, used]
      exact ⟨later, by simp⟩
  | set number target =>
      rcases follows.set apart allowed target with ⟨draft, isSet, later⟩
      simp only [Grouped.apply, Grouped.edited, isSet]
      exact ⟨later, by simp⟩
  | add number =>
      refine ⟨⟨⟨follows.within.uses, follows.within.sets, ?_⟩,
        ⟨follows.shows.size, follows.shows.holds, follows.shows.others⟩, follows.locations, ?_⟩,
        by simp [Grouped.apply]⟩
      · intro other member
        rcases List.mem_append.1 member with before | now
        · exact follows.within.group other before
        · rw [List.mem_singleton.1 now]
          exact allowed
      · simp [Grouped.apply, Ledger.note, follows.group]
  | setGroup target =>
      have apartNow : ledger.IsApart := apart
      rcases setAll apartNow target follows.within.group follows with ⟨draft, isSet, later⟩
      rw [Ledger.foldl_set] at later
      simp only [Grouped.apply, Grouped.edited, follows.group, isSet]
      exact ⟨follows.group ▸ later, by simp⟩
  | clear =>
      cases verdict : Code.checkCleared checking state.draft state.group with
      | none =>
          have free := follows.checkCleared_eq_none.1 verdict
          simp only [Grouped.apply, verdict, Ledger.note, if_neg free, ne_eq, not_true_eq_false,
            true_and, false_iff]
          refine ⟨⟨⟨follows.within.uses, follows.within.sets, by simp⟩, ?_, follows.locations,
            rfl⟩, free⟩
          exact ⟨follows.shows.size, follows.shows.holds, follows.shows.others⟩
      | some problem =>
          have keeps : ledger.Keeps checking := by
            by_contra free
            rw [follows.checkCleared_eq_none.2 free] at verdict
            cases verdict
          simp only [Grouped.apply, verdict, Ledger.note, if_pos keeps]
          exact ⟨follows, by simp [keeps]⟩

/-- What is told of a draft and its group is told by what they follow. -/
theorem agrees (follows : state.Follows code ledger) : state.Agrees code ledger := by
  refine ⟨follows.shows, ?_, follows.size_locations⟩
  unfold unresolved
  rw [follows.size_locations]
  refine List.filter_congr fun number member => ?_
  rw [follows.locations, if_pos (List.mem_range.1 member)]
  have unused : (ledger.location number).uses.isEmpty =
      !decide (∃ use ∈ ledger.uses, use.1 = number) := by
    rw [Bool.eq_iff_iff]
    simp only [Ledger.location, Ledger.offsets, List.isEmpty_toArray, List.isEmpty_iff,
      List.map_eq_nil_iff, List.filter_eq_nil_iff, decide_eq_true_eq, Bool.not_eq_true',
      decide_eq_false_iff_not, not_exists, not_and]
  have unset : (ledger.location number).resolved = !decide (ledger.target? number = none) := by
    cases isSet : ledger.target? number <;> simp [Ledger.location, isSet]
  simp only [unused, unset, Bool.not_not, Bool.decide_and, Bool.and_comm]

end Grouped.Follows

section Histories

variable {checking : Bool} {code : Array UInt8} {size : Nat} {ledger : Ledger}
  {history front back : List Operation}

/-- What has been written down is not struck out. -/
theorem Ledger.uses_subset_after (history : List Operation) (ledger : Ledger) :
    ledger.uses ⊆ (ledger.after checking history).uses := by
  induction history generalizing ledger with
  | nil => exact List.Subset.refl _
  | cons operation rest ih =>
      refine List.Subset.trans ?_ (ih (ledger.note checking operation))
      cases operation with
      | use number offset => exact List.subset_append_left _ _
      | clear =>
          simp only [Ledger.note]
          split <;> exact List.Subset.refl _
      | new | set | add | setGroup => exact List.Subset.refl _

theorem Ledger.IsApart.of_after (ledger : Ledger) (history : List Operation)
    (apart : (ledger.after checking history).IsApart) : ledger.IsApart := fun a first b second =>
  apart a (Ledger.uses_subset_after history ledger first) b
    (Ledger.uses_subset_after history ledger second)

theorem Ledger.allowsAll_append : Ledger.AllowsAll checking size ledger (front ++ back) ↔
    Ledger.AllowsAll checking size ledger front ∧
      Ledger.AllowsAll checking size (ledger.after checking front) back := by
  induction front generalizing ledger with
  | nil => simp [Ledger.AllowsAll, Ledger.after]
  | cons operation rest ih =>
      simp only [List.cons_append, Ledger.AllowsAll, ih, and_assoc]
      rfl

theorem Ledger.after_append (ledger : Ledger) (front back : List Operation) :
    ledger.after checking (front ++ back) = (ledger.after checking front).after checking back :=
  List.foldl_append

/-- A run keeps a draft as its ledger tells. -/
theorem Grouped.Follows.after {state : Grouped} (follows : state.Follows code ledger)
    (allowed : ledger.AllowsAll checking code.size history)
    (apart : (ledger.after checking history).IsApart) :
    (state.after checking history).Follows code (ledger.after checking history) := by
  induction history generalizing state ledger with
  | nil => exact follows
  | cons operation rest ih =>
      have now := Ledger.IsApart.of_after (ledger.note checking operation) rest apart
      exact ih (follows.apply allowed.1 now).1 allowed.2 apart

theorem follows_start (code : Array UInt8) : (⟨{ code }, []⟩ : Grouped).Follows code {} := by
  refine ⟨⟨by simp, by simp, by simp⟩, ⟨rfl, ?_, fun _ _ => rfl⟩, by simp, rfl⟩
  rintro offset target ⟨number, used, -⟩
  cases used

/-- Whatever is done to locations and in whatever order, the operands of each location hold the
target that it was set to last, and nothing else is written. -/
theorem patches_of_isHistory (checking : Bool) (code : Array UInt8) (history : List Operation)
    (proper : IsHistory checking code.size history) : Patches checking code history := by
  constructor
  · rintro front back rfl
    have allowed := (Ledger.allowsAll_append.1 proper.allowed).1
    have apart := proper.apart
    rw [Ledger.after_append] at apart
    exact ((follows_start code).after allowed (.of_after _ _ apart)).agrees
  · rintro front operation back rfl
    have allowed := Ledger.allowsAll_append.1 proper.allowed
    have apart := proper.apart
    rw [Ledger.after_append] at apart
    have now := Ledger.IsApart.of_after
      (Ledger.note checking (.after checking {} front) operation) back apart
    have follows := (follows_start code).after allowed.1 (.of_after _ _ apart)
    exact (follows.apply allowed.2.1 now).2

/-- Two locations are used before and after they are set, alone and through a group that is
first kept. -/
def regrouped : List Operation :=
  [.new, .new, .use 0 0, .use 1 2, .set 0 4660, .use 0 6, .add 1, .clear, .add 0, .setGroup (-2),
    .clear, .set 0 70000, .new, .use 2 4]

theorem patches_regrouped : IsHistory true 10 regrouped ∧
    Patches true (Array.replicate 10 0) regrouped :=
  ⟨⟨by decide, by decide⟩, patches_of_isHistory true (Array.replicate 10 0) regrouped
    ⟨by decide, by decide⟩⟩

example : (Grouped.after true ⟨{ code := Array.replicate 10 0 }, []⟩ regrouped).draft.code =
    #[112, 17, 254, 255, 0, 0, 112, 17, 0, 0] := by decide

end Histories

end Draft

end Lehce.Code

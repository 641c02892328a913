import Lehce.Natives.Standard
import Lehce.Proofs.Machine.Isolation
import Lehce.Proofs.Number.Whole
import Lehce.Proofs.Value.InsertionOrder

/-!
# Reading and writing items

Lists, dictionaries and texts keep the same laws: what has been written is what is read
next, and nothing else has changed. An integer counts the items of a list and the characters
of a text from the front or, when it is negative, from the end, and means one of them exactly
when it is not below minus the length and is below the length. A list or a dictionary that
cannot be written stays as it was.
-/

namespace Lehce.Machine

variable {heap : Heap} {place size : Nat} {items : Array Value} {index value : Value} {i j : Int}

/-- An operation fails with a fault of a kind. -/
def Fails {α : Type} (kind : Fault.Kind) (result : Except Fault α) : Prop :=
  ∃ detail, result = .error (.runtime kind detail)

/-- A value stands for an integer. -/
def StandsFor (index : Value) (i : Int) : Prop := ∃ x, index = .number x ∧ Number.IsInteger x i

/-- A value stands for an integer of 64 bits. -/
def IsIndex (index : Value) (i : Int) : Prop := StandsFor index i ∧ Number.fitsInt64 i

/-- An integer means one of the items of a sequence. -/
def Means (size : Nat) (i : Int) : Prop := -(size : Int) ≤ i ∧ i < size

/-- The item of a sequence that an integer means, counted from the front. -/
def position (size : Nat) (i : Int) : Nat := (if i < 0 then i + size else i).toNat

/-- The heap after an item of a container has been written, or could not be. -/
def written (heap : Heap) (container index value : Value) : Heap :=
  match setItem heap container index value with
  | .ok change => change heap
  | .error _ => heap

/-- Only what stands at one place of the heap has changed. -/
def OnlyAt (place : Nat) (before after : Heap) : Prop :=
  after.cells.size = before.cells.size ∧
    ∀ other, other ≠ place → after.cells[other]? = before.cells[other]?

section Indices

theorem integralIndex?_of_isIndex (stands : IsIndex index i) : integralIndex? index = some i := by
  rcases stands with ⟨⟨x, rfl, whole⟩, fits⟩
  simp only [integralIndex?, Number.integer?_eq_some_iff.2 whole, Option.map_some,
    Number.clampInt64, fits, if_true]

theorem integralIndex?_of_not (none : ∀ i, ¬StandsFor index i) : integralIndex? index = .none := by
  cases index with
  | number x =>
      cases found : Number.integer? x with
      | none => simp [integralIndex?, found]
      | some i => exact absurd ⟨x, rfl, Number.integer?_eq_some_iff.1 found⟩ (none i)
  | _ => rfl

theorem position_lt (means : Means size i) : position size i < size := by
  unfold position
  rcases means with ⟨lower, upper⟩
  split <;> omega

/-- Two integers mean the same item when they are equal or one sequence apart. -/
theorem position_eq_iff (means : Means size i) (other : Means size j) :
    position size j = position size i ↔ j = i ∨ j = i - size ∨ j = i + size := by
  unfold position
  rcases means with ⟨lower, upper⟩
  rcases other with ⟨otherLower, otherUpper⟩
  split <;> split <;> omega

theorem resolveIndex_of_means (means : Means size i) :
    resolveIndex size i = some (position size i) := by
  rcases means with ⟨lower, upper⟩
  simp only [resolveIndex, position]
  split <;> rw [if_neg (by omega)]

theorem resolveIndex_of_not_means (outside : ¬Means size i) : resolveIndex size i = none := by
  unfold Means at outside
  simp only [resolveIndex]
  split <;> rw [if_pos (by omega)]

theorem listPlace_of_not (none : ∀ i, ¬StandsFor index i) :
    Fails .typeMismatch (listPlace items index) := by
  rw [listPlace, integralIndex?_of_not none]
  exact ⟨_, rfl⟩

theorem listPlace_of_not_means (stands : IsIndex index i) (outside : ¬Means items.size i) :
    Fails .indexOutOfRange (listPlace items index) := by
  rw [listPlace, integralIndex?_of_isIndex stands]
  simp only [resolveIndex_of_not_means outside]
  exact ⟨_, rfl⟩

theorem listPlace_of_means (stands : IsIndex index i) (means : Means items.size i) :
    listPlace items index = .ok (position items.size i) := by
  rw [listPlace, integralIndex?_of_isIndex stands]
  simp only [resolveIndex_of_means means]

end Indices

section Cells

variable {entries : Dict Value}

theorem items_eq (found : heap.cells[place]? = some (.list items)) : heap.items place = items := by
  rw [Heap.items, found]

theorem entries_eq (found : heap.cells[place]? = some (.dict entries)) :
    heap.entries place = entries := by
  rw [Heap.entries, found]

theorem cell_modifyItems (found : heap.cells[place]? = some (.list items))
    (change : Array Value → Array Value) :
    (heap.modifyItems place change).cells[place]? = some (.list (change items)) := by
  rw [Heap.modifyItems, Array.getElem?_modify, if_pos rfl, found]
  rfl

theorem cell_modifyEntries (found : heap.cells[place]? = some (.dict entries))
    (change : Dict Value → Dict Value) :
    (heap.modifyEntries place change).cells[place]? = some (.dict (change entries)) := by
  rw [Heap.modifyEntries, Array.getElem?_modify, if_pos rfl, found]
  rfl

theorem onlyAt_modifyItems (heap : Heap) (place : Nat) (change : Array Value → Array Value) :
    OnlyAt place heap (heap.modifyItems place change) :=
  ⟨Array.size_modify, fun _ different => by
    rw [Heap.modifyItems, Array.getElem?_modify, if_neg (Ne.symm different)]⟩

theorem onlyAt_modifyEntries (heap : Heap) (place : Nat) (change : Dict Value → Dict Value) :
    OnlyAt place heap (heap.modifyEntries place change) :=
  ⟨Array.size_modify, fun _ different => by
    rw [Heap.modifyEntries, Array.getElem?_modify, if_neg (Ne.symm different)]⟩

end Cells

theorem written_of_fails {container : Value} {kind : Fault.Kind}
    (fails : Fails kind (setItem heap container index value)) :
    written heap container index value = heap := by
  rcases fails with ⟨detail, fails⟩
  rw [written, fails]

/-- Reading and writing the items of a list. -/
structure ListLaws (heap : Heap) (place : Nat) (items : Array Value) : Prop where
  /-- What stands for no integer is no index. -/
  kinds : ∀ index value, (∀ i, ¬StandsFor index i) →
    Fails .typeMismatch (getItem heap (.list place) index) ∧
    Fails .typeMismatch (setItem heap (.list place) index value) ∧
    written heap (.list place) index value = heap
  /-- An integer that means no item is out of range. -/
  outside : ∀ index value i, IsIndex index i → ¬Means items.size i →
    Fails .indexOutOfRange (getItem heap (.list place) index) ∧
    Fails .indexOutOfRange (setItem heap (.list place) index value) ∧
    written heap (.list place) index value = heap
  /-- An integer that means an item reads it. -/
  reads : ∀ index i, IsIndex index i → Means items.size i →
    ∃ item, items[position items.size i]? = some item ∧
      getItem heap (.list place) index = .ok item.orEmpty
  /-- An integer that means an item writes it, and no other one. -/
  writes : ∀ index value i, IsIndex index i → Means items.size i →
    (∃ change, setItem heap (.list place) index value = .ok change) ∧
    ((written heap (.list place) index value).items place).size = items.size ∧
    OnlyAt place heap (written heap (.list place) index value) ∧
    ∀ other j, IsIndex other j → Means items.size j →
      getItem (written heap (.list place) index value) (.list place) other =
        if j = i ∨ j = i - items.size ∨ j = i + items.size then .ok value.orEmpty
        else getItem heap (.list place) other

section Lists

theorem getItem_list (found : heap.cells[place]? = some (.list items)) (stands : IsIndex index i)
    (means : Means items.size i) :
    getItem heap (.list place) index =
      .ok (items[position items.size i]?.getD .empty).orEmpty := by
  simp only [getItem, items_eq found, listPlace_of_means stands means]
  rfl

theorem setItem_list (found : heap.cells[place]? = some (.list items)) (stands : IsIndex index i)
    (means : Means items.size i) (value : Value) :
    setItem heap (.list place) index value = .ok (·.modifyItems place fun items =>
      items.setIfInBounds (position (heap.items place).size i) value) := by
  simp only [setItem, items_eq found, listPlace_of_means stands means]
  rfl

theorem fails_list {kind : Fault.Kind} (fails : Fails kind (listPlace (heap.items place) index))
    (value : Value) :
    Fails kind (getItem heap (.list place) index) ∧
      Fails kind (setItem heap (.list place) index value) ∧
      written heap (.list place) index value = heap := by
  have refused : Fails kind (setItem heap (.list place) index value) := by
    rcases fails with ⟨detail, fails⟩
    exact ⟨detail, by simp only [setItem, fails]; rfl⟩
  refine ⟨?_, refused, written_of_fails refused⟩
  rcases fails with ⟨detail, fails⟩
  exact ⟨detail, by simp only [getItem, fails]; rfl⟩

theorem listLaws (found : heap.cells[place]? = some (.list items)) : ListLaws heap place items where
  kinds index value none := fails_list (listPlace_of_not none) value
  outside index value i stands outside := by
    refine fails_list (listPlace_of_not_means stands ?_) value
    rwa [items_eq found]
  reads index i stands means := by
    have inside := position_lt means
    refine ⟨items[position items.size i], Array.getElem?_eq_getElem inside, ?_⟩
    rw [getItem_list found stands means, Array.getElem?_eq_getElem inside]
    rfl
  writes index value i stands means := by
    have inside := position_lt means
    have sets := setItem_list found stands means value
    have after : written heap (.list place) index value = heap.modifyItems place fun items =>
        items.setIfInBounds (position (heap.items place).size i) value := by
      rw [written, sets]
    rw [items_eq found] at sets after
    have cell : (written heap (.list place) index value).cells[place]? =
        some (.list (items.setIfInBounds (position items.size i) value)) := by
      rw [after]
      exact cell_modifyItems found _
    refine ⟨⟨_, sets⟩, ?_, ?_, fun other j otherStands otherMeans => ?_⟩
    · rw [items_eq cell, Array.size_setIfInBounds]
    · rw [after]
      exact onlyAt_modifyItems _ _ _
    · have size : (items.setIfInBounds (position items.size i) value).size = items.size :=
        Array.size_setIfInBounds
      rw [getItem_list cell otherStands (by rwa [size]), size,
        getItem_list found otherStands otherMeans, Array.getElem?_setIfInBounds]
      by_cases same : position items.size j = position items.size i
      · rw [if_pos same.symm, if_pos inside, if_pos ((position_eq_iff means otherMeans).1 same)]
        rfl
      · rw [if_neg (Ne.symm same), if_neg (mt (position_eq_iff means otherMeans).2 same)]

end Lists

/-- Reading and writing the values of a dictionary. -/
structure DictLaws (heap : Heap) (place : Nat) (entries : Dict Value) : Prop where
  /-- What is no text is no key. -/
  kinds : ∀ index value, (∀ key, index ≠ .text key) →
    Fails .typeMismatch (getItem heap (.dict place) index) ∧
    Fails .typeMismatch (setItem heap (.dict place) index value) ∧
    written heap (.dict place) index value = heap
  /-- A key reads its value, and a missing one reads the empty value. -/
  reads : ∀ key, getItem heap (.dict place) (.text key) =
    .ok (match entries.get? key with
      | some value => value.orEmpty
      | none => .empty)
  /-- A key writes its value, and no other one. -/
  writes : ∀ key value,
    (∃ change, setItem heap (.dict place) (.text key) value = .ok change) ∧
    ((written heap (.dict place) (.text key) value).entries place).keys =
      (if key ∈ entries.keys then entries.keys else entries.keys ++ [key]) ∧
    OnlyAt place heap (written heap (.dict place) (.text key) value) ∧
    ∀ other, getItem (written heap (.dict place) (.text key) value) (.dict place) (.text other) =
      if other = key then .ok value.orEmpty else getItem heap (.dict place) (.text other)

section Dictionaries

variable {entries : Dict Value}

theorem getItem_dict (found : heap.cells[place]? = some (.dict entries)) (key : String) :
    getItem heap (.dict place) (.text key) = .ok ((entries.get? key).getD .empty).orEmpty := by
  rw [getItem, entries_eq found]

theorem dictLaws (found : heap.cells[place]? = some (.dict entries)) :
    DictLaws heap place entries where
  kinds index value none := by
    have refused : Fails .typeMismatch (setItem heap (.dict place) index value) := by
      cases index with
      | text key => exact absurd rfl (none key)
      | _ => exact ⟨_, rfl⟩
    refine ⟨?_, refused, written_of_fails refused⟩
    cases index with
    | text key => exact absurd rfl (none key)
    | _ => exact ⟨_, rfl⟩
  reads key := by
    rw [getItem_dict found]
    cases entries.get? key <;> rfl
  writes key value := by
    have cell : (written heap (.dict place) (.text key) value).cells[place]? =
        some (.dict (entries.set key value)) :=
      cell_modifyEntries found fun entries => entries.set key value
    refine ⟨⟨_, rfl⟩, ?_, onlyAt_modifyEntries _ _ _, fun other => ?_⟩
    · rw [entries_eq cell]
      split
      · rename_i member
        exact entries.inStep.keys_set_of_mem member
      · rename_i absent
        exact entries.inStep.keys_set_of_not_mem absent
    · rw [getItem_dict cell, getItem_dict found]
      simp only [Dict.set, RawDict.get?_set, eq_comm]
      split <;> rfl

end Dictionaries

/-- Reading the characters of a text of a length. -/
structure TextLaws (heap : Heap) (content : String) (length : Nat) : Prop where
  /-- What stands for no integer is no index. -/
  kinds : ∀ index, (∀ i, ¬StandsFor index i) →
    Fails .typeMismatch (getItem heap (.text content) index)
  /-- An integer that means no character is out of range. -/
  outside : ∀ index i, IsIndex index i → ¬Means length i →
    Fails .indexOutOfRange (getItem heap (.text content) index)
  /-- An integer that means a character reads it. -/
  reads : ∀ index i, IsIndex index i → Means length i →
    ∃ c, content.toList[position length i]? = some c ∧
      getItem heap (.text content) index = .ok (.text c.toString)

section Texts

variable {content : String}

theorem textItem_of_means (stands : IsIndex index i) (means : Means content.length i) :
    ∃ c, content.toList[position content.length i]? = some c ∧
      textItem content index = .ok (.text c.toString) := by
  have inside : position content.length i < content.toList.length := by
    rw [String.length_toList]
    exact position_lt means
  have front : ¬(if i < 0 then i + content.length else i) < 0 := by
    rcases means with ⟨lower, upper⟩
    split <;> omega
  have reads := List.getElem?_eq_getElem inside
  refine ⟨_, reads, ?_⟩
  simp only [position] at reads
  simp only [textItem, integralIndex?_of_isIndex stands, String.length_toList, front, if_false,
    reads]
  rfl

theorem textItem_of_not_means (stands : IsIndex index i) (outside : ¬Means content.length i) :
    Fails .indexOutOfRange (textItem content index) := by
  simp only [textItem, integralIndex?_of_isIndex stands, String.length_toList]
  unfold Means at outside
  by_cases before : (if i < 0 then i + content.length else i) < 0
  · simp only [before, if_true]
    exact ⟨_, rfl⟩
  · have beyond : content.toList[(if i < 0 then i + content.length else i).toNat]? = none := by
      rw [List.getElem?_eq_none_iff, String.length_toList]
      split at before <;> split <;> omega
    simp only [before, if_false, beyond]
    exact ⟨_, rfl⟩

theorem textLaws (heap : Heap) (content : String) : TextLaws heap content content.length where
  kinds index none := by
    rw [getItem, textItem, integralIndex?_of_not none]
    exact ⟨_, rfl⟩
  outside index i stands outside := textItem_of_not_means stands outside
  reads index i stands means := textItem_of_means stands means

/-- The native function that gives the length of a text. -/
theorem find?_textLength : ∃ native, Natives.standard.find? "text.length" = some native ∧
    ∀ host, native.call [.text content] host =
      { host, value := .number (Number.ofInt content.length) } :=
  ⟨Natives.textual "text.length" fun t => Natives.count t.length, rfl, fun _ => rfl⟩

theorem length_le_utf8Len (chars : List Char) : chars.length ≤ String.utf8Len chars := by
  induction chars with
  | nil => exact Nat.zero_le _
  | cons c chars ih =>
      have positive := c.utf8Size_pos
      rw [List.length_cons, String.utf8Len_cons]
      omega

theorem isInteger_length (formed : content.utf8ByteSize ≤ maxTextBytes) :
    Number.IsInteger (Number.ofInt content.length) content.length := by
  apply Number.isInteger_ofInt
  have shorter := length_le_utf8Len content.toList
  rw [String.length_toList, String.utf8Len_toList] at shorter
  have most : maxTextBytes ≤ 2 ^ 53 := by decide
  omega

end Texts

section Instructions

variable {m : Machine} {unit : Code.Unit} {registry : Option Registry} {at_ : Nat}

theorem withOperands_of_le {n : Nat} {next : Machine → Step}
    (enough : m.frame.base + n ≤ m.operands.height) : withOperands m n next = next m := by
  rw [withOperands, need, if_neg (not_lt.2 enough)]

/-- Reading an item leaves the heap as it is. -/
theorem heap_execute_getItem (enough : m.frame.base + 2 ≤ m.operands.height) :
    (execute unit registry m at_ .getItem).machine.host.heap = m.host.heap := by
  rw [execute, withOperands_of_le enough]
  simp only
  cases getItem (m.drop 2).host.heap (m.peek 1) (m.peek 0) <;> rfl

/-- Writing an item writes it to the heap, or leaves the heap as it is. -/
theorem heap_execute_setItem (enough : m.frame.base + 3 ≤ m.operands.height) :
    (execute unit registry m at_ .setItem).machine.host.heap =
      written m.host.heap (m.peek 2) (m.peek 1) (m.peek 0) := by
  rw [execute, withOperands_of_le enough, written]
  simp only
  have same : (m.drop 3).host.heap = m.host.heap := rfl
  rw [same]
  cases setItem m.host.heap (m.peek 2) (m.peek 1) (m.peek 0) <;> rfl

end Instructions

/--
Lists, dictionaries and texts keep the laws of reading and writing items, the length of a text
is the one that its native function gives, nothing else can be written, and the machine's
instructions read and write accordingly.
-/
theorem item_laws (heap : Heap) :
    (∀ place items, heap.cells[place]? = some (.list items) → ListLaws heap place items) ∧
    (∀ place entries, heap.cells[place]? = some (.dict entries) → DictLaws heap place entries) ∧
    (∀ content : String, TextLaws heap content content.length ∧
      ∃ native x, Natives.standard.find? "text.length" = some native ∧
        (∀ host, native.call [.text content] host = { host, value := .number x }) ∧
        (content.utf8ByteSize ≤ maxTextBytes → Number.IsInteger x content.length)) ∧
    (∀ container index value, (∀ place, container ≠ .list place) →
      (∀ place, container ≠ .dict place) →
      Fails .typeMismatch (setItem heap container index value) ∧
      written heap container index value = heap) ∧
    ∀ unit registry m at_, m.host.heap = heap →
      (m.frame.base + 2 ≤ m.operands.height →
        (execute unit registry m at_ .getItem).machine.host.heap = heap) ∧
      (m.frame.base + 3 ≤ m.operands.height →
        (execute unit registry m at_ .setItem).machine.host.heap =
          written heap (m.peek 2) (m.peek 1) (m.peek 0)) := by
  refine ⟨fun place items found => listLaws found, fun place entries found => dictLaws found,
    fun content => ⟨textLaws heap content, ?_⟩, fun container index value noList noDict => ?_,
    fun unit registry m at_ same => ?_⟩
  · rcases @find?_textLength content with ⟨native, found, gives⟩
    exact ⟨native, _, found, gives, isInteger_length⟩
  · have refused : Fails .typeMismatch (setItem heap container index value) := by
      cases container with
      | list place => exact absurd rfl (noList place)
      | dict place => exact absurd rfl (noDict place)
      | _ => exact ⟨_, rfl⟩
    exact ⟨refused, written_of_fails refused⟩
  · subst same
    exact ⟨heap_execute_getItem, heap_execute_setItem⟩

/-- A heap with a list of two texts and a dictionary with one key. -/
def listAndDict : Heap :=
  ⟨#[.list #[.text "a", .text "b"], .dict (Dict.ofList [("k", .text "v")])]⟩

/-- The last item of a list is written through its index and read through its other one. -/
theorem item_laws_listAndDict :
    listAndDict.cells[0]? = some (.list #[.text "a", .text "b"]) ∧
    IsIndex (.number (Number.ofInt 1)) 1 ∧ IsIndex (.number (Number.ofInt (-1))) (-1) ∧
    getItem (written listAndDict (.list 0) (.number (Number.ofInt 1)) (.bool true)) (.list 0)
      (.number (Number.ofInt (-1))) = .ok (.bool true) ∧
    listAndDict.cells[1]? = some (.dict (Dict.ofList [("k", .text "v")])) ∧
    getItem (written listAndDict (.dict 1) (.text "l") (.bool true)) (.dict 1) (.text "k") =
      getItem listAndDict (.dict 1) (.text "k") := by
  have last : IsIndex (.number (Number.ofInt 1)) 1 :=
    ⟨⟨_, rfl, Number.isInteger_ofInt (by decide)⟩, by decide⟩
  have fromEnd : IsIndex (.number (Number.ofInt (-1))) (-1) :=
    ⟨⟨_, rfl, Number.isInteger_ofInt (by decide)⟩, by decide⟩
  rcases item_laws listAndDict with ⟨lists, dicts, -⟩
  have list := (lists 0 _ rfl).writes _ (.bool true) 1 last ⟨by decide, by decide⟩
  have dict := (dicts 1 _ rfl).writes "l" (.bool true)
  refine ⟨rfl, last, fromEnd, ?_, rfl, ?_⟩
  · rw [list.2.2.2 _ (-1) fromEnd ⟨by decide, by decide⟩, if_pos (.inr (.inl rfl))]
    rfl
  · rw [dict.2.2.2, if_neg (by decide)]

end Lehce.Machine

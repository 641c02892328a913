import Lehce.Value.Heap

/-!
# The stack of operands

A stack is a row of cells of which the lowest `height` hold operands. The other cells
are kept unused: an operand that is taken off leaves an unused cell behind. When there
is no cell left, the row is doubled.

`Stack.values` lists the operands, the topmost one first. It is all that a machine can
tell of its stack, and each operation has one law that says what it does to the list.
-/

namespace Lehce

/-- A row of cells of which the lowest hold operands. -/
structure Stack where
  cells : Array Value
  height : Nat
  bounded : height ≤ cells.size

namespace Stack

/-- What a cell holds that no operand uses. -/
def unused : Value := .number 0

/-- An empty stack with a number of cells. -/
def ofSize (size : Nat) : Stack := ⟨Array.replicate size unused, 0, Nat.zero_le _⟩

instance : Inhabited Stack := ⟨ofSize 0⟩

/-- The operands, the topmost one first. -/
def values (stack : Stack) : List Value := (stack.cells.toList.take stack.height).reverse

/-- The operands, the topmost one last. -/
def live (stack : Stack) : Array Value := stack.cells.extract 0 stack.height

/-- How many cells are added when there are none left. -/
def extension (size : Nat) : Nat := if size = 0 then 8 else size

/-- The stack with a cell for one operand more. -/
def withRoom : Stack → Stack
  | ⟨cells, height, bounded⟩ =>
    if height < cells.size then ⟨cells, height, bounded⟩
    else ⟨cells ++ Array.replicate (extension cells.size) unused, height,
      by rw [Array.size_append]; omega⟩

theorem height_lt_withRoom (stack : Stack) : stack.withRoom.height < stack.withRoom.cells.size := by
  rcases stack with ⟨cells, height, bounded⟩
  simp only [withRoom]
  split
  · assumption
  · simp only [Array.size_append, Array.size_replicate, extension]
    split <;> omega

/-- Pushes an operand. -/
def push (stack : Stack) (value : Value) : Stack :=
  match stack.withRoom, stack.height_lt_withRoom with
  | ⟨cells, height, _⟩, room =>
    ⟨cells.setIfInBounds height value, height + 1, by rw [Array.size_setIfInBounds]; exact room⟩

/-- Leaves some cells unused, those from `first` on. -/
def clearCells (first : Nat) : Nat → Array Value → Array Value
  | 0, cells => cells
  | count + 1, cells => clearCells first count (cells.setIfInBounds (first + count) unused)

theorem size_clearCells (first count : Nat) (cells : Array Value) :
    (clearCells first count cells).size = cells.size := by
  induction count generalizing cells with
  | zero => rfl
  | succ count ih => rw [clearCells, ih, Array.size_setIfInBounds]

/-- Takes off all operands but the `height` lowest ones. -/
def truncate (stack : Stack) (height : Nat) : Stack :=
  match stack with
  | ⟨cells, before, bounded⟩ =>
    ⟨clearCells height (before - height) cells, min height before, by
      rw [size_clearCells]
      omega⟩

/-- Drops the `count` topmost operands. -/
def drop (stack : Stack) (count : Nat) : Stack := stack.truncate (stack.height - count)

/-- The operand `depth` places below the topmost one. -/
def peek (stack : Stack) (depth : Nat) : Value :=
  if depth < stack.height then stack.cells[stack.height - 1 - depth]?.getD .empty else .empty

/-- The `count` topmost operands, the topmost one last. -/
def top (stack : Stack) (count : Nat) : Array Value :=
  stack.cells.extract (stack.height - count) stack.height

/-- All cells without an operand are unused. -/
def Clean (stack : Stack) : Prop :=
  ∀ place, stack.height ≤ place → place < stack.cells.size → stack.cells[place]? = some unused

variable (stack : Stack)

theorem getElem?_clearCells (first count place : Nat) (cells : Array Value) :
    (clearCells first count cells)[place]? =
      if first ≤ place ∧ place < first + count ∧ place < cells.size then some unused
      else cells[place]? := by
  induction count generalizing cells with
  | zero => simp [clearCells]; omega
  | succ count ih =>
      rw [clearCells, ih, Array.size_setIfInBounds, Array.getElem?_setIfInBounds]
      by_cases last : first + count = place
      · subst last
        by_cases inside : first + count < cells.size <;> simp [inside]
      · by_cases within : first ≤ place ∧ place < first + count ∧ place < cells.size
        · rw [if_pos within, if_pos (by omega)]
        · rw [if_neg within, if_neg last, if_neg (by omega)]

@[simp]
theorem length_values : stack.values.length = stack.height := by
  simp [values, stack.bounded]

theorem height_withRoom : stack.withRoom.height = stack.height := by
  rcases stack with ⟨cells, height, bounded⟩
  simp only [withRoom]
  split <;> rfl

theorem values_withRoom : stack.withRoom.values = stack.values := by
  rcases stack with ⟨cells, height, bounded⟩
  simp only [withRoom]
  split
  · rfl
  · simp only [values, Array.toList_append]
    rw [List.take_append_of_le_length (by rw [Array.length_toList]; exact bounded)]

theorem height_push (value : Value) : (stack.push value).height = stack.height + 1 := by
  rw [← stack.height_withRoom]
  rfl

@[simp]
theorem values_push (value : Value) : (stack.push value).values = value :: stack.values := by
  rw [← stack.values_withRoom]
  have room := stack.height_lt_withRoom
  have pushed : stack.push value = ⟨stack.withRoom.cells.setIfInBounds stack.withRoom.height value,
    stack.withRoom.height + 1, by rw [Array.size_setIfInBounds]; exact room⟩ := rfl
  rw [pushed]
  simp only [values, Array.toList_setIfInBounds]
  rw [List.take_add_one, List.take_set_of_le (Nat.le_refl _), List.getElem?_set_self (by simpa)]
  simp

@[simp]
theorem values_truncate (height : Nat) :
    (stack.truncate height).values = stack.values.drop (stack.height - height) := by
  rcases stack with ⟨cells, before, bounded⟩
  have lower : (clearCells height (before - height) cells).toList.take (min height before) =
      cells.toList.take (min height before) := by
    apply List.ext_getElem?
    intro place
    by_cases low : place < min height before
    · rw [List.getElem?_take_of_lt low, List.getElem?_take_of_lt low, Array.getElem?_toList,
        Array.getElem?_toList, getElem?_clearCells, if_neg (by omega)]
    · rw [List.getElem?_take_eq_none (by omega), List.getElem?_take_eq_none (by omega)]
  simp only [values, truncate, lower, List.drop_reverse, List.length_take, Array.length_toList,
    List.take_take]
  congr 2
  omega

@[simp]
theorem values_drop (count : Nat) : (stack.drop count).values = stack.values.drop count := by
  rw [drop, values_truncate]
  by_cases few : count ≤ stack.height
  · rw [Nat.sub_sub_self few]
  · rw [List.drop_of_length_le (by rw [length_values]; omega),
      List.drop_of_length_le (by rw [length_values]; omega)]

theorem height_drop (count : Nat) : (stack.drop count).height = stack.height - count := by
  rw [← length_values, values_drop, List.length_drop, length_values]

theorem peek_eq (depth : Nat) : stack.peek depth = stack.values[depth]?.getD .empty := by
  have bounded := stack.bounded
  unfold peek
  split
  · rename_i inside
    rw [values, List.getElem?_reverse (by simpa [bounded] using inside), List.length_take,
      Array.length_toList, Nat.min_eq_left bounded, List.getElem?_take_of_lt (by omega),
      Array.getElem?_toList]
  · rename_i outside
    rw [List.getElem?_eq_none (by rw [length_values]; omega)]
    rfl

theorem toList_top (count : Nat) :
    (stack.top count).toList = (stack.values.take count).reverse := by
  have bounded := stack.bounded
  simp only [top, values, Array.toList_extract, List.take_reverse, List.reverse_reverse,
    List.length_take, Array.length_toList, List.extract_eq_take_drop]
  rw [List.drop_take, Nat.min_eq_left bounded]

theorem toList_live : stack.live.toList = stack.values.reverse := by
  simp [live, values]

theorem values_ofSize (size : Nat) : (ofSize size).values = [] := rfl

theorem clean_ofSize (size : Nat) : (ofSize size).Clean := by
  intro place _ inside
  simp only [ofSize, Array.size_replicate] at inside
  simp [ofSize, inside]

variable {stack : Stack}

theorem Clean.withRoom (clean : stack.Clean) : stack.withRoom.Clean := by
  rcases stack with ⟨cells, height, bounded⟩
  simp only [Stack.withRoom]
  split
  · exact clean
  · intro place above inside
    simp only [Array.size_append, Array.size_replicate] at inside
    simp only at above
    rw [Array.getElem?_append_right (by omega), Array.getElem?_replicate, if_pos (by omega)]

theorem Clean.push (clean : stack.Clean) (value : Value) : (stack.push value).Clean := by
  intro place above inside
  rw [height_push, ← stack.height_withRoom] at above
  have size : (stack.push value).cells.size = stack.withRoom.cells.size :=
    Array.size_setIfInBounds
  rw [size] at inside
  have different : stack.withRoom.height ≠ place := by omega
  have kept : (stack.push value).cells[place]? = stack.withRoom.cells[place]? :=
    Array.getElem?_setIfInBounds_ne different
  rw [kept]
  exact clean.withRoom place (by omega) inside

theorem Clean.truncate (clean : stack.Clean) (height : Nat) : (stack.truncate height).Clean := by
  rcases stack with ⟨cells, before, bounded⟩
  intro place above inside
  simp only [Stack.truncate, size_clearCells] at above inside
  rw [Stack.truncate, getElem?_clearCells]
  split
  · rfl
  · exact clean place (by simp only; omega) inside

theorem Clean.drop (clean : stack.Clean) (count : Nat) : (stack.drop count).Clean :=
  clean.truncate _

end Stack

end Lehce

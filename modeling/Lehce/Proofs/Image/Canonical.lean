import Lehce.Image.Cbor
import Lehce.Proofs.Number.Exact

/-!
# Canonical bytes are read back

Heads, floating-point numbers and then whole items are read back from their canonical bytes,
whatever stands behind them. A number is written in the narrowest format that has it, and
every number of a narrow format is one of the 64-bit format, so none is lost. Items have to
keep to the bounds of the reader: on the length of strings, on the number of items and
entries, and on the nesting.
-/

namespace Lehce.Cbor

open Number (Format Scaled)

section Words

theorem length_bigEndian (width n : Nat) : (bigEndian width n).length = width := by
  induction width with
  | zero => rfl
  | succ width ih => rw [bigEndian, List.length_cons, ih]

theorem foldl_bigEndian (width n start : Nat) :
    (bigEndian width n).foldl (fun n byte => n * 256 + byte.toNat) start =
      start * 256 ^ width + n % 256 ^ width := by
  induction width generalizing start with
  | zero => simp [bigEndian, Nat.mod_one]
  | succ width ih =>
      rw [bigEndian, List.foldl_cons, ih, Nat.pow_succ, Nat.mod_mul]
      simp only [Nat.toUInt8, UInt8.toNat_ofNat', Nat.pow_eq]
      rw [Nat.mod_mod]
      ring

theorem ofBigEndian_bigEndian {width n : Nat} (fits : n < 256 ^ width) :
    ofBigEndian (bigEndian width n) = n := by
  rw [ofBigEndian, foldl_bigEndian, Nat.zero_mul, Nat.zero_add, Nat.mod_eq_of_lt fits]

end Words

section Heads

variable {major argument : Nat}

theorem toNat_first {info : Nat} (known : major < 8) (short : info < 32) :
    (major * 32 + info).toUInt8.toNat = major * 32 + info := by
  simp only [Nat.toUInt8, UInt8.toNat_ofNat']
  omega

/-- A head whose argument stands behind its first byte. -/
theorem readHead_wide {info width : Nat} (known : major < 8)
    (listed : (info, width) ∈ [(24, 1), (25, 2), (26, 4), (27, 8)])
    (proper : info = 24 → ¬(major = 7 ∧ argument < 32)) (fits : argument < 256 ^ width)
    (rest : List UInt8) :
    readHead ((major * 32 + info).toUInt8 :: bigEndian width argument ++ rest) =
      .ok ⟨major, info, argument, rest⟩ := by
  have long : ¬(bigEndian width argument ++ rest).length < width := by
    simp [length_bigEndian]
  have argumentBytes : (bigEndian width argument ++ rest).take width =
      bigEndian width argument := List.take_left' (length_bigEndian width argument)
  have restBytes : (bigEndian width argument ++ rest).drop width = rest :=
    List.drop_left' (length_bigEndian width argument)
  simp only [List.mem_cons, Prod.mk.injEq, List.not_mem_nil, or_false] at listed
  have short : 24 ≤ info ∧ info < 32 := by omega
  have first := toNat_first known short.2
  have whole : (major * 32 + info) / 32 = major := by omega
  have part : (major * 32 + info) % 32 = info := by omega
  simp only [readHead, List.cons_append, first, whole, part, if_neg (not_lt.2 short.1)]
  rcases listed with ⟨rfl, rfl⟩ | ⟨rfl, rfl⟩ | ⟨rfl, rfl⟩ | ⟨rfl, rfl⟩ <;>
    simp only [long, if_false, argumentBytes, restBytes, ofBigEndian_bigEndian fits]
  rw [if_neg (proper rfl)]

/-- A head whose argument stands in its first byte. -/
theorem readHead_short (known : major < 8) (short : argument < 24) (rest : List UInt8) :
    readHead (head major argument ++ rest) = .ok ⟨major, argument, argument, rest⟩ := by
  have first := toNat_first known (by omega : argument < 32)
  have whole : (major * 32 + argument) / 32 = major := by omega
  have part : (major * 32 + argument) % 32 = argument := by omega
  simp only [head, readHead, List.singleton_append, first, whole, part, short, if_true]

/-- A head is read back from its bytes. -/
theorem readHead_head (major : Nat) (known : major < 7) (fits : argument < 2 ^ 64) (rest : List UInt8) :
    ∃ info, info ≠ 31 ∧
      readHead (head major argument ++ rest) = .ok ⟨major, info, argument, rest⟩ := by
  have known' : major < 8 := by omega
  have proper : ∀ info, info = 24 → ¬(major = 7 ∧ argument < 32) := by omega
  by_cases short : argument < 24
  · exact ⟨argument, by omega, readHead_short known' short rest⟩
  · unfold head
    simp only [Nat.pow_eq, short, if_false]
    split
    · exact ⟨24, by decide, readHead_wide known' (by simp) (proper _) (by omega) rest⟩
    · split
      · exact ⟨25, by decide, readHead_wide known' (by simp) (proper _) (by omega) rest⟩
      · split
        · exact ⟨26, by decide, readHead_wide known' (by simp) (proper _) (by omega) rest⟩
        · exact ⟨27, by decide, readHead_wide known' (by simp) (proper _) (by omega) rest⟩

theorem length_head_pos (major argument : Nat) : 0 < (head major argument).length := by
  unfold head
  simp only
  repeat (split; · simp)
  simp

end Heads

section Floats

variable {format : Format} {fractionBits exponentBits : Nat} {x : Float} {negative : Bool}
  {magnitude : Scaled}

/-- The sign, the exponent and the fraction are found in the bits that they are put into. -/
theorem wideFloat_eq {field fraction : Nat} (fieldFits : field + 1 < 2 ^ exponentBits)
    (fractionFits : fraction < 2 ^ fractionBits) :
    wideFloat format fractionBits exponentBits
        ((if negative then Nat.pow 2 (fractionBits + exponentBits) else 0) +
          (field * Nat.pow 2 fractionBits + fraction)) =
      let magnitude : Scaled :=
        if field = 0 then ⟨fraction, format.least⟩
        else ⟨Nat.pow 2 fractionBits + fraction, format.least + (field : Int) - 1⟩
      Number.ofQuotient negative magnitude.quotient.1 magnitude.quotient.2 := by
  have joined : (if negative then Nat.pow 2 (fractionBits + exponentBits) else 0) +
      (field * Nat.pow 2 fractionBits + fraction) =
        2 ^ fractionBits * (2 ^ exponentBits * (if negative then 1 else 0) + field) + fraction := by
    simp only [Nat.pow_eq, Nat.pow_add]
    split <;> ring
  have fieldLt : field < 2 ^ exponentBits := by omega
  have fractionEq : (2 ^ fractionBits *
      (2 ^ exponentBits * (if negative then 1 else 0) + field) + fraction) % 2 ^ fractionBits =
        fraction := by
    rw [Nat.mul_add_mod, Nat.mod_eq_of_lt fractionFits]
  have upper : (2 ^ fractionBits *
      (2 ^ exponentBits * (if negative then 1 else 0) + field) + fraction) / 2 ^ fractionBits =
        2 ^ exponentBits * (if negative then 1 else 0) + field := by
    rw [Nat.mul_add_div (Nat.two_pow_pos _), Nat.div_eq_of_lt fractionFits, Nat.add_zero]
  have signEq : (2 ^ exponentBits * (if negative then 1 else 0) + field) / 2 ^ exponentBits % 2 =
      if negative then 1 else 0 := by
    rw [Nat.mul_add_div (Nat.two_pow_pos _), Nat.div_eq_of_lt fieldLt]
    split <;> rfl
  have fieldEq : (2 ^ exponentBits * (if negative then 1 else 0) + field) % 2 ^ exponentBits =
      field := by
    rw [Nat.mul_add_mod, Nat.mod_eq_of_lt fieldLt]
  have proper : field ≠ 2 ^ exponentBits - 1 := by omega
  rw [joined, wideFloat]
  simp only [Nat.pow_eq, Nat.pow_add, ← Nat.div_div_eq_div_mul, fractionEq, upper, signEq, fieldEq,
    proper, if_false]
  cases negative <;> rfl

/-- The bits of a number in a narrow format are its exponent and its fraction. -/
theorem narrowBits_eq {bits : Nat} (precision : format.precision = fractionBits + 1)
    (ordered : format.least ≤ format.greatest)
    (range : format.greatest - format.least + 3 ≤ (2 ^ exponentBits : Nat))
    (narrow : narrowBits? format fractionBits magnitude = some bits) :
    ∃ field fraction, bits = field * Nat.pow 2 fractionBits + fraction ∧
      field + 1 < 2 ^ exponentBits ∧ fraction < 2 ^ fractionBits ∧
      Scaled.value (if field = 0 then ⟨fraction, format.least⟩
        else ⟨Nat.pow 2 fractionBits + fraction, format.least + (field : Int) - 1⟩) =
          magnitude.value := by
  unfold narrowBits? at narrow
  simp only [Nat.pow_eq] at narrow
  split at narrow
  · cases narrow
  · rename_i rounded found
    have holds := Number.nearest_holds (by omega) (Number.quotient_positive magnitude) found
    have precise := holds.precise
    have least := holds.least
    rw [precision, Nat.pow_succ] at precise
    split at narrow
    · rename_i equal
      have value : rounded.value = magnitude.value := by
        have denPositive := Number.quotient_positive rounded
        have denPositive' := Number.quotient_positive magnitude
        rw [← Number.value_quotient, ← Number.value_quotient,
          div_eq_div_iff (by exact_mod_cast denPositive.ne') (by exact_mod_cast denPositive'.ne')]
        exact_mod_cast equal.symm
      split at narrow
      · rename_i small
        cases narrow
        have lowest : rounded = ⟨rounded.significand, format.least⟩ := by
          rw [← holds.normal (by rwa [precision])]
        refine ⟨0, rounded.significand, by simp, by omega, small, ?_⟩
        rw [if_pos rfl, ← lowest, value]
      · rename_i large
        cases narrow
        have fits : rounded.exponent ≤ format.greatest := by
          rcases holds.greatest with zero | fits
          · rw [zero] at large
            exact absurd (Nat.two_pow_pos _) large
          · exact fits
        refine ⟨(rounded.exponent - format.least + 1).toNat,
          rounded.significand - 2 ^ fractionBits, rfl, by omega, by omega, ?_⟩
        rw [if_neg (by omega), ← value]
        congr 2
        · simp only [Nat.pow_eq]
          omega
        · omega
    · cases narrow

/-- A number that a narrow format has is read back from its bits in that format. -/
theorem wideFloat_narrowBits (exponentBits : Nat) {bits : Nat}
    (finite : Number.parts x = .finite negative magnitude)
    (precision : format.precision = fractionBits + 1) (ordered : format.least ≤ format.greatest)
    (range : format.greatest - format.least + 3 ≤ (2 ^ exponentBits : Nat))
    (narrow : narrowBits? format fractionBits magnitude = some bits) :
    bits < 2 ^ (fractionBits + exponentBits) ∧
      wideFloat format fractionBits exponentBits
        ((if negative then Nat.pow 2 (fractionBits + exponentBits) else 0) + bits) = x := by
  rcases narrowBits_eq precision ordered range narrow with
    ⟨field, fraction, rfl, fieldFits, fractionFits, value⟩
  constructor
  · rw [Nat.pow_add, Nat.pow_eq, Nat.mul_comm]
    calc 2 ^ fractionBits * field + fraction
        < 2 ^ fractionBits * (field + 1) := by rw [Nat.mul_succ]; omega
      _ ≤ 2 ^ fractionBits * 2 ^ exponentBits := Nat.mul_le_mul_left _ (by omega)
  · rw [wideFloat_eq fieldFits fractionFits]
    apply Number.ofQuotient_parts finite (Number.quotient_positive _)
    rw [Number.value_quotient, value]

/-- A number is read back from its canonical bytes. -/
theorem readHead_floatBytes (x : Float) (rest : List UInt8) :
    ∃ h, readHead (floatBytes x ++ rest) = .ok h ∧ h.major = 7 ∧ h.rest = rest ∧
      simpleOrFloat h = .float x := by
  have wide : ∀ (info width : Nat) {argument : Nat},
      (info, width) ∈ [(24, 1), (25, 2), (26, 4), (27, 8)] → info ≠ 24 → argument < 256 ^ width →
      simpleOrFloat ⟨7, info, argument, rest⟩ = .float x →
      ∃ h, readHead ((7 * 32 + info).toUInt8 :: bigEndian width argument ++ rest) = .ok h ∧
        h.major = 7 ∧ h.rest = rest ∧ simpleOrFloat h = .float x :=
    fun _ _ _ listed proper fits same => ⟨_, readHead_wide (by decide) listed
      (fun simple => absurd simple proper) fits rest, rfl, rfl, same⟩
  unfold floatBytes
  split
  · rename_i none
    refine wide 25 2 (by simp) (by decide) (by decide) (congrArg Item.float ?_)
    rw [← Number.nan_parts none]
    simp [wideFloat]
  · rename_i negative infinite
    refine wide 25 2 (by simp) (by decide) (by split <;> decide) (congrArg Item.float ?_)
    rw [← Number.infinity_parts infinite]
    cases negative <;> simp [wideFloat]
  · rename_i negative magnitude finite
    simp only
    split
    · rename_i bits narrow
      rcases wideFloat_narrowBits 5 finite rfl (by decide) (by decide) narrow with ⟨fits, same⟩
      refine wide 25 2 (by simp) (by decide) ?_ (congrArg Item.float same)
      rw [Nat.pow_eq]
      split <;> omega
    · split
      · rename_i bits narrow
        rcases wideFloat_narrowBits 8 finite rfl (by decide) (by decide) narrow with ⟨fits, same⟩
        refine wide 26 4 (by simp) (by decide) ?_ (congrArg Item.float same)
        rw [Nat.pow_eq]
        split <;> omega
      · exact wide 27 8 (by simp) (by decide) x.toBits.toNat_lt
          (congrArg Item.float (Number.ofBits_toNat rfl))

theorem length_floatBytes_pos (x : Float) : 0 < (floatBytes x).length := by
  unfold floatBytes
  split
  · simp
  · simp
  · simp only
    split
    · simp
    · split <;> simp

end Floats

section Items

/--
An item within the bounds of the reader, and without tags and strings in several chunks; the
number bounds how deep arrays and maps stand in each other.
-/
inductive Item.Fits : Nat → Item → Prop where
  | unsigned {depth value : Nat} (small : value < 2 ^ 64) : Fits depth (.unsigned value)
  | negative {depth value : Nat} (small : value < 2 ^ 64) : Fits depth (.negative value)
  | bytes {depth : Nat} {chunk : List UInt8} (short : chunk.length < 2 ^ 63) :
      Fits depth (.bytes [chunk])
  | text {depth : Nat} {chunk : List UInt8} (short : chunk.length < 2 ^ 63) :
      Fits depth (.text [chunk])
  | array {depth : Nat} {items : List Item} (few : items.length ≤ maxCount)
      (inner : ∀ item ∈ items, Fits depth item) : Fits (depth + 1) (.array items)
  | map {depth : Nat} {entries : List (Item × Item)} (few : entries.length ≤ maxCount)
      (keys : ∀ entry ∈ entries, Fits depth entry.1)
      (values : ∀ entry ∈ entries, Fits depth entry.2) : Fits (depth + 1) (.map entries)
  | simple {depth value : Nat} (short : value < 24) : Fits depth (.simple value)
  | float {depth : Nat} (value : Float) : Fits depth (.float value)

theorem Item.length_encode_pos (item : Item) : 0 < item.encode.length := by
  cases item with
  | float value => exact length_floatBytes_pos value
  | unsigned | negative | simple => exact length_head_pos _ _
  | bytes | text | array | map | tag =>
      simp only [Item.encode, List.length_append]
      exact Nat.add_pos_left (length_head_pos _ _) _

/-- The keys and values of some entries in their order. -/
def unpair (entries : List (Item × Item)) : List Item :=
  entries.flatMap fun entry => [entry.1, entry.2]

theorem pairUp_unpair (entries : List (Item × Item)) : pairUp (unpair entries) = entries := by
  induction entries with
  | nil => rfl
  | cons entry rest ih => simpa [unpair, pairUp] using ih

theorem length_unpair (entries : List (Item × Item)) :
    (unpair entries).length = 2 * entries.length := by
  simp [unpair, Nat.mul_comm]

theorem encodeEntries_eq (entries : List (Item × Item)) :
    encodeEntries entries = encodeItems (unpair entries) := by
  induction entries with
  | nil => rfl
  | cons entry rest ih =>
      rcases entry with ⟨key, value⟩
      simp only [encodeEntries, unpair, List.flatMap_cons, List.cons_append, List.nil_append,
        encodeItems, List.append_assoc] at ih ⊢
      rw [ih]

/-- The reader gives an item back, given twice as many steps as the item has bytes. -/
def IsRead (nesting : Nat) (item : Item) : Prop :=
  ∀ steps rest, 2 * item.encode.length ≤ steps →
    readItem steps nesting (item.encode ++ rest) = .ok (item, rest)

/-- Items that are read back one by one are read back one after the other. -/
theorem readItems_encode {nesting : Nat} {items : List Item}
    (each : ∀ item ∈ items, IsRead nesting item) (done : List Item) (rest : List UInt8)
    {steps : Nat} (enough : 2 * (encodeItems items).length < steps) :
    readItems steps nesting items.length done (encodeItems items ++ rest) =
      .ok (done.reverse ++ items, rest) := by
  induction items generalizing done steps with
  | nil =>
      rcases Nat.exists_eq_succ_of_ne_zero (Nat.ne_of_gt (Nat.zero_lt_of_lt enough)) with
        ⟨steps, rfl⟩
      simp [readItems, encodeItems]
  | cons item items ih =>
      rcases List.forall_mem_cons.1 each with ⟨first, others⟩
      rcases Nat.exists_eq_succ_of_ne_zero (Nat.ne_of_gt (Nat.zero_lt_of_lt enough)) with
        ⟨steps, rfl⟩
      have positive := item.length_encode_pos
      simp only [encodeItems, List.length_append] at enough
      simp only [readItems, encodeItems, List.length_cons, List.append_assoc]
      rw [first steps _ (by omega)]
      simp only
      rw [ih others _ (by omega), List.reverse_cons, List.append_assoc, List.singleton_append]

theorem isRead_of_step {nesting : Nat} {item : Item}
    (read : ∀ steps rest, 2 * item.encode.length ≤ steps + 1 →
      readItem (steps + 1) nesting (item.encode ++ rest) = .ok (item, rest)) :
    IsRead nesting item := by
  intro steps rest enough
  have positive := item.length_encode_pos
  cases steps with
  | zero => omega
  | succ steps => exact read steps rest enough

theorem takeBytes_append {major info : Nat} {chunk : List UInt8} (short : chunk.length < 2 ^ 63)
    (rest : List UInt8) :
    takeBytes ⟨major, info, chunk.length, chunk ++ rest⟩ = .ok (chunk, rest) := by
  simp only [takeBytes, Nat.pow_eq, if_neg (not_le.2 short)]
  simp

theorem countProblem_eq_none {major count : Nat} (few : count ≤ maxCount) :
    countProblem major count = none := by
  have short : ¬Nat.pow 2 63 ≤ count := by
    unfold maxCount at few
    rw [Nat.pow_eq]
    omega
  rw [countProblem, if_neg short, if_neg (not_lt.2 few)]

/-- An item within the bounds is read back from its bytes. -/
theorem isRead_of_fits {depth : Nat} {item : Item} (fits : item.Fits depth) {nesting : Nat}
    (shallow : nesting + depth ≤ maxNesting) : IsRead nesting item := by
  induction fits generalizing nesting with
  | unsigned small =>
      refine isRead_of_step fun steps rest enough => ?_
      rcases readHead_head 0 (by decide) small rest with ⟨info, _, headEq⟩
      simp only [Item.encode, readItem, headEq, bind, Except.bind, pure, Except.pure]
  | negative small =>
      refine isRead_of_step fun steps rest enough => ?_
      rcases readHead_head 1 (by decide) small rest with ⟨info, _, headEq⟩
      simp only [Item.encode, readItem, headEq, bind, Except.bind, pure, Except.pure]
  | @bytes _ chunk short =>
      refine isRead_of_step fun steps rest enough => ?_
      rcases readHead_head 2 (by decide) (by omega : chunk.length < 2 ^ 64) (chunk ++ rest) with
        ⟨info, definite, headEq⟩
      simp only [Item.encode, List.flatten_singleton, List.append_assoc, readItem, headEq, bind,
        Except.bind, if_neg definite, takeBytes_append short, pure, Except.pure]
  | @text _ chunk short =>
      refine isRead_of_step fun steps rest enough => ?_
      rcases readHead_head 3 (by decide) (by omega : chunk.length < 2 ^ 64) (chunk ++ rest) with
        ⟨info, definite, headEq⟩
      simp only [Item.encode, List.flatten_singleton, List.append_assoc, readItem, headEq, bind,
        Except.bind, if_neg definite, takeBytes_append short, pure, Except.pure]
  | @array _ items few inner read =>
      refine isRead_of_step fun steps rest enough => ?_
      have positive := length_head_pos 4 items.length
      simp only [Item.encode, List.length_append] at enough
      have small : items.length < 2 ^ 64 := by
        unfold maxCount at few
        omega
      rcases readHead_head 4 (by decide) small (encodeItems items ++ rest) with
        ⟨info, definite, headEq⟩
      have itemsRead := readItems_encode
        (fun item member => read item member (by omega : nesting + 1 + _ ≤ _)) [] rest
        (by omega : 2 * (encodeItems items).length < steps)
      simp only [Item.encode, List.append_assoc, readItem, headEq, bind, Except.bind,
        if_neg definite, if_neg (by omega : ¬maxNesting < nesting + 1), countProblem_eq_none few,
        itemsRead, pure, Except.pure, List.reverse_nil, List.nil_append]
  | @map _ entries few keys values keysRead valuesRead =>
      refine isRead_of_step fun steps rest enough => ?_
      have positive := length_head_pos 5 entries.length
      simp only [Item.encode, List.length_append, encodeEntries_eq] at enough
      have small : entries.length < 2 ^ 64 := by
        unfold maxCount at few
        omega
      rcases readHead_head 5 (by decide) small (encodeItems (unpair entries) ++ rest) with
        ⟨info, definite, headEq⟩
      have each : ∀ item ∈ unpair entries, IsRead (nesting + 1) item := by
        intro item member
        rcases List.mem_flatMap.1 member with ⟨entry, entryMember, itemMember⟩
        simp only [List.mem_cons, List.not_mem_nil, or_false] at itemMember
        rcases itemMember with rfl | rfl
        · exact keysRead entry entryMember (by omega)
        · exact valuesRead entry entryMember (by omega)
      have itemsRead := readItems_encode each [] rest
        (by omega : 2 * (encodeItems (unpair entries)).length < steps)
      rw [length_unpair] at itemsRead
      simp only [Item.encode, encodeEntries_eq, List.append_assoc, readItem, headEq, bind,
        Except.bind, if_neg definite, if_neg (by omega : ¬maxNesting < nesting + 1),
        countProblem_eq_none few, itemsRead, pure, Except.pure, List.reverse_nil, List.nil_append,
        pairUp_unpair]
  | @simple _ value short =>
      refine isRead_of_step fun steps rest enough => ?_
      have plain : simpleOrFloat ⟨7, value, value, rest⟩ = .simple value := by
        unfold simpleOrFloat
        split <;> simp_all
      simp only [Item.encode, readItem, readHead_short (by decide : 7 < 8) short, bind,
        Except.bind, plain, pure, Except.pure]
  | float value =>
      refine isRead_of_step fun steps rest enough => ?_
      rcases readHead_floatBytes value rest with
        ⟨⟨major, info, argument, rest⟩, headEq, rfl, rfl, same⟩
      simp only [Item.encode, readItem, headEq, bind, Except.bind, same, pure, Except.pure]

/-- The bytes of an item within the bounds are that item and nothing else. -/
theorem read_encode {item : Item} (fits : item.Fits maxNesting) : read item.encode = .ok item := by
  have positive := item.length_encode_pos
  have nonempty : item.encode.isEmpty = false := by
    cases bytes : item.encode with
    | nil => simp [bytes] at positive
    | cons => rfl
  have found := isRead_of_fits fits (Nat.zero_add maxNesting).le
    (2 * item.encode.length + 2) [] (by omega)
  rw [List.append_nil] at found
  simp only [read, nonempty, Bool.false_eq_true, if_false, found]

end Items

end Lehce.Cbor

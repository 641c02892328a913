import Mathlib.Data.List.Basic
import Mathlib.Data.Nat.Find
import Mathlib.Data.Set.Card
import Lehce.Value.Datum
import Lehce.Value.Dict

/-!
# Insertion order

What a dictionary holds is told by what was done to it. Operations are setting, reading and
erasing a key, and a history is a list of them, the first one first. A key is in the
dictionary when it was set and not erased since, with the value that it was set to last. The
keys stand in the order in which each of them was first set after it was last erased.

The row of keys and the values stay in step through every history. In step, they are a list of
entries, and what is done to them is done to that list: its entries are replaced in place,
added at the end and taken out.
-/

namespace Lehce

variable {α : Type} {key other : String} {value : α}

theorem putEntry_of_not_mem {entries : List (String × α)} (absent : key ∉ entries.map (·.1)) :
    putEntry key value entries = entries ++ [(key, value)] := by
  induction entries with
  | nil => rfl
  | cons entry rest ih =>
      simp only [List.map_cons, List.mem_cons, not_or] at absent
      rw [putEntry, if_neg (Ne.symm absent.1), ih absent.2, List.cons_append]

namespace RawDict

section Listed

variable {read write : String → Option α} {keys : List String}

theorem listed_cons (found : read key = some value) (keys : List String) :
    listed read (key :: keys) = (key, value) :: listed read keys := by
  simp [listed, found]

theorem listed_congr (same : ∀ key ∈ keys, write key = read key) :
    listed write keys = listed read keys :=
  List.filterMap_congr fun key member => by rw [same key member]

theorem keys_listed (every : ∀ key ∈ keys, (read key).isSome) :
    (listed read keys).map (·.1) = keys := by
  induction keys with
  | nil => rfl
  | cons key rest ih =>
      obtain ⟨value, found⟩ := Option.isSome_iff_exists.1 (every key List.mem_cons_self)
      rw [listed_cons found, List.map_cons, ih fun other member =>
        every other (List.mem_cons_of_mem key member)]

/-- To read another value of a key is to put it among the entries. -/
theorem listed_put (distinct : keys.Nodup) (every : ∀ key ∈ keys, (read key).isSome)
    (member : key ∈ keys) (put : write key = some value)
    (same : ∀ other, key ≠ other → write other = read other) :
    listed write keys = putEntry key value (listed read keys) := by
  induction keys with
  | nil => cases member
  | cons first rest ih =>
      obtain ⟨old, found⟩ := Option.isSome_iff_exists.1 (every first List.mem_cons_self)
      obtain ⟨notLater, restDistinct⟩ := List.nodup_cons.1 distinct
      rw [listed_cons found, putEntry]
      split
      · rename_i first_eq
        simp only at first_eq
        subst first_eq
        rw [listed_cons put, listed_congr fun other later => same other fun equal =>
          notLater (equal ▸ later)]
      · rename_i different
        have later := (List.mem_cons.1 member).resolve_left (Ne.symm different)
        rw [listed_cons ((same first (Ne.symm different)).trans found),
          ih restDistinct (fun other inRest => every other (List.mem_cons_of_mem _ inRest)) later]

theorem listed_filter (read : String → Option α) (keep : String → Bool) (keys : List String) :
    listed read (keys.filter keep) = (listed read keys).filter fun entry => keep entry.1 := by
  induction keys with
  | nil => rfl
  | cons key rest ih =>
      rw [List.filter_cons]
      cases found : read key with
      | none =>
          have skipped : listed read (key :: rest) = listed read rest := by simp [listed, found]
          split
          · simp only [listed, List.filterMap_cons, found, Option.map_none] at ih ⊢
            exact ih
          · rw [ih, skipped]
      | some value =>
          rw [listed_cons found, List.filter_cons]
          split
          · rw [listed_cons found, ih]
          · exact ih

end Listed

variable {dict : RawDict α}

theorem length_keys (dict : RawDict α) : dict.keys.length = dict.size := Array.length_toList

/-- What is read of a key is its entry. -/
theorem get?_of_mem {entry : String × α} (member : entry ∈ dict.entries) :
    dict.get? entry.1 = some entry.2 := by
  rcases List.mem_filterMap.1 member with ⟨key, _, found⟩
  rcases Option.map_eq_some_iff.1 found with ⟨value, read, rfl⟩
  exact read

namespace InStep

theorem isSome_of_mem (inStep : dict.InStep) : ∀ key ∈ dict.keys, (dict.get? key).isSome :=
  fun key => (inStep.domain key).1

theorem mem_of_get? (inStep : dict.InStep) (found : dict.get? key = some value) :
    (key, value) ∈ dict.entries := by
  refine List.mem_filterMap.2 ⟨key, (inStep.domain key).2 ?_, ?_⟩
  · rw [found, Option.isSome_some]
  · rw [found, Option.map_some]

theorem keys_erase_of_not_mem (inStep : dict.InStep) (absent : key ∉ dict.keys) :
    (dict.erase key).keys = dict.keys := by
  rw [inStep.keys_erase, List.filter_eq_self]
  intro other member
  exact bne_iff_ne.2 fun same => absent (same ▸ member)

/-- The entries have the keys of the row. -/
theorem keys_entries (inStep : dict.InStep) : dict.entries.map (·.1) = dict.keys :=
  keys_listed inStep.isSome_of_mem

/-- A key is set among the entries. -/
theorem entries_set (inStep : dict.InStep) (key : String) (value : α) :
    (dict.set key value).entries = putEntry key value dict.entries := by
  have put : (dict.set key value).get? key = some value := by rw [get?_set, if_pos rfl]
  have same (other : String) (different : key ≠ other) :
      (dict.set key value).get? other = dict.get? other := by rw [get?_set, if_neg different]
  by_cases member : key ∈ dict.keys
  · rw [entries, inStep.keys_set_of_mem member,
      listed_put inStep.distinct inStep.isSome_of_mem member put same, entries]
  · have old : listed (dict.set key value).get? dict.keys = dict.entries :=
      listed_congr fun other inRow => same other fun equal => member (equal ▸ inRow)
    rw [putEntry_of_not_mem (inStep.keys_entries ▸ member), entries,
      inStep.keys_set_of_not_mem member, listed, List.filterMap_append, ← listed, old]
    simp [put]

/-- A key is erased among the entries. -/
theorem entries_erase (inStep : dict.InStep) (key : String) :
    (dict.erase key).entries = dict.entries.filter (·.1 != key) := by
  have same : ∀ other ∈ dict.keys.filter (· != key),
      (dict.erase key).get? other = dict.get? other := by
    intro other member
    rw [get?_erase, if_neg (Ne.symm (bne_iff_ne.1 (List.mem_filter.1 member).2))]
  rw [entries, inStep.keys_erase, listed_congr same]
  exact listed_filter dict.get? (· != key) dict.keys

theorem size_eq_ncard (inStep : dict.InStep) :
    dict.size = {key | (dict.get? key).isSome}.ncard := by
  have domain : {key | (dict.get? key).isSome} = (dict.keys.toFinset : Set String) := by
    ext key
    simp [inStep.domain]
  rw [domain, Set.ncard_coe_finset, List.toFinset_card_of_nodup inStep.distinct, length_keys]

end InStep

/-- The entries are written key by key. -/
theorem quotedEntries_listed (read : String → Option α) (keys : List String)
    (every : ∀ key ∈ keys, (read key).isSome) (write : α → Datum) :
    Datum.quotedEntries ((listed read keys).map fun entry => (entry.1, write entry.2)) =
      keys.map fun key =>
        Text.quote key ++ ": " ++ (((read key).map write).getD .absent).quoted := by
  induction keys with
  | nil => rfl
  | cons key rest ih =>
      obtain ⟨value, found⟩ := Option.isSome_iff_exists.1 (every key List.mem_cons_self)
      rw [listed_cons found, List.map_cons, Datum.quotedEntries, List.map_cons, found,
        ih fun other member => every other (List.mem_cons_of_mem key member)]
      rfl

/-- What can be done to a dictionary. -/
inductive Operation (α : Type) where
  | set (key : String) (value : α)
  | get (key : String)
  | erase (key : String)

/-- The dictionary after an operation; reading changes nothing. -/
def apply (dict : RawDict α) : Operation α → RawDict α
  | .set key value => dict.set key value
  | .get _ => dict
  | .erase key => dict.erase key

/-- The dictionary that was empty before some operations. -/
def after (history : List (Operation α)) : RawDict α := history.foldl apply {}

/-- What an operation does to a list of entries. -/
def Operation.onEntries (entries : List (String × α)) : Operation α → List (String × α)
  | set key value => putEntry key value entries
  | get _ => entries
  | erase key => entries.filter (·.1 != key)

/-- The last operation that sets or erases a key sets it to a value. -/
def LastSet (history : List (Operation α)) (key : String) (value : α) : Prop :=
  ∃ index : Nat, history[index]? = some (.set key value) ∧ ∀ later, index < later →
    history[later]? ≠ some (Operation.erase key) ∧
      ∀ newer, history[later]? ≠ some (Operation.set key newer)

/-- The first operation that sets a key, of those behind the last one that erases it, has an
index. -/
def FirstSet (history : List (Operation α)) (key : String) (index : Nat) : Prop :=
  (∃ value, history[index]? = some (.set key value)) ∧
    (∀ later, index < later → history[later]? ≠ some (Operation.erase key)) ∧
    ∀ (earlier : Nat) (value : α), earlier < index → history[earlier]? = some (.set key value) →
      ∃ between : Nat, earlier < between ∧ between < index ∧ history[between]? = some (.erase key)

/--
A dictionary holds what a history says, in the order that the history says. Its row of keys and
its values do together what a list of entries does.
-/
structure Records (history : List (Operation α)) (dict : RawDict α) : Prop where
  distinct : dict.keys.Nodup
  domain : ∀ key, key ∈ dict.keys ↔ (dict.get? key).isSome
  size : dict.size = {key | (dict.get? key).isSome}.ncard
  values : ∀ key value, dict.get? key = some value ↔ LastSet history key value
  present : ∀ key, key ∈ dict.keys ↔ ∃ index, FirstSet history key index
  ordered : dict.keys.Pairwise fun first second =>
    ∀ i j, FirstSet history first i → FirstSet history second j → i < j
  keepsSet : ∀ key ∈ dict.keys, ∀ value, (dict.set key value).keys = dict.keys
  keepsErase : ∀ key, key ∉ dict.keys → (dict.erase key).keys = dict.keys
  entries : dict.entries = history.foldl Operation.onEntries []
  written : ∀ write : α → Datum,
    (Datum.dict (dict.entries.map fun entry => (entry.1, write entry.2))).display =
      "\x7b" ++ ", ".intercalate (dict.keys.map fun key =>
        Text.quote key ++ ": " ++ (((dict.get? key).map write).getD .absent).quoted) ++ "\x7d"

section Histories

variable {history : List (Operation α)} {operation : Operation α} {index : Nat}

theorem after_append (history : List (Operation α)) (operation : Operation α) :
    after (history ++ [operation]) = (after history).apply operation := by
  simp [after]

/-- An operation leaves the row of keys and the values in step. -/
theorem InStep.apply (inStep : dict.InStep) (operation : Operation α) :
    (dict.apply operation).InStep := by
  cases operation with
  | set key value => exact inStep.set key value
  | get key => exact inStep
  | erase key => exact inStep.erase key

/-- The row of keys and the values are in step after every history. -/
theorem inStep_after (history : List (Operation α)) : (after history).InStep := by
  induction history using List.reverseRecOn with
  | nil => exact InStep.empty
  | append_singleton history operation ih =>
      rw [after_append]
      exact ih.apply operation

theorem InStep.entries_apply (inStep : dict.InStep) (operation : Operation α) :
    (dict.apply operation).entries = operation.onEntries dict.entries := by
  cases operation with
  | set key value => exact inStep.entries_set key value
  | get key => rfl
  | erase key => exact inStep.entries_erase key

/-- A row of keys and values by their keys do what a list of entries does. -/
theorem entries_after (history : List (Operation α)) :
    (after history).entries = history.foldl Operation.onEntries [] := by
  induction history using List.reverseRecOn with
  | nil => rfl
  | append_singleton history operation ih =>
      rw [after_append, (inStep_after history).entries_apply, ih, List.foldl_append]
      rfl

/-- An operation of a longer history is an earlier one or the last. -/
theorem getElem?_append_singleton (history : List (Operation α)) (operation : Operation α)
    (index : Nat) : (history ++ [operation])[index]? =
      if index = history.length then some operation else history[index]? := by
  rcases Nat.lt_trichotomy index history.length with inside | rfl | outside
  · rw [List.getElem?_append_left inside, if_neg inside.ne]
  · simp
  · rw [if_neg outside.ne', List.getElem?_eq_none outside.le, List.getElem?_eq_none]
    simpa using outside

theorem lt_length_of_getElem? (found : history[index]? = some operation) :
    index < history.length :=
  (List.getElem?_eq_some_iff.1 found).1

/-- What was set last before an operation, or by it. -/
theorem lastSet_append : LastSet (history ++ [operation]) key value ↔
    operation = .set key value ∨ (LastSet history key value ∧ operation ≠ .erase key ∧
      ∀ newer, operation ≠ .set key newer) := by
  unfold LastSet
  simp only [getElem?_append_singleton]
  constructor
  · rintro ⟨index, found, last⟩
    split at found
    · exact .inl (Option.some.inj found)
    · rename_i notLast
      have inside := lt_length_of_getElem? found
      have atEnd := last history.length inside
      simp only [if_true, ne_eq, Option.some.injEq] at atEnd
      refine .inr ⟨⟨index, found, fun later behind => ?_⟩, atEnd⟩
      by_cases outside : later = history.length
      · subst outside
        simp
      · simpa [outside] using last later behind
  · rintro (rfl | ⟨⟨index, found, last⟩, kept⟩)
    · refine ⟨history.length, by simp, fun later behind => ?_⟩
      rw [if_neg behind.ne', List.getElem?_eq_none behind.le]
      simp
    · have inside := lt_length_of_getElem? found
      refine ⟨index, by rwa [if_neg inside.ne], fun later behind => ?_⟩
      split
      · simpa using kept
      · exact last later behind

theorem get?_after (history : List (Operation α)) (key : String) (value : α) :
    (after history).get? key = some value ↔ LastSet history key value := by
  induction history using List.reverseRecOn with
  | nil => simp [after, LastSet]
  | append_singleton history operation ih =>
      rw [after_append, lastSet_append, ← ih]
      cases operation with
      | set other newer =>
          simp only [apply, get?_set, Operation.set.injEq, reduceCtorEq, not_false_eq_true,
            ne_eq, true_and]
          by_cases same : other = key
          · subst same
            simp
          · simp [same]
      | get other => simp [apply]
      | erase other =>
          by_cases same : other = key
          · subst same
            simp [apply, get?_erase]
          · simp [apply, get?_erase, same]

/-- A key that was set and not erased since. -/
def IsLive (history : List (Operation α)) (key : String) : Prop :=
  ∃ (index : Nat) (value : α), history[index]? = some (.set key value) ∧
    ∀ later, index < later → history[later]? ≠ some (Operation.erase key)

theorem isLive_iff : IsLive history key ↔ ∃ index, FirstSet history key index := by
  classical
  constructor
  · intro (live : ∃ (index : Nat) (value : α), history[index]? = some (.set key value) ∧
      ∀ later, index < later → history[later]? ≠ some (Operation.erase key))
    -- the least index of a setting that no erasure follows
    rcases Nat.find_spec live with ⟨value, found, kept⟩
    refine ⟨Nat.find live, ⟨value, found⟩, kept, fun earlier older before set => ?_⟩
    have erased := Nat.find_min live before
    push Not at erased
    rcases erased older set with ⟨between, behind, erases⟩
    refine ⟨between, behind, ?_, erases⟩
    rcases Nat.lt_trichotomy between (Nat.find live) with inside | same | outside
    · exact inside
    · rw [same, found] at erases
      cases erases
    · exact absurd erases (kept between outside)
  · rintro ⟨index, ⟨value, found⟩, kept, _⟩
    exact ⟨index, value, found, kept⟩

theorem isLive_append : IsLive (history ++ [operation]) key ↔
    (∃ value, operation = .set key value) ∨ (IsLive history key ∧ operation ≠ .erase key) := by
  unfold IsLive
  simp only [getElem?_append_singleton]
  constructor
  · rintro ⟨index, value, found, kept⟩
    split at found
    · exact .inl ⟨value, Option.some.inj found⟩
    · have inside := lt_length_of_getElem? found
      refine .inr ⟨⟨index, value, found, fun later behind => ?_⟩, ?_⟩
      · by_cases outside : later = history.length
        · subst outside
          simp
        · simpa [outside] using kept later behind
      · simpa using kept history.length inside
  · rintro (⟨value, rfl⟩ | ⟨⟨index, value, found, kept⟩, notErased⟩)
    · refine ⟨history.length, value, by simp, fun later behind => ?_⟩
      rw [if_neg behind.ne', List.getElem?_eq_none behind.le]
      simp
    · have inside := lt_length_of_getElem? found
      refine ⟨index, value, by rwa [if_neg inside.ne], fun later behind => ?_⟩
      split
      · simpa using notErased
      · exact kept later behind

theorem mem_keys_after (history : List (Operation α)) (key : String) :
    key ∈ (after history).keys ↔ IsLive history key := by
  induction history using List.reverseRecOn with
  | nil => simp [after, IsLive]
  | append_singleton history operation ih =>
      rw [after_append, isLive_append, ← ih]
      have inStep := inStep_after history
      cases operation with
      | set other value => simp [apply, inStep.mem_keys_set]
      | get other => simp [apply]
      | erase other => simp [apply, inStep.mem_keys_erase, and_comm]

/-- A key was first set before the last operation, or by it when it was not there. -/
theorem firstSet_of_append (first : FirstSet (history ++ [operation]) key index) :
    FirstSet history key index ∧ index < history.length ∨
      index = history.length ∧ (∃ value, operation = .set key value) ∧ ¬IsLive history key := by
  rcases first with ⟨⟨value, found⟩, kept, erased⟩
  simp only [getElem?_append_singleton] at found kept erased
  split at found
  · rename_i last
    refine .inr ⟨last, ⟨value, Option.some.inj found⟩, ?_⟩
    rintro ⟨earlier, older, set, keptSince⟩
    have inside := lt_length_of_getElem? set
    rcases erased earlier older (last ▸ inside) (by rwa [if_neg inside.ne]) with
      ⟨between, behind, before, erases⟩
    rw [if_neg (last ▸ before.ne)] at erases
    exact keptSince between behind erases
  · have inside := lt_length_of_getElem? found
    refine .inl ⟨⟨⟨value, found⟩, fun later behind => ?_, fun earlier older before set => ?_⟩,
      inside⟩
    · by_cases outside : later = history.length
      · subst outside
        simp
      · simpa [outside] using kept later behind
    · rcases erased earlier older before (by rwa [if_neg (before.trans inside).ne]) with
        ⟨between, behind, between_lt, erases⟩
      rw [if_neg (between_lt.trans inside).ne] at erases
      exact ⟨between, behind, between_lt, erases⟩

theorem ordered_after (history : List (Operation α)) :
    (after history).keys.Pairwise fun first second =>
      ∀ i j, FirstSet history first i → FirstSet history second j → i < j := by
  induction history using List.reverseRecOn with
  | nil => exact List.Pairwise.nil
  | append_singleton history operation ih =>
      -- keys that were there before are first set where they were
      have earlier : ∀ {key : String} {index : Nat}, key ∈ (after history).keys →
          FirstSet (history ++ [operation]) key index → FirstSet history key index := by
        intro key index member first
        rcases firstSet_of_append first with ⟨old, _⟩ | ⟨_, _, notLive⟩
        · exact old
        · exact absurd ((mem_keys_after history key).1 member) notLive
      have kept : (after history).keys.Pairwise fun first second =>
          ∀ i j, FirstSet (history ++ [operation]) first i →
            FirstSet (history ++ [operation]) second j → i < j :=
        ih.imp_of_mem fun firstMember secondMember before i j firstAt secondAt =>
          before i j (earlier firstMember firstAt) (earlier secondMember secondAt)
      rw [after_append]
      cases operation with
      | get key => exact kept
      | erase key =>
          rw [apply, (inStep_after history).keys_erase]
          exact kept.filter _
      | set key value =>
          by_cases member : key ∈ (after history).keys
          · rwa [apply, (inStep_after history).keys_set_of_mem member]
          · rw [apply, (inStep_after history).keys_set_of_not_mem member, List.pairwise_append]
            refine ⟨kept, List.pairwise_singleton _ _, ?_⟩
            rintro first firstMember second secondMember i j firstAt secondAt
            rw [List.mem_singleton] at secondMember
            subst secondMember
            rcases firstSet_of_append secondAt with ⟨old, _⟩ | ⟨rfl, _, _⟩
            · exact absurd ((mem_keys_after history _).2 (isLive_iff.2 ⟨j, old⟩)) member
            · exact lt_length_of_getElem? (earlier firstMember firstAt).1.choose_spec

/-- Whatever is done to a dictionary that was empty, it records it. -/
theorem records_after (history : List (Operation α)) : (after history).Records history :=
  have inStep := inStep_after history
  { distinct := inStep.distinct
    domain := inStep.domain
    size := inStep.size_eq_ncard
    values := get?_after history
    present := fun key => (mem_keys_after history key).trans isLive_iff
    ordered := ordered_after history
    keepsSet := fun _ member _ => inStep.keys_set_of_mem member
    keepsErase := fun _ absent => inStep.keys_erase_of_not_mem absent
    entries := entries_after history
    written := fun write => by
      rw [Datum.display, Datum.quoted, RawDict.entries,
        quotedEntries_listed _ _ inStep.isSome_of_mem]
      exact fun _ same => Datum.noConfusion same }

end Histories

end RawDict

/-- The dictionary that was empty before some operations. -/
def Dict.after (history : List (RawDict.Operation α)) : Dict α :=
  ⟨RawDict.after history, RawDict.inStep_after history⟩

end Lehce

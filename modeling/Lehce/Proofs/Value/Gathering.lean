import Lehce.Proofs.Value.InsertionOrder

/-!
# Gathering entries

`Dict.ofList` sets keys one after the other, which puts their entries into a list. A key is
never entered twice, and no entry is made up.
-/

namespace Lehce

variable {α : Type}

theorem mem_putEntry {key : String} {value : α} {entry : String × α}
    {entries : List (String × α)} (member : entry ∈ putEntry key value entries) :
    entry = (key, value) ∨ entry ∈ entries := by
  induction entries with
  | nil => exact .inl (List.mem_singleton.1 member)
  | cons first rest ih =>
      rw [putEntry] at member
      split at member
      · exact (List.mem_cons.1 member).imp_right (List.mem_cons_of_mem first)
      · rcases List.mem_cons.1 member with rfl | later
        · exact .inr List.mem_cons_self
        · exact (ih later).imp_right (List.mem_cons_of_mem first)

/-- An entry is put by its key, so values may be replaced before or after it. -/
theorem putEntry_map {β : Type} (change : α → β) (key : String) (value : α)
    (entries : List (String × α)) :
    putEntry key (change value) (entries.map fun entry => (entry.1, change entry.2)) =
      (putEntry key value entries).map fun entry => (entry.1, change entry.2) := by
  induction entries with
  | nil => rfl
  | cons first rest ih =>
      rw [List.map_cons, putEntry, putEntry]
      split
      · rfl
      · rw [ih, List.map_cons]

namespace Dict

/-- The entries of a dictionary in which some keys were set one after the other. -/
def gather (entries list : List (String × α)) : List (String × α) :=
  list.foldl (fun entries entry => putEntry entry.1 entry.2 entries) entries

theorem entries_ofList (list : List (String × α)) : (ofList list).entries = gather [] list := by
  have gathers (dict : Dict α) :
      (list.foldl (fun dict entry => dict.set entry.1 entry.2) dict).entries =
        gather dict.entries list := by
    induction list generalizing dict with
    | nil => rfl
    | cons entry rest ih =>
        rw [List.foldl_cons, ih, gather, gather, List.foldl_cons]
        exact congrArg (gather · rest) (dict.inStep.entries_set entry.1 entry.2)
  exact gathers {}

theorem gather_of_nodup {entries list : List (String × α)}
    (distinct : ((entries ++ list).map (·.1)).Nodup) : gather entries list = entries ++ list := by
  induction list generalizing entries with
  | nil => exact (List.append_nil entries).symm
  | cons entry rest ih =>
      have fresh : entry.1 ∉ entries.map (·.1) := by
        intro member
        rw [List.map_append, List.map_cons] at distinct
        exact (List.nodup_append.1 distinct).2.2 _ member _ List.mem_cons_self rfl
      rw [List.append_cons] at distinct ⊢
      rw [← ih distinct, gather, List.foldl_cons, putEntry_of_not_mem fresh, gather]

theorem mem_gather {entries list : List (String × α)} {entry : String × α}
    (member : entry ∈ gather entries list) : entry ∈ entries ∨ entry ∈ list := by
  induction list generalizing entries with
  | nil => exact .inl member
  | cons first rest ih =>
      rcases ih member with inSet | inRest
      · rcases mem_putEntry inSet with rfl | old
        · exact .inr List.mem_cons_self
        · exact .inl old
      · exact .inr (List.mem_cons_of_mem first inRest)

/-- A dictionary made of a list of distinct keys has the entries of the list. -/
theorem ofList_of_nodup {list : List (String × α)} (distinct : (list.map (·.1)).Nodup) :
    (ofList list).entries = list := by
  rw [entries_ofList, gather_of_nodup distinct, List.nil_append]

/-- A dictionary made of a list has every key once. -/
theorem ofList_keys_nodup (list : List (String × α)) :
    ((ofList list).entries.map (·.1)).Nodup := by
  have inStep := (ofList list).inStep
  rw [inStep.keys_entries]
  exact inStep.distinct

/-- A dictionary made of a list has entries of the list only. -/
theorem mem_of_mem_ofList {list : List (String × α)} {entry : String × α}
    (member : entry ∈ (ofList list).entries) : entry ∈ list := by
  rw [entries_ofList] at member
  exact (mem_gather member).resolve_left List.not_mem_nil

/-- Gathering looks at keys only, so values may be replaced before or after it. -/
theorem ofList_map {β : Type} (change : α → β) (list : List (String × α)) :
    (ofList (list.map fun entry => (entry.1, change entry.2))).entries =
      (ofList list).entries.map fun entry => (entry.1, change entry.2) := by
  have gathers (entries : List (String × α)) :
      gather (entries.map fun entry => (entry.1, change entry.2))
          (list.map fun entry => (entry.1, change entry.2)) =
        (gather entries list).map fun entry => (entry.1, change entry.2) := by
    induction list generalizing entries with
    | nil => rfl
    | cons first rest ih =>
        have later := ih (putEntry first.1 first.2 entries)
        rw [← putEntry_map] at later
        exact later
  rw [entries_ofList, entries_ofList]
  exact gathers []

end Dict

end Lehce

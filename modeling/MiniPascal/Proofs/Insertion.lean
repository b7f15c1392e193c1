import MiniPascal.Symbol.VariableTable
import Mathlib.Data.Finset.Card

/-!
# Insertion into tables of variables

A table that starts without entries is a map from names to entries that remembers in which order the
names came first. Main statements: one more insertion keeps that (`IsRecordOf.insert`), so it holds
after any of them (`isRecordOf_ofEntries`); a slot that has been answered once stays the slot of its
name (`indexOf?_foldl_insert`), and different names do not disturb each other
(`ofEntries_isOrderedMap`).
-/

namespace MiniPascal

namespace VariableTable

variable {table : VariableTable} {entry : SymbolEntry} {name : String} {index : Nat}

/-! ## Names and their slots -/

/-- The names of the entries, in the order of their slots. -/
def names (table : VariableTable) : List String :=
  table.entries.map (·.name)

/-- The slot of a name is the first place where it stands among the names. -/
theorem indexOf?_eq_idxOf? : table.indexOf? name = table.names.idxOf? name := by
  rw [names, List.idxOf?, List.findIdx?_map]
  rfl

/-- The names that have a slot are those of the entries. -/
theorem exists_indexOf?_iff : (∃ index, table.indexOf? name = some index) ↔ name ∈ table.names := by
  rw [indexOf?_eq_idxOf?, ← Option.isSome_iff_exists, List.isSome_idxOf?]

/-- The names that have no slot are all others. -/
theorem indexOf?_eq_none_iff : table.indexOf? name = none ↔ name ∉ table.names := by
  rw [indexOf?_eq_idxOf?, List.idxOf?_eq_none_iff]

/-- A table contains the names of its entries. -/
theorem contains_iff : table.contains name = true ↔ name ∈ table.names := by
  simp [contains, names]

/-- In the slot of a name there is an entry with this name. -/
theorem exists_get?_of_indexOf? (h : table.indexOf? name = some index) :
    ∃ entry, table.get? index = some entry ∧ entry.name = name := by
  obtain ⟨hlt, hname, -⟩ := List.findIdx?_eq_some_iff_getElem.1 h
  exact ⟨table.entries[index], List.getElem?_eq_getElem hlt, beq_iff_eq.1 hname⟩

/-- The name in a slot is that of the entry there. -/
theorem getElem?_names (h : table.get? index = some entry) :
    table.names[index]? = some entry.name := by
  rw [names, List.getElem?_map, show table.entries[index]? = some entry from h]
  rfl

/-! ## One insertion -/

/-- An entry whose name has a slot is put there. -/
theorem insert_of_indexOf?_eq_some (h : table.indexOf? entry.name = some index) :
    table.insert entry = (index, ⟨table.entries.set index entry⟩) := by
  rw [insert, h]

/-- An entry with a new name is put into a new last slot. -/
theorem insert_of_indexOf?_eq_none (h : table.indexOf? entry.name = none) :
    table.insert entry = (table.size, ⟨table.entries ++ [entry]⟩) := by
  rw [insert, h]

/-- After an insertion there are the same names in the same order, with the inserted one behind them
if it is new. -/
theorem names_insert (table : VariableTable) (entry : SymbolEntry) :
    (table.insert entry).2.names =
      if entry.name ∈ table.names then table.names else table.names ++ [entry.name] := by
  cases hindex : table.indexOf? entry.name with
  | none =>
    rw [insert_of_indexOf?_eq_none hindex, if_neg (indexOf?_eq_none_iff.1 hindex)]
    exact List.map_append
  | some index =>
    obtain ⟨other, hother, hname⟩ := exists_get?_of_indexOf? hindex
    have hslot := getElem?_names hother
    rw [hname] at hslot
    obtain ⟨hlt, hslot⟩ := List.getElem?_eq_some_iff.1 hslot
    rw [insert_of_indexOf?_eq_some hindex, if_pos (exists_indexOf?_iff.1 ⟨index, hindex⟩)]
    calc (table.entries.set index entry).map (·.name)
        = table.names.set index entry.name := List.map_set
      _ = table.names.set index table.names[index] := by rw [hslot]
      _ = table.names := List.set_getElem_self hlt

/-- After an insertion the entry is in the slot that is answered, and all other slots are as they
were. -/
theorem get?_insert (table : VariableTable) (entry : SymbolEntry) (index : Nat) :
    (table.insert entry).2.get? index =
      if index = (table.insert entry).1 then some entry else table.get? index := by
  cases hindex : table.indexOf? entry.name with
  | none =>
    rw [insert_of_indexOf?_eq_none hindex]
    show (table.entries ++ [entry])[index]? =
      if index = table.entries.length then some entry else table.entries[index]?
    split
    · next hlast => rw [hlast, List.getElem?_concat_length]
    · next hne =>
      by_cases hlt : index < table.entries.length
      · rw [List.getElem?_append_left hlt]
      · have hlength : (table.entries ++ [entry]).length ≤ index := by
          rw [List.length_append, List.length_singleton]
          omega
        rw [List.getElem?_eq_none hlength, List.getElem?_eq_none (Nat.le_of_not_lt hlt)]
  | some slot =>
    obtain ⟨other, hother, -⟩ := exists_get?_of_indexOf? hindex
    obtain ⟨hlt, -⟩ := List.getElem?_eq_some_iff.1 hother
    rw [insert_of_indexOf?_eq_some hindex]
    show (table.entries.set slot entry)[index]? =
      if index = slot then some entry else table.entries[index]?
    split
    · next heq => rw [heq, List.getElem?_set_self hlt]
    · next hne => exact List.getElem?_set_ne (Ne.symm hne)

/-- A name that has a slot keeps it. -/
theorem indexOf?_insert (h : table.indexOf? name = some index) (entry : SymbolEntry) :
    (table.insert entry).2.indexOf? name = some index := by
  rw [indexOf?_eq_idxOf?] at h ⊢
  rw [names_insert]
  split
  · exact h
  · rw [List.idxOf?, List.findIdx?_append, ← List.idxOf?, h]
    rfl

/-- The inserted name has the slot that is answered. -/
theorem indexOf?_insert_self (table : VariableTable) (entry : SymbolEntry) :
    (table.insert entry).2.indexOf? entry.name = some (table.insert entry).1 := by
  cases hindex : table.indexOf? entry.name with
  | none =>
    rw [insert_of_indexOf?_eq_none hindex]
    show (table.entries ++ [entry]).findIdx? _ = some table.entries.length
    rw [List.findIdx?_append, show table.entries.findIdx? _ = none from hindex]
    simp
  | some index =>
    rw [indexOf?_insert hindex, insert_of_indexOf?_eq_some hindex]

/-- After an insertion there is one name more, if it is new. -/
theorem mem_names_insert :
    name ∈ (table.insert entry).2.names ↔ name ∈ table.names ∨ name = entry.name := by
  rw [names_insert]
  split
  · next hold =>
    refine ⟨Or.inl, ?_⟩
    rintro (hmem | rfl)
    · exact hmem
    · exact hold
  · rw [List.mem_append, List.mem_singleton]

/-- The inserted name leads to the inserted entry, and all other names lead to what they led to
before. -/
theorem indexOf?_bind_get?_insert (table : VariableTable) (entry : SymbolEntry) (name : String) :
    ((table.insert entry).2.indexOf? name).bind (table.insert entry).2.get? =
      if entry.name = name then some entry else (table.indexOf? name).bind table.get? := by
  split
  · next hname =>
    rw [← hname, indexOf?_insert_self, Option.bind_some, get?_insert, if_pos rfl]
  · next hname =>
    cases hindex : table.indexOf? name with
    | none =>
      have hnew : name ∉ (table.insert entry).2.names := by
        rw [mem_names_insert, not_or]
        exact ⟨indexOf?_eq_none_iff.1 hindex, Ne.symm hname⟩
      rw [indexOf?_eq_none_iff.2 hnew]
      rfl
    | some index =>
      have hkept := indexOf?_insert hindex entry
      obtain ⟨other, hother, hsame⟩ := exists_get?_of_indexOf? hkept
      rw [hkept, Option.bind_some, Option.bind_some]
      rw [get?_insert] at hother ⊢
      split at hother
      · cases hother
        exact absurd hsame hname
      · next hne => exact if_neg hne

/-- Where names are not repeated, an insertion repeats none. -/
theorem nodup_names_insert (h : table.names.Nodup) (entry : SymbolEntry) :
    (table.insert entry).2.names.Nodup := by
  rw [names_insert]
  split
  · exact h
  · next hnew =>
    refine List.nodup_append.2 ⟨h, List.nodup_singleton _, ?_⟩
    intro name hname other hother heq
    rw [List.mem_singleton.1 hother] at heq
    exact hnew (heq ▸ hname)

/-- Where names are not repeated, no two slots have one name. -/
theorem eq_of_get? (h : table.names.Nodup) {slot : Nat} {other : SymbolEntry}
    (hentry : table.get? index = some entry) (hother : table.get? slot = some other)
    (hname : entry.name = other.name) : index = slot := by
  have hindex := getElem?_names hentry
  have hslot := getElem?_names hother
  obtain ⟨hlt, -⟩ := List.getElem?_eq_some_iff.1 hindex
  exact (List.getElem?_inj hlt h).1 (by rw [hindex, hslot, hname])

/-! ## What has been inserted -/

/-- An entry is the last one of its name among entries. -/
def IsLatest (inserted : List SymbolEntry) (entry : SymbolEntry) : Prop :=
  ∃ before after, inserted = before ++ entry :: after ∧ ∀ later ∈ after, later.name ≠ entry.name

/-- A table holds what has been inserted: the names without repetition, in the order in which they
came first, and under each name the entry that came last. -/
structure IsRecordOf (table : VariableTable) (inserted : List SymbolEntry) : Prop where
  nodup_names : table.names.Nodup
  mem_names_iff : ∀ name, name ∈ table.names ↔ name ∈ inserted.map (·.name)
  ordered : table.names.Pairwise fun name other =>
    (inserted.map (·.name)).idxOf name < (inserted.map (·.name)).idxOf other
  isLatest : ∀ index entry, table.get? index = some entry → IsLatest inserted entry

namespace IsRecordOf

variable {inserted : List SymbolEntry}

/-- The table without entries holds that nothing has been inserted. -/
theorem empty : IsRecordOf VariableTable.empty [] where
  nodup_names := List.nodup_nil
  mem_names_iff _ := Iff.rfl
  ordered := List.Pairwise.nil
  isLatest index entry h := by
    cases h

/-- There are as many slots as different names have been inserted. -/
theorem size_eq (h : table.IsRecordOf inserted) :
    table.size = (inserted.map (·.name)).toFinset.card := by
  have hsame : table.names.toFinset = (inserted.map (·.name)).toFinset := by
    ext name
    rw [List.mem_toFinset, List.mem_toFinset, h.mem_names_iff]
  rw [← hsame, List.toFinset_card_of_nodup h.nodup_names, names, List.length_map]
  rfl

/-- One more insertion is recorded with the others. -/
theorem insert (h : table.IsRecordOf inserted) (entry : SymbolEntry) :
    (table.insert entry).2.IsRecordOf (inserted ++ [entry]) where
  nodup_names := nodup_names_insert h.nodup_names entry
  mem_names_iff name := by
    rw [mem_names_insert, h.mem_names_iff, List.map_append, List.mem_append, List.map_singleton,
      List.mem_singleton]
  ordered := by
    -- names that have been there are found where they have been found before
    have hkept : ∀ name ∈ table.names, ((inserted ++ [entry]).map (·.name)).idxOf name =
        (inserted.map (·.name)).idxOf name := by
      intro name hname
      rw [List.map_append]
      exact List.idxOf_append_of_mem ((h.mem_names_iff name).1 hname)
    have hordered := h.ordered.imp_of_mem (S := fun name other =>
        ((inserted ++ [entry]).map (·.name)).idxOf name <
          ((inserted ++ [entry]).map (·.name)).idxOf other) (by
      intro name other hname hother hlt
      rwa [hkept name hname, hkept other hother])
    rw [names_insert]
    split
    · exact hordered
    · next hnew =>
      refine List.pairwise_append.2 ⟨hordered, List.pairwise_singleton _ _, ?_⟩
      intro name hname other hother
      rw [List.mem_singleton.1 hother, hkept name hname, List.map_append,
        List.idxOf_append_of_notMem fun hmem => hnew ((h.mem_names_iff _).2 hmem)]
      exact Nat.lt_add_right _ (List.idxOf_lt_length_of_mem ((h.mem_names_iff name).1 hname))
  isLatest index other hother := by
    by_cases hindex : index = (table.insert entry).1
    · rw [get?_insert, if_pos hindex] at hother
      cases hother
      exact ⟨inserted, [], rfl, by simp⟩
    · -- the entry is in another slot, so it has another name
      have hslot : (table.insert entry).2.get? (table.insert entry).1 = some entry := by
        rw [get?_insert, if_pos rfl]
      have hname : entry.name ≠ other.name := fun heq =>
        hindex (eq_of_get? (nodup_names_insert h.nodup_names entry) hother hslot heq.symm)
      rw [get?_insert, if_neg hindex] at hother
      obtain ⟨before, after, rfl, hafter⟩ := h.isLatest index other hother
      refine ⟨before, after ++ [entry], by simp, ?_⟩
      intro later hlater
      rcases List.mem_append.1 hlater with hlater | hlater
      · exact hafter later hlater
      · rwa [List.mem_singleton.1 hlater]

end IsRecordOf

/-- Inserting one more entry is the last step. -/
theorem ofEntries_concat (inserted : List SymbolEntry) (entry : SymbolEntry) :
    ofEntries (inserted ++ [entry]) = ((ofEntries inserted).insert entry).2 :=
  List.foldl_concat _ _ _ _

/-- The table of entries holds that they have been inserted. -/
theorem isRecordOf_ofEntries (inserted : List SymbolEntry) :
    (ofEntries inserted).IsRecordOf inserted := by
  induction inserted using List.reverseRecOn with
  | nil => exact .empty
  | append_singleton inserted entry ih =>
    rw [ofEntries_concat]
    exact ih.insert entry

/-- A name that has a slot keeps it through all later insertions. -/
theorem indexOf?_foldl_insert (h : table.indexOf? name = some index) (later : List SymbolEntry) :
    (later.foldl (fun table entry => (table.insert entry).2) table).indexOf? name = some index := by
  induction later generalizing table with
  | nil => exact h
  | cons entry later ih => exact ih (indexOf?_insert h entry)

/-- **A table of variables is a map in the order of first insertions.** The table of any entries
holds what has been inserted, has as many slots as there are different names, and contains and finds
just these. The slot that an insertion answers stays the one of its name, whatever is inserted
later. An insertion puts its entry into this slot and leaves all others as they are, and two entries
with different names may be inserted in either order without changing what is found. -/
theorem ofEntries_isOrderedMap :
    (∀ inserted, (ofEntries inserted).IsRecordOf inserted ∧
      (ofEntries inserted).size = (inserted.map (·.name)).toFinset.card ∧
      ∀ name, ((ofEntries inserted).contains name = true ↔
          ∃ index, (ofEntries inserted).indexOf? name = some index) ∧
        ((∃ index, (ofEntries inserted).indexOf? name = some index) ↔
          ∃ entry ∈ inserted, entry.name = name)) ∧
    (∀ before entry after,
      let index := ((ofEntries before).insert entry).1
      let table := ofEntries (before ++ entry :: after)
      table.indexOf? entry.name = some index ∧
        ∃ other, table.get? index = some other ∧ other.name = entry.name) ∧
    (∀ (table : VariableTable) (entry : SymbolEntry) (index : Nat),
      (table.insert entry).2.get? index =
        if index = (table.insert entry).1 then some entry else table.get? index) ∧
    ∀ (table : VariableTable) (first second : SymbolEntry), first.name ≠ second.name →
      let forward := ((table.insert first).2.insert second).2
      let backward := ((table.insert second).2.insert first).2
      ∀ name, (forward.indexOf? name).bind forward.get? =
        (backward.indexOf? name).bind backward.get? := by
  refine ⟨fun inserted => ?_, fun before entry after => ?_, get?_insert, ?_⟩
  · have hrecord := isRecordOf_ofEntries inserted
    refine ⟨hrecord, hrecord.size_eq, fun name => ⟨?_, ?_⟩⟩
    · rw [contains_iff, exists_indexOf?_iff]
    · rw [exists_indexOf?_iff, hrecord.mem_names_iff, List.mem_map]
  · intro index table
    have hindex : table.indexOf? entry.name = some index := by
      show (ofEntries (before ++ entry :: after)).indexOf? entry.name = some index
      rw [ofEntries, List.foldl_append, List.foldl_cons]
      exact indexOf?_foldl_insert (indexOf?_insert_self (ofEntries before) entry) after
    exact ⟨hindex, exists_get?_of_indexOf? hindex⟩
  · intro table first second hne forward backward name
    show (((table.insert first).2.insert second).2.indexOf? name).bind _ =
      (((table.insert second).2.insert first).2.indexOf? name).bind _
    rw [indexOf?_bind_get?_insert, indexOf?_bind_get?_insert, indexOf?_bind_get?_insert,
      indexOf?_bind_get?_insert]
    by_cases hfirst : first.name = name
    · have hsecond : second.name ≠ name := fun heq => hne (hfirst.trans heq.symm)
      rw [if_neg hsecond, if_pos hfirst, if_pos hfirst]
    · rw [if_neg hfirst, if_neg hfirst]

/-- A variable that is inserted again with a type keeps its slot in front of another one, and the
two may also be inserted the other way round. -/
theorem ofEntries_isOrderedMap_of_typed :
    let x : SymbolEntry := .placeholder "x"
    let y : SymbolEntry := .placeholder "y"
    let typed : SymbolEntry := ⟨"x", .var, some .real, none⟩
    (ofEntries [x, y, typed]).IsRecordOf [x, y, typed] ∧
      (ofEntries [x, y, typed]).indexOf? "x" = some 0 ∧
      (ofEntries [x, y, typed]).get? 0 = some typed ∧
      ((ofEntries [x, y]).indexOf? "x").bind (ofEntries [x, y]).get? =
        ((ofEntries [y, x]).indexOf? "x").bind (ofEntries [y, x]).get? := by
  intro x y typed
  obtain ⟨hrecords, hslots, hget, horder⟩ := ofEntries_isOrderedMap
  obtain ⟨hrecord, -, -⟩ := hrecords [x, y, typed]
  obtain ⟨hslot, -⟩ := hslots [] x [y, typed]
  have hfound : (ofEntries [x, y, typed]).get? 0 = some typed := hget (ofEntries [x, y]) typed 0
  exact ⟨hrecord, hslot, hfound, horder .empty x y (by decide) "x"⟩

end VariableTable

end MiniPascal

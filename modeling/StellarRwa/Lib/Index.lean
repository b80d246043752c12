import StellarRwa.Lib.Storage

/-!
# Secondary indexes

Entries are stored under ids; an index lists, for each value of a key, the ids of the entries that have it. It is
exact when each list is strictly ascending and holds those ids and no others. Adding an entry under a new greatest id
appends that id to one list (`Exact.push`); replacing an entry by one with the same key changes no list
(`Exact.replace`). Looking up the ids of a key gives the entries that have it, in that order (`Exact.mem_entries`,
`Exact.map_entries`, `Exact.entries_eq_filter`).
-/

namespace Lib.Index

variable {I K V : Type} [LT I] [DecidableEq I]

/-- `ids` lists exactly the ids of the entries by `key`, each list in ascending order. -/
structure Exact (ids : K → List I) (key : V → K) (entries : Storage I V) : Prop where
  ascending : ∀ k, (ids k).Pairwise (· < ·)
  mem : ∀ k id, id ∈ ids k ↔ ∃ e, entries.get id = some e ∧ key e = k

namespace Exact

variable {ids ids' : K → List I} {key : V → K} {entries : Storage I V} {id : I} {e e' : V}

theorem empty (key : V → K) : Exact (fun _ => []) key (∅ : Storage I V) :=
  ⟨fun _ => List.Pairwise.nil, fun k id => by simp⟩

/-- A new greatest id is appended to the list of its key. -/
theorem push [DecidableEq K] (h : Exact ids key entries) (hnew : entries.get id = none)
    (hmax : ∀ id' e', entries.get id' = some e' → id' < id)
    (hids : ∀ k, ids' k = if k = key e then ids k ++ [id] else ids k) : Exact ids' key (entries.set id e) := by
  have hget : ∀ id', (entries.set id e).get id' = if id' = id then some e else entries.get id' := fun id' =>
    Storage.get_set _ _ _ _
  refine ⟨?_, ?_⟩
  · intro k
    rw [hids]
    split
    · refine List.pairwise_append.2 ⟨h.ascending k, List.pairwise_singleton _ _, fun a ha b hb => ?_⟩
      obtain ⟨e', he', -⟩ := (h.mem k a).1 ha
      rw [List.mem_singleton.1 hb]
      exact hmax a e' he'
    · exact h.ascending k
  · intro k id'
    rw [hids, hget]
    by_cases hid : id' = id
    · subst hid
      have hno : id' ∉ ids k := fun hmem => by
        obtain ⟨e', he', -⟩ := (h.mem k id').1 hmem
        rw [hnew] at he'
        cases he'
      by_cases hk : k = key e
      · simp [hk]
      · simp [hk, hno, Ne.symm hk]
    · rw [if_neg hid, ← h.mem]
      split <;> simp [hid]

/-- An entry is replaced by one with the same key. -/
theorem replace (h : Exact ids key entries) (he : entries.get id = some e) (hkey : key e' = key e) :
    Exact ids key (entries.set id e') := by
  refine ⟨h.ascending, fun k id' => ?_⟩
  rw [h.mem, Storage.get_set]
  split
  · rename_i hid
    subst hid
    simp [he, hkey]
  · rfl

/-- Every id is in exactly one list, once. -/
theorem count [DecidableEq K] (h : Exact ids key entries) (hirrefl : ∀ i : I, ¬ i < i)
    (he : entries.get id = some e) (k : K) : (ids k).count id = if key e = k then 1 else 0 := by
  split
  · rename_i hk
    have hne : ∀ {a b : I}, a < b → a ≠ b := by
      rintro a _ hlt rfl
      exact hirrefl a hlt
    exact List.count_eq_one_of_mem ((h.ascending k).imp hne) ((h.mem k id).2 ⟨e, he, hk⟩)
  · rename_i hk
    refine List.count_eq_zero.2 fun hmem => ?_
    obtain ⟨e', he', hk'⟩ := (h.mem k id).1 hmem
    rw [he] at he'
    cases he'
    exact hk hk'

/-! ### Reading the entries by their key -/

/-- The ids of a key lead to the entries that have it. -/
theorem mem_entries (h : Exact ids key entries) {k : K} {e : V} :
    e ∈ (ids k).filterMap entries.get ↔ ∃ id, entries.get id = some e ∧ key e = k := by
  rw [List.mem_filterMap]
  constructor
  · rintro ⟨id, hid, he⟩
    obtain ⟨e', he', hk⟩ := (h.mem k id).1 hid
    rw [he] at he'
    cases he'
    exact ⟨id, he, hk⟩
  · rintro ⟨id, he, hk⟩
    exact ⟨id, (h.mem k id).2 ⟨e, he, hk⟩, he⟩

/-- The entries of a key come in the order of its ids, none left out. -/
theorem map_entries (h : Exact ids key entries) {ident : V → I}
    (hident : ∀ id e, entries.get id = some e → ident e = id) (k : K) :
    ((ids k).filterMap entries.get).map ident = ids k := by
  have hread : ∀ id ∈ ids k, (entries.get id).map ident = some id := fun id hid => by
    obtain ⟨e, he, -⟩ := (h.mem k id).1 hid
    rw [he, Option.map_some, hident id e he]
  rw [List.map_filterMap, List.filterMap_congr hread, List.filterMap_some]

/-- The ids of a key are those ids of all entries that lead to the key. -/
theorem ids_eq_filter [DecidableEq K] (h : Exact ids key entries) (hasymm : ∀ i j : I, i < j → ¬ j < i) {all : List I}
    (hall : all.Pairwise (· < ·)) (hmem : ∀ id, id ∈ all ↔ ∃ e, entries.get id = some e) (k : K) :
    ids k = all.filter fun id => (entries.get id).any (key · = k) := by
  have hnodup : ∀ {l : List I}, l.Pairwise (· < ·) → l.Nodup := fun hl => hl.imp fun hlt => by
    rintro rfl
    exact hasymm _ _ hlt hlt
  have hsub := hall.filter fun id => (entries.get id).any (key · = k)
  refine List.Perm.eq_of_pairwise (fun a b _ _ hab hba => absurd hba (hasymm a b hab)) (h.ascending k) hsub ?_
  refine (List.perm_ext_iff_of_nodup (hnodup (h.ascending k)) (hnodup hsub)).2 fun id => ?_
  rw [h.mem, List.mem_filter, hmem, Option.any_eq_true]
  simp only [decide_eq_true_eq]
  constructor
  · rintro ⟨e, he, hk⟩
    exact ⟨⟨e, he⟩, e, he, hk⟩
  · rintro ⟨-, hany⟩
    exact hany

/-- Reading an index is filtering all entries, in the order of their ids. -/
theorem entries_eq_filter [DecidableEq K] (h : Exact ids key entries) (hasymm : ∀ i j : I, i < j → ¬ j < i)
    {all : List I}
    (hall : all.Pairwise (· < ·)) (hmem : ∀ id, id ∈ all ↔ ∃ e, entries.get id = some e) (k : K) :
    (ids k).filterMap entries.get = (all.filterMap entries.get).filter (key · = k) := by
  rw [h.ids_eq_filter hasymm hall hmem, List.filterMap_filter, List.filter_filterMap]
  refine List.filterMap_congr fun id _ => ?_
  cases entries.get id with
  | none => rfl
  | some e => by_cases hk : key e = k <;> simp [hk, Option.filter]

end Exact

end Lib.Index

import StellarRwa.Lib.MachineInt
import StellarRwa.Lib.Storage
import StellarRwa.Lib.Paging

/-!
# Numbered storage

Entries are stored under the ids `1..=n`, where `n` is a counter. The id after the counter is free
(`Numbered.get_next`); writing it moves the counter there (`Numbered.push`), and writing an id in use leaves the counter
as it is (`Numbered.replace`). There are `n` entries, so weights of at most one sum to at most `n` (`Numbered.sum_le`).

In the order of their ids the values are a list of length `n` (`values`), and the values of consecutive ids are a slice
of it (`Numbered.filterMap_between`, `Numbered.filterMap_window`).
-/

namespace Lib

variable {hi : Int} {V : Type} {s : Storage (MInt 0 hi) V} {n id : MInt 0 hi}

/-- The ids in use are `1..=n`. -/
def Numbered (s : Storage (MInt 0 hi) V) (n : MInt 0 hi) : Prop :=
  ∀ id, (∃ v, s.get id = some v) ↔ 1 ≤ id.val ∧ id.val ≤ n.val

theorem numbered_empty (hn : n.val = 0) : Numbered (∅ : Storage (MInt 0 hi) V) n := by
  intro id
  simp only [Storage.get_empty, reduceCtorEq, exists_false, false_iff]
  omega

namespace Numbered

theorem le_of_get {v : V} (h : Numbered s n) (hget : s.get id = some v) : id.val ≤ n.val := ((h id).1 ⟨v, hget⟩).2

/-- The next id is not in use. -/
theorem get_next (h : Numbered s n) (hid : id.val = n.val + 1) : s.get id = none := by
  by_contra hne
  obtain ⟨v, hv⟩ := Option.ne_none_iff_exists'.1 hne
  have := h.le_of_get hv
  omega

/-- No ids are in use before the first. -/
theorem val_eq_zero (h : Numbered (∅ : Storage (MInt 0 hi) V) n) : n.val = 0 := by
  have hlo := n.lo_le
  have hnone : ¬ (1 ≤ n.val ∧ n.val ≤ n.val) := fun hn => by simpa using (h n).2 hn
  omega

/-- An entry is added under the next id. -/
theorem push (h : Numbered s n) (hid : id.val = n.val + 1) (v : V) : Numbered (s.set id v) id := by
  intro id'
  have hlo := n.lo_le
  rw [Storage.get_set]
  split
  · rename_i heq
    subst heq
    refine iff_of_true ⟨v, rfl⟩ ?_
    omega
  · rename_i hne
    have hval : id'.val ≠ id.val := fun e => hne (MInt.val_inj.1 e)
    rw [h id']
    omega

/-- The entry of an id in use is replaced. -/
theorem replace {v : V} (h : Numbered s n) (hget : s.get id = some v) (v' : V) : Numbered (s.set id v') n := by
  intro id'
  rw [← h id', Storage.get_set]
  split
  · rename_i heq
    subst heq
    exact iff_of_true ⟨v', rfl⟩ ⟨v, hget⟩
  · rfl

/-- The last entry is taken out. -/
theorem pop {m : MInt 0 hi} (h : Numbered s n) (hm : n.val = m.val + 1) : Numbered (s.remove n) m := by
  intro id
  rw [Storage.get_remove]
  split
  · rename_i heq
    subst heq
    simp only [reduceCtorEq, exists_false, false_iff]
    omega
  · rename_i hne
    have hval : id.val ≠ n.val := fun e => hne (MInt.val_inj.1 e)
    rw [h id]
    omega

/-- Weights of at most one sum to at most the number of entries. -/
theorem sum_le {f : MInt 0 hi → V → Int} (h : Numbered s n) (hf : ∀ k v, s.get k = some v → f k v ≤ 1) :
    s.sum f ≤ n.val := by
  induction hk : n.val.toNat generalizing s n with
  | zero =>
    have hempty : s = ∅ := by
      refine Storage.ext fun id => ?_
      rw [Storage.get_empty]
      by_contra hne
      have hid := (h id).1 (Option.ne_none_iff_exists'.1 hne)
      omega
    rw [hempty, Storage.sum_empty]
    exact n.lo_le
  | succ k ih =>
    have hhi := n.le_hi
    obtain ⟨v, hv⟩ := (h n).2 ⟨by omega, le_refl _⟩
    -- without the last entry one less is in use
    have hpop := h.pop (m := ⟨n.val - 1, by omega, by omega⟩) (by simp)
    have hrest : ∀ k v, (s.remove n).get k = some v → f k v ≤ 1 := by
      intro k v hget
      rw [Storage.get_remove] at hget
      split at hget
      · cases hget
      · exact hf k v hget
    have hle := ih hpop hrest (by show (n.val - 1).toNat = k; omega)
    have hone := hf n v hv
    rw [Storage.sum_remove_of_some s f hv] at hle
    dsimp only at hle
    omega

end Numbered

/-! ## The values in order -/

section Values

variable [HasUnits 0 hi]

/-- The values in the order of their ids. -/
def values (s : Storage (MInt 0 hi) V) (n : MInt 0 hi) : List V := (MInt.through 1 n).filterMap s.get

/-- The value at index `i`, counted as an id. -/
def valueAt (s : Storage (MInt 0 hi) V) (i : ℕ) : Option V := (MInt.ofNat? i).bind s.get

theorem values_eq (s : Storage (MInt 0 hi) V) (n : MInt 0 hi) :
    values s n = (List.range' 1 n.val.toNat).filterMap (valueAt s) := by
  have hn : (n.val + 1 - (1 : MInt 0 hi).val).toNat = n.val.toNat := by
    rw [MInt.val_one]
    omega
  rw [values, MInt.through, MInt.upFrom, List.filterMap_filterMap, hn]
  rfl

namespace Numbered

theorem mem_through_iff (h : Numbered s n) : id ∈ MInt.through 1 n ↔ ∃ v, s.get id = some v := by
  rw [MInt.mem_through, h id, MInt.val_one]

omit [HasUnits 0 hi] in
theorem valueAt_isSome (h : Numbered s n) {i : ℕ} (hmem : i ∈ List.range' 1 n.val.toNat) :
    (valueAt s i).isSome := by
  rw [List.mem_range'_1] at hmem
  have hhi := n.le_hi
  obtain ⟨id, hval⟩ : ∃ id : MInt 0 hi, id.val = i := MInt.exists_val (by omega) (by omega)
  rw [valueAt, MInt.ofNat?_eq_some.2 hval, Option.bind_some]
  exact Option.isSome_iff_exists.2 ((h id).2 (by omega))

theorem length_values (h : Numbered s n) : (values s n).length = n.val.toNat := by
  rw [values_eq, List.length_filterMap_eq_countP]
  have hall := List.countP_eq_length.2 fun i hi => h.valueAt_isSome hi
  rw [hall, List.length_range']

theorem mem_values (h : Numbered s n) {v : V} : v ∈ values s n ↔ ∃ id, s.get id = some v := by
  rw [values, List.mem_filterMap]
  constructor
  · rintro ⟨id, -, hv⟩
    exact ⟨id, hv⟩
  · rintro ⟨id, hv⟩
    exact ⟨id, h.mem_through_iff.2 ⟨v, hv⟩, hv⟩

/-- The value at position `j` has the id `j + 1`. -/
theorem id_of_getElem? (h : Numbered s n) {j : ℕ} {v : V} (hv : (values s n)[j]? = some v) :
    ∃ id, s.get id = some v ∧ id.val = j + 1 := by
  rw [values_eq, Paging.getElem?_filterMap (fun i hi => h.valueAt_isSome hi), Option.bind_eq_some_iff] at hv
  obtain ⟨i, hi, hvalue⟩ := hv
  obtain ⟨id, hid, hget⟩ := Option.bind_eq_some_iff.1 hvalue
  obtain ⟨hlt, rfl⟩ := List.getElem?_eq_some_iff.1 hi
  refine ⟨id, hget, ?_⟩
  rw [MInt.ofNat?_eq_some.1 hid, List.getElem_range'_1]
  omega

/-- The values of consecutive ids are a slice. -/
theorem filterMap_between (h : Numbered s n) {a b : MInt 0 hi} (ha : 1 ≤ a.val) (hb : b.val ≤ n.val + 1) :
    (a.between b).filterMap s.get = Paging.slice (values s n) (a.val.toNat - 1) (b.val - a.val).toNat := by
  have hk : 1 + (a.val.toNat - 1) = a.val.toNat := by omega
  have hn : min (b.val - a.val).toNat (n.val.toNat - (a.val.toNat - 1)) = (b.val - a.val).toNat := by omega
  rw [values_eq, ← Paging.filterMap_slice (fun i hi => h.valueAt_isSome hi), Paging.slice_range', hk, hn, MInt.between,
    MInt.upFrom, List.filterMap_filterMap]
  rfl

/-- The values of `a..a.saturating_add(k).min(n + 1)`: at most `k` of them, from the id `a` on. -/
theorem filterMap_window (h : Numbered s n) {a k next : MInt 0 hi} (ha : 1 ≤ a.val) (hnext : next.val = n.val + 1) :
    (a.between (min (a.saturatingAdd k) next)).filterMap s.get =
      Paging.slice (values s n) (a.val.toNat - 1) k.val.toNat := by
  have hk := k.lo_le
  have hhi := next.le_hi
  have hend : (min (a.saturatingAdd k) next).val = min (a.val + k.val) (n.val + 1) := by
    rw [MInt.val_min, MInt.val_saturatingAdd, hnext]
    omega
  rw [h.filterMap_between ha (by omega), hend]
  refine Paging.slice_congr ?_
  rw [h.length_values]
  omega

end Numbered

end Values

end Lib

import Mathlib.Data.Finmap
import Mathlib.Algebra.BigOperators.Group.Multiset.Basic
import Mathlib.Algebra.Order.BigOperators.Group.Multiset
import Mathlib.Algebra.Order.Ring.Int

/-!
# Key-value storage

A storage maps finitely many keys to values. `get`, `set`, `remove` and `has` are the host's operations. `sum` adds a
weight over all entries; writing one key changes a sum by the difference of the two weights there (`sum_set`,
`sum_set_of_none`).
-/

namespace Lib

/-- Finitely many keys with a value each. -/
structure Storage (K V : Type) where
  map : Finmap (fun _ : K => V)

namespace Storage

variable {K V : Type}

instance : EmptyCollection (Storage K V) := ⟨⟨∅⟩⟩

instance : Inhabited (Storage K V) := ⟨∅⟩

/-- The sum of a weight over all entries. -/
def sum (s : Storage K V) (f : K → V → Int) : Int := (s.map.entries.map fun e => f e.1 e.2).sum

variable [DecidableEq K]

instance [DecidableEq V] : DecidableEq (Storage K V) := fun s t =>
  decidable_of_iff (s.map = t.map) ⟨fun h => by cases s; cases t; cases h; rfl, congrArg _⟩

def get (s : Storage K V) (k : K) : Option V := s.map.lookup k

def set (s : Storage K V) (k : K) (v : V) : Storage K V := ⟨s.map.insert k v⟩

def remove (s : Storage K V) (k : K) : Storage K V := ⟨s.map.erase k⟩

def has (s : Storage K V) (k : K) : Bool := (s.get k).isSome

/-! ## Reading after writing -/

@[simp] theorem get_empty (k : K) : (∅ : Storage K V).get k = none := Finmap.lookup_empty k

@[simp] theorem get_set_self (s : Storage K V) (k : K) (v : V) : (s.set k v).get k = some v :=
  Finmap.lookup_insert s.map

theorem get_set_of_ne (s : Storage K V) {k k' : K} (v : V) (h : k' ≠ k) : (s.set k v).get k' = s.get k' :=
  Finmap.lookup_insert_of_ne s.map h

theorem get_set (s : Storage K V) (k k' : K) (v : V) :
    (s.set k v).get k' = if k' = k then some v else s.get k' := by
  split
  · rename_i h; rw [h, get_set_self]
  · rename_i h; exact get_set_of_ne s v h

@[simp] theorem get_remove_self (s : Storage K V) (k : K) : (s.remove k).get k = none :=
  Finmap.lookup_erase k s.map

theorem get_remove_of_ne (s : Storage K V) {k k' : K} (h : k' ≠ k) : (s.remove k).get k' = s.get k' :=
  Finmap.lookup_erase_ne h

theorem get_remove (s : Storage K V) (k k' : K) :
    (s.remove k).get k' = if k' = k then none else s.get k' := by
  split
  · rename_i h; rw [h, get_remove_self]
  · rename_i h; exact get_remove_of_ne s h

theorem has_iff {s : Storage K V} {k : K} : s.has k = true ↔ ∃ v, s.get k = some v := Option.isSome_iff_exists

theorem has_eq_false {s : Storage K V} {k : K} : s.has k = false ↔ s.get k = none := by
  simp [has]

@[ext] theorem ext {s t : Storage K V} (h : ∀ k, s.get k = t.get k) : s = t :=
  congrArg Storage.mk (Finmap.ext_lookup h)

/-- Writing what is there changes nothing. -/
theorem set_of_get {s : Storage K V} {k : K} {v : V} (h : s.get k = some v) : s.set k v = s := by
  ext1 k'
  rw [get_set]
  split
  · rename_i hk; rw [hk, h]
  · rfl

@[simp] theorem set_set_self (s : Storage K V) (k : K) (v w : V) : (s.set k v).set k w = s.set k w := by
  ext1 k'
  rw [get_set, get_set, get_set]
  split <;> rfl

@[simp] theorem remove_set_self (s : Storage K V) (k : K) (v : V) : (s.set k v).remove k = s.remove k := by
  ext1 k'
  rw [get_remove, get_remove, get_set]
  split <;> rfl

@[simp] theorem remove_remove_self (s : Storage K V) (k : K) : (s.remove k).remove k = s.remove k := by
  ext1 k'
  rw [get_remove]
  split
  · rename_i hk; rw [hk, get_remove_self]
  · rfl

/-- Remove several keys. -/
def removeAll (s : Storage K V) (ks : List K) : Storage K V := ks.foldl remove s

theorem get_removeAll (ks : List K) (s : Storage K V) (k : K) :
    (s.removeAll ks).get k = if k ∈ ks then none else s.get k := by
  induction ks generalizing s with
  | nil => simp [removeAll]
  | cons k' ks ih =>
    rw [show s.removeAll (k' :: ks) = (s.remove k').removeAll ks from rfl, ih, get_remove]
    by_cases h₁ : k ∈ ks <;> by_cases h₂ : k = k' <;> simp [h₁, h₂]

/-- The same value at several keys. -/
def ofKeys (ks : List K) (v : V) : Storage K V := ks.foldl (fun s k => s.set k v) ∅

theorem get_foldl_set (ks : List K) (v : V) (s : Storage K V) (k : K) :
    (ks.foldl (fun s k => s.set k v) s).get k = if k ∈ ks then some v else s.get k := by
  induction ks generalizing s with
  | nil => simp
  | cons k' ks ih =>
    rw [List.foldl_cons, ih, get_set]
    by_cases h₁ : k ∈ ks <;> by_cases h₂ : k = k' <;> simp [h₁, h₂]

theorem get_ofKeys (ks : List K) (v : V) (k : K) : (ofKeys ks v).get k = if k ∈ ks then some v else none := by
  rw [ofKeys, get_foldl_set, get_empty]

/-! ## Sums over all entries -/

omit [DecidableEq K] in
@[simp] theorem sum_empty (f : K → V → Int) : (∅ : Storage K V).sum f = 0 := rfl

/-- The entries of a storage are the pairs it answers with. -/
theorem mem_entries {s : Storage K V} {e : (_ : K) × V} : e ∈ s.map.entries ↔ s.get e.1 = some e.2 :=
  Finmap.mem_lookup_iff.symm

theorem sum_eq_zero {s : Storage K V} {f : K → V → Int} (h : ∀ k v, s.get k = some v → f k v = 0) : s.sum f = 0 := by
  refine Multiset.sum_eq_zero fun x hx => ?_
  obtain ⟨e, he, rfl⟩ := Multiset.mem_map.1 hx
  exact h e.1 e.2 (mem_entries.1 he)

/-- Every weight of an entry is non-negative, so the sum is. -/
theorem sum_nonneg {s : Storage K V} {f : K → V → Int} (h : ∀ k v, s.get k = some v → 0 ≤ f k v) : 0 ≤ s.sum f := by
  refine Multiset.sum_nonneg fun x hx => ?_
  obtain ⟨e, he, rfl⟩ := Multiset.mem_map.1 hx
  exact h e.1 e.2 (mem_entries.1 he)

/-- Among non-negative weights no entry weighs more than all. -/
theorem le_sum {s : Storage K V} {f : K → V → Int} (h : ∀ k v, s.get k = some v → 0 ≤ f k v) {k : K} {v : V}
    (hk : s.get k = some v) : f k v ≤ s.sum f := by
  refine Multiset.single_le_sum (fun x hx => ?_) _ (Multiset.mem_map.2 ⟨⟨k, v⟩, mem_entries.2 hk, rfl⟩)
  obtain ⟨e, he, rfl⟩ := Multiset.mem_map.1 hx
  exact h e.1 e.2 (mem_entries.1 he)

theorem sum_kerase (f : K → V → Int) (k : K) (l : List ((_ : K) × V)) (h : l.NodupKeys) :
    (l.map fun e => f e.1 e.2).sum
      = ((List.dlookup k l).elim 0 (f k)) + ((l.kerase k).map fun e => f e.1 e.2).sum := by
  induction l with
  | nil => rfl
  | cons e l ih =>
    obtain ⟨k', v⟩ := e
    rw [List.nodupKeys_cons] at h
    by_cases hk : k = k'
    · subst hk
      simp
    · have hd : List.dlookup k (⟨k', v⟩ :: l : List ((_ : K) × V)) = List.dlookup k l :=
        List.dlookup_cons_ne (β := fun _ : K => V) l ⟨k', v⟩ hk
      rw [List.kerase_cons_ne (by simpa using hk), hd]
      simp only [List.map_cons, List.sum_cons, ih h.2]
      omega

/-- Writing `k` replaces the weight that `k` had. -/
theorem sum_set (s : Storage K V) (f : K → V → Int) (k : K) (v : V) :
    (s.set k v).sum f + (s.get k).elim 0 (f k) = s.sum f + f k v := by
  obtain ⟨m⟩ := s
  induction m using Finmap.induction_on with
  | H a =>
    have h := sum_kerase f k a.entries a.nodupKeys
    simp only [sum, set, get, Finmap.insert_toFinmap, Finmap.lookup_toFinmap, AList.toFinmap_entries,
      AList.entries_insert, Multiset.map_coe, Multiset.sum_coe, List.map_cons, List.sum_cons, AList.lookup, h]
    omega

/-- Writing a fresh key adds its weight. -/
theorem sum_set_of_none {s : Storage K V} (f : K → V → Int) {k : K} (v : V) (h : s.get k = none) :
    (s.set k v).sum f = s.sum f + f k v := by
  have := sum_set s f k v
  rw [h] at this
  simpa using this

theorem sum_set_of_some {s : Storage K V} (f : K → V → Int) {k : K} {w : V} (v : V) (h : s.get k = some w) :
    (s.set k v).sum f = s.sum f - f k w + f k v := by
  have := sum_set s f k v
  rw [h] at this
  simp only [Option.elim_some] at this
  omega

/-- Removing a key takes its weight out. -/
theorem sum_remove_of_some (s : Storage K V) (f : K → V → Int) {k : K} {v : V} (h : s.get k = some v) :
    (s.remove k).sum f = s.sum f - f k v := by
  have hset : (s.remove k).set k v = s := by
    ext1 k'
    rw [get_set, get_remove]
    split
    · rename_i hk; rw [hk, h]
    · rfl
  have hsum := sum_set_of_none f v (get_remove_self s k)
  rw [hset] at hsum
  omega

end Storage

end Lib

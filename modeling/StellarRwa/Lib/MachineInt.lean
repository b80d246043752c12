import Mathlib.Data.List.Nodup
import Mathlib.Data.List.Range
import Mathlib.Order.Lattice
import Mathlib.Algebra.Order.Ring.Int

/-!
# Machine integers

`MInt lo hi` is the type of the integers between `lo` and `hi`, so a value that a fixed-width type cannot hold cannot
be built. The checked operations return the integer result exactly when it is in range (`checkedAdd_eq_some`,
`checkedAdd_eq_none`, ...), the saturating ones clamp it (`val_saturatingAdd`, `val_saturatingSub`). Everything is
stated over `Int`, where `omega` finishes.
-/

namespace Lib

/-- An integer between `lo` and `hi`. -/
@[ext] structure MInt (lo hi : Int) where
  val : Int
  lo_le : lo ≤ val
  le_hi : val ≤ hi
deriving DecidableEq, Repr

/-- Zero and one are values of the type. -/
class HasUnits (lo hi : Int) : Prop where
  lo_le_zero : lo ≤ 0
  one_le_hi : 1 ≤ hi

namespace MInt

variable {lo hi : Int}

attribute [coe] MInt.val

instance : CoeOut (MInt lo hi) Int := ⟨MInt.val⟩

instance [h : HasUnits lo hi] : Zero (MInt lo hi) :=
  ⟨0, h.lo_le_zero, le_trans (by decide) h.one_le_hi⟩

instance [h : HasUnits lo hi] : One (MInt lo hi) :=
  ⟨1, le_trans h.lo_le_zero (by decide), h.one_le_hi⟩

/-- A numeral stands for its value, or for the greatest value of the type if that is less. -/
instance [h : HasUnits lo hi] (n : Nat) : OfNat (MInt lo hi) (n + 2) :=
  ⟨min (n + 2) hi, le_min (by have := h.lo_le_zero; omega) (by have := h.lo_le_zero; have := h.one_le_hi; omega),
    min_le_right _ _⟩

instance : LE (MInt lo hi) := ⟨fun a b => a.val ≤ b.val⟩

instance : LT (MInt lo hi) := ⟨fun a b => a.val < b.val⟩

instance (a b : MInt lo hi) : Decidable (a ≤ b) := inferInstanceAs (Decidable (a.val ≤ b.val))

instance (a b : MInt lo hi) : Decidable (a < b) := inferInstanceAs (Decidable (a.val < b.val))

@[simp] theorem val_zero [HasUnits lo hi] : (0 : MInt lo hi).val = 0 := rfl

@[simp] theorem val_one [HasUnits lo hi] : (1 : MInt lo hi).val = 1 := rfl

theorem le_def {a b : MInt lo hi} : a ≤ b ↔ a.val ≤ b.val := Iff.rfl

theorem lt_def {a b : MInt lo hi} : a < b ↔ a.val < b.val := Iff.rfl

instance : Std.IsPreorder (MInt lo hi) := ⟨fun a => Int.le_refl a.val, fun _ _ _ => Int.le_trans⟩

theorem val_inj {a b : MInt lo hi} : a.val = b.val ↔ a = b := ⟨MInt.ext, congrArg _⟩

/-- Every integer in range is the value of some element. -/
theorem exists_val {z : Int} (hlo : lo ≤ z) (hhi : z ≤ hi) : ∃ a : MInt lo hi, a.val = z := ⟨⟨z, hlo, hhi⟩, rfl⟩

theorem eq_zero_iff [HasUnits lo hi] {a : MInt lo hi} : a = 0 ↔ a.val = 0 := by rw [← val_inj, val_zero]

/-! ## Integers that fit -/

/-- The value `z` of the type, if it is one. -/
def ofInt? (z : Int) : Option (MInt lo hi) :=
  if h : lo ≤ z ∧ z ≤ hi then some ⟨z, h.1, h.2⟩ else none

@[simp] theorem ofInt?_eq_some {z : Int} {a : MInt lo hi} : ofInt? z = some a ↔ a.val = z := by
  unfold ofInt?
  split
  · simp only [Option.some.injEq, MInt.ext_iff, eq_comm]
  · rename_i h
    simp only [reduceCtorEq, false_iff]
    intro e
    exact h (e ▸ ⟨a.lo_le, a.le_hi⟩)

@[simp] theorem ofInt?_eq_none {z : Int} : (ofInt? z : Option (MInt lo hi)) = none ↔ z < lo ∨ hi < z := by
  unfold ofInt?
  split
  · rename_i h
    simp only [reduceCtorEq, false_iff]
    omega
  · rename_i h
    simp only [true_iff]
    omega

/-! ## Checked operations -/

def checkedAdd (a b : MInt lo hi) : Option (MInt lo hi) := ofInt? (a.val + b.val)

def checkedSub (a b : MInt lo hi) : Option (MInt lo hi) := ofInt? (a.val - b.val)

def checkedMul (a b : MInt lo hi) : Option (MInt lo hi) := ofInt? (a.val * b.val)

/-- Division truncates toward zero and fails at a zero divisor. -/
def checkedDiv (a b : MInt lo hi) : Option (MInt lo hi) :=
  if b.val = 0 then none else ofInt? (a.val.tdiv b.val)

/-- The absolute value; it fails at the least value of a symmetric type. -/
def checkedAbs (a : MInt lo hi) : Option (MInt lo hi) := ofInt? (if a.val < 0 then -a.val else a.val)

@[simp] theorem checkedAdd_eq_some {a b c : MInt lo hi} : a.checkedAdd b = some c ↔ c.val = a.val + b.val :=
  ofInt?_eq_some

@[simp] theorem checkedSub_eq_some {a b c : MInt lo hi} : a.checkedSub b = some c ↔ c.val = a.val - b.val :=
  ofInt?_eq_some

@[simp] theorem checkedMul_eq_some {a b c : MInt lo hi} : a.checkedMul b = some c ↔ c.val = a.val * b.val :=
  ofInt?_eq_some

@[simp] theorem checkedAbs_eq_some {a c : MInt lo hi} : a.checkedAbs = some c ↔ c.val = |a.val| := by
  unfold checkedAbs
  rw [ofInt?_eq_some]
  split
  · rename_i h
    rw [abs_of_neg h]
  · rename_i h
    rw [abs_of_nonneg (not_lt.1 h)]

@[simp] theorem checkedAdd_eq_none {a b : MInt lo hi} :
    a.checkedAdd b = none ↔ a.val + b.val < lo ∨ hi < a.val + b.val := ofInt?_eq_none

@[simp] theorem checkedSub_eq_none {a b : MInt lo hi} :
    a.checkedSub b = none ↔ a.val - b.val < lo ∨ hi < a.val - b.val := ofInt?_eq_none

@[simp] theorem checkedMul_eq_none {a b : MInt lo hi} :
    a.checkedMul b = none ↔ a.val * b.val < lo ∨ hi < a.val * b.val := ofInt?_eq_none

/-- On a non-negative dividend and a positive divisor, division is the floor. -/
theorem checkedDiv_eq_some_of_nonneg {a b c : MInt lo hi} (ha : 0 ≤ a.val) (hb : 0 < b.val) :
    a.checkedDiv b = some c ↔ c.val = a.val / b.val := by
  unfold checkedDiv
  rw [if_neg (by omega), ofInt?_eq_some, Int.tdiv_eq_ediv_of_nonneg ha]

/-- The floor of a non-negative value always fits. -/
theorem checkedDiv_isSome_of_nonneg {a b : MInt lo hi} (hlo : lo ≤ 0) (ha : 0 ≤ a.val) (hb : 0 < b.val) :
    ∃ c, a.checkedDiv b = some c ∧ c.val = a.val / b.val := by
  have h₁ : 0 ≤ a.val / b.val := Int.ediv_nonneg ha hb.le
  have h₂ : a.val / b.val ≤ a.val := Int.ediv_le_self _ ha
  have h₃ := a.le_hi
  exact ⟨⟨a.val / b.val, by omega, by omega⟩, (checkedDiv_eq_some_of_nonneg ha hb).2 rfl, rfl⟩

/-! ## Saturating operations -/

/-- The value of the type nearest to `z`; `a` shows that the type is not empty. -/
def clamp (a : MInt lo hi) (z : Int) : MInt lo hi :=
  ⟨max lo (min hi z), le_max_left _ _,
    max_le (a.lo_le.trans a.le_hi) (min_le_left _ _)⟩

def saturatingAdd (a b : MInt lo hi) : MInt lo hi := a.clamp (a.val + b.val)

def saturatingSub (a b : MInt lo hi) : MInt lo hi := a.clamp (a.val - b.val)

def saturatingMul (a b : MInt lo hi) : MInt lo hi := a.clamp (a.val * b.val)

theorem val_saturatingAdd (a b : MInt lo hi) : (a.saturatingAdd b).val = max lo (min hi (a.val + b.val)) := rfl

theorem val_saturatingSub (a b : MInt lo hi) : (a.saturatingSub b).val = max lo (min hi (a.val - b.val)) := rfl

theorem val_saturatingMul (a b : MInt lo hi) : (a.saturatingMul b).val = max lo (min hi (a.val * b.val)) := rfl

/-! ## The lesser and the greater of two -/

instance : Min (MInt lo hi) := minOfLe

instance : Max (MInt lo hi) := maxOfLe

theorem val_min (a b : MInt lo hi) : (min a b).val = min a.val b.val := by
  by_cases h : a.val ≤ b.val
  · exact (congrArg MInt.val (if_pos h)).trans (min_eq_left h).symm
  · exact (congrArg MInt.val (if_neg h)).trans (min_eq_right (by omega)).symm

theorem val_max (a b : MInt lo hi) : (max a b).val = max a.val b.val := by
  by_cases h : a.val ≤ b.val
  · exact (congrArg MInt.val (if_pos h)).trans (max_eq_right h).symm
  · exact (congrArg MInt.val (if_neg h)).trans (max_eq_left (by omega)).symm

/-! ## Counting up -/

/-- `0..=n`. -/
def upTo (n : MInt 0 hi) : List (MInt 0 hi) :=
  (List.range (n.val.toNat + 1)).filterMap fun i : Nat => ofInt? i

theorem mem_upTo {m n : MInt 0 hi} : m ∈ n.upTo ↔ m.val ≤ n.val := by
  have h₁ := m.lo_le
  have h₂ := n.lo_le
  simp only [upTo, List.mem_filterMap, List.mem_range, ofInt?_eq_some]
  constructor
  · rintro ⟨i, hi, he⟩
    omega
  · intro h
    exact ⟨m.val.toNat, by omega, by omega⟩

/-- The next bound adds one index at the end. -/
theorem upTo_succ {m n : MInt 0 hi} (h : n.val = m.val + 1) : n.upTo = m.upTo ++ [n] := by
  have hm := m.lo_le
  have e : n.val.toNat + 1 = (m.val.toNat + 1) + 1 := by omega
  have hn : (ofInt? ((m.val.toNat + 1 : Nat) : Int) : Option (MInt 0 hi)) = some n := by
    rw [ofInt?_eq_some]
    omega
  rw [upTo, e, List.range_succ, List.filterMap_append]
  simp only [List.filterMap_cons, hn, List.filterMap_nil]
  rfl

theorem upTo_nodup (n : MInt 0 hi) : n.upTo.Nodup := by
  refine List.Nodup.filterMap ?_ List.nodup_range
  intro i j a hi hj
  rw [Option.mem_def, ofInt?_eq_some] at hi hj
  omega

/-- The bound comes last, and only there. -/
theorem upTo_concat (n : MInt 0 hi) : ∃ l, n.upTo = l ++ [n] ∧ n ∉ l := by
  have key : ∃ l, n.upTo = l ++ [n] := by
    by_cases h : n.val = 0
    · refine ⟨[], ?_⟩
      have h0 : (ofInt? ((0 : Nat) : Int) : Option (MInt 0 hi)) = some n := by
        rw [ofInt?_eq_some]
        omega
      have hr : List.range (n.val.toNat + 1) = [0] := by
        rw [h]
        rfl
      simp only [upTo, hr, List.filterMap_cons, h0, List.filterMap_nil, List.nil_append]
    · have h₁ := n.lo_le
      have h₂ := n.le_hi
      exact ⟨_, upTo_succ (m := ⟨n.val - 1, by omega, by omega⟩) (by simp)⟩
  obtain ⟨l, hl⟩ := key
  refine ⟨l, hl, fun hmem => ?_⟩
  have hnd := hl ▸ n.upTo_nodup
  exact (List.nodup_append.1 hnd).2.2 n hmem n (by simp) rfl

/-- The value `i` of an unsigned type, if it is one. -/
def ofNat? (i : Nat) : Option (MInt 0 hi) := ofInt? i

theorem ofNat?_eq_some {i : Nat} {a : MInt 0 hi} : ofNat? i = some a ↔ a.val = i := ofInt?_eq_some

/-- The values from `a` on, `n` of them. -/
def upFrom (a : MInt 0 hi) (n : Nat) : List (MInt 0 hi) := (List.range' a.val.toNat n).filterMap ofNat?

/-- `a..b`. -/
def between (a b : MInt 0 hi) : List (MInt 0 hi) := a.upFrom (b.val - a.val).toNat

/-- `a..=b`. -/
def through (a b : MInt 0 hi) : List (MInt 0 hi) := a.upFrom (b.val + 1 - a.val).toNat

/-- Looking up consecutive values, as indices. -/
theorem filterMap_upFrom {α : Type} {a : MInt 0 hi} {n : Nat} {f : MInt 0 hi → Option α} {g : Nat → Option α}
    (hn : a.val + n ≤ hi + 1) (hfg : ∀ i m, ofNat? i = some m → f m = g i) :
    (a.upFrom n).filterMap f = (List.range' a.val.toNat n).filterMap g := by
  rw [upFrom, List.filterMap_filterMap]
  refine List.filterMap_congr fun i hmem => ?_
  have hlo := a.lo_le
  have hi' := List.mem_range'_1.1 hmem
  obtain ⟨m, hm⟩ : ∃ m : MInt 0 hi, m.val = i := exists_val (by omega) (by omega)
  have hsome := ofNat?_eq_some.2 hm
  rw [hsome, Option.bind_some, hfg i m hsome]

theorem lt_of_mem_between {a b m : MInt 0 hi} (h : m ∈ a.between b) : m.val < b.val := by
  have hlo := a.lo_le
  obtain ⟨i, hi, he⟩ := List.mem_filterMap.1 h
  rw [List.mem_range'_1] at hi
  rw [ofNat?_eq_some] at he
  omega

theorem mem_through {a b m : MInt 0 hi} : m ∈ a.through b ↔ a.val ≤ m.val ∧ m.val ≤ b.val := by
  have h₁ := m.lo_le
  have h₂ := a.lo_le
  simp only [through, upFrom, List.mem_filterMap, List.mem_range'_1, ofNat?_eq_some]
  constructor
  · rintro ⟨i, hi, he⟩
    omega
  · intro h
    exact ⟨m.val.toNat, by omega, by omega⟩

theorem through_ascending (a b : MInt 0 hi) : (a.through b).Pairwise (· < ·) := by
  have hrange : (List.range' a.val.toNat (b.val + 1 - a.val).toNat).Pairwise (· < ·) := List.pairwise_lt_range'
  refine List.pairwise_filterMap.2 (hrange.imp ?_)
  intro i j hij m hm n hn
  rw [ofNat?_eq_some] at hm hn
  rw [lt_def]
  omega

end MInt

/-! ## The widths of the source -/

/-- `u32`. -/
abbrev U32 := MInt 0 4294967295

/-- `u64`. -/
abbrev U64 := MInt 0 18446744073709551615

/-- `i128`. -/
abbrev I128 := MInt (-170141183460469231731687303715884105728) 170141183460469231731687303715884105727

instance : HasUnits 0 4294967295 := ⟨by decide, by decide⟩

instance : HasUnits 0 18446744073709551615 := ⟨by decide, by decide⟩

instance : HasUnits (-170141183460469231731687303715884105728) 170141183460469231731687303715884105727 :=
  ⟨by decide, by decide⟩

/-- A ledger sequence as a `u64`. -/
def U32.toU64 (n : U32) : U64 := ⟨n.val, n.lo_le, n.le_hi.trans (by decide)⟩

@[simp] theorem U32.val_toU64 (n : U32) : n.toU64.val = n.val := rfl

/-- `as u32`: the low 32 bits. -/
def U64.toU32 (n : U64) : U32 := ⟨n.val % 4294967296, by omega, by omega⟩

@[simp] theorem U64.val_toU32 (n : U64) : n.toU32.val = n.val % 4294967296 := rfl

end Lib

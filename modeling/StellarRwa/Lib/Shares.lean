import Mathlib.Algebra.Order.BigOperators.Group.List
import Mathlib.Algebra.Order.Ring.Int
import Mathlib.Tactic.Common

/-!
# Pro rata shares

An amount `n` is divided among parties by their weights; each share is rounded down (`share`). Whoever has been paid,
what was paid is at most `n` (`paid_le`), and it still leaves room for every share that was not (`paid_add_le`). Paying
one more party adds its share (`paid_mark`), so the order of the payments does not matter. The shares add up to `n`
exactly when each is whole (`sum_share_eq`, `sum_share_lt`); what rounding loses is never paid, and it is less than one
unit for each party (`loss_lt`).
-/

namespace Lib

/-- Distinct parties, each with a non-negative weight. -/
structure Weights (α : Type) where
  entries : List (α × Int)
  distinct : (entries.map Prod.fst).Nodup
  nonneg : ∀ e ∈ entries, 0 ≤ e.2

namespace Weights

variable {α : Type}

/-- The sum of the weights. -/
def total (w : Weights α) : Int := (w.entries.map Prod.snd).sum

/-- The share of `n` that goes with the weight `b`, rounded down. -/
def share (w : Weights α) (n b : Int) : Int := n * b / w.total

/-- Every share is whole: nothing is lost by rounding. -/
def Exact (w : Weights α) (n : Int) : Prop := ∀ e ∈ w.entries, w.total ∣ n * e.2

/-- The shares of the parties marked by `f`. -/
def paid (w : Weights α) (n : Int) (f : α → Bool) : Int :=
  (w.entries.map fun e => if f e.1 then w.share n e.2 else 0).sum

variable {w : Weights α} {n b : Int} {a : α} {f f' : α → Bool}

theorem total_nonneg (w : Weights α) : 0 ≤ w.total := by
  refine List.sum_nonneg fun b hb => ?_
  obtain ⟨e, he, rfl⟩ := List.mem_map.1 hb
  exact w.nonneg e he

theorem share_nonneg (hn : 0 ≤ n) (hb : 0 ≤ b) : 0 ≤ w.share n b :=
  Int.ediv_nonneg (Int.mul_nonneg hn hb) w.total_nonneg

/-- A positive share needs a positive weight. -/
theorem pos_of_share_pos (hn : 0 ≤ n) (h : 0 < w.share n b) : 0 < w.total ∧ 0 < b := by
  have htotal : 0 < w.total := by
    refine lt_of_le_of_ne w.total_nonneg fun e => ?_
    rw [share, ← e, Int.ediv_zero] at h
    exact lt_irrefl _ h
  refine ⟨htotal, ?_⟩
  by_contra hb
  have hprod : n * b ≤ 0 := mul_nonpos_of_nonneg_of_nonpos hn (not_lt.1 hb)
  exact absurd (Int.ediv_nonpos_of_nonpos_of_neg hprod htotal) (not_le.2 h)

/-! ## The sum of the shares -/

/-- The floors and the remainders make up the whole. -/
theorem sum_floor_mul (n s : Int) (l : List (α × Int)) :
    (l.map fun e => n * e.2 / s).sum * s + (l.map fun e => n * e.2 % s).sum = n * (l.map Prod.snd).sum := by
  induction l with
  | nil => simp
  | cons e l ih =>
    have hfloor : n * e.2 / s * s + n * e.2 % s = n * e.2 := Int.ediv_mul_add_emod _ _
    simp only [List.map_cons, List.sum_cons]
    rw [add_mul, mul_add]
    omega

theorem rests_nonneg (n : Int) {s : Int} (hs : s ≠ 0) (l : List (α × Int)) :
    ∀ m ∈ l.map fun e => n * e.2 % s, 0 ≤ m := by
  intro m hm
  obtain ⟨e, -, rfl⟩ := List.mem_map.1 hm
  exact Int.emod_nonneg _ hs

/-- The floors never add up to more than the amount. -/
theorem sum_share_le (w : Weights α) (hn : 0 ≤ n) : (w.entries.map fun e => w.share n e.2).sum ≤ n := by
  by_cases htotal : w.total = 0
  · have hzero : ∀ e ∈ w.entries, w.share n e.2 = 0 := fun e _ => by rw [share, htotal, Int.ediv_zero]
    rw [List.map_congr_left hzero]
    simpa using hn
  · have hpos : 0 < w.total := lt_of_le_of_ne w.total_nonneg (Ne.symm htotal)
    have hsplit := sum_floor_mul n w.total w.entries
    have hrests := List.sum_nonneg (rests_nonneg n htotal w.entries)
    exact le_of_mul_le_mul_right (by unfold share total at *; omega) hpos

/-- They add up to the amount when every share is whole. -/
theorem sum_share_eq (hpos : 0 < w.total) (h : w.Exact n) : (w.entries.map fun e => w.share n e.2).sum = n := by
  have hsplit := sum_floor_mul n w.total w.entries
  have hrests : (w.entries.map fun e => n * e.2 % w.total).sum = 0 := by
    refine List.sum_eq_zero fun m hm => ?_
    obtain ⟨e, he, rfl⟩ := List.mem_map.1 hm
    exact Int.emod_eq_zero_of_dvd (h e he)
  rw [hrests, Int.add_zero] at hsplit
  exact mul_right_cancel₀ hpos.ne' hsplit

/-- They add up to less when some share is not. -/
theorem sum_share_lt (hpos : 0 < w.total) (h : ¬ w.Exact n) : (w.entries.map fun e => w.share n e.2).sum < n := by
  unfold Exact at h
  push Not at h
  obtain ⟨e, he, hno⟩ := h
  have hsplit := sum_floor_mul n w.total w.entries
  have hrest : n * e.2 % w.total ≤ (w.entries.map fun e => n * e.2 % w.total).sum :=
    List.single_le_sum (rests_nonneg n hpos.ne' w.entries) _ (List.mem_map.2 ⟨e, he, rfl⟩)
  have hpart : 0 < n * e.2 % w.total :=
    lt_of_le_of_ne (Int.emod_nonneg _ hpos.ne') fun hzero => hno (Int.dvd_of_emod_eq_zero hzero.symm)
  exact lt_of_mul_lt_mul_right (by unfold share total at *; omega) hpos.le

/-- Rounding loses less than one unit for each party. -/
theorem loss_lt (hpos : 0 < w.total) (n : Int) :
    n - (w.entries.map fun e => w.share n e.2).sum < w.entries.length := by
  have hsplit := sum_floor_mul n w.total w.entries
  have hrest : ∀ m ∈ w.entries.map fun e => n * e.2 % w.total, m ≤ w.total - 1 := by
    intro m hm
    obtain ⟨e, -, rfl⟩ := List.mem_map.1 hm
    have hlt := Int.emod_lt_of_pos (n * e.2) hpos
    omega
  have hrests := List.sum_le_card_nsmul _ _ hrest
  rw [List.length_map, nsmul_eq_mul, mul_sub, mul_one] at hrests
  have hparties : 0 < w.entries.length := by
    refine List.length_pos_iff.2 fun hnil => ?_
    rw [total, hnil] at hpos
    exact absurd hpos (lt_irrefl _)
  refine lt_of_mul_lt_mul_right ?_ hpos.le
  rw [sub_mul]
  unfold share total at *
  omega

/-! ## Paying the shares -/

theorem payment_nonneg (hn : 0 ≤ n) :
    ∀ m ∈ w.entries.map fun e => if f e.1 then w.share n e.2 else 0, 0 ≤ m := by
  intro m hm
  obtain ⟨e, he, rfl⟩ := List.mem_map.1 hm
  split
  · exact share_nonneg hn (w.nonneg e he)
  · exact le_refl 0

theorem paid_nonneg (hn : 0 ≤ n) : 0 ≤ w.paid n f := List.sum_nonneg (payment_nonneg hn)

theorem share_le_paid (hn : 0 ≤ n) (hmem : (a, b) ∈ w.entries) (hf : f a = true) : w.share n b ≤ w.paid n f :=
  List.single_le_sum (payment_nonneg hn) _ (List.mem_map.2 ⟨(a, b), hmem, by simp [hf]⟩)

/-- Whoever is paid, it is at most the sum of the shares. -/
theorem paid_le_sum (hn : 0 ≤ n) : w.paid n f ≤ (w.entries.map fun e => w.share n e.2).sum := by
  refine List.sum_le_sum fun e he => ?_
  split
  · exact le_refl _
  · exact share_nonneg hn (w.nonneg e he)

/-- Whoever is paid, it is at most the amount. -/
theorem paid_le (hn : 0 ≤ n) : w.paid n f ≤ n := le_trans (paid_le_sum hn) (w.sum_share_le hn)

/-- When everybody whose share is not zero is paid, all the shares are. -/
theorem paid_eq_sum (hn : 0 ≤ n) (h : ∀ e ∈ w.entries, 0 < w.share n e.2 → f e.1 = true) :
    w.paid n f = (w.entries.map fun e => w.share n e.2).sum := by
  refine congrArg List.sum (List.map_congr_left fun e he => ?_)
  split
  · rfl
  · rename_i hf
    have hzero : ¬ 0 < w.share n e.2 := fun hshare => hf (h e he hshare)
    exact le_antisymm (share_nonneg hn (w.nonneg e he)) (not_lt.1 hzero)

theorem paid_eq_zero (h : ∀ a, f a = false) : w.paid n f = 0 := by
  refine List.sum_eq_zero fun b hb => ?_
  obtain ⟨e, -, rfl⟩ := List.mem_map.1 hb
  simp [h e.1]

theorem sum_mark (g : α × Int → Int) {l : List (α × Int)} (hnd : (l.map Prod.fst).Nodup) (hmem : (a, b) ∈ l)
    (hf : f a = false) (hf' : f' a = true) (hrest : ∀ c, c ≠ a → f' c = f c) :
    (l.map fun e => if f' e.1 then g e else 0).sum = (l.map fun e => if f e.1 then g e else 0).sum + g (a, b) := by
  induction l with
  | nil => cases hmem
  | cons e l ih =>
    rw [List.map_cons, List.nodup_cons] at hnd
    simp only [List.map_cons, List.sum_cons]
    rcases List.mem_cons.1 hmem with rfl | hmem
    · -- the remaining entries are of other parties
      have hl : ∀ e ∈ l, f' e.1 = f e.1 := by
        refine fun e he => hrest _ ?_
        rintro rfl
        exact hnd.1 (List.mem_map.2 ⟨e, he, rfl⟩)
      rw [List.map_congr_left fun e he => by rw [hl e he]]
      simp only [hf, hf', if_true, if_false, Bool.false_eq_true]
      omega
    · have hne : e.1 ≠ a := by
        rintro rfl
        exact hnd.1 (List.mem_map.2 ⟨_, hmem, rfl⟩)
      rw [ih hnd.2 hmem, hrest _ hne, add_assoc]

/-- Paying one more party adds its share. -/
theorem paid_mark (hmem : (a, b) ∈ w.entries) (hf : f a = false) (hf' : f' a = true)
    (hrest : ∀ c, c ≠ a → f' c = f c) : w.paid n f' = w.paid n f + w.share n b :=
  sum_mark (fun e => w.share n e.2) w.distinct hmem hf hf' hrest

variable [DecidableEq α]

/-- What was paid leaves room for every share that was not. -/
theorem paid_add_le (hn : 0 ≤ n) (hmem : (a, b) ∈ w.entries) (hf : f a = false) : w.paid n f + w.share n b ≤ n := by
  have hmark : w.paid n (fun c => c = a || f c) = w.paid n f + w.share n b :=
    paid_mark hmem hf (by simp) fun c hc => by simp [hc]
  rw [← hmark]
  exact paid_le hn

/-- Some of the amount is left while a share is not whole, or one that is not zero was not paid. -/
theorem paid_lt (hn : 0 ≤ n) (hpos : 0 < w.total)
    (h : ¬ w.Exact n ∨ ∃ e ∈ w.entries, f e.1 = false ∧ 0 < w.share n e.2) : w.paid n f < n := by
  rcases h with h | ⟨e, he, hf, hshare⟩
  · exact lt_of_le_of_lt (paid_le_sum hn) (sum_share_lt hpos h)
  · have hroom := paid_add_le hn he hf
    omega

omit [DecidableEq α] in
/-- When every share is whole and some of the amount is left, it is the share of somebody who was not paid. -/
theorem exists_unpaid (hn : 0 ≤ n) (hpos : 0 < w.total) (h : w.Exact n) (hlt : w.paid n f < n) :
    ∃ e ∈ w.entries, f e.1 = false ∧ 0 < w.share n e.2 := by
  by_contra hno
  push Not at hno
  have hall : w.paid n f = (w.entries.map fun e => w.share n e.2).sum := by
    refine paid_eq_sum hn fun e he hshare => ?_
    by_contra hf
    exact absurd (hno e he (by simpa using hf)) (not_le.2 hshare)
  rw [hall, sum_share_eq hpos h] at hlt
  exact lt_irrefl _ hlt

end Weights

end Lib

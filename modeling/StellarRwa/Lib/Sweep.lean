import Mathlib.Data.List.Basic
import Mathlib.Logic.Function.Iterate
import Mathlib.Tactic.Common

/-!
# Bounded sweeps from the front

A sweep looks at the first `k` elements of a list and strikes those that are not live; the rest stays unseen. Sweeps are
repeated from the front and nothing remembers where the last one stopped. They reach the end of the list, so that all
that remains was looked at, exactly when fewer than `k` live elements stand before the last element
(`sweeps_reach_end`): each sweep keeps that number as long as something is left unseen (`pending_sweep`).
-/

namespace Lib

variable {α : Type} {live live' : α → Bool} {k : ℕ} {l : List α}

/-- The list after a sweep. -/
def sweep (live : α → Bool) (k : ℕ) (l : List α) : List α := (l.take k).filter live ++ l.drop k

/-- The live elements before the last one. -/
def pending (live : α → Bool) (l : List α) : ℕ := (l.dropLast.filter live).length

theorem sweep_congr (h : ∀ a ∈ l, live a = live' a) (k : ℕ) : sweep live k l = sweep live' k l := by
  unfold sweep
  rw [List.filter_congr fun a ha => h a (List.mem_of_mem_take ha)]

theorem sweep_sublist (live : α → Bool) (k : ℕ) (l : List α) : (sweep live k l).Sublist l := by
  conv => rhs; rw [← List.take_append_drop k l]
  exact List.filter_sublist.append_right _

theorem iterate_sweep_sublist (live : α → Bool) (k j : ℕ) (l : List α) : ((sweep live k)^[j] l).Sublist l := by
  induction j generalizing l with
  | zero => exact List.Sublist.refl l
  | succ j ih =>
    rw [Function.iterate_succ_apply]
    exact (ih _).trans (sweep_sublist live k l)

/-- A sweep that leaves something unseen keeps the live elements before the last one. -/
theorem pending_sweep (h : k < l.length) : pending live (sweep live k l) = pending live l := by
  have hne : l.drop k ≠ [] := by
    rw [ne_eq, List.drop_eq_nil_iff]
    omega
  have hlast : l.dropLast = l.take k ++ (l.drop k).dropLast := by
    rw [← List.dropLast_append_of_ne_nil hne, List.take_append_drop]
  unfold pending sweep
  rw [List.dropLast_append_of_ne_nil hne, hlast, List.filter_append, List.filter_append, List.filter_filter]
  simp

/-- With fewer than `k` live elements before the last one, a sweep that leaves something unseen strikes something. -/
theorem length_sweep_lt (h : k < l.length) (hp : pending live l < k) : (sweep live k l).length < l.length := by
  have htake : l.take k = l.dropLast.take k := by
    rw [List.dropLast_eq_take, List.take_take, Nat.min_eq_left (by omega)]
  have hle : ((l.take k).filter live).length ≤ pending live l := by
    rw [htake]
    exact ((List.take_sublist _ _).filter _).length_le
  unfold sweep
  rw [List.length_append, List.length_drop]
  omega

theorem pending_lt_of_le (hk : 0 < k) (h : l.length ≤ k) : pending live l < k := by
  have hle : pending live l ≤ l.dropLast.length := List.length_filter_le _ _
  rw [List.length_dropLast] at hle
  omega

/-- **Repeated sweeps reach the end** of the list exactly when fewer than `k` live elements stand before its last. -/
theorem sweeps_reach_end (hk : 0 < k) : (∃ j, ((sweep live k)^[j] l).length ≤ k) ↔ pending live l < k := by
  constructor
  · rintro ⟨j, hj⟩
    induction j generalizing l with
    | zero => exact pending_lt_of_le hk hj
    | succ j ih =>
      rw [Function.iterate_succ_apply] at hj
      by_cases h : k < l.length
      · rw [← pending_sweep h]
        exact ih hj
      · exact pending_lt_of_le hk (Nat.le_of_not_lt h)
  · intro hp
    induction hn : l.length using Nat.strongRecOn generalizing l with
    | ind n ih =>
      by_cases h : k < l.length
      · have hlt := length_sweep_lt h hp
        obtain ⟨j, hj⟩ := ih _ (hn ▸ hlt) (by rw [pending_sweep h]; exact hp) rfl
        exact ⟨j + 1, by rwa [Function.iterate_succ_apply]⟩
      · exact ⟨0, Nat.le_of_not_lt h⟩

end Lib

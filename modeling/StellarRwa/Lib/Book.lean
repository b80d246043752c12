import StellarRwa.Lib.MachineInt
import StellarRwa.Lib.Storage

/-!
# Account books

A book stores an amount for finitely many accounts; an account without an entry holds nothing. Writing an account
changes the total by the difference of its balances (`total_set`), so moving an amount from one account to another
keeps the total, also when both are the same account and are read one after the other (`total_move`). When no account is
overdrawn, no account, and no two accounts, hold more than the total.
-/

namespace Lib

/-- Balances by account. -/
abbrev Book (K : Type) := Storage K I128

namespace Book

variable {K : Type}

/-- The sum of all balances. -/
def total (b : Book K) : Int := b.sum fun _ v => v.val

@[simp] theorem total_empty : total (∅ : Book K) = 0 := rfl

variable [DecidableEq K]

def balance (b : Book K) (k : K) : I128 := (b.get k).getD 0

@[simp] theorem balance_set_self (b : Book K) (k : K) (v : I128) : balance (b.set k v) k = v := by
  simp [balance]

theorem balance_set_of_ne (b : Book K) {k k' : K} (v : I128) (h : k' ≠ k) :
    balance (b.set k v) k' = balance b k' := by rw [balance, Storage.get_set_of_ne b v h, balance]

theorem balance_set (b : Book K) (k k' : K) (v : I128) :
    balance (b.set k v) k' = if k' = k then v else balance b k' := by
  split
  · rename_i h
    rw [h, balance_set_self]
  · rename_i h
    exact balance_set_of_ne b v h

/-- Writing the balance of an account that holds something changes nothing. -/
theorem set_balance {b : Book K} {k : K} {v : I128} (hv : v.val = (balance b k).val) (hpos : 0 < v.val) :
    b.set k v = b := by
  obtain rfl : v = balance b k := MInt.val_inj.1 hv
  unfold balance at hpos ⊢
  cases hk : b.get k with
  | none =>
    rw [hk] at hpos
    exact absurd hpos (lt_irrefl _)
  | some w => exact Storage.set_of_get hk

/-- Writing an account changes the total by the difference. -/
theorem total_set (b : Book K) (k : K) (v : I128) : total (b.set k v) = total b - (balance b k).val + v.val := by
  have h := Storage.sum_set b (fun _ v => v.val) k v
  unfold total balance
  cases hk : b.get k with
  | none =>
    rw [hk] at h
    simp at h ⊢
    omega
  | some w =>
    rw [hk] at h
    simp at h ⊢
    omega

/-- Debit `j`, then credit `k` as it stands after the debit. -/
theorem total_move (b : Book K) {j k : K} {n : Int} {x y : I128} (hx : x.val = (balance b j).val - n)
    (hy : y.val = (balance (b.set j x) k).val + n) : total ((b.set j x).set k y) = total b := by
  rw [total_set, total_set]
  omega

/-- No account is overdrawn. -/
def Solvent (b : Book K) : Prop := ∀ k, 0 ≤ (balance b k).val

theorem solvent_empty : Solvent (∅ : Book K) := fun k => by simp [balance]

theorem Solvent.set {b : Book K} (hb : Solvent b) {k : K} {v : I128} (hv : 0 ≤ v.val) : Solvent (b.set k v) :=
  fun k' => by
    rw [balance_set]
    split
    · exact hv
    · exact hb k'

theorem Solvent.total_nonneg {b : Book K} (hb : Solvent b) : 0 ≤ total b :=
  Storage.sum_nonneg fun k v hk => by
    have := hb k
    rwa [balance, hk] at this

/-- No account holds more than all together. -/
theorem Solvent.balance_le_total {b : Book K} (hb : Solvent b) (k : K) : (balance b k).val ≤ total b := by
  have hrest : 0 ≤ total (b.set k 0) := (hb.set (by decide)).total_nonneg
  rw [total_set, MInt.val_zero] at hrest
  omega

/-- Nor do two accounts. -/
theorem Solvent.balance_add_le_total {b : Book K} (hb : Solvent b) {j k : K} (hne : j ≠ k) :
    (balance b j).val + (balance b k).val ≤ total b := by
  have hrest : (balance (b.set j 0) k).val ≤ total (b.set j 0) := (hb.set (by decide)).balance_le_total k
  rw [total_set, balance_set_of_ne b 0 hne.symm, MInt.val_zero] at hrest
  omega

/-- A list that names every account that holds something adds up to the total. -/
theorem sum_balance_eq_total {b : Book K} {l : List K} (hl : l.Nodup) (hall : ∀ k, (balance b k).val ≠ 0 → k ∈ l) :
    (l.map fun k => (balance b k).val).sum = total b := by
  induction l generalizing b with
  | nil =>
    refine (Storage.sum_eq_zero fun k v hk => ?_).symm
    by_contra hne
    have hmem : k ∈ [] := hall k (by simpa [balance, hk] using hne)
    cases hmem
  | cons j l ih =>
    obtain ⟨hj, hl⟩ := List.nodup_cons.1 hl
    have hrest : ∀ k, (balance (b.set j 0) k).val ≠ 0 → k ∈ l := by
      intro k hk
      rw [balance_set] at hk
      split at hk
      · exact absurd MInt.val_zero hk
      · rename_i hkj
        exact (List.mem_cons.1 (hall k hk)).resolve_left hkj
    have hsame : l.map (fun k => (balance (b.set j 0) k).val) = l.map fun k => (balance b k).val := by
      refine List.map_congr_left fun k hk => ?_
      have hne : k ≠ j := by
        rintro rfl
        exact hj hk
      rw [balance_set_of_ne b 0 hne]
    have hsum := ih hl hrest
    rw [hsame, total_set, MInt.val_zero] at hsum
    rw [List.map_cons, List.sum_cons, hsum]
    omega

end Book

end Lib

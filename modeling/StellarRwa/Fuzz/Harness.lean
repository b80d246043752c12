import StellarRwa.Lib.MachineInt
import Mathlib.Algebra.Order.BigOperators.Group.List
import Mathlib.Tactic.Common

/-!
# The code of the fuzz targets

A fuzz target computes on plain integers and asserts; a computation is its value or the text of its panic. The sum of a
list of amounts that are not negative is the exact sum when that fits in `i128`, however the partial sums go
(`sumFrom_ok`).
-/

namespace StellarRwa.Fuzz

open Lib

section Sequencing

variable {ε α β : Type} {x : Except ε α} {f : α → Except ε β}

theorem bind_ok {b : β} : (x >>= f) = .ok b ↔ ∃ a, x = .ok a ∧ f a = .ok b := by
  cases x with
  | error e => simp [bind, Except.bind]
  | ok a => simp [bind, Except.bind]

theorem bind_of_ok {a : α} (hx : x = .ok a) : (x >>= f) = f a := by
  rw [hx]
  rfl

theorem bind_of_error {e : ε} (hx : x = .error e) : (x >>= f) = .error e := by
  rw [hx]
  rfl

/-- The value, or else an error. -/
def okOr (o : Option α) (e : ε) : Except ε α := o.elim (.error e) .ok

@[simp] theorem okOr_ok {o : Option α} {e : ε} {a : α} : okOr o e = .ok a ↔ o = some a := by
  cases o <;> simp [okOr]

end Sequencing

/-- `assert!(c, text)`. -/
def assert (c : Prop) [Decidable c] (text : String) : Except String Unit := if c then .ok () else .error text

theorem assert_of {c : Prop} [Decidable c] {text : String} (hc : c) : assert c text = .ok () := if_pos hc

/-- `iter().sum()` from `acc` on, which the compiler checks for overflow. -/
def sumFrom : I128 → List I128 → Except String I128
  | acc, [] => .ok acc
  | acc, b :: l => do
    let acc' ← okOr (acc.checkedAdd b) "attempt to add with overflow"
    sumFrom acc' l

theorem sumFrom_ok {l : List I128} {acc : I128} (hpos : ∀ b ∈ l, 0 ≤ b.val) (hacc : 0 ≤ acc.val)
    (hfits : acc.val + (l.map MInt.val).sum ≤ 170141183460469231731687303715884105727) :
    ∃ s, sumFrom acc l = .ok s ∧ s.val = acc.val + (l.map MInt.val).sum := by
  induction l generalizing acc with
  | nil => exact ⟨acc, rfl, by simp⟩
  | cons b l ih =>
    rw [List.map_cons, List.sum_cons, ← add_assoc] at hfits
    have hb := hpos b List.mem_cons_self
    have hrest : 0 ≤ (l.map MInt.val).sum :=
      List.sum_nonneg (by simpa using fun c hc => hpos c (List.mem_cons_of_mem _ hc))
    obtain ⟨acc', hadd⟩ : ∃ a : I128, a.val = acc.val + b.val := MInt.exists_val (by omega) (by omega)
    obtain ⟨s, hs, hval⟩ := ih (fun c hc => hpos c (List.mem_cons_of_mem _ hc)) (by omega) (hadd ▸ hfits)
    refine ⟨s, ?_, ?_⟩
    · rw [sumFrom, bind_of_ok (okOr_ok.2 (MInt.checkedAdd_eq_some.2 hadd))]
      exact hs
    · rw [hval, hadd, List.map_cons, List.sum_cons, add_assoc]

end StellarRwa.Fuzz

import StellarRwa.Lib.MachineInt
import StellarRwa.Lib.Storage

/-!
# Storage that lapses

Entries of temporary storage can be read until their time runs out. `Lapsing` are the host's operations, each made at a
ledger, and `Lapsing.Lawful` is what they promise: a write can be read, a write does not shorten the time of an entry
that lives, and `extendTtl` prolongs it, unless it traps. `entries` is a storage that keeps the promises
(`entries_lawful`).

A lapsing storage `Keeps` a plain one when it never shows anything else, and shows every entry as long as it is `due`.
Writes keep this when the new value is not due for longer than the entry lives (`Keeps.set`), or when the entry is
prolonged as far as the new value is due (`Keeps.extended`).
-/

namespace Lib

/-- The operations of a storage with entries that lapse, each at a ledger. -/
structure Lapsing (T K V : Type) where
  empty : T
  get : T → U32 → K → Option V
  set : T → U32 → K → V → T
  extendTtl : T → U32 → K → (threshold extendTo : U32) → Option T

namespace Lapsing

variable {T K V : Type}

/-- What the operations promise. -/
structure Lawful (L : Lapsing T K V) : Prop where
  get_empty : ∀ n k, L.get L.empty n k = none
  get_set_self : ∀ t n k v, L.get (L.set t n k v) n k = some v
  get_set_of_ne : ∀ t n m k k' v, k' ≠ k → L.get (L.set t n k v) m k' = L.get t m k'
  /-- What is read later is what was written. -/
  eq_of_get_set : ∀ t n m k v w, n ≤ m → L.get (L.set t n k v) m k = some w → w = v
  /-- A write does not shorten the time of an entry. -/
  get_set_of_lives : ∀ t n m k v w, n ≤ m → L.get t m k = some w → L.get (L.set t n k v) m k = some v
  /-- More time, and nothing else. -/
  get_of_extend : ∀ t n m k th e t', L.extendTtl t n k th e = some t' → n ≤ m → ∀ k' v, L.get t' m k' = some v →
    L.get t n k' = some v
  get_extend_of_ne : ∀ t n m k th e t' k', L.extendTtl t n k th e = some t' → k' ≠ k → L.get t' m k' = L.get t m k'
  /-- At least `threshold` or `extendTo` ledgers more. -/
  get_extend : ∀ t n m k th e t' v, L.extendTtl t n k th e = some t' → L.get t n k = some v → n ≤ m →
    m.val ≤ n.val + min th.val e.val → L.get t' m k = some v

/-! ## What a lapsing storage keeps -/

section Keeps

variable [DecidableEq K] {L : Lapsing T K V} {due : V → U32 → Prop} {t t' : T} {n m : U32} {s : Storage K V} {k : K}
  {v : V}

/-- From ledger `n` on, `t` shows nothing but what is in `s`, and all of it that is due. -/
structure Keeps (L : Lapsing T K V) (due : V → U32 → Prop) (t : T) (n : U32) (s : Storage K V) : Prop where
  sound : ∀ m k v, n ≤ m → L.get t m k = some v → s.get k = some v
  due : ∀ m k v, n ≤ m → s.get k = some v → due v m → L.get t m k = some v

theorem Keeps.empty (hL : L.Lawful) : L.Keeps due L.empty n (∅ : Storage K V) where
  sound m k v _ hget := by
    rw [hL.get_empty] at hget
    cases hget
  due m k v _ hget _ := by
    rw [Storage.get_empty] at hget
    cases hget

/-- Time passes. -/
theorem Keeps.later (h : L.Keeps due t n s) (hle : n ≤ m) : L.Keeps due t m s where
  sound m' k v hm' := h.sound m' k v (le_trans (MInt.le_def.1 hle) (MInt.le_def.1 hm'))
  due m' k v hm' := h.due m' k v (le_trans (MInt.le_def.1 hle) (MInt.le_def.1 hm'))

/-- A value is written that is not due for longer than the entry lives. -/
theorem Keeps.set (hL : L.Lawful) (h : L.Keeps due t n s)
    (hlives : ∀ m, n ≤ m → due v m → ∃ w, L.get t m k = some w) : L.Keeps due (L.set t n k v) n (s.set k v) where
  sound m k' w hm hget := by
    rw [Storage.get_set]
    split
    · rename_i hk
      rw [hk] at hget
      rw [hL.eq_of_get_set t n m k v w hm hget]
    · rename_i hk
      rw [hL.get_set_of_ne t n m k k' v hk] at hget
      exact h.sound m k' w hm hget
  due m k' w hm hget hdue := by
    rw [Storage.get_set] at hget
    split at hget
    · rename_i hk
      cases hget
      obtain ⟨w', hw'⟩ := hlives m hm hdue
      rw [hk]
      exact hL.get_set_of_lives t n m k v w' hm hw'
    · rename_i hk
      rw [hL.get_set_of_ne t n m k k' v hk]
      exact h.due m k' w hm hget hdue

/-- A value is written and its time prolonged by `e`, as long as it is due. -/
theorem Keeps.extended (hL : L.Lawful) (h : L.Keeps due t n s) {e : U32}
    (hextend : L.extendTtl (L.set t n k v) n k e e = some t') (hdue : ∀ m, due v m → m.val ≤ n.val + e.val) :
    L.Keeps due t' n (s.set k v) where
  sound m k' w hm hget := by
    have hget' := hL.get_of_extend _ n m k e e t' hextend hm k' w hget
    rw [Storage.get_set]
    split
    · rename_i hk
      rw [hk, hL.get_set_self] at hget'
      exact hget'
    · rename_i hk
      rw [hL.get_set_of_ne t n n k k' v hk] at hget'
      exact h.sound n k' w (le_refl n.val) hget'
  due m k' w hm hget hdue' := by
    rw [Storage.get_set] at hget
    split at hget
    · rename_i hk
      cases hget
      rw [hk]
      apply hL.get_extend _ n m k e e t' v hextend (hL.get_set_self t n k v) hm
      rw [min_self]
      exact hdue m hdue'
    · rename_i hk
      rw [hL.get_extend_of_ne _ n m k e e t' k' hextend hk, hL.get_set_of_ne t n m k k' v hk]
      exact h.due m k' w hm hget hdue'

end Keeps

/-! ## Entries with a last ledger -/

section Entries

/-- What an entry shows at ledger `n`: nothing after its last ledger. -/
def liveAt (n : U32) (e : V × Int) : Option V := if n.val ≤ e.2 then some e.1 else none

theorem liveAt_eq_some {n : U32} {e : V × Int} {v : V} : liveAt n e = some v ↔ n.val ≤ e.2 ∧ e.1 = v := by
  simp [liveAt]

/-- The last ledger of an entry that is written at ledger `n`. -/
def lastAfter (n minTtl : U32) : Option (V × Int) → Int
  | some e => if n.val ≤ e.2 then e.2 else n.val + minTtl.val
  | none => n.val + minTtl.val

theorem le_lastAfter (n minTtl : U32) (o : Option (V × Int)) : n.val ≤ lastAfter n minTtl o := by
  have hmin := minTtl.lo_le
  unfold lastAfter
  split
  · split <;> omega
  · omega

theorem le_lastAfter_of_live {n m minTtl : U32} {o : Option (V × Int)} {v : V} (hle : n ≤ m)
    (hlive : o.bind (liveAt m) = some v) : m.val ≤ lastAfter n minTtl o := by
  obtain ⟨e, rfl, he⟩ := Option.bind_eq_some_iff.1 hlive
  have hlast := (liveAt_eq_some.1 he).1
  have hle' := MInt.le_def.1 hle
  show m.val ≤ if n.val ≤ e.2 then e.2 else n.val + minTtl.val
  rw [if_pos (by omega)]
  exact hlast

variable [DecidableEq K]

/-- A new entry lives for `minTtl` ledgers more, and no entry is prolonged by more than `maxTtl`. -/
def entries (K V : Type) [DecidableEq K] (minTtl maxTtl : U32) : Lapsing (Storage K (V × Int)) K V where
  empty := ∅
  get t n k := (t.get k).bind (liveAt n)
  set t n k v := t.set k (v, lastAfter n minTtl (t.get k))
  extendTtl t n k threshold extendTo :=
    (t.get k).bind fun e =>
      if e.2 < n.val ∨ maxTtl < extendTo then none
      else if e.2 < n.val + threshold.val then some (t.set k (e.1, max e.2 (n.val + extendTo.val)))
      else some t

/-- What an extension leaves: the value, and a last ledger that is not before the old one nor too early. -/
theorem extendTtl_eq_some {minTtl maxTtl : U32} {t t' : Storage K (V × Int)} {n : U32} {k : K} {th e : U32}
    (h : (entries K V minTtl maxTtl).extendTtl t n k th e = some t') :
    ∃ v last last', t.get k = some (v, last) ∧ t' = t.set k (v, last') ∧ n.val ≤ last ∧
      n.val + min th.val e.val ≤ last' := by
  obtain ⟨⟨v, last⟩, hk, hif⟩ := Option.bind_eq_some_iff.1 h
  split at hif
  · cases hif
  · rename_i hlives
    split at hif
    · cases hif
      exact ⟨v, last, _, hk, rfl, by omega, by omega⟩
    · cases hif
      exact ⟨v, last, last, hk, (Storage.set_of_get hk).symm, by omega, by omega⟩

theorem entries_lawful (minTtl maxTtl : U32) : (entries K V minTtl maxTtl).Lawful where
  get_empty n k := by simp [entries]
  get_set_self t n k v := by
    have hle := le_lastAfter n minTtl (t.get k)
    simp [entries, liveAt_eq_some, hle]
  get_set_of_ne t n m k k' v hne := by simp [entries, Storage.get_set_of_ne, hne]
  eq_of_get_set t n m k v w _ hget := by
    simp only [entries, Storage.get_set_self, Option.bind_some, liveAt_eq_some] at hget
    exact hget.2.symm
  get_set_of_lives t n m k v w hle hget := by
    have hlast : m.val ≤ lastAfter n minTtl (t.get k) := le_lastAfter_of_live hle hget
    simp [entries, liveAt_eq_some, hlast]
  get_of_extend t n m k th e t' hextend hle k' v hget := by
    obtain ⟨w, last, last', hk, rfl, hlives, -⟩ := extendTtl_eq_some hextend
    have hle' := MInt.le_def.1 hle
    by_cases hkk : k' = k
    · subst hkk
      simp only [entries, Storage.get_set_self, Option.bind_some, liveAt_eq_some] at hget
      simp [entries, hk, liveAt_eq_some, hlives, hget.2]
    · simp only [entries, Storage.get_set_of_ne _ _ hkk] at hget
      obtain ⟨e', he', hlive⟩ := Option.bind_eq_some_iff.1 hget
      obtain ⟨hlast, rfl⟩ := liveAt_eq_some.1 hlive
      simp only [entries, he', Option.bind_some, liveAt_eq_some, and_true]
      omega
  get_extend_of_ne t n m k th e t' k' hextend hne := by
    obtain ⟨w, last, last', -, rfl, -, -⟩ := extendTtl_eq_some hextend
    simp [entries, Storage.get_set_of_ne, hne]
  get_extend t n m k th e t' v hextend hget hle hm := by
    obtain ⟨w, last, last', hk, rfl, hlives, hlast⟩ := extendTtl_eq_some hextend
    obtain ⟨e', he', hlive⟩ := Option.bind_eq_some_iff.1 hget
    obtain rfl : e' = (w, last) := Option.some.inj (he'.symm.trans hk)
    obtain ⟨-, rfl⟩ := liveAt_eq_some.1 hlive
    have hreach : m.val ≤ last' := by omega
    simp [entries, liveAt_eq_some, hreach]

end Entries

end Lapsing

end Lib

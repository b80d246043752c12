import StellarRwa.Lib.Storage
import StellarRwa.Lib.System

/-!
# Indexers

An indexer follows a system by its event log alone. It keeps a picture of the state, changes it with every event, and
stops at an event that does not fit the picture. When every answered call logs events that turn a picture of the state
before the call into one of the state after it, the log of every run is read to its end, and what is left is a picture
of the state that was reached (`Indexer.run_followed`).

A picture of a storage has the same keys, with values that are related to those in the storage (`Related`).
-/

namespace Lib

/-- A picture to begin with, and what an event makes of a picture; nothing when the event does not fit. -/
structure Indexer (V E : Type) where
  blank : V
  read : V → E → Option V

namespace Indexer

variable {V E S L R : Type} (D : Indexer V E)

/-- Read a log event by event. -/
def readAll (v : V) (es : List E) : Option V := es.foldlM D.read v

@[simp] theorem readAll_nil (v : V) : D.readAll v [] = some v := rfl

@[simp] theorem readAll_cons (v : V) (e : E) (es : List E) :
    D.readAll v (e :: es) = (D.read v e).bind fun v' => D.readAll v' es := List.foldlM_cons

theorem readAll_append (v : V) (es es' : List E) :
    D.readAll v (es ++ es') = (D.readAll v es).bind fun v' => D.readAll v' es' := List.foldlM_append

theorem readAll_singleton (v : V) (e : E) : D.readAll v [e] = D.read v e := by
  simp

/-- From `s` to `s'` the log grew by events that turn the picture `v` into a picture of `s'`. -/
def Follows (log : S → List E) (Q : V → S → Prop) (v : V) (s s' : S) : Prop :=
  ∃ es v', log s' = log s ++ es ∧ D.readAll v es = some v' ∧ Q v' s'

variable {D} {log : S → List E} {Q : V → S → Prop} {v v' : V} {s s' s'' : S}

theorem Follows.silent (hlog : log s' = log s) (hv : Q v s') : D.Follows log Q v s s' :=
  ⟨[], v, by rw [hlog, List.append_nil], rfl, hv⟩

theorem Follows.one {e : E} (hlog : log s' = log s ++ [e]) (hread : D.read v e = some v') (hv : Q v' s') :
    D.Follows log Q v s s' := by
  refine ⟨[e], v', hlog, ?_, hv⟩
  rw [readAll_singleton]
  exact hread

theorem Follows.trans (h₁ : D.Follows log Q v s s') (h₂ : ∀ v', Q v' s' → D.Follows log Q v' s' s'') :
    D.Follows log Q v s s'' := by
  obtain ⟨es, v', hlog, hread, hv'⟩ := h₁
  obtain ⟨es', v'', hlog', hread', hv''⟩ := h₂ v' hv'
  refine ⟨es ++ es', v'', by rw [hlog', hlog, List.append_assoc], ?_, hv''⟩
  rw [readAll_append, hread]
  exact hread'

/-- **The rule for indexers.** -/
theorem run_followed {M : System S L R} {s₀ : S} (hlog : log s₀ = []) (init : Q D.blank s₀)
    (step : ∀ v s l r s', Q v s → M.step s l = some (r, s') → D.Follows log Q v s s') (ls : List L) :
    ∃ v, D.readAll D.blank (log (M.run s₀ ls)) = some v ∧ Q v (M.run s₀ ls) := by
  have hall : D.Follows log Q D.blank s₀ (M.run s₀ ls) := by
    refine System.invariant (I := fun s => D.Follows log Q D.blank s₀ s) (.silent rfl init) ?_ ls
    intro s l r s' hs hstep
    exact hs.trans fun v hv => step v s l r s' hv hstep
  obtain ⟨es, v, hes, hread, hv⟩ := hall
  refine ⟨v, ?_, hv⟩
  rw [hes, hlog]
  exact hread

end Indexer

/-! ## Pictures of a storage -/

namespace Storage

variable {K V W : Type} [DecidableEq K] {r : V → W → Prop} {s : Storage K V} {t : Storage K W} {k : K} {v : V} {w : W}

/-- The same keys, with related values. -/
def Related (r : V → W → Prop) (s : Storage K V) (t : Storage K W) : Prop := ∀ k, Option.Rel r (s.get k) (t.get k)

theorem related_empty : Related r (∅ : Storage K V) (∅ : Storage K W) := by
  intro k
  rw [get_empty, get_empty]
  exact .none

namespace Related

/-- What is stored has a picture. -/
theorem of_get (h : Related r s t) (hw : t.get k = some w) : ∃ v, s.get k = some v ∧ r v w := by
  have hk := h k
  rw [hw] at hk
  cases hv : s.get k with
  | none =>
    rw [hv] at hk
    cases hk
  | some v =>
    rw [hv] at hk
    cases hk with
    | some hvw => exact ⟨v, rfl, hvw⟩

/-- What has a picture is stored. -/
theorem get_of (h : Related r s t) (hv : s.get k = some v) : ∃ w, t.get k = some w ∧ r v w := by
  have hk := h k
  rw [hv] at hk
  cases hw : t.get k with
  | none =>
    rw [hw] at hk
    cases hk
  | some w =>
    rw [hw] at hk
    cases hk with
    | some hvw => exact ⟨w, rfl, hvw⟩

theorem none_iff (h : Related r s t) (k : K) : s.get k = none ↔ t.get k = none := by
  have hk := h k
  constructor
  · intro hv
    rw [hv] at hk
    cases hw : t.get k with
    | none => rfl
    | some w =>
      rw [hw] at hk
      cases hk
  · intro hw
    rw [hw] at hk
    cases hv : s.get k with
    | none => rfl
    | some v =>
      rw [hv] at hk
      cases hk

theorem imp {r' : V → W → Prop} (h : Related r s t) (hr : ∀ v w, r v w → r' v w) : Related r' s t := by
  intro k
  have hk := h k
  generalize s.get k = o at hk ⊢
  generalize t.get k = o' at hk ⊢
  cases hk with
  | none => exact .none
  | some hvw => exact .some (hr _ _ hvw)

theorem set (h : Related r s t) (k : K) (hvw : r v w) : Related r (s.set k v) (t.set k w) := by
  intro k'
  rw [get_set, get_set]
  split
  · exact .some hvw
  · exact h k'

end Related

end Storage

end Lib

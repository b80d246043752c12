import StellarRwa.Lib.System
import Mathlib.Data.List.Pairwise

/-!
# Refinement

One system seen from another. When every answered call of `M` is matched by a list of calls of `N` that leads to a
related state, every run of `M` is matched by a run of `N` (`System.simulate`). Which calls may match is a `Schedule`: a
condition on the calls made between two states that composes along a run, such as that each of them meets a condition
(`Schedule.each`), that their times advance with the clock (`Schedule.timed`), or both (`Schedule.both`). When each
answered call is matched by the same call, the matching run has the calls that were answered (`System.lockstep`). Calls
that cannot be noticed may be left out of a run (`System.purge_rule`).
-/

namespace Lib

variable {S L R S' L' R' : Type}

/-- A condition on the calls made between two states that composes along a run. -/
structure Schedule (S L : Type) where
  Fits : S → List L → S → Prop
  nil : ∀ s, Fits s [] s
  append : ∀ {s₁ s₂ s₃ : S} {ks ks' : List L}, Fits s₁ ks s₂ → Fits s₂ ks' s₃ → Fits s₁ (ks ++ ks') s₃

namespace Schedule

/-- Every call meets the condition `G`. -/
def each (S : Type) (G : L → Prop) : Schedule S L where
  Fits _ ks _ := ∀ k ∈ ks, G k
  nil _ := List.forall_mem_nil _
  append h₁ h₂ := List.forall_mem_append.2 ⟨h₁, h₂⟩

/-- Both conditions. -/
def both (T T' : Schedule S L) : Schedule S L where
  Fits s ks s' := T.Fits s ks s' ∧ T'.Fits s ks s'
  nil s := ⟨T.nil s, T'.nil s⟩
  append h₁ h₂ := ⟨T.append h₁.1 h₂.1, T'.append h₁.2 h₂.2⟩

variable {τ : Type} [LE τ] [Std.IsPreorder τ] {clock : S → τ} {time : L → Option τ}

/-- The times of the calls that have one lie between the two readings of the clock and do not go back. -/
structure Timed (clock : S → τ) (time : L → Option τ) (s : S) (ks : List L) (s' : S) : Prop where
  advances : clock s ≤ clock s'
  within : ∀ t ∈ ks.filterMap time, clock s ≤ t ∧ t ≤ clock s'
  ordered : (ks.filterMap time).Pairwise fun t t' => t ≤ t'

variable (clock time) in
def timed : Schedule S L where
  Fits := Timed clock time
  nil s := ⟨Std.le_refl _, List.forall_mem_nil _, List.Pairwise.nil⟩
  append h₁ h₂ := by
    refine ⟨Std.le_trans h₁.advances h₂.advances, ?_, ?_⟩
    · rw [List.filterMap_append]
      refine List.forall_mem_append.2 ⟨fun t ht => ?_, fun t ht => ?_⟩
      · exact ⟨(h₁.within t ht).1, Std.le_trans (h₁.within t ht).2 h₂.advances⟩
      · exact ⟨Std.le_trans h₁.advances (h₂.within t ht).1, (h₂.within t ht).2⟩
    · rw [List.filterMap_append]
      refine List.pairwise_append.2 ⟨h₁.ordered, h₂.ordered, fun t ht t' ht' => ?_⟩
      exact Std.le_trans (h₁.within t ht).2 (h₂.within t' ht').1

/-- Calls that are all made at the time of the first reading. -/
theorem Timed.of_now {s s' : S} {ks : List L} (hle : clock s ≤ clock s')
    (hnow : ∀ k ∈ ks, ∀ t, time k = some t → t = clock s) : Timed clock time s ks s' := by
  have hall : ∀ t ∈ ks.filterMap time, t = clock s := by
    intro t ht
    obtain ⟨k, hk, hkt⟩ := List.mem_filterMap.1 ht
    exact hnow k hk t hkt
  refine ⟨hle, fun t ht => ?_, List.pairwise_iff_forall_sublist.2 fun {t t'} hsub => ?_⟩
  · rw [hall t ht]
    exact ⟨Std.le_refl _, hle⟩
  · have hmem := hsub.subset
    rw [hall t (hmem (by simp)), hall t' (hmem (by simp))]
    exact Std.le_refl _

end Schedule

namespace System

variable {M : System S L R} {N : System S' L' R'} {Q : S → S' → Prop}

/-- **The simulation rule.** When every answered call of `M` is matched by calls of `N`, so is every run. -/
theorem simulate (T : Schedule S L')
    (hstep : ∀ {s : S} {l : L} {r : R} {s' : S} {t : S'}, Q s t → M.step s l = some (r, s') →
      ∃ ks, T.Fits s ks s' ∧ Q s' (N.run t ks))
    {s : S} {t : S'} (hst : Q s t) (ls : List L) : ∃ ks, T.Fits s ks (M.run s ls) ∧ Q (M.run s ls) (N.run t ks) := by
  induction ls generalizing s t with
  | nil => exact ⟨[], T.nil s, hst⟩
  | cons l ls ih =>
    cases hl : M.step s l with
    | none =>
      rw [run_cons, exec_of_none hl]
      exact ih hst
    | some p =>
      obtain ⟨r, s'⟩ := p
      obtain ⟨ks, hks, hrel⟩ := hstep hst hl
      obtain ⟨ks', hks', hrel'⟩ := ih hrel
      rw [run_cons, exec_of_some hl]
      exact ⟨ks ++ ks', T.append hks hks', by rwa [run_append]⟩

/-- **The lockstep rule.** When every answered call of `M` is answered by `N`, a run of `M` is matched by the run of `N`
with the calls that were answered. -/
theorem lockstep {N : System S' L R'}
    (hstep : ∀ {s : S} {l : L} {r : R} {s' : S} {t : S'}, Q s t → M.step s l = some (r, s') →
      ∃ r' t', N.step t l = some (r', t') ∧ Q s' t')
    {s : S} {t : S'} (hst : Q s t) (ls : List L) : Q (M.run s ls) (N.run t ((M.trace s ls).map Done.label)) := by
  induction ls generalizing s t with
  | nil => exact hst
  | cons l ls ih =>
    cases hl : M.step s l with
    | none =>
      rw [run_cons, exec_of_none hl, trace_cons_of_none _ hl]
      exact ih hst
    | some p =>
      obtain ⟨r, s'⟩ := p
      obtain ⟨r', t', hl', hrel⟩ := hstep hst hl
      rw [run_cons, exec_of_some hl, trace_cons_of_some _ hl, List.map_cons, run_cons, exec_of_some hl']
      exact ih hrel

/-- **The purge rule.** When the hidden calls leave a state related to what it was related to, and any other call leads
from related states to related states, a run is related to the same run without its hidden calls. The relation may speak
of the calls still to come. -/
theorem purge_rule {hidden : L → Bool} {Q : List L → S → S → Prop}
    (hhidden : ∀ {l ls s t}, hidden l = true → Q (l :: ls) s t → Q ls (M.exec s l) t)
    (hothers : ∀ {l ls s t}, hidden l = false → Q (l :: ls) s t → Q ls (M.exec s l) (M.exec t l))
    {s t : S} {ls : List L} (hst : Q ls s t) : Q [] (M.run s ls) (M.run t (ls.filter fun l => !hidden l)) := by
  induction ls generalizing s t with
  | nil => exact hst
  | cons l ls ih =>
    cases hl : hidden l with
    | true =>
      rw [run_cons, List.filter_cons_of_neg (by simp [hl])]
      exact ih (hhidden hl hst)
    | false =>
      rw [run_cons, List.filter_cons_of_pos (by simp [hl]), run_cons]
      exact ih (hothers hl hst)

/-- A call that is answered, as a run of one call. -/
theorem run_singleton {s s' : S} {l : L} {r : R} (h : M.step s l = some (r, s')) : M.run s [l] = s' := by
  rw [run_cons, run_nil, exec_of_some h]

end System

end Lib

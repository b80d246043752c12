import StellarRwa.Lib.System

/-!
# Two-step succession

An office has a holder and possibly a nominee. The holder nominates and withdraws; the nominee accepts, and becomes the
holder. `Office.Step` says what one call does to an office, and `Succession` that every answered call of a system does
such a step. Then the nominee is, after any calls, the one that the latest move nominated, in the name of the holder
that is still in office (`Succession.Held`), so every acceptance answers the latest nomination (`Succession.orderly`).
-/

namespace Lib

/-- An office and who is to take it next. -/
structure Office (P : Type) where
  holder : Option P
  nominee : Option P

/-- What a call asks of an office. -/
inductive Act (P : Type)
  | start (a : P)
  | nominate (a b : P)
  | withdraw (a : P)
  | accept (b : P)

/-- The acts between which a nomination stays alive. -/
def Act.moves {P : Type} : Act P → Bool
  | .start _ => false
  | _ => true

def Act.starts {P : Type} : Act P → Bool
  | .start _ => true
  | _ => false

/-- What an answered call does to the office `o`, given who has signed it. -/
inductive Office.Step {P : Type} (signed : P → Prop) (o : Office P) : Option (Act P) → Office P → Prop
  | idle : Step signed o none o
  | started {a : P} (hvacant : o.holder = none) (hsigned : signed a) :
    Step signed o (some (.start a)) ⟨some a, o.nominee⟩
  | nominated {a b : P} (hholder : o.holder = some a) (hsigned : signed a) :
    Step signed o (some (.nominate a b)) ⟨o.holder, some b⟩
  | withdrawn {a : P} (hholder : o.holder = some a) (hsigned : signed a) :
    Step signed o (some (.withdraw a)) ⟨o.holder, none⟩
  | accepted {a b : P} (hholder : o.holder = some a) (hnominee : o.nominee = some b) (hsigned : signed b) :
    Step signed o (some (.accept b)) ⟨some b, none⟩

/-- A holder was in office before or has signed. -/
theorem Office.Step.holder_signed {P : Type} {signed : P → Prop} {o o' : Office P} {act : Option (Act P)} {a : P}
    (h : o.Step signed act o') (ha : o'.holder = some a) : o.holder = some a ∨ signed a := by
  cases h with
  | idle => exact .inl ha
  | started _ hsigned =>
    cases ha
    exact .inr hsigned
  | nominated _ _ => exact .inl ha
  | withdrawn _ _ => exact .inl ha
  | accepted _ _ hsigned =>
    cases ha
    exact .inr hsigned

/-- A system whose states hold an office. -/
structure Succession {S L R : Type} (M : System S L R) (P : Type) where
  office : S → Office P
  act : L → Option (Act P)
  signed : L → P → Prop
  step : ∀ {s l r s'}, M.step s l = some (r, s') → (office s).Step (signed l) (act l) (office s')

namespace Succession

variable {S L R P : Type} {M : System S L R} (v : Succession M P)

/-- The record, when its call nominated, withdrew or accepted. -/
def move (d : Done S L R) : Option (Done S L R) := if (v.act d.label).any Act.moves then some d else none

/-- The call took the vacant office. -/
def starts (d : Done S L R) : Bool := (v.act d.label).any Act.starts

/-- The record `d` is a nomination of `b` by `a`, its holder at that time. -/
structure Nominated (d : Done S L R) (a b : P) : Prop where
  act : v.act d.label = some (.nominate a b)
  signed : v.signed d.label a
  holder : (v.office d.pre).holder = some a

/-- A history in which the office changed hands in order: it was started once at most, its holder changed by an
acceptance only, and every acceptance was signed by the new holder and answered the latest move before it, which was a
nomination by the holder of then and now. -/
structure Orderly (tr : List (Done S L R)) : Prop where
  started : tr.countP v.starts ≤ 1
  changed : ∀ d ∈ tr, (v.office d.post).holder ≠ (v.office d.pre).holder →
    ((v.office d.pre).holder = none ∧ ∃ a, v.act d.label = some (.start a)) ∨ ∃ b, v.act d.label = some (.accept b)
  accepted : ∀ tr₁ d tr₂ b, tr = tr₁ ++ d :: tr₂ → v.act d.label = some (.accept b) →
    v.signed d.label b ∧ (v.office d.post).holder = some b ∧
      ∃ p a, latest v.move tr₁ = some p ∧ v.Nominated p a b ∧ (v.office d.pre).holder = some a

/-- The office against the history. -/
structure Held (tr : List (Done S L R)) (o : Office P) : Prop where
  nominee : ∀ b, o.nominee = some b → ∃ p a, latest v.move tr = some p ∧ v.Nominated p a b ∧ o.holder = some a
  started : tr.countP v.starts = if o.holder.isSome then 1 else 0

variable {v}

theorem held_vacant {o : Office P} (ho : o = ⟨none, none⟩) : v.Held [] o := by
  subst ho
  exact ⟨fun b hb => (by cases hb), rfl⟩

/-- **One answered call** keeps the office on its history. -/
theorem Held.step {tr : List (Done S L R)} {d : Done S L R} (hh : v.Held tr (v.office d.pre))
    (hs : (v.office d.pre).Step (v.signed d.label) (v.act d.label) (v.office d.post)) :
    v.Held (tr ++ [d]) (v.office d.post) := by
  have hstarts : (tr ++ [d]).countP v.starts =
      (if (v.office d.pre).holder.isSome then 1 else 0) + if v.starts d then 1 else 0 := by
    rw [List.countP_append, hh.started, List.countP_singleton]
  have hmove := latest_concat v.move tr d
  generalize hact : v.act d.label = act at hs
  generalize ho : v.office d.post = o' at hs
  cases hs with
  | idle =>
    have hno : v.move d = none := by simp [move, hact]
    refine ⟨fun b hb => ?_, by simp [hstarts, starts, hact]⟩
    rw [hmove, hno, Option.none_or]
    exact hh.nominee b hb
  | started hvacant hsigned =>
    have hno : v.move d = none := by simp [move, hact, Act.moves]
    refine ⟨fun b hb => ?_, by simp [hstarts, starts, hact, hvacant, Act.starts]⟩
    obtain ⟨p, a, -, -, hholder⟩ := hh.nominee b hb
    cases hvacant.symm.trans hholder
  | nominated hholder hsigned =>
    have hyes : v.move d = some d := by simp [move, hact, Act.moves]
    refine ⟨fun b hb => ?_, by simp [hstarts, starts, hact, hholder, Act.starts]⟩
    cases hb
    exact ⟨d, _, by rw [hmove, hyes, Option.some_or], ⟨hact, hsigned, hholder⟩, hholder⟩
  | withdrawn hholder hsigned =>
    exact ⟨fun b hb => (by cases hb), by simp [hstarts, starts, hact, hholder, Act.starts]⟩
  | accepted hholder hnominee hsigned =>
    exact ⟨fun b hb => (by cases hb), by simp [hstarts, starts, hact, hholder, Act.starts]⟩

theorem Orderly.nil : v.Orderly [] where
  started := Nat.zero_le _
  changed d hd := by cases hd
  accepted tr₁ d tr₂ b h := by simp at h

theorem Orderly.step {tr : List (Done S L R)} {d : Done S L R} (ho : v.Orderly tr) (hh : v.Held tr (v.office d.pre))
    (hh' : v.Held (tr ++ [d]) (v.office d.post))
    (hs : (v.office d.pre).Step (v.signed d.label) (v.act d.label) (v.office d.post)) : v.Orderly (tr ++ [d]) where
  started := by
    rw [hh'.started]
    split <;> omega
  changed := by
    refine forall_mem_concat ho.changed fun hne => ?_
    generalize v.act d.label = act at hs
    generalize v.office d.post = o' at hs hne
    cases hs with
    | idle => exact absurd rfl hne
    | started hvacant _ => exact .inl ⟨hvacant, _, rfl⟩
    | nominated hholder _ => exact absurd rfl hne
    | withdrawn hholder _ => exact absurd rfl hne
    | accepted _ _ _ => exact .inr ⟨_, rfl⟩
  accepted tr₁ d' tr₂ b hsplit hacc := by
    rcases concat_eq_split hsplit with ⟨rfl, rfl, rfl⟩ | ⟨tr₃, rfl, rfl⟩
    · rw [hacc] at hs
      generalize hpost : v.office d.post = o' at hs
      cases hs with
      | accepted hholder hnominee hsigned =>
        obtain ⟨p, a, hlast, hnom, hholder'⟩ := hh.nominee b hnominee
        exact ⟨hsigned, rfl, p, a, hlast, hnom, hholder'⟩
    · exact ho.accepted tr₁ d' tr₃ b rfl hacc

/-- **Every run is orderly** when it starts with a vacant office. -/
theorem orderly {s₀ : S} (hvacant : v.office s₀ = ⟨none, none⟩) (ls : List L) : v.Orderly (M.trace s₀ ls) := by
  have hrun : v.Orderly (M.trace s₀ ls) ∧ v.Held (M.trace s₀ ls) (v.office (M.run s₀ ls)) := by
    refine System.run_rule (P := fun tr s => v.Orderly tr ∧ v.Held tr (v.office s)) ⟨.nil, held_vacant hvacant⟩ ?_ ls
    intro tr s l r s' hP hstep
    have hs := v.step hstep
    have hh' := Held.step (d := ⟨s, l, r, s'⟩) hP.2 hs
    exact ⟨Orderly.step (d := ⟨s, l, r, s'⟩) hP.1 hP.2 hh' hs, hh'⟩
  exact hrun.1

end Succession

end Lib

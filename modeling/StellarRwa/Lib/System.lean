import Mathlib.Data.List.Induction
import Mathlib.Tactic.Common

/-!
# Systems of calls and their runs

A system answers a call `l` in a state `s` with a result and a new state, or not at all; a call that is not answered
changes nothing. `run` performs a list of calls, `trace` records those that were answered. What holds before any call
and is kept by every answered call holds of every run (`run_rule`, and `run_rule_on` when only some calls are answered);
calls that each bring a measure down lead to a goal (`progress_answered`, `progress`). A call that is repeated is
answered until it is not, and then never again (`answered_of_le`).

`latest` and `earliest` ask a trace for the last or first record that says something, `since` for the last one and what
came after it; appending records changes them as expected (`latest_append`, `latest_concat`, `earliest_concat`,
`since_concat`).
-/

namespace Lib

/-- A system of calls. -/
structure System (S L R : Type) where
  step : S → L → Option (R × S)

/-- The record of an answered call. -/
structure Done (S L R : Type) where
  pre : S
  label : L
  result : R
  post : S

namespace System

variable {S L R : Type} (M : System S L R)

/-- One call; unanswered calls change nothing. -/
def exec (s : S) (l : L) : S :=
  match M.step s l with
  | some (_, s') => s'
  | none => s

/-- The state after a list of calls. -/
def run (s : S) (ls : List L) : S := ls.foldl M.exec s

/-- The records of the answered calls, oldest first. -/
def trace : S → List L → List (Done S L R)
  | _, [] => []
  | s, l :: ls =>
    match M.step s l with
    | some (r, s') => ⟨s, l, r, s'⟩ :: trace s' ls
    | none => trace s ls

variable {M}

theorem exec_of_some {s s' : S} {l : L} {r : R} (h : M.step s l = some (r, s')) : M.exec s l = s' := by
  simp [exec, h]

theorem exec_of_none {s : S} {l : L} (h : M.step s l = none) : M.exec s l = s := by
  simp [exec, h]

@[simp] theorem run_nil (s : S) : M.run s [] = s := rfl

@[simp] theorem run_cons (s : S) (l : L) (ls : List L) : M.run s (l :: ls) = M.run (M.exec s l) ls := rfl

theorem run_append (s : S) (ls ls' : List L) : M.run s (ls ++ ls') = M.run (M.run s ls) ls' := by
  simp [run, List.foldl_append]

/-- One more of the same call. -/
theorem run_replicate_succ (s : S) (l : L) (n : ℕ) :
    M.run s (List.replicate (n + 1) l) = M.exec (M.run s (List.replicate n l)) l := by
  rw [List.replicate_succ', run_append, run_cons, run_nil]

/-- A call that is not answered will not be, however often it is repeated. -/
theorem run_replicate_of_none {s : S} {l : L} (h : M.step s l = none) (n : ℕ) :
    M.run s (List.replicate n l) = s := by
  induction n with
  | zero => rfl
  | succ n ih => rw [run_replicate_succ, ih, exec_of_none h]

/-- When a repeated call is answered, it was answered every time before. -/
theorem answered_of_le {s : S} {l : L} {i j : ℕ} (hle : i ≤ j)
    (h : M.step (M.run s (List.replicate j l)) l ≠ none) : M.step (M.run s (List.replicate i l)) l ≠ none := by
  intro hnone
  obtain ⟨n, rfl⟩ := Nat.exists_eq_add_of_le hle
  rw [← List.replicate_append_replicate, run_append, run_replicate_of_none hnone] at h
  exact h hnone

@[simp] theorem trace_nil (s : S) : M.trace s [] = [] := rfl

theorem trace_cons_of_some {s s' : S} {l : L} {r : R} (ls : List L) (h : M.step s l = some (r, s')) :
    M.trace s (l :: ls) = ⟨s, l, r, s'⟩ :: M.trace s' ls := by
  simp [trace, h]

theorem trace_cons_of_none {s : S} {l : L} (ls : List L) (h : M.step s l = none) :
    M.trace s (l :: ls) = M.trace s ls := by
  simp [trace, h]

theorem trace_append : ∀ (s : S) (ls ls' : List L),
    M.trace s (ls ++ ls') = M.trace s ls ++ M.trace (M.run s ls) ls'
  | _, [], _ => rfl
  | s, l :: ls, ls' => by
    cases h : M.step s l with
    | none =>
      rw [List.cons_append, trace_cons_of_none _ h, trace_cons_of_none _ h, run_cons, exec_of_none h,
        trace_append s ls ls']
    | some p =>
      obtain ⟨r, s'⟩ := p
      rw [List.cons_append, trace_cons_of_some _ h, trace_cons_of_some _ h, run_cons, exec_of_some h,
        trace_append s' ls ls', List.cons_append]

/-- **The rule for runs.** What holds at the start and is kept by every answered call with `G` holds of every run whose
answered calls all have `G`. -/
theorem run_rule_on {s₀ : S} {G : Done S L R → Prop} {P : List (Done S L R) → S → Prop} (init : P [] s₀)
    (step : ∀ tr s l r s', G ⟨s, l, r, s'⟩ → P tr s → M.step s l = some (r, s') → P (tr ++ [⟨s, l, r, s'⟩]) s')
    (ls : List L) (hG : ∀ d ∈ M.trace s₀ ls, G d) : P (M.trace s₀ ls) (M.run s₀ ls) := by
  induction ls using List.reverseRecOn with
  | nil => exact init
  | append_singleton ls l ih =>
    rw [trace_append] at hG ⊢
    rw [run_append]
    have ih' := ih fun d hd => hG d (List.mem_append_left _ hd)
    cases h : M.step (M.run s₀ ls) l with
    | none => simpa [trace_cons_of_none _ h, exec_of_none h] using ih'
    | some p =>
      obtain ⟨r, s'⟩ := p
      rw [trace_cons_of_some _ h, trace_nil] at hG ⊢
      rw [run_cons, exec_of_some h, run_nil]
      exact step _ _ l r s' (hG _ (by simp)) ih' h

/-- The rule for all runs. -/
theorem run_rule {s₀ : S} {P : List (Done S L R) → S → Prop} (init : P [] s₀)
    (step : ∀ tr s l r s', P tr s → M.step s l = some (r, s') → P (tr ++ [⟨s, l, r, s'⟩]) s') (ls : List L) :
    P (M.trace s₀ ls) (M.run s₀ ls) :=
  run_rule_on (G := fun _ => True) init (fun tr s l r s' _ => step tr s l r s') ls fun _ _ => trivial

/-- The rule for invariants: no history. -/
theorem invariant {s₀ : S} {I : S → Prop} (init : I s₀)
    (step : ∀ s l r s', I s → M.step s l = some (r, s') → I s') (ls : List L) : I (M.run s₀ ls) :=
  run_rule (P := fun _ => I) init (fun _ s l r s' => step s l r s') ls

/-- Every call of the list is answered. -/
def Answers (M : System S L R) : S → List L → Prop
  | _, [] => True
  | s, l :: ls => ∃ r s', M.step s l = some (r, s') ∧ Answers M s' ls

theorem answers_append {s : S} {ls ls' : List L} :
    M.Answers s (ls ++ ls') ↔ M.Answers s ls ∧ M.Answers (M.run s ls) ls' := by
  induction ls generalizing s with
  | nil => simp [Answers]
  | cons l ls ih =>
    constructor
    · rintro ⟨r, s', hstep, hrest⟩
      rw [run_cons, exec_of_some hstep]
      exact ⟨⟨r, s', hstep, (ih.1 hrest).1⟩, (ih.1 hrest).2⟩
    · rintro ⟨⟨r, s', hstep, hleft⟩, hright⟩
      rw [run_cons, exec_of_some hstep] at hright
      exact ⟨r, s', hstep, ih.2 ⟨hleft, hright⟩⟩

/-- What every answered call with `G` keeps, a list of them keeps when all are answered. -/
theorem Answers.invariant {G : L → Prop} {I : S → Prop}
    (step : ∀ s l r s', G l → I s → M.step s l = some (r, s') → I s') {s : S} {ls : List L} (hs : I s)
    (hG : ∀ l ∈ ls, G l) (hls : M.Answers s ls) : I (M.run s ls) := by
  induction ls generalizing s with
  | nil => exact hs
  | cons l ls ih =>
    obtain ⟨r, s', hstep, hls⟩ := hls
    obtain ⟨hl, hG⟩ := List.forall_mem_cons.1 hG
    rw [run_cons, exec_of_some hstep]
    exact ih (step s l r s' hl hs hstep) hG hls

/-- **The rule for progress.** When from every state with `I` some call with `G` reaches the goal `Q`, or keeps `I` and
lowers the measure, then calls with `G` reach the goal, and all are answered. -/
theorem progress_answered {G : L → Prop} {I Q : S → Prop} (m : S → Nat)
    (step : ∀ s, I s → ∃ l r s', G l ∧ M.step s l = some (r, s') ∧ (Q s' ∨ I s' ∧ m s' < m s)) {s : S} (hs : I s) :
    ∃ ls, (∀ l ∈ ls, G l) ∧ M.Answers s ls ∧ Q (M.run s ls) := by
  induction hn : m s using Nat.strongRecOn generalizing s with
  | ind n ih =>
    obtain ⟨l, r, s', hl, hstep, hgoal | ⟨hs', hlt⟩⟩ := step s hs
    · exact ⟨[l], by simpa using hl, ⟨r, s', hstep, trivial⟩, by rwa [run_cons, exec_of_some hstep]⟩
    · obtain ⟨ls, hls, hanswers, hgoal⟩ := ih (m s') (hn ▸ hlt) hs' rfl
      exact ⟨l :: ls, List.forall_mem_cons.2 ⟨hl, hls⟩, ⟨r, s', hstep, hanswers⟩,
        by rwa [run_cons, exec_of_some hstep]⟩

theorem progress {G : L → Prop} {I Q : S → Prop} (m : S → Nat)
    (step : ∀ s, I s → ∃ l r s', G l ∧ M.step s l = some (r, s') ∧ (Q s' ∨ I s' ∧ m s' < m s)) {s : S} (hs : I s) :
    ∃ ls, (∀ l ∈ ls, G l) ∧ Q (M.run s ls) := by
  obtain ⟨ls, hls, -, hgoal⟩ := progress_answered m step hs
  exact ⟨ls, hls, hgoal⟩

/-- Every record of a run is an answered call made in a state that the run passed through. -/
theorem mem_trace {s₀ : S} {ls : List L} {d : Done S L R} (h : d ∈ M.trace s₀ ls) :
    M.step d.pre d.label = some (d.result, d.post) ∧ ∃ ls₁ ls₂, ls = ls₁ ++ d.label :: ls₂ ∧ d.pre = M.run s₀ ls₁ := by
  induction ls generalizing s₀ with
  | nil => cases h
  | cons l ls ih =>
    cases hs : M.step s₀ l with
    | none =>
      rw [trace_cons_of_none _ hs] at h
      obtain ⟨h₁, ls₁, ls₂, rfl, h₃⟩ := ih h
      exact ⟨h₁, l :: ls₁, ls₂, rfl, by rw [run_cons, exec_of_none hs, h₃]⟩
    | some p =>
      obtain ⟨r, s'⟩ := p
      rw [trace_cons_of_some _ hs] at h
      rcases List.mem_cons.1 h with rfl | h
      · exact ⟨hs, [], ls, rfl, rfl⟩
      · obtain ⟨h₁, ls₁, ls₂, rfl, h₃⟩ := ih h
        exact ⟨h₁, l :: ls₁, ls₂, rfl, by rw [run_cons, exec_of_some hs, h₃]⟩

/-- A last call that is answered is the last record. -/
theorem mem_trace_last {s₀ s' : S} {ls : List L} {l : L} {r : R} (h : M.step (M.run s₀ ls) l = some (r, s')) :
    ⟨M.run s₀ ls, l, r, s'⟩ ∈ M.trace s₀ (ls ++ [l]) := by
  rw [trace_append, trace_cons_of_some _ h]
  exact List.mem_append_right _ List.mem_cons_self

/-- The calls of a trace are calls of the run. -/
theorem label_mem {s₀ : S} {ls : List L} {d : Done S L R} (h : d ∈ M.trace s₀ ls) : d.label ∈ ls := by
  obtain ⟨-, ls₁, ls₂, rfl, -⟩ := mem_trace h
  simp

/-- What no answered call changes, the run does not change. -/
theorem run_eq_of_trace {α : Type} (f : S → α) {s : S} {ls : List L} (h : ∀ d ∈ M.trace s ls, f d.post = f d.pre) :
    f (M.run s ls) = f s := by
  induction ls generalizing s with
  | nil => rfl
  | cons l ls ih =>
    cases hs : M.step s l with
    | none =>
      rw [trace_cons_of_none _ hs] at h
      rw [run_cons, exec_of_none hs]
      exact ih h
    | some p =>
      obtain ⟨r, s'⟩ := p
      rw [trace_cons_of_some _ hs] at h
      rw [run_cons, exec_of_some hs, ih fun d hd => h d (List.mem_cons_of_mem _ hd)]
      exact h _ List.mem_cons_self

end System

/-! ## Asking a history -/

section History

variable {α β : Type}

/-- What holds of all elements so far and of the last one holds of all. -/
theorem forall_mem_concat {p : α → Prop} {l : List α} {b : α} (hl : ∀ a ∈ l, p a) (hb : p b) : ∀ a ∈ l ++ [b], p a :=
  List.forall_mem_append.2 ⟨hl, List.forall_mem_singleton.2 hb⟩

/-- A split of two lists, one after the other: it is in the second, or in the first. -/
theorem append_eq_split {l l' l₁ l₂ : List α} {a : α} (h : l ++ l' = l₁ ++ a :: l₂) :
    (∃ l₃, l₁ = l ++ l₃ ∧ l' = l₃ ++ a :: l₂) ∨ ∃ l₃, l = l₁ ++ a :: l₃ ∧ l₂ = l₃ ++ l' := by
  rcases List.append_eq_append_iff.1 h with ⟨l₃, h₁, h₂⟩ | ⟨l₃, h₁, h₂⟩
  · exact .inl ⟨l₃, h₁, h₂⟩
  · cases l₃ with
    | nil => exact .inl ⟨[], by simpa using h₁.symm, by simpa using h₂.symm⟩
    | cons c l₃ =>
      obtain ⟨rfl, rfl⟩ := List.cons_eq_cons.1 h₂
      exact .inr ⟨l₃, h₁, rfl⟩

/-- A split of a list with one more element at the end: the split is there, or further to the left. -/
theorem concat_eq_split {l l₁ l₂ : List α} {a b : α} (h : l ++ [b] = l₁ ++ a :: l₂) :
    (l = l₁ ∧ b = a ∧ l₂ = []) ∨ ∃ l₃, l = l₁ ++ a :: l₃ ∧ l₂ = l₃ ++ [b] := by
  rcases append_eq_split h with ⟨l₃, h₁, h₂⟩ | hleft
  · cases l₃ with
    | nil =>
      obtain ⟨rfl, rfl⟩ := List.cons_eq_cons.1 h₂
      exact .inl ⟨by simpa using h₁.symm, rfl, rfl⟩
    | cons c l₃ => simp at h₂
  · exact .inr hleft

/-- What the last element that says something says. -/
def latest (f : α → Option β) (l : List α) : Option β := (l.filterMap f).getLast?

/-- What the first element that says something says. -/
def earliest (f : α → Option β) (l : List α) : Option β := (l.filterMap f).head?

@[simp] theorem latest_nil (f : α → Option β) : latest f [] = none := rfl

@[simp] theorem earliest_nil (f : α → Option β) : earliest f [] = none := rfl

theorem latest_append (f : α → Option β) (l l' : List α) : latest f (l ++ l') = (latest f l').or (latest f l) := by
  unfold latest
  rw [List.filterMap_append, List.getLast?_append]

theorem latest_eq_none {f : α → Option β} {l : List α} (h : ∀ a ∈ l, f a = none) : latest f l = none := by
  rw [latest, List.filterMap_eq_nil_iff.2 h, List.getLast?_nil]

/-- What the last element says is said by an element. -/
theorem exists_of_latest {f : α → Option β} {l : List α} {b : β} (h : latest f l = some b) : ∃ a ∈ l, f a = some b :=
  List.mem_filterMap.1 (List.mem_of_getLast? h)

theorem latest_concat (f : α → Option β) (l : List α) (a : α) : latest f (l ++ [a]) = (f a).or (latest f l) := by
  unfold latest
  rw [List.filterMap_append, List.getLast?_append]
  cases h : f a <;> simp [h]

theorem latest_cons (f : α → Option β) (a : α) (l : List α) : latest f (a :: l) = (latest f l).or (f a) := by
  unfold latest
  cases h : f a with
  | none => simp [h]
  | some b => simp [h, List.getLast?_cons, Option.or_some]

theorem earliest_concat (f : α → Option β) (l : List α) (a : α) :
    earliest f (l ++ [a]) = (earliest f l).or (f a) := by
  unfold earliest
  rw [List.filterMap_append, List.head?_append]
  cases h : f a <;> simp [h]

/-- What the last element that says something says, and the elements after it. -/
def since (f : α → Option β) : List α → Option (β × List α)
  | [] => none
  | a :: l => (since f l).or ((f a).map fun b => (b, l))

@[simp] theorem since_nil (f : α → Option β) : since f [] = none := rfl

theorem since_concat_of_some {f : α → Option β} {a : α} {b : β} (h : f a = some b) (l : List α) :
    since f (l ++ [a]) = some (b, []) := by
  induction l with
  | nil => simp [since, h]
  | cons c l ih => simp [since, ih]

theorem since_concat_of_none {f : α → Option β} {a : α} (h : f a = none) (l : List α) :
    since f (l ++ [a]) = (since f l).map fun p => (p.1, p.2 ++ [a]) := by
  induction l with
  | nil => simp [since, h]
  | cons c l ih =>
    rw [List.cons_append, since, ih, since]
    cases since f l <;> cases f c <;> simp

theorem since_eq_none {f : α → Option β} {l : List α} (h : ∀ a ∈ l, f a = none) : since f l = none := by
  induction l with
  | nil => rfl
  | cons a l ih =>
    rw [since, ih fun c hc => h c (List.mem_cons_of_mem _ hc), h a List.mem_cons_self]
    rfl

/-- An element that says something, when none after it does. -/
theorem since_append {f : α → Option β} {a : α} {b : β} {l₂ : List α} (h : f a = some b) (h₂ : ∀ c ∈ l₂, f c = none)
    (l₁ : List α) : since f (l₁ ++ a :: l₂) = some (b, l₂) := by
  induction l₁ with
  | nil => simp [since, since_eq_none h₂, h]
  | cons c l₁ ih => simp [since, ih]

end History

end Lib

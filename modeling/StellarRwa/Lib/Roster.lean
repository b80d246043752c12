import Mathlib.Data.List.Dedup
import Mathlib.Data.List.Perm.Basic

/-!
# Rosters

A roster is a list of distinct members. A step strikes some members and appends newcomers at the end (`Roster.next`).
Kept up over a history of steps, the roster lists its members in the order of their latest enrolment: it is the list
of all enrolments with only the last of each member kept, restricted to those still on it (`Roster.next_eq`).
-/

namespace Lib.Roster

variable {α : Type} [DecidableEq α]

/-- Strike `gone`, then append `new`. -/
def next (l gone new : List α) : List α := l.filter (· ∉ gone) ++ new

/-- The elements of a list that are not known yet, each at its first occurrence. -/
def newcomers (known : α → Bool) : List α → List α
  | [] => []
  | a :: l => if known a then newcomers known l else a :: newcomers (fun b => known b || b = a) l

theorem mem_newcomers {a : α} : ∀ {known : α → Bool} {l : List α}, a ∈ newcomers known l ↔ known a = false ∧ a ∈ l
  | known, [] => by simp [newcomers]
  | known, b :: l => by
    unfold newcomers
    split
    · rename_i hb
      rw [mem_newcomers, List.mem_cons]
      constructor
      · rintro ⟨h₁, h₂⟩
        exact ⟨h₁, .inr h₂⟩
      · rintro ⟨h₁, rfl | h₂⟩
        · rw [hb] at h₁
          cases h₁
        · exact ⟨h₁, h₂⟩
    · rename_i hb
      rw [List.mem_cons, mem_newcomers, List.mem_cons]
      simp only [Bool.or_eq_false_iff, decide_eq_false_iff_not]
      constructor
      · rintro (rfl | ⟨⟨h₁, -⟩, h₂⟩)
        · exact ⟨by simpa using hb, .inl rfl⟩
        · exact ⟨h₁, .inr h₂⟩
      · rintro ⟨h₁, rfl | h₂⟩
        · exact .inl rfl
        · by_cases he : a = b
          · exact .inl he
          · exact .inr ⟨⟨h₁, he⟩, h₂⟩

theorem newcomers_nodup : ∀ (known : α → Bool) (l : List α), (newcomers known l).Nodup
  | _, [] => List.nodup_nil
  | known, a :: l => by
    unfold newcomers
    split
    · exact newcomers_nodup known l
    · refine List.nodup_cons.2 ⟨fun hmem => ?_, newcomers_nodup _ l⟩
      have := (mem_newcomers.1 hmem).1
      simp at this

/-- Only the answers of `known` matter. -/
theorem newcomers_congr {known known' : α → Bool} (h : ∀ a, known a = known' a) (l : List α) :
    newcomers known l = newcomers known' l := by rw [funext h]

theorem next_nil_left (l new : List α) : next l [] new = l ++ new := by simp [next]

theorem mem_next {a : α} {l gone new : List α} : a ∈ next l gone new ↔ (a ∈ l ∧ a ∉ gone) ∨ a ∈ new := by
  simp [next]

/-- Striking members shortens the roster by as many. -/
theorem length_strike {l gone : List α} (hl : l.Nodup) (hgone : gone.Nodup) (hsub : ∀ a ∈ gone, a ∈ l) :
    (l.filter (· ∉ gone)).length + gone.length = l.length := by
  have hperm : (l.filter (· ∈ gone)).Perm gone := by
    refine (List.perm_ext_iff_of_nodup (hl.filter _) hgone).2 fun a => ?_
    rw [List.mem_filter, decide_eq_true_eq]
    exact ⟨And.right, fun h => ⟨hsub a h, h⟩⟩
  have hsplit := List.length_eq_length_filter_add (l := l) fun a => decide (a ∈ gone)
  simp only [← decide_not] at hsplit
  rw [hsplit, hperm.length_eq, Nat.add_comm]

/-- Appending to a list keeps the last occurrences. -/
theorem dedup_append_of_nodup (h : List α) {new : List α} (hnew : new.Nodup) :
    (h ++ new).dedup = h.dedup.filter (· ∉ new) ++ new := by
  induction h with
  | nil => simpa using hnew.dedup
  | cons a h ih =>
    rw [List.cons_append]
    by_cases hnewa : a ∈ new
    · rw [List.dedup_cons_of_mem (List.mem_append_right _ hnewa), ih]
      by_cases hha : a ∈ h
      · rw [List.dedup_cons_of_mem hha]
      · rw [List.dedup_cons_of_notMem hha, List.filter_cons_of_neg (by simpa using hnewa)]
    · by_cases hha : a ∈ h
      · rw [List.dedup_cons_of_mem (List.mem_append_left _ hha), List.dedup_cons_of_mem hha, ih]
      · have hno : a ∉ h ++ new := by simp [hha, hnewa]
        rw [List.dedup_cons_of_notMem hno, List.dedup_cons_of_notMem hha,
          List.filter_cons_of_pos (by simpa using hnewa), ih, List.cons_append]

/-- **The order of a roster.** If the roster lists its members in the order of their latest enrolment in the history
`h`, then after a step it does so in the longer history. -/
theorem next_eq {h l gone new : List α} (hl : l = h.dedup.filter (· ∈ l)) (hnew : new.Nodup)
    (hdis : ∀ a ∈ new, a ∉ l) :
    next l gone new = (h ++ new).dedup.filter (· ∈ next l gone new) := by
  have hold : (h.dedup.filter (· ∉ new)).filter (· ∈ next l gone new) = l.filter (· ∉ gone) := by
    calc (h.dedup.filter (· ∉ new)).filter (· ∈ next l gone new)
        = (h.dedup.filter (· ∈ l)).filter (· ∉ gone) := by
          rw [List.filter_filter, List.filter_filter]
          refine List.filter_congr fun a _ => ?_
          have := hdis a
          simp only [mem_next, ← Bool.decide_and, decide_eq_decide]
          tauto
      _ = l.filter (· ∉ gone) := by rw [← hl]
  have hlast : new.filter (· ∈ next l gone new) = new :=
    List.filter_eq_self.2 fun a ha => by simp [mem_next, ha]
  rw [dedup_append_of_nodup h hnew, List.filter_append, hold, hlast, next]

/-- The order of a roster whose members are told by a test. -/
theorem next_eq_filter {h l gone new : List α} {p p' : α → Bool} (hp : ∀ a, a ∈ l ↔ p a = true)
    (hp' : ∀ a, a ∈ next l gone new ↔ p' a = true) (hl : l = h.dedup.filter p) (hnew : new.Nodup)
    (hdis : ∀ a ∈ new, a ∉ l) : next l gone new = (h ++ new).dedup.filter p' := by
  have htest : ∀ {m : List α} {q : α → Bool}, (∀ a, a ∈ m ↔ q a = true) → ∀ k : List α,
      k.filter (· ∈ m) = k.filter q := fun hq k =>
    List.filter_congr fun a _ => Bool.eq_iff_iff.2 (decide_eq_true_iff.trans (hq a))
  rw [← htest hp']
  exact next_eq (hl.trans (htest hp _).symm) hnew hdis

end Lib.Roster

import StellarRwa.Lib.Paging
import StellarRwa.Lib.System

/-!
# Paging through a list that grows

A client counts pages of `size` elements until one is shorter, and between two of its questions the system answers the
calls of others (`Visit`). When calls only append to the list, no page is read in vain: what the client has read in the
end is the list as it is at the last question, however much came in between (`Visit.reads_all`). The pages may show more
of an element than what identifies it, and that may have changed since; what no call takes back still holds of all that
was read (`Visit.rule`).
-/

namespace Lib.Paging

variable {S L R α β : Type}

/-- The pages from number `p` on, asked for from state `s` on; before each further question the calls `ls` are made.
The client stops at a page with less than `size` elements, in state `t`. -/
inductive Visit (M : System S L R) (view : S → ℕ → Option (List α)) (size : ℕ) : S → ℕ → S → List α → Prop
  | last {s : S} {p : ℕ} {page : List α} (hview : view s p = some page) (hshort : page.length < size) :
    Visit M view size s p s page
  | next {s t : S} {p : ℕ} {page rest : List α} (ls : List L) (hview : view s p = some page)
    (hfull : size ≤ page.length) (hrest : Visit M view size (M.run s ls) (p + 1) t rest) :
    Visit M view size s p t (page ++ rest)

namespace Visit

variable {M : System S L R} {view : S → ℕ → Option (List α)} {size : ℕ} {I : S → Prop} {s t : S} {p : ℕ}
  {out : List α}

/-- What is so of the elements of every page, and stays so, is so of all that was read when the client stops. -/
theorem rule {Q : S → α → Prop} (step : ∀ s l r s', I s → M.step s l = some (r, s') → I s')
    (hpage : ∀ s p page, I s → view s p = some page → ∀ a ∈ page, Q s a)
    (hstays : ∀ s l r s' a, I s → Q s a → M.step s l = some (r, s') → Q s' a) (h : Visit M view size s p t out)
    (hs : I s) : I t ∧ (∀ a, Q s a → Q t a) ∧ ∀ a ∈ out, Q t a := by
  induction h with
  | last hview _ => exact ⟨hs, fun _ ha => ha, hpage _ _ _ hs hview⟩
  | @next s t p page rest ls hview _ _ ih =>
    have hgap : I (M.run s ls) ∧ ∀ a, Q s a → Q (M.run s ls) a := by
      refine System.invariant (I := fun s' => I s' ∧ ∀ a, Q s a → Q s' a) ⟨hs, fun _ ha => ha⟩ ?_ ls
      rintro s₁ l r s₂ ⟨hs₁, hQ⟩ hstep
      exact ⟨step s₁ l r s₂ hs₁ hstep, fun a ha => hstays s₁ l r s₂ a hs₁ (hQ a ha) hstep⟩
    obtain ⟨ht, hlater, hrest⟩ := ih hgap.1
    refine ⟨ht, fun a ha => hlater a (hgap.2 a ha), fun a ha => ?_⟩
    rcases List.mem_append.1 ha with hleft | hright
    · exact hlater a (hgap.2 a (hpage s p page hs hview a hleft))
    · exact hrest a hright

variable {f : S → List β} {g : α → β}

/-- A slice that is full is the same slice of every longer list. -/
theorem slice_of_prefix {l l' : List β} {k n : ℕ} (hpre : l <+: l') (hfull : k + n ≤ l.length) :
    slice l k n = slice l' k n := by
  obtain ⟨m, rfl⟩ := hpre
  have hlen : n - (slice l k n).length = 0 := by
    rw [length_slice]
    omega
  rw [slice_append, hlen, slice_eq_nil (.inr rfl), List.append_nil]

/-- **The rule for visits.** When calls only append to `f`, and a page shows a slice of it, the visit shows what
follows the pages that were left out, as it is when the client stops. -/
theorem reads_all (step : ∀ s l r s', I s → M.step s l = some (r, s') → I s' ∧ f s <+: f s')
    (hpage : ∀ s p page, I s → view s p = some page → page.map g = slice (f s) (p * size) size)
    (h : Visit M view size s p t out) (hs : I s) (hp : p * size ≤ (f s).length) :
    f s <+: f t ∧ out.map g = (f t).drop (p * size) := by
  induction h with
  | @last s p page hview hshort =>
    have hslice := hpage s p page hs hview
    have hlen : page.length = min size ((f s).length - p * size) := by
      rw [← length_slice, ← hslice, List.length_map]
    refine ⟨List.prefix_rfl, ?_⟩
    rw [hslice]
    exact slice_eq_drop (by omega)
  | @next s t p page rest ls hview hfull _ ih =>
    have hgap : I (M.run s ls) ∧ f s <+: f (M.run s ls) := by
      refine System.invariant (I := fun s' => I s' ∧ f s <+: f s') ⟨hs, List.prefix_rfl⟩ ?_ ls
      rintro s₁ l r s₂ ⟨hs₁, hpre⟩ hstep
      exact ⟨(step s₁ l r s₂ hs₁ hstep).1, hpre.trans (step s₁ l r s₂ hs₁ hstep).2⟩
    have hslice := hpage s p page hs hview
    have hlen : page.length = min size ((f s).length - p * size) := by
      rw [← length_slice, ← hslice, List.length_map]
    have hnext : p * size + size ≤ (f s).length := by omega
    have hsucc : (p + 1) * size = p * size + size := Nat.succ_mul p size
    have hlonger := hgap.2.length_le
    obtain ⟨hpre, hrest⟩ := ih hgap.1 (by omega)
    have hall := hgap.2.trans hpre
    refine ⟨hall, ?_⟩
    -- the page was full, so it is still the same slice
    rw [List.map_append, hslice, slice_of_prefix hall hnext, hrest, hsucc, slice_append_drop]

end Visit

end Lib.Paging

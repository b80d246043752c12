import StellarRwa.Lib.Paging
import StellarRwa.Compliance.Allowlist

/-!
# Reading the allowlist page by page

`get_allowlist_page` counts its offset and its limit across the storage pages, which removals and prunings leave of
uneven length, empty or absent. One spec lemma for each of its two loops says that they skip and put out the addresses
of the concatenated pages (`takeEntries_eq`, `takePages_eq`), so that the storage pages do not show: the answer is a
slice of the allowlist, and a client that goes on by the length of the answers reads all of it
(`allowlist_pages_exact`).
-/

namespace StellarRwa.Compliance

open Lib Lib.Paging

variable {Address : Type} {h : Contract Address}

/-! ## The two loops -/

section Scan

variable (offset limit : U32)

/-- The addresses of one page: a slice of them is put out, and what is left to skip shrinks by their number. The break
does not matter for the latter, since nothing is left to skip there. -/
theorem takeEntries_eq (scan : PageScan Address) (l : List Address) :
    ∃ scan', takeEntries offset limit scan l h = .ok (scan', h) ∧
      scan'.result = scan.result ++
        slice l (offset.val - scan.skipped.val).toNat (limit.val.toNat - scan.result.length) ∧
      (offset.val - scan'.skipped.val).toNat = (offset.val - scan.skipped.val).toNat - l.length := by
  induction l generalizing scan with
  | nil => exact ⟨scan, rfl, by simp [slice], by simp⟩
  | cons a l ih =>
    have hlimit := limit.lo_le
    by_cases hskip : scan.skipped < offset
    · have hlt : scan.skipped.val < offset.val := hskip
      have hlo := scan.skipped.lo_le
      have hhi := offset.le_hi
      obtain ⟨skipped, hskipped⟩ : ∃ n : U32, n.val = scan.skipped.val + 1 := MInt.exists_val (by omega) (by omega)
      have hadd : scan.skipped.checkedAdd 1 = some skipped := MInt.checkedAdd_eq_some.2 hskipped
      obtain ⟨scan', hrun, hresult, hleft⟩ := ih { scan with skipped }
      dsimp only at hresult hleft
      have hk : (offset.val - scan.skipped.val).toNat = (offset.val - skipped.val).toNat + 1 := by omega
      refine ⟨scan', ?_, ?_, ?_⟩
      · rw [takeEntries, if_pos hskip, Call.bind_eq_of_ok (Call.orTrap_ok.2 ⟨skipped, hadd, rfl⟩), hrun]
      · rw [hresult, hk, slice_cons_skip]
      · rw [hleft, hk, List.length_cons]
        omega
    · have hle : ¬ scan.skipped.val < offset.val := hskip
      have hk : (offset.val - scan.skipped.val).toNat = 0 := by omega
      by_cases hfull : limit.val ≤ scan.result.length
      · refine ⟨scan, ?_, ?_, by omega⟩
        · rw [takeEntries, if_neg hskip, if_pos hfull]
          rfl
        · rw [slice_eq_nil (.inr (by omega)), List.append_nil]
      · obtain ⟨scan', hrun, hresult, hleft⟩ := ih { scan with result := scan.result ++ [a] }
        dsimp only at hresult hleft
        have hn : limit.val.toNat - scan.result.length = limit.val.toNat - (scan.result ++ [a]).length + 1 := by
          rw [List.length_append, List.length_singleton]
          omega
        refine ⟨scan', ?_, ?_, ?_⟩
        · rw [takeEntries, if_neg hskip, if_neg hfull, hrun]
        · rw [hresult, hk, hn, slice_cons_take, List.append_assoc, List.singleton_append]
        · rw [hleft]
          omega

/-- The addresses of the pages still to visit, as if they were one list. -/
theorem takePages_eq (scan : PageScan Address) (pages : List U32) :
    ∃ scan', takePages offset limit scan pages h = .ok (scan', h) ∧
      scan'.result = scan.result ++ slice (pages.flatMap (page h.storage)) (offset.val - scan.skipped.val).toNat
        (limit.val.toNat - scan.result.length) := by
  induction pages generalizing scan with
  | nil => exact ⟨scan, rfl, by simp [slice]⟩
  | cons pageIdx pages ih =>
    by_cases hfull : limit.val ≤ scan.result.length
    · refine ⟨scan, ?_, ?_⟩
      · rw [takePages, if_pos hfull]
        rfl
      · rw [slice_eq_nil (.inr (by omega)), List.append_nil]
    · rw [takePages, if_neg hfull, Call.bind_eq_of_ok (Call.storage_ok.2 rfl), List.flatMap_cons]
      by_cases hempty : page h.storage pageIdx = []
      · rw [if_pos hempty, hempty, List.nil_append]
        exact ih scan
      · obtain ⟨scan₁, hpage, hresult₁, hleft⟩ := takeEntries_eq offset limit scan (page h.storage pageIdx)
        obtain ⟨scan', hrest, hresult⟩ := ih scan₁
        rw [if_neg hempty, Call.bind_eq_of_ok hpage]
        refine ⟨scan', hrest, ?_⟩
        rw [hresult, hleft, hresult₁, slice_append, List.append_assoc, List.length_append, Nat.sub_add_eq]

end Scan

/-! ## The view -/

/-- The page size that a limit stands for: zero asks for the most. -/
def cappedLimit (limit : U32) : ℕ := if limit.val = 0 ∨ 200 < limit.val then 200 else limit.val.toNat

theorem cappedLimit_pos (limit : U32) : 0 < cappedLimit limit := by
  have hlo := limit.lo_le
  unfold cappedLimit
  split <;> omega

theorem getAllowlistPage_eq (offset limit : U32) :
    getAllowlistPage offset limit h =
      .ok (slice (getAllowlist h.storage) offset.val.toNat (cappedLimit limit), h) := by
  have hmost : maxAllowlistPageSize.val = 200 := rfl
  have hcapped : (if limit = 0 ∨ maxAllowlistPageSize < limit then maxAllowlistPageSize else limit).val.toNat =
      cappedLimit limit := by
    unfold cappedLimit
    simp only [MInt.eq_zero_iff, MInt.lt_def, hmost]
    split <;> rfl
  unfold getAllowlistPage
  generalize (if limit = 0 ∨ maxAllowlistPageSize < limit then maxAllowlistPageSize else limit) = capped at hcapped ⊢
  obtain ⟨scan, hrun, hresult⟩ := takePages_eq offset capped ⟨0, []⟩ (allowlistMeta h.storage).1.upTo
  rw [Call.bind_eq_of_ok (Call.storage_ok.2 rfl), Call.bind_eq_of_ok hrun, hresult, hcapped]
  simp [getAllowlist]

/-- What a client is given at an offset, when it chooses the limit by the offset; nothing where the offset is not a
`u32`. -/
def allowlistFrom (h : Contract Address) (limit : ℕ → U32) (p : ℕ) : Option (List Address) := do
  let offset ← MInt.ofNat? p
  let r ← (getAllowlistPage offset (limit p)).returned h
  pure r.1

theorem allowlistFrom_eq (limit : ℕ → U32) {p : ℕ} (hp : (p : Int) ≤ 4294967295) :
    allowlistFrom h limit p = some (slice (getAllowlist h.storage) p (cappedLimit (limit p))) := by
  obtain ⟨offset, hoffset⟩ : ∃ n : U32, n.val = p := MInt.exists_val (by omega) hp
  have hpage := getAllowlistPage_eq (h := h) offset (limit p)
  rw [hoffset, Int.toNat_natCast] at hpage
  simp [allowlistFrom, MInt.ofNat?_eq_some.2 hoffset, Call.returned_eq_some.2 hpage]

variable [DecidableEq Address]

/-- **The pages of the allowlist are slices of it**, in every reachable state and for all offsets and limits, and empty
from the end on. The list has no duplicates, and a client that starts at zero and goes on by the length of the answers
until one is empty reads exactly the list, whatever limits it chooses on the way. -/
theorem allowlist_pages_exact (ls : List (Env Address × Op Address)) :
    let h := (compliance Address).run (Contract.fresh Address) ls
    let l := getAllowlist h.storage
    let capped (limit : U32) : ℕ := if limit.val = 0 ∨ 200 < limit.val then 200 else limit.val.toNat
    (∀ offset limit, getAllowlistPage offset limit h = .ok ((l.drop offset.val.toNat).take (capped limit), h)) ∧
      (∀ offset limit : U32, l.length ≤ offset.val → getAllowlistPage offset limit h = .ok ([], h)) ∧
      l.Nodup ∧ ∀ (limit : ℕ → U32) out, Reading (allowlistFrom h limit) 0 out ↔ out = l := by
  intro h l capped
  refine ⟨fun offset limit => getAllowlistPage_eq offset limit, fun offset limit hend => ?_,
    (run_listed ls).wellPaged.nodup, fun limit out => ?_⟩
  · have hnil : slice l offset.val.toNat (cappedLimit limit) = [] := slice_eq_nil (.inl (by omega))
    rw [getAllowlistPage_eq, hnil]
  · have hlen : (l.length : Int) ≤ 4294967295 := length_getAllowlist_le ls
    exact reading_iff (fun p => cappedLimit_pos (limit p)) fun p hp => allowlistFrom_eq limit (by omega)

end StellarRwa.Compliance

import StellarRwa.Compliance.Allowlist
import StellarRwa.Compliance.Lockup

/-!
# One pruning

What a successful `prune_expired` does to everything one can see of the contract: the records, the pages and the list,
the events, the answer, and the answers of the gate from that ledger on (`prune_exact`). The gate says no to an expired
record as it does to none at all, so striking it changes no answer.
-/

namespace StellarRwa.Compliance

open Lib

variable {Address : Type} [DecidableEq Address] {env env' : Env Address} {h h' : Contract Address}

/-- The expiry in the record of `a`. -/
def expiryOf (s : State Address) (a : Address) : U32 := ((s.record.get a).map KycRecord.expiresAt).getD 0

/-- One expired event for each address with a record. -/
theorem expiredEvents_eq {s : State Address} {D : List Address} (hD : ∀ a ∈ D, s.record.has a = true) :
    expiredEvents s D = D.map fun a => .expired a (expiryOf s a) := by
  unfold expiredEvents expiryOf
  rw [← List.filterMap_eq_map]
  refine List.filterMap_congr fun a ha => ?_
  obtain ⟨r, hr⟩ := Storage.has_iff.1 (hD a ha)
  simp [hr]

/-! ## Answers of the gate -/

/-- An expired record stays expired, and the gate says no. -/
theorem isAllowed_of_expired {a : Address} {now : U32} (hexp : expiredAt h.storage now a = true)
    (hle : now ≤ env.sequence) : (isAllowed env a h).map Prod.fst = .ok false := by
  unfold expiredAt at hexp
  cases hrec : h.storage.record.get a with
  | none =>
    rw [hrec] at hexp
    cases hexp
  | some r =>
    rw [hrec, decide_eq_true_eq] at hexp
    have hnow : r.expiresAt ≤ env.sequence := by
      have := MInt.le_def.1 hexp.2
      have := MInt.le_def.1 hle
      exact MInt.le_def.2 (by omega)
    by_cases hst : r.status = .approved
    · have hrun : isAllowed env a h = .ok (false, { h with events := h.events ++ [.expired a r.expiresAt] }) := by
        simp [isAllowed, hrec, hst, hexp.1, hnow]
      rw [hrun]
      rfl
    · have hrun : isAllowed env a h = .ok (false, h) := by simp [isAllowed, hrec, hst]
      rw [hrun]
      rfl

theorem isAllowed_of_none {a : Address} (hrec : h.storage.record.get a = none) :
    (isAllowed env a h).map Prod.fst = .ok false := by
  have hrun : isAllowed env a h = .ok (false, h) := by simp [isAllowed, hrec]
  rw [hrun]
  rfl

/-- Striking expired records changes no answer from then on. -/
theorem isAllowed_pruned {admin : Address} {maxRecords n : U32} (hw : WellPaged h.storage)
    (hrun : pruneExpired env admin maxRecords h = .ok (n, h')) (hle : env.sequence ≤ env'.sequence) (a : Address) :
    (isAllowed env' a h').map Prod.fst = (isAllowed env' a h).map Prod.fst := by
  obtain ⟨-, -, hstruck, hhost, -⟩ := pruneExpired_ok hw hrun
  by_cases ha : a ∈ pruned h.storage env.sequence maxRecords
  · have hexp : expiredAt h.storage env.sequence a = true := (List.mem_filter.1 ha).2
    rw [isAllowed_of_expired hexp hle, isAllowed_of_none]
    rw [hstruck.record, if_pos ha]
  · refine isAllowed_alike ?_ ?_ fun _ => ?_
    · rw [hstruck.record, if_neg ha]
    · rw [hhost]
      rfl
    · rw [hhost]
      rfl

/-! ## The call -/

omit [DecidableEq Address] in
/-- A storage that differs from another in three fields is the other with its own three fields. -/
theorem rewritten_eq {s s' : State Address} {records : Storage Address (KycRecord Address)}
    {pageOf : Storage Address U32} {pages : Storage U32 (List Address)}
    (hs : s' = { s with record := records, allowlistPageOf := pageOf, allowlistPage := pages }) :
    s' = { s with
      record := s'.record
      allowlistPageOf := s'.allowlistPageOf
      allowlistPage := s'.allowlistPage } := by
  rw [hs]

/-- **`prune_expired` does its job exactly.** Of `N` listed addresses the first `m` are looked at, all for `0`, and `D`
are the expired ones among them. They lose their record, their page-of entry and their page slot; every other record and
page-of entry stays, and the rest of the storage; the other addresses keep their order; one expired event is published
for each of `D`, in that order; the answer is `N - m`; and from that ledger on the gate answers as before. -/
theorem prune_exact (ls : List (Env Address × Op Address)) {admin : Address} {maxRecords n : U32}
    (hrun : pruneExpired env admin maxRecords ((compliance Address).run (Contract.fresh Address) ls) = .ok (n, h')) :
    let h := (compliance Address).run (Contract.fresh Address) ls
    let s := h.storage
    let s' := h'.storage
    let N := (getAllowlist s).length
    let m := if maxRecords = 0 then N else min N maxRecords.val.toNat
    let D := ((getAllowlist s).take m).filter (expiredAt s env.sequence)
    (∀ a ∈ D, s'.record.get a = none ∧ s'.allowlistPageOf.get a = none ∧ ∀ p, a ∉ page s' p) ∧
      (∀ a ∉ D, s'.record.get a = s.record.get a ∧ s'.allowlistPageOf.get a = s.allowlistPageOf.get a) ∧
      (∀ p, page s' p = (page s p).filter (· ∉ D)) ∧
      getAllowlist s' = (getAllowlist s).filter (· ∉ D) ∧
      s' = { s with
        record := s'.record
        allowlistPageOf := s'.allowlistPageOf
        allowlistPage := s'.allowlistPage } ∧
      h'.events = h.events ++ (D.map fun a => .expired a (expiryOf s a)) ∧
      n.val = (N - m : ℕ) ∧
      ∀ (env' : Env Address) (a : Address), env.sequence ≤ env'.sequence →
        (isAllowed env' a h').map Prod.fst = (isAllowed env' a h).map Prod.fst := by
  intro h s s' N m D
  have hw : WellPaged s := (run_listed ls).wellPaged
  have hexamined : examined s maxRecords = (getAllowlist s).take m := by
    unfold examined
    by_cases h0 : maxRecords = 0
    · simp only [m, if_pos h0]
      exact List.take_length.symm
    · simp only [m, if_neg h0]
      rw [Nat.min_comm, ← List.take_take, List.take_length]
  have hD : pruned s env.sequence maxRecords = D := by rw [pruned, hexamined]
  obtain ⟨-, -, hstruck, hhost, hn⟩ := pruneExpired_ok hw hrun
  have hmN : m ≤ N := by
    by_cases h0 : maxRecords = 0 <;> simp [m, h0]
  rw [hD] at hstruck hhost
  have hhas : ∀ a ∈ D, s.record.has a = true := fun a ha =>
    hw.mem_getAllowlist_iff_record.1 (List.mem_of_mem_take (List.mem_filter.1 ha).1)
  refine ⟨fun a ha => ⟨?_, ?_, fun p => ?_⟩, fun a ha => ⟨?_, ?_⟩, hstruck.page, hstruck.getAllowlist, ?_, ?_, ?_, ?_⟩
  · rw [hstruck.record, if_pos ha]
  · rw [hstruck.pageOf, if_pos ha]
  · rw [hstruck.page]
    simp [ha]
  · rw [hstruck.record, if_neg ha]
  · rw [hstruck.pageOf, if_neg ha]
  · have hstorage : s' = { s.strikeRecords D with allowlistPage := s'.allowlistPage } := congrArg Host.storage hhost
    exact rewritten_eq hstorage
  · rw [hhost, expiredEvents_eq hhas]
  · rw [hn, hexamined, List.length_take, Nat.min_eq_left hmN]
    exact (Nat.cast_sub hmN).symm
  · exact fun env' a hle => isAllowed_pruned hw hrun hle a

/-- Four addresses are listed; 6 and 8 expire at ledger 10, and so does 9. -/
def fourListed : List (Env ℕ × Op ℕ) :=
  [(.signed 0, .initializeContract 1), (.signed 1, .addToAllowlist 1 6 [85, 83] 10),
    (.signed 1, .addToAllowlist 1 7 [85, 83] 0), (.signed 1, .addToAllowlist 1 8 [85, 83] 10),
    (.signed 1, .addToAllowlist 1 9 [85, 83] 10)]

/-- Bounded to three, a pruning strikes 6 and 8 and leaves 9 unexamined. -/
theorem prune_exact_fourListed :
    ∃ n h', pruneExpired (Env.signed 10) 1 3 ((compliance ℕ).run (Contract.fresh ℕ) fourListed) = .ok (n, h') ∧
      n = 1 ∧ getAllowlist h'.storage = [7, 9] ∧
      h'.events = ((compliance ℕ).run (Contract.fresh ℕ) fourListed).events ++ [.expired 6 10, .expired 8 10] := by
  have hreturns : (pruneExpired (Env.signed 10) 1 3 ((compliance ℕ).run (Contract.fresh ℕ) fourListed)).map Prod.fst
      = .ok 1 := by decide +kernel
  obtain ⟨h', hrun⟩ := Call.exists_of_map_fst hreturns
  obtain ⟨-, -, -, hlist, -, hevents, -⟩ := prune_exact fourListed hrun
  exact ⟨1, h', hrun, rfl, hlist.trans (by decide +kernel), hevents.trans (by decide +kernel)⟩

end StellarRwa.Compliance

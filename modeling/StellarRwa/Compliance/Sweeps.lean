import StellarRwa.Lib.Sweep
import StellarRwa.Compliance.Pruning

/-!
# Pruning again and again

A bounded pruning is a sweep over the list (`sweep`): it starts at the front every time and remembers nothing. It
returns unless the first address it leaves unexamined stands on the last page there can be, whose index it increments
(`prunePages_returns_iff`). Repeated at one ledger it comes to answer 0 exactly when the sweeps reach the end of the
list (`answers_zero_iff`), which live addresses at the front can prevent.
-/

namespace StellarRwa.Compliance

open Lib

variable {Address : Type} [DecidableEq Address] {env : Env Address} {h : Contract Address}

/-- `u32::MAX`, the last index of a page. -/
def lastPage : U32 := ⟨4294967295, by decide, by decide⟩

/-! ## When a pruning returns -/

/-- The sum of a value and a length that fits. -/
theorem exists_checkedAdd {a : U32} {n : ℕ} (h : a.val + n ≤ 4294967295) : ∃ b : U32, b.val = a.val + n := by
  have := a.lo_le
  exact MInt.exists_val (by omega) h

theorem keepOrPrune_total (now : U32) (a : Address) (h : Contract Address) :
    ∃ keep h', keepOrPrune now a h = .ok (keep, h') := by
  simp only [keepOrPrune, Call.bind_ok, Call.storage_ok]
  cases hrec : h.storage.record.get a with
  | none => exact ⟨false, h, _, _, rfl, by simp [hrec]⟩
  | some r =>
    by_cases hexp : r.expiresAt ≠ 0 ∧ r.expiresAt ≤ now
    · refine ⟨false, { h with
        storage := h.storage.strikeRecords [a]
        events := h.events ++ [.expired a r.expiresAt] }, _, _, rfl, ?_⟩
      rw [hrec]
      simp only [if_pos hexp, Call.bind_ok, Call.update_ok, Call.publish_ok, Call.pure_ok]
      exact ⟨_, _, rfl, _, _, rfl, _, _, rfl, rfl⟩
    · exact ⟨true, h, _, _, rfl, by rw [hrec]; simp only [if_neg hexp]; rfl⟩

/-- One round of the inner loop returns when its two counters fit; each goes up by one at most. -/
theorem pruneEntry_total (now maxRecords : U32) {scan : Scan Address} (a : Address) (h : Contract Address)
    (hex : scan.examined.val + 1 ≤ 4294967295) (hun : scan.unexaminedInPage.val + 1 ≤ 4294967295) :
    ∃ scan' h', pruneEntry now maxRecords scan a h = .ok (scan', h') ∧
      scan'.examined.val ≤ scan.examined.val + 1 ∧ scan'.unexaminedInPage.val ≤ scan.unexaminedInPage.val + 1 := by
  by_cases hfull : maxRecords ≠ 0 ∧ maxRecords ≤ scan.examined
  · obtain ⟨n, hn⟩ := exists_checkedAdd (n := 1) hun
    refine ⟨{ scan with next := scan.next ++ [a], stoppedEarly := true, unexaminedInPage := n }, h, ?_, by simp, ?_⟩
    · rw [pruneEntry, if_pos hfull, Call.bind_ok]
      exact ⟨n, h, Call.orTrap_ok.2 ⟨n, MInt.checkedAdd_eq_some.2 hn, rfl⟩, rfl⟩
    · exact hn.le
  · obtain ⟨e, he⟩ := exists_checkedAdd (n := 1) hex
    obtain ⟨keep, h', hkeep⟩ := keepOrPrune_total now a h
    have hround : ∀ scan', (if keep then { scan with examined := e, next := scan.next ++ [a] }
        else { scan with examined := e, changed := true }) = scan' →
        pruneEntry now maxRecords scan a h = .ok (scan', h') := by
      rintro _ rfl
      rw [pruneEntry, if_neg hfull, Call.bind_ok]
      refine ⟨e, h, Call.orTrap_ok.2 ⟨e, MInt.checkedAdd_eq_some.2 he, rfl⟩, ?_⟩
      rw [Call.bind_ok]
      refine ⟨keep, h', hkeep, ?_⟩
      cases keep <;> rfl
    refine ⟨_, h', hround _ rfl, ?_, ?_⟩ <;> cases keep <;> simp [he]

/-- The inner loop returns when its two counters fit. -/
theorem scan_total (now maxRecords : U32) (l : List Address) (scan : Scan Address) (h : Contract Address)
    (hex : scan.examined.val + l.length ≤ 4294967295) (hun : scan.unexaminedInPage.val + l.length ≤ 4294967295) :
    ∃ scan' h', Call.foldEach (pruneEntry now maxRecords) scan l h = .ok (scan', h') := by
  induction l generalizing scan h with
  | nil => exact ⟨scan, h, rfl⟩
  | cons a l ih =>
    rw [List.length_cons] at hex hun
    push_cast at hex hun
    obtain ⟨scan₁, h₁, hround, hex₁, hun₁⟩ :=
      pruneEntry_total now maxRecords a h (by omega : scan.examined.val + 1 ≤ 4294967295) (by omega)
    obtain ⟨scan', h', hloop⟩ := ih scan₁ h₁ (by omega) (by omega)
    refine ⟨scan', h', ?_⟩
    rw [Call.foldEach_cons, Call.bind_ok]
    exact ⟨scan₁, h₁, hround, hloop⟩

omit [DecidableEq Address] in
/-- The entries on the later pages are counted when their number fits. -/
theorem countPages_total (ps : List U32) (total : U32)
    (hfit : total.val + (ps.flatMap (page h.storage)).length ≤ 4294967295) :
    ∃ n, Call.foldEach countLater total ps h = .ok (n, h) := by
  induction ps generalizing total with
  | nil => exact ⟨total, rfl⟩
  | cons p ps ih =>
    rw [List.flatMap_cons, List.length_append] at hfit
    push_cast at hfit
    obtain ⟨m, hm⟩ := exists_checkedAdd (a := total) (n := (page h.storage p).length) (by omega)
    obtain ⟨n, hn⟩ := ih m (by omega)
    have hround : countLater total p h = .ok (m, h) := by
      rw [countLater, Call.bind_ok]
      refine ⟨h.storage, h, rfl, ?_⟩
      unfold page at hm
      cases hp : h.storage.allowlistPage.get p with
      | none =>
        rw [hp] at hm
        have hsame : m = total := MInt.val_inj.1 (by simpa using hm)
        rw [hsame]
        rfl
      | some l =>
        rw [hp, Option.getD_some] at hm
        obtain ⟨len, hlen⟩ := exists_checkedAdd (a := (0 : U32)) (n := l.length) (by
          have := total.lo_le
          have := m.le_hi
          simp only [MInt.val_zero]
          omega)
        rw [MInt.val_zero, zero_add] at hlen
        simp only [Call.bind_ok, Call.orTrap_ok, MInt.ofInt?_eq_some, MInt.checkedAdd_eq_some]
        exact ⟨len, h, ⟨len, hlen, rfl⟩, m, by rw [hm, hlen], rfl⟩
    refine ⟨n, ?_⟩
    rw [Call.foldEach_cons, Call.bind_ok]
    exact ⟨m, h, hround, hn⟩

/-! ## The walk over the pages -/

section Walk

variable {now maxRecords examined : U32} {p : U32} {ps : List U32} {scan : Scan Address} {h₁ h₂ : Contract Address}

theorem prunePages_skip (hempty : page h.storage p = []) :
    prunePages now maxRecords examined (p :: ps) h = prunePages now maxRecords examined ps h := by
  rw [prunePages, Call.bind_eq_of_ok (Call.storage_ok.2 rfl), if_pos hempty]

/-- What is left of the walk once the first page was scanned and written back. -/
theorem prunePages_scanned (hne : page h.storage p ≠ [])
    (hscan : Call.foldEach (pruneEntry now maxRecords) ⟨[], false, false, 0, examined⟩ (page h.storage p) h
      = .ok (scan, h₁))
    (hwrite : Call.onlyIf (scan.changed = true)
      (Call.update fun s => { s with allowlistPage := s.allowlistPage.set p scan.next } : M Address Unit) h₁
        = .ok ((), h₂)) :
    prunePages now maxRecords examined (p :: ps) h
      = (if scan.stoppedEarly then do
          let _ ← Call.orTrap (p.checkedAdd 1)
          Call.foldEach countLater scan.unexaminedInPage ps
        else prunePages now maxRecords scan.examined ps : M Address U32) h₂ := by
  rw [prunePages, Call.bind_eq_of_ok (Call.storage_ok.2 rfl), if_neg hne, Call.bind_eq_of_ok hscan,
    Call.bind_eq_of_ok hwrite]

omit [DecidableEq Address] in
/-- Leaving a page early returns when it is not the last there can be. -/
theorem stop_returns_iff {total : U32} (hfit : total.val + (ps.flatMap (page h.storage)).length ≤ 4294967295) :
    (∃ n h', (do
      let _ ← Call.orTrap (p.checkedAdd 1)
      Call.foldEach countLater total ps : M Address U32) h = .ok (n, h')) ↔ p ≠ lastPage := by
  have hle := p.le_hi
  have hlast : p ≠ lastPage ↔ p.val < 4294967295 := by
    rw [ne_eq, ← MInt.val_inj]
    unfold lastPage
    dsimp only
    omega
  simp only [Call.bind_ok, Call.orTrap_ok, MInt.checkedAdd_eq_some, MInt.val_one, hlast]
  constructor
  · rintro ⟨n, h', _, _, ⟨q, hq, -⟩, -⟩
    have := q.le_hi
    omega
  · intro hlt
    obtain ⟨q, hq⟩ := exists_checkedAdd (a := p) (n := 1) (by omega)
    obtain ⟨n, hn⟩ := countPages_total ps total hfit
    exact ⟨n, h, q, h, ⟨q, hq, rfl⟩, hn⟩

end Walk

/-- The first address that a walk over `ps` leaves unexamined, after `n` others, stands on the last page there can
be. -/
def StopsOnLast (s : State Address) (ps : List U32) (n : ℕ) : Prop :=
  ∃ a, (ps.flatMap (page s))[n]? = some a ∧ lastPage ∈ ps ∧ a ∈ page s lastPage

section StopsOnLast

variable {s s' : State Address} {p : U32} {ps : List U32} {n : ℕ}

omit [DecidableEq Address] in
theorem stopsOnLast_skip (hempty : page s p = []) : StopsOnLast s (p :: ps) n ↔ StopsOnLast s ps n := by
  unfold StopsOnLast
  rw [List.flatMap_cons, hempty, List.nil_append]
  refine exists_congr fun a => and_congr_right fun _ => and_congr_left fun ha => ?_
  have hne : lastPage ≠ p := by
    rintro rfl
    rw [hempty] at ha
    cases ha
  simp [hne]

omit [DecidableEq Address] in
/-- The walk stops on the first page. -/
theorem stopsOnLast_stop (hnd : ((p :: ps).flatMap (page s)).Nodup) (hn : n < (page s p).length) :
    StopsOnLast s (p :: ps) n ↔ p = lastPage := by
  rw [List.flatMap_cons, List.nodup_append] at hnd
  unfold StopsOnLast
  rw [List.flatMap_cons, List.getElem?_append_left hn]
  constructor
  · rintro ⟨a, ha, hmem, hlast⟩
    rcases List.mem_cons.1 hmem with hp | hps
    · exact hp.symm
    · exact absurd rfl (hnd.2.2 a (List.mem_of_getElem? ha) a (List.mem_flatMap.2 ⟨lastPage, hps, hlast⟩))
  · rintro rfl
    exact ⟨_, List.getElem?_eq_getElem hn, List.mem_cons_self, List.getElem_mem hn⟩

omit [DecidableEq Address] in
/-- The walk goes past the first page; the later pages are as they were. -/
theorem stopsOnLast_go (hnd : ((p :: ps).flatMap (page s)).Nodup) (hsame : ∀ q ∈ ps, page s' q = page s q) :
    StopsOnLast s (p :: ps) ((page s p).length + n) ↔ StopsOnLast s' ps n := by
  rw [List.flatMap_cons, List.nodup_append] at hnd
  unfold StopsOnLast
  rw [List.flatMap_cons, List.getElem?_append_right (Nat.le_add_right _ _), Nat.add_sub_cancel_left,
    List.flatMap_congr hsame]
  refine exists_congr fun a => and_congr_right fun ha => ?_
  constructor
  · rintro ⟨hmem, hlast⟩
    rcases List.mem_cons.1 hmem with hp | hmem
    · rw [hp] at hlast
      exact absurd rfl (hnd.2.2 a hlast a (List.mem_of_getElem? ha))
    · exact ⟨hmem, by rwa [hsame _ hmem]⟩
  · rintro ⟨hmem, hlast⟩
    exact ⟨List.mem_cons_of_mem _ hmem, by rwa [← hsame _ hmem]⟩

end StopsOnLast

/-- **The walk returns** unless it stops on the last page. The induction is on the pages still to visit. -/
theorem prunePages_returns_iff (now maxRecords : U32) : ∀ {ps : List U32} {examined : U32} {h : Contract Address},
    ps.Nodup → (ps.flatMap (page h.storage)).Nodup →
    (∀ a ∈ ps.flatMap (page h.storage), h.storage.record.has a = true) →
    examined.val + (ps.flatMap (page h.storage)).length ≤ 4294967295 →
    ((∃ n h', prunePages now maxRecords examined ps h = .ok (n, h')) ↔
      ¬ StopsOnLast h.storage ps (quota maxRecords examined (ps.flatMap (page h.storage)).length))
  | [], examined, h, _, _, _, _ => by
    refine iff_of_true ⟨0, h, rfl⟩ ?_
    rintro ⟨a, -, hmem, -⟩
    cases hmem
  | p :: ps, examined, h, hps, hnd, hrec, hfit => by
    rw [List.nodup_cons] at hps
    by_cases hempty : page h.storage p = []
    · have hflat : (p :: ps).flatMap (page h.storage) = ps.flatMap (page h.storage) := by
        rw [List.flatMap_cons, hempty, List.nil_append]
      rw [hflat] at hnd hrec hfit ⊢
      rw [prunePages_skip hempty, prunePages_returns_iff now maxRecords hps.2 hnd hrec hfit, stopsOnLast_skip hempty]
    have hnd' := hnd
    have hrec' := hrec
    rw [List.flatMap_cons, List.nodup_append] at hnd'
    rw [List.flatMap_cons] at hrec'
    rw [List.flatMap_cons, List.length_append] at hfit
    push_cast at hfit
    rw [show ((p :: ps).flatMap (page h.storage)).length
        = (page h.storage p).length + (ps.flatMap (page h.storage)).length by
      rw [List.flatMap_cons, List.length_append]]
    obtain ⟨scan, h₁, hscan⟩ := scan_total now maxRecords (page h.storage p)
      ⟨[], false, false, 0, examined⟩ h (by dsimp only; omega)
      (by have := examined.lo_le; simp only [MInt.val_zero]; omega)
    obtain ⟨h₂, hwrite⟩ : ∃ h₂, Call.onlyIf (scan.changed = true)
        (Call.update fun s => { s with allowlistPage := s.allowlistPage.set p scan.next } : M Address Unit) h₁
          = .ok ((), h₂) := by
      by_cases hc : scan.changed = true
      · exact ⟨_, Call.onlyIf_ok.2 (.inl ⟨hc, rfl⟩)⟩
      · exact ⟨_, Call.onlyIf_ok.2 (.inr ⟨hc, rfl⟩)⟩
    obtain ⟨D, hD⟩ := scan_ok hnd'.1 (fun a ha => hrec' a (List.mem_append_left _ ha)) hscan
    obtain ⟨hhost, -, hothers⟩ := page_scanned hD hwrite
    have hsame : ∀ q ∈ ps, page h₂.storage q = page h.storage q := fun q hq => by
      rw [page, hothers q (fun e => hps.1 (e ▸ hq)), ← page]
    have hrest : ps.flatMap (page h₂.storage) = ps.flatMap (page h.storage) := List.flatMap_congr hsame
    rw [prunePages_scanned hempty hscan hwrite]
    by_cases hstop : scan.stoppedEarly = true
    · -- the bound is reached on this page
      have hlt : quota maxRecords examined (page h.storage p).length < (page h.storage p).length :=
        (hD.stoppedEarly.1 hstop).resolve_left (by simp)
      have hun : scan.unexaminedInPage.val
          = (0 : ℤ) + ((page h.storage p).length - quota maxRecords examined (page h.storage p).length : ℕ) :=
        hD.unexamined
      rw [if_pos hstop, stop_returns_iff (by rw [hrest]; have := examined.lo_le; omega), quota_add_of_lt hlt,
        stopsOnLast_stop hnd hlt]
    · -- the page is examined whole
      have hfull : quota maxRecords examined (page h.storage p).length = (page h.storage p).length := by
        by_contra hne
        exact hstop (hD.stoppedEarly.2 (.inr (lt_of_le_of_ne (quota_le _ _ _) hne)))
      have hex : scan.examined.val = examined.val + ((page h.storage p).length : ℕ) := by
        rw [← hfull]
        exact hD.examined
      have hkept : ∀ a ∈ ps.flatMap (page h₂.storage), h₂.storage.record.has a = true := fun a ha => by
        rw [hrest] at ha
        have hno : a ∉ D := fun hmem => hnd'.2.2 a (hD.mem hmem) a ha rfl
        rw [hhost, hD.host]
        exact (has_strikeRecords hno).trans (hrec' a (List.mem_append_right _ ha))
      rw [if_neg hstop, prunePages_returns_iff now maxRecords hps.2 (hrest ▸ hnd'.2.1) hkept (by rw [hrest]; omega),
        hrest, quota_add_of_full hfull hex, stopsOnLast_go hnd hsame]

/-- **A pruning returns** to the admin unless the first address it leaves unexamined stands on the last page. -/
theorem pruneExpired_returns_iff (env : Env Address) (admin : Address) (maxRecords : U32) (hw : WellPaged h.storage)
    (hfit : ((getAllowlist h.storage).length : ℤ) ≤ 4294967295) :
    (∃ n h', pruneExpired env admin maxRecords h = .ok (n, h')) ↔
      h.storage.roles.admin = some admin ∧ env.authorized admin = true ∧
        ∀ a, (getAllowlist h.storage)[quota maxRecords 0 (getAllowlist h.storage).length]? = some a →
          h.storage.allowlistPageOf.get a ≠ some lastPage := by
  have hfit' : (0 : U32).val + ((allowlistMeta h.storage).1.upTo.flatMap (page h.storage)).length ≤ 4294967295 := by
    rw [MInt.val_zero, zero_add]
    exact hfit
  have hwalk := prunePages_returns_iff env.sequence maxRecords (allowlistMeta h.storage).1.upTo_nodup hw.nodup
    (fun a ha => hw.mem_getAllowlist_iff_record.1 ha) hfit'
  have hstops : StopsOnLast h.storage (allowlistMeta h.storage).1.upTo
      (quota maxRecords 0 ((allowlistMeta h.storage).1.upTo.flatMap (page h.storage)).length) ↔
      ∃ a, (getAllowlist h.storage)[quota maxRecords 0 (getAllowlist h.storage).length]? = some a ∧
        h.storage.allowlistPageOf.get a = some lastPage := by
    refine exists_congr fun a => and_congr_right fun _ => ?_
    rw [← hw.mem_page, and_iff_right_iff_imp, MInt.mem_upTo]
    intro ha
    by_contra hlt
    rw [page_eq_nil_of_get (hw.beyond _ (not_le.1 hlt))] at ha
    cases ha
  rw [hstops, not_exists] at hwalk
  simp only [not_and] at hwalk
  simp only [pruneExpired, Call.bind_ok, Administered.requireAdmin_ok, administered_roles, Call.storage_ok]
  constructor
  · rintro ⟨n, h', _, _, ⟨hadmin, hauth, e⟩, _, _, hs, hrun⟩
    cases e
    cases hs
    exact ⟨hadmin, hauth, hwalk.1 ⟨n, h', hrun⟩⟩
  · rintro ⟨hadmin, hauth, hstop⟩
    obtain ⟨n, h', hrun⟩ := hwalk.2 hstop
    exact ⟨n, h', (), h, ⟨hadmin, hauth, rfl⟩, _, _, rfl, hrun⟩

/-! ## Rounds -/

/-- The record of `a`, if there is one, has not expired at ledger `now`. -/
def live (s : State Address) (now : U32) (a : Address) : Bool := !expiredAt s now a

/-- After `j` rounds that look at `k` addresses each: the swept list, and what was stored of the addresses on it. -/
structure Swept (s s' : State Address) (now : U32) (k j : ℕ) : Prop where
  list : getAllowlist s' = (sweep (live s now) k)^[j] (getAllowlist s)
  record : ∀ a ∈ getAllowlist s', s'.record.get a = s.record.get a
  pageOf : ∀ a ∈ getAllowlist s', s'.allowlistPageOf.get a = s.allowlistPageOf.get a
  roles : s'.roles = s.roles

/-- A bounded pruning is a sweep. -/
theorem getAllowlist_pruned {s s' : State Address} {now maxRecords : U32} (hw : WellPaged s) (hk : maxRecords ≠ 0)
    (hstruck : Struck (pruned s now maxRecords) s s') :
    getAllowlist s' = sweep (live s now) maxRecords.val.toNat (getAllowlist s) := by
  have hexamined : examined s maxRecords = (getAllowlist s).take maxRecords.val.toNat := if_neg hk
  have hnd := hw.nodup
  rw [hstruck.getAllowlist, pruned, hexamined, sweep]
  conv => lhs; rw [← List.take_append_drop maxRecords.val.toNat (getAllowlist s), List.filter_append]
  rw [← List.take_append_drop maxRecords.val.toNat (getAllowlist s), List.nodup_append] at hnd
  congr 1
  · refine List.filter_congr fun a ha => ?_
    simp [live, ha]
  · refine List.filter_eq_self.2 fun a ha => ?_
    have hno : a ∉ (getAllowlist s).take maxRecords.val.toNat := fun hmem => hnd.2.2 a hmem a ha rfl
    simp [hno]

/-- One more round. -/
theorem Swept.next {s s₁ s' : State Address} {now maxRecords : U32} {j : ℕ}
    (hj : Swept s s₁ now maxRecords.val.toNat j) (hw : WellPaged s₁) (hk : maxRecords ≠ 0)
    (hstruck : Struck (pruned s₁ now maxRecords) s₁ s') (hroles : s'.roles = s₁.roles) :
    Swept s s' now maxRecords.val.toNat (j + 1) := by
  have hlive : ∀ a ∈ getAllowlist s₁, live s₁ now a = live s now a := fun a ha => by
    unfold live expiredAt
    rw [hj.record a ha]
  have hstay : ∀ a ∈ getAllowlist s', a ∉ pruned s₁ now maxRecords ∧ a ∈ getAllowlist s₁ := fun a ha => by
    rw [hstruck.getAllowlist, List.mem_filter, decide_eq_true_eq] at ha
    exact ⟨ha.2, ha.1⟩
  refine ⟨?_, fun a ha => ?_, fun a ha => ?_, hroles.trans hj.roles⟩
  · rw [Function.iterate_succ_apply', ← hj.list, getAllowlist_pruned hw hk hstruck, sweep_congr hlive]
  · obtain ⟨hno, hmem⟩ := hstay a ha
    rw [hstruck.record, if_neg hno, hj.record a hmem]
  · obtain ⟨hno, hmem⟩ := hstay a ha
    rw [hstruck.pageOf, if_neg hno, hj.pageOf a hmem]

section Rounds

variable {admin : Address} {maxRecords : U32} {j : ℕ}

/-- The contract after the same call `j` times. -/
def after (h : Contract Address) (l : Env Address × Op Address) (j : ℕ) : Contract Address :=
  (compliance Address).run h (List.replicate j l)

/-- The contract can be in the state `h`. -/
def Reachable (h : Contract Address) : Prop := ∃ ls, (compliance Address).run (Contract.fresh Address) ls = h

theorem Reachable.after (hreach : Reachable h) (l : Env Address × Op Address) (j : ℕ) : Reachable (after h l j) := by
  obtain ⟨ls, rfl⟩ := hreach
  exact ⟨ls ++ List.replicate j l, System.run_append _ _ _⟩

theorem Reachable.wellPaged (hreach : Reachable h) : WellPaged h.storage := by
  obtain ⟨ls, rfl⟩ := hreach
  exact (run_listed ls).wellPaged

theorem Reachable.length_le (hreach : Reachable h) : ((getAllowlist h.storage).length : ℤ) ≤ 4294967295 := by
  obtain ⟨ls, rfl⟩ := hreach
  exact length_getAllowlist_le ls

/-- A pruning as a step of the system. -/
theorem step_pruneExpired {h' : Contract Address} {r : Ret} :
    (compliance Address).step h (env, .pruneExpired admin maxRecords) = some (r, h') ↔
      ∃ n, r = .u32 n ∧ pruneExpired env admin maxRecords h = .ok (n, h') := by
  refine Call.returned_eq_some.trans ?_
  simp only [call, Call.bind_ok, Call.pure_ok]
  constructor
  · rintro ⟨n, h₁, hrun, e⟩
    cases e
    exact ⟨n, rfl, hrun⟩
  · rintro ⟨n, rfl, hrun⟩
    exact ⟨n, h', hrun, rfl⟩

/-- As long as the rounds are answered, they sweep. -/
theorem swept_of_answered (hreach : Reachable h) (hk : maxRecords ≠ 0)
    (hans : ∀ i < j, (compliance Address).step (after h (env, .pruneExpired admin maxRecords) i)
      (env, .pruneExpired admin maxRecords) ≠ none) :
    Swept h.storage (after h (env, .pruneExpired admin maxRecords) j).storage env.sequence maxRecords.val.toNat j := by
  induction j with
  | zero => exact ⟨rfl, fun _ _ => rfl, fun _ _ => rfl, rfl⟩
  | succ j ih =>
    have hj := ih fun i hi => hans i (Nat.lt_succ_of_lt hi)
    obtain ⟨⟨r, h'⟩, hstep⟩ := Option.ne_none_iff_exists'.1 (hans j (Nat.lt_succ_self j))
    have hw := (hreach.after (env, .pruneExpired admin maxRecords) j).wellPaged
    obtain ⟨n, -, hrun⟩ := step_pruneExpired.1 hstep
    obtain ⟨-, -, hstruck, hhost, -⟩ := pruneExpired_ok hw hrun
    have hafter : after h (env, .pruneExpired admin maxRecords) (j + 1) = h' := by
      rw [after, System.run_replicate_succ]
      exact System.exec_of_some hstep
    rw [hafter]
    exact hj.next hw hk hstruck (by rw [hhost]; rfl)

omit [DecidableEq Address] in
theorem getElem?_quota (hk : maxRecords ≠ 0) (l : List Address) :
    l[quota maxRecords 0 l.length]? = l[maxRecords.val.toNat]? := by
  rw [quota, if_neg hk, MInt.val_zero, sub_zero]
  by_cases hle : l.length ≤ maxRecords.val.toNat
  · rw [Nat.min_eq_left hle, List.getElem?_eq_none le_rfl, List.getElem?_eq_none hle]
  · rw [Nat.min_eq_right (not_le.1 hle).le]

/-- A round is answered unless it stops on the last page. -/
theorem Swept.answered_iff {s : State Address} (hj : Swept s h.storage env.sequence maxRecords.val.toNat j)
    (hreach : Reachable h) (hadmin : s.roles.admin = some admin) (hauth : env.authorized admin = true)
    (hk : maxRecords ≠ 0) :
    (compliance Address).step h (env, .pruneExpired admin maxRecords) ≠ none ↔
      ∀ a, ((sweep (live s env.sequence) maxRecords.val.toNat)^[j] (getAllowlist s))[maxRecords.val.toNat]? = some a →
        s.allowlistPageOf.get a ≠ some lastPage := by
  have hreturns := pruneExpired_returns_iff env admin maxRecords hreach.wellPaged hreach.length_le
  have hadmin' : h.storage.roles.admin = some admin := by rw [hj.roles, hadmin]
  simp only [hadmin', hauth, true_and, getElem?_quota hk] at hreturns
  have hsame : (∀ a, (getAllowlist h.storage)[maxRecords.val.toNat]? = some a →
      h.storage.allowlistPageOf.get a ≠ some lastPage) ↔
      ∀ a, (getAllowlist h.storage)[maxRecords.val.toNat]? = some a → s.allowlistPageOf.get a ≠ some lastPage :=
    forall₂_congr fun a ha => by rw [hj.pageOf a (List.mem_of_getElem? ha)]
  rw [← hj.list, ← hsame, ← hreturns, Option.ne_none_iff_exists']
  constructor
  · rintro ⟨⟨r, h'⟩, hstep⟩
    obtain ⟨n, -, hrun⟩ := step_pruneExpired.1 hstep
    exact ⟨n, h', hrun⟩
  · rintro ⟨n, h', hrun⟩
    exact ⟨(.u32 n, h'), step_pruneExpired.2 ⟨n, rfl, hrun⟩⟩

/-- A round answers 0 when the sweep reaches the end of the list. -/
theorem Swept.answer {s : State Address} {h' : Contract Address} {n : U32}
    (hj : Swept s h.storage env.sequence maxRecords.val.toNat j) (hw : WellPaged h.storage) (hk : maxRecords ≠ 0)
    (hrun : pruneExpired env admin maxRecords h = .ok (n, h')) :
    n = 0 ↔
      ((sweep (live s env.sequence) maxRecords.val.toNat)^[j] (getAllowlist s)).length ≤ maxRecords.val.toNat := by
  obtain ⟨-, -, -, -, hn⟩ := pruneExpired_ok hw hrun
  have hexamined : examined h.storage maxRecords = (getAllowlist h.storage).take maxRecords.val.toNat := if_neg hk
  rw [hexamined, List.length_take] at hn
  rw [← hj.list, MInt.eq_zero_iff, hn]
  omega

/-- **Repeated prunings come to answer 0** exactly when the sweeps reach the end of the list and none stops on the last
page. -/
theorem answers_zero_iff (hreach : Reachable h) (hadmin : h.storage.roles.admin = some admin)
    (hauth : env.authorized admin = true) (hk : maxRecords ≠ 0) :
    (∃ j h', (compliance Address).step (after h (env, .pruneExpired admin maxRecords) j)
        (env, .pruneExpired admin maxRecords) = some (.u32 0, h')) ↔
      pending (live h.storage env.sequence) (getAllowlist h.storage) < maxRecords.val.toNat ∧
        ∀ j a, ((sweep (live h.storage env.sequence) maxRecords.val.toNat)^[j] (getAllowlist h.storage))[
            maxRecords.val.toNat]? = some a → h.storage.allowlistPageOf.get a ≠ some lastPage := by
  have hpos : 0 < maxRecords.val.toNat := by
    have := maxRecords.lo_le
    rw [ne_eq, MInt.eq_zero_iff] at hk
    omega
  rw [← sweeps_reach_end hpos]
  constructor
  · rintro ⟨j, h', hstep⟩
    have hans : ∀ i ≤ j, (compliance Address).step (after h (env, .pruneExpired admin maxRecords) i)
        (env, .pruneExpired admin maxRecords) ≠ none := fun i hi =>
      System.answered_of_le hi (by rw [after] at hstep; rw [hstep]; exact Option.some_ne_none _)
    have hswept : ∀ i ≤ j, Swept h.storage (after h (env, .pruneExpired admin maxRecords) i).storage env.sequence
        maxRecords.val.toNat i := fun i hi =>
      swept_of_answered hreach hk fun i' hi' => hans i' (hi'.le.trans hi)
    obtain ⟨n, e, hrun⟩ := step_pruneExpired.1 hstep
    cases e
    have hend := ((hswept j le_rfl).answer (hreach.after _ j).wellPaged hk hrun).1 rfl
    refine ⟨⟨j, hend⟩, fun i => ?_⟩
    rcases Nat.le_total i j with hle | hle
    · exact ((hswept i hle).answered_iff (hreach.after _ i) hadmin hauth hk).1 (hans i hle)
    · -- nothing is left unexamined once the end was reached
      intro a ha
      obtain ⟨d, rfl⟩ := Nat.exists_eq_add_of_le hle
      have hshort := (iterate_sweep_sublist (live h.storage env.sequence) maxRecords.val.toNat d
        ((sweep (live h.storage env.sequence) maxRecords.val.toNat)^[j] (getAllowlist h.storage))).length_le
      rw [← Function.iterate_add_apply, Nat.add_comm d j] at hshort
      rw [List.getElem?_eq_none (hshort.trans hend)] at ha
      cases ha
  · rintro ⟨⟨j, hend⟩, hstop⟩
    have hans : ∀ i, (compliance Address).step (after h (env, .pruneExpired admin maxRecords) i)
        (env, .pruneExpired admin maxRecords) ≠ none := fun i => by
      induction i using Nat.strongRecOn with
      | ind i ih => exact ((swept_of_answered hreach hk ih).answered_iff (hreach.after _ i) hadmin hauth hk).2 (hstop i)
    obtain ⟨⟨r, h'⟩, hstep⟩ := Option.ne_none_iff_exists'.1 (hans j)
    obtain ⟨n, rfl, hrun⟩ := step_pruneExpired.1 hstep
    have hzero := ((swept_of_answered hreach hk fun i _ => hans i).answer (hreach.after _ j).wellPaged hk hrun).2 hend
    exact ⟨j, h', hzero ▸ hstep⟩

/-- After an answer 0 no listed address has expired. -/
theorem fresh_of_zero {h' : Contract Address} (hw : WellPaged h.storage)
    (hrun : pruneExpired env admin maxRecords h = .ok (0, h')) :
    ∀ a ∈ getAllowlist h'.storage, expiredAt h'.storage env.sequence a = false := by
  obtain ⟨-, -, hstruck, -, hn⟩ := pruneExpired_ok hw hrun
  have hall : examined h.storage maxRecords = getAllowlist h.storage := by
    rw [examined_eq] at hn ⊢
    rw [List.length_take, MInt.val_zero] at hn
    exact List.take_of_length_le (by omega)
  intro a ha
  rw [hstruck.getAllowlist, List.mem_filter, decide_eq_true_eq, pruned, hall, List.mem_filter] at ha
  have hlive : expiredAt h.storage env.sequence a = false := by
    rw [← Bool.not_eq_true]
    exact fun hexp => ha.2 ⟨ha.1, hexp⟩
  have hno : a ∉ pruned h.storage env.sequence maxRecords := by
    rw [pruned, hall, List.mem_filter]
    exact ha.2
  unfold expiredAt at hlive ⊢
  rwa [hstruck.record, if_neg hno]

/-- Calling `prune_expired(admin, max_records)` again and again at one ledger comes to answer 0, and when it does no
listed address has an expired record. -/
def PruningFinishes (h : Contract Address) (env : Env Address) (admin : Address) (maxRecords : U32) : Prop :=
  (∃ j h', (compliance Address).step (after h (env, .pruneExpired admin maxRecords) j)
      (env, .pruneExpired admin maxRecords) = some (.u32 0, h')) ∧
    ∀ j h', (compliance Address).step (after h (env, .pruneExpired admin maxRecords) j)
      (env, .pruneExpired admin maxRecords) = some (.u32 0, h') →
      ∀ a ∈ getAllowlist h'.storage, expiredAt h'.storage env.sequence a = false

/-- **Incremental pruning finishes exactly when** fewer than `max_records` of the listed addresses before the last one
are live, and no round leaves an address on the last page as its first unexamined one. -/
theorem pruningFinishes_iff (ls : List (Env Address × Op Address))
    (hadmin : ((compliance Address).run (Contract.fresh Address) ls).storage.roles.admin = some admin)
    (hauth : env.authorized admin = true) (hk : maxRecords ≠ 0) :
    let h := (compliance Address).run (Contract.fresh Address) ls
    let L := getAllowlist h.storage
    let k := maxRecords.val.toNat
    PruningFinishes h env admin maxRecords ↔
      (L.dropLast.filter (live h.storage env.sequence)).length < k ∧
        ∀ j a, ((sweep (live h.storage env.sequence) k)^[j] L)[k]? = some a →
          h.storage.allowlistPageOf.get a ≠ some lastPage := by
  intro h L k
  have hreach : Reachable h := ⟨ls, rfl⟩
  refine Iff.trans (and_iff_left ?_) (answers_zero_iff hreach hadmin hauth hk)
  intro j h' hstep
  obtain ⟨n, e, hrun⟩ := step_pruneExpired.1 hstep
  cases e
  exact fresh_of_zero (hreach.after _ j).wellPaged hrun

end Rounds

/-- Rounds of three strike 6 and 8, then 9. -/
theorem pruningFinishes_fourListed :
    PruningFinishes ((compliance ℕ).run (Contract.fresh ℕ) fourListed) (.signed 10) 1 3 := by
  refine (pruningFinishes_iff fourListed (by decide +kernel) rfl (by decide)).2 ⟨by decide +kernel, fun j a ha => ?_⟩
  have hpages : ∀ a ∈ getAllowlist ((compliance ℕ).run (Contract.fresh ℕ) fourListed).storage,
      ((compliance ℕ).run (Contract.fresh ℕ) fourListed).storage.allowlistPageOf.get a ≠ some lastPage := by
    decide +kernel
  exact hpages a ((iterate_sweep_sublist _ _ j _).subset (List.mem_of_getElem? ha))

/-- Two addresses are listed; the second expires at ledger 10, the first never. -/
def liveFirst : List (Env ℕ × Op ℕ) :=
  [(.signed 0, .initializeContract 1), (.signed 1, .addToAllowlist 1 7 [85, 83] 0),
    (.signed 1, .addToAllowlist 1 8 [85, 83] 10)]

/-- Rounds of one look at the live address every time and never at the expired one. -/
theorem pruning_starves :
    ¬ ∀ (ls : List (Env ℕ × Op ℕ)) (env : Env ℕ) (admin : ℕ) (maxRecords : U32),
      ((compliance ℕ).run (Contract.fresh ℕ) ls).storage.roles.admin = some admin → env.authorized admin = true →
      maxRecords ≠ 0 → PruningFinishes ((compliance ℕ).run (Contract.fresh ℕ) ls) env admin maxRecords := by
  intro hall
  have hadmin : ((compliance ℕ).run (Contract.fresh ℕ) liveFirst).storage.roles.admin = some 1 := by decide +kernel
  have hfinishes := hall liveFirst (.signed 10) 1 1 hadmin rfl (by decide)
  have hpending := ((answers_zero_iff ⟨liveFirst, rfl⟩ hadmin rfl (by decide)).1 hfinishes.1).1
  exact absurd hpending (by decide +kernel)

end StellarRwa.Compliance

import StellarRwa.Compliance.Pages

/-!
# Pruning

`prune_expired` is two nested loops with an early return. `scan_ok` says what the inner loop does to one page and
`prunePages_ok` what the walk over the pages does: of the addresses in list order it examines a first part, as many as
the bound allows, and strikes the expired ones among them. `pruneExpired_ok` is the result for the whole call.
-/

namespace StellarRwa.Compliance

open Lib

variable {Address : Type} [DecidableEq Address] {env : Env Address} {h : Contract Address}

/-- The record of `a` has expired at ledger `now`. -/
def expiredAt (s : State Address) (now : U32) (a : Address) : Bool :=
  match s.record.get a with
  | some r => r.expiresAt ≠ 0 ∧ r.expiresAt ≤ now
  | none => false

/-- The records and page-of entries of `D` deleted. -/
def State.strikeRecords (s : State Address) (D : List Address) : State Address :=
  { s with record := s.record.removeAll D, allowlistPageOf := s.allowlistPageOf.removeAll D }

/-- The events of striking `D`. -/
def expiredEvents (s : State Address) (D : List Address) : List (Event Address) :=
  D.filterMap fun a => (s.record.get a).map fun r => .expired a r.expiresAt

/-- How many of `n` addresses are examined when `examined` already were; `0` means no bound. -/
def quota (maxRecords examined : U32) (n : Nat) : Nat :=
  if maxRecords = 0 then n else min n (maxRecords.val - examined.val).toNat

theorem quota_le (maxRecords examined : U32) (n : Nat) : quota maxRecords examined n ≤ n := by
  unfold quota
  split
  · exact Nat.le_refl _
  · exact Nat.min_le_left _ _

theorem quota_bound {maxRecords examined : U32} (h : maxRecords ≠ 0 ∧ maxRecords ≤ examined) (n : Nat) :
    quota maxRecords examined n = 0 := by
  rw [quota, if_neg h.1]
  have := MInt.le_def.1 h.2
  omega

theorem quota_succ {maxRecords examined examined' : U32} (h : ¬ (maxRecords ≠ 0 ∧ maxRecords ≤ examined))
    (he : examined'.val = examined.val + 1) (n : Nat) :
    quota maxRecords examined (n + 1) = quota maxRecords examined' n + 1 := by
  unfold quota
  split
  · rfl
  · rename_i h0
    have hlt : ¬ maxRecords.val ≤ examined.val := fun hle => h ⟨h0, hle⟩
    omega

theorem quota_add_of_lt {maxRecords examined : U32} {m : Nat} (h : quota maxRecords examined m < m) (n : Nat) :
    quota maxRecords examined (m + n) = quota maxRecords examined m := by
  unfold quota at h ⊢
  split
  · rename_i h0
    rw [if_pos h0] at h
    omega
  · rename_i h0
    rw [if_neg h0] at h
    omega

theorem quota_add_of_full {maxRecords examined examined' : U32} {m : Nat} (h : quota maxRecords examined m = m)
    (he : examined'.val = examined.val + m) (n : Nat) :
    quota maxRecords examined (m + n) = m + quota maxRecords examined' n := by
  unfold quota at h ⊢
  split
  · rfl
  · rename_i h0
    rw [if_neg h0] at h
    omega

/-- Striking changes nothing for the addresses that stay. -/
theorem expiredAt_strikeRecords {s : State Address} {D : List Address} {now : U32} {a : Address} (ha : a ∉ D) :
    expiredAt (s.strikeRecords D) now a = expiredAt s now a := by
  simp [expiredAt, State.strikeRecords, Storage.get_removeAll, ha]

theorem has_strikeRecords {s : State Address} {D : List Address} {a : Address} (ha : a ∉ D) :
    (s.strikeRecords D).record.has a = s.record.has a := by
  simp [State.strikeRecords, Storage.has, Storage.get_removeAll, ha]

theorem expiredEvents_strikeRecords {s : State Address} {D E : List Address} (hdis : ∀ a ∈ E, a ∉ D) :
    expiredEvents (s.strikeRecords D) E = expiredEvents s E := by
  unfold expiredEvents
  refine List.filterMap_congr fun a ha => ?_
  simp [State.strikeRecords, Storage.get_removeAll, hdis a ha]

/-! ## One page -/

/-- What the loop over the addresses `l` of a page does. -/
structure Scanned (now maxRecords : U32) (l : List Address) (scan : Scan Address) (h : Contract Address)
    (scan' : Scan Address) (h' : Contract Address) (D : List Address) : Prop where
  struck : D = (l.take (quota maxRecords scan.examined l.length)).filter (expiredAt h.storage now)
  host : h' = { h with
    storage := h.storage.strikeRecords D
    events := h.events ++ expiredEvents h.storage D }
  next : scan'.next = scan.next ++ l.filter (· ∉ D)
  changed : scan'.changed = true ↔ scan.changed = true ∨ D ≠ []
  stoppedEarly : scan'.stoppedEarly = true ↔
    scan.stoppedEarly = true ∨ quota maxRecords scan.examined l.length < l.length
  unexamined : scan'.unexaminedInPage.val =
    scan.unexaminedInPage.val + ((l.length - quota maxRecords scan.examined l.length : Nat) : Int)
  examined : scan'.examined.val = scan.examined.val + (quota maxRecords scan.examined l.length : Nat)

namespace Scanned

variable {now maxRecords : U32} {l D : List Address} {scan scan' : Scan Address} {h h' : Contract Address}

/-- The struck addresses are on the page. -/
theorem mem (hD : Scanned now maxRecords l scan h scan' h' D) {a : Address} (ha : a ∈ D) : a ∈ l := by
  rw [hD.struck] at ha
  exact List.mem_of_mem_take (List.mem_filter.1 ha).1

/-- A live address in front of the page. -/
theorem keep {a : Address} {e : U32}
    (hD : Scanned now maxRecords l { scan with examined := e, next := scan.next ++ [a] } h scan' h' D) (ha : a ∉ l)
    (hq : quota maxRecords scan.examined (l.length + 1) = quota maxRecords e l.length + 1)
    (he : e.val = scan.examined.val + 1) (hlive : expiredAt h.storage now a = false) :
    Scanned now maxRecords (a :: l) scan h scan' h' D := by
  have haD : a ∉ D := fun hmem => ha (hD.mem hmem)
  refine ⟨?_, hD.host, ?_, hD.changed, ?_, ?_, ?_⟩
  · rw [List.length_cons, hq, List.take_succ_cons, List.filter_cons_of_neg (by simp [hlive]), hD.struck]
  · rw [hD.next]
    simp [haD]
  · rw [hD.stoppedEarly, List.length_cons, hq, Nat.add_lt_add_iff_right]
  · rw [hD.unexamined, List.length_cons, hq, Nat.add_sub_add_right]
  · rw [hD.examined, List.length_cons, hq]
    push_cast
    omega

/-- An expired address in front of the page. -/
theorem strike {a : Address} {e : U32}
    (hD : Scanned now maxRecords l { scan with examined := e, changed := true }
      { h with
        storage := h.storage.strikeRecords [a]
        events := h.events ++ expiredEvents h.storage [a] } scan' h' D) (ha : a ∉ l)
    (hq : quota maxRecords scan.examined (l.length + 1) = quota maxRecords e l.length + 1)
    (he : e.val = scan.examined.val + 1) (hexp : expiredAt h.storage now a = true) :
    Scanned now maxRecords (a :: l) scan h scan' h' (a :: D) := by
  have hne : ∀ b ∈ l, b ∉ [a] := fun b hb hmem => ha (List.mem_singleton.1 hmem ▸ hb)
  have hsame : (l.take (quota maxRecords e l.length)).filter (expiredAt (h.storage.strikeRecords [a]) now)
      = (l.take (quota maxRecords e l.length)).filter (expiredAt h.storage now) :=
    List.filter_congr fun b hb => expiredAt_strikeRecords (hne b (List.mem_of_mem_take hb))
  refine ⟨?_, ?_, ?_, ?_, ?_, ?_, ?_⟩
  · rw [List.length_cons, hq, List.take_succ_cons, List.filter_cons_of_pos hexp, ← hsame, ← hD.struck]
  · have hev : expiredEvents h.storage (a :: D)
        = expiredEvents h.storage [a] ++ expiredEvents (h.storage.strikeRecords [a]) D := by
      rw [expiredEvents_strikeRecords fun b hb => hne b (hD.mem hb)]
      exact List.filterMap_append (l := [a])
    rw [hD.host, hev, ← List.append_assoc]
    rfl
  · have hfilter : l.filter (· ∉ D) = l.filter (· ∉ a :: D) := List.filter_congr fun b hb => by
      simp [List.mem_singleton.not.1 (hne b hb)]
    rw [hD.next, hfilter]
    simp
  · rw [hD.changed]
    simp
  · rw [hD.stoppedEarly, List.length_cons, hq, Nat.add_lt_add_iff_right]
  · rw [hD.unexamined, List.length_cons, hq, Nat.add_sub_add_right]
  · rw [hD.examined, List.length_cons, hq]
    push_cast
    omega

end Scanned

/-- An examined address with a record is kept, or struck when it has expired. -/
theorem keepOrPrune_ok {now : U32} {a : Address} {b : Bool} {h' : Contract Address}
    (hrec : h.storage.record.has a = true) (hrun : keepOrPrune now a h = .ok (b, h')) :
    (expiredAt h.storage now a = false ∧ b = true ∧ h' = h) ∨
      (expiredAt h.storage now a = true ∧ b = false ∧ h' = { h with
        storage := h.storage.strikeRecords [a]
        events := h.events ++ expiredEvents h.storage [a] }) := by
  obtain ⟨r, hr⟩ := Storage.has_iff.1 hrec
  rw [keepOrPrune, Call.bind_ok] at hrun
  obtain ⟨_, _, hs, hrun⟩ := hrun
  cases hs
  simp only [hr, Call.ite_ok, Call.bind_ok, Call.update_ok, Call.publish_ok, Call.pure_ok] at hrun
  rcases hrun with ⟨hexp, _, _, hu₁, _, _, hu₂, _, _, hu₃, e⟩ | ⟨hexp, e⟩
  · cases hu₁; cases hu₂; cases hu₃; cases e
    exact .inr ⟨by simpa [expiredAt, hr] using hexp, rfl, by
      simp [State.strikeRecords, Storage.removeAll, expiredEvents, hr]⟩
  · cases e
    exact .inl ⟨by simpa [expiredAt, hr] using hexp, rfl, rfl⟩

/-- **The inner loop.** The induction is on the page; the bound is reached once and stays reached. -/
theorem scan_ok {now maxRecords : U32} : ∀ {l : List Address} {scan scan' : Scan Address} {h h' : Contract Address},
    l.Nodup → (∀ a ∈ l, h.storage.record.has a = true) →
    Call.foldEach (pruneEntry now maxRecords) scan l h = .ok (scan', h') →
    ∃ D, Scanned now maxRecords l scan h scan' h' D
  | [], scan, scan', h, h', _, _, hrun => by
    rw [Call.foldEach_nil, Call.pure_ok] at hrun
    cases hrun
    refine ⟨[], by simp, ?_, by simp, by simp, ?_, ?_, ?_⟩
    · simp [State.strikeRecords, Storage.removeAll, expiredEvents]
    · have := quota_le maxRecords scan.examined 0
      simp
    · simp
    · have := quota_le maxRecords scan.examined 0
      simp
      omega
  | a :: l, scan, scan', h, h', hnd, hrec, hrun => by
    rw [Call.foldEach_cons, Call.bind_ok] at hrun
    obtain ⟨scan₁, h₁, hround, hloop⟩ := hrun
    rw [List.nodup_cons] at hnd
    simp only [pruneEntry, Call.ite_ok, Call.bind_ok, Call.orTrap_ok, MInt.checkedAdd_eq_some, MInt.val_one,
      Call.pure_ok] at hround
    rcases hround with ⟨hfull, n, _, ⟨_, hn, e₁⟩, e₂⟩ | ⟨hroom, e, _, ⟨_, he, e₁⟩, keep, h₂, hkeep, hout⟩
    · -- the bound is reached: everything from here on is kept unexamined
      cases e₁
      cases e₂
      obtain ⟨D, hD⟩ := scan_ok hnd.2 (fun b hb => hrec b (List.mem_cons_of_mem _ hb)) hloop
      have hq : ∀ m, quota maxRecords scan.examined m = 0 := quota_bound hfull
      obtain ⟨hstruck, hhost, hnext, hchanged, hstopped, hunex, hex⟩ := hD
      simp only [hq, List.take_zero, List.filter_nil] at hstruck hstopped hunex hex
      subst hstruck
      refine ⟨[], by simp [hq], hhost, ?_, hchanged, ?_, ?_, ?_⟩
      · rw [hnext]; simp
      · simp only [hq, List.length_cons, hstopped]; simp
      · simp only [hq, List.length_cons, hunex, hn]; push_cast; omega
      · simp only [hq, hex]
    · cases e₁
      have hq := quota_succ hroom he l.length
      rcases keepOrPrune_ok (hrec a List.mem_cons_self) hkeep with ⟨hlive, rfl, rfl⟩ | ⟨hexp, rfl, rfl⟩
      · obtain ⟨-, e₂⟩ | ⟨hno, -⟩ := hout
        · cases e₂
          obtain ⟨D, hD⟩ := scan_ok hnd.2 (fun b hb => hrec b (List.mem_cons_of_mem _ hb)) hloop
          exact ⟨D, hD.keep hnd.1 hq he hlive⟩
        · exact absurd rfl hno
      · obtain ⟨hno, -⟩ | ⟨-, e₂⟩ := hout
        · cases hno
        · cases e₂
          have hrec' : ∀ b ∈ l, (h.storage.strikeRecords [a]).record.has b = true := fun b hb => by
            have hne : b ∉ [a] := fun hmem => hnd.1 (List.mem_singleton.1 hmem ▸ hb)
            rw [has_strikeRecords hne]
            exact hrec b (List.mem_cons_of_mem _ hb)
          obtain ⟨D, hD⟩ := scan_ok hnd.2 hrec' hloop
          exact ⟨a :: D, hD.strike hnd.1 hq he hexp⟩

/-! ## All pages -/

omit [DecidableEq Address] in
theorem countLater_ok {total n : U32} {p : U32} {h' : Contract Address}
    (hrun : countLater total p h = .ok (n, h')) :
    h' = h ∧ n.val = total.val + (page h.storage p).length := by
  rw [countLater, Call.bind_ok] at hrun
  obtain ⟨_, _, hs, hrun⟩ := hrun
  cases hs
  unfold page
  cases hp : h.storage.allowlistPage.get p with
  | none =>
    simp only [hp, Call.pure_ok] at hrun
    cases hrun
    simp
  | some l =>
    simp only [hp, Call.bind_ok, Call.orTrap_ok, MInt.ofInt?_eq_some, MInt.checkedAdd_eq_some] at hrun
    obtain ⟨len, _, ⟨_, hlen, e₁⟩, m, hm, e₂⟩ := hrun
    cases e₁
    cases e₂
    exact ⟨rfl, by rw [hm, hlen]; rfl⟩

omit [DecidableEq Address] in
/-- The entries on the pages not visited are counted. -/
theorem countPages_ok {ps : List U32} {total n : U32} {h' : Contract Address}
    (hrun : Call.foldEach countLater total ps h = .ok (n, h')) :
    h' = h ∧ n.val = total.val + (ps.flatMap (page h.storage)).length := by
  induction ps generalizing total with
  | nil =>
    rw [Call.foldEach_nil, Call.pure_ok] at hrun
    cases hrun
    simp
  | cons p ps ih =>
    rw [Call.foldEach_cons, Call.bind_ok] at hrun
    obtain ⟨m, h₁, hround, hloop⟩ := hrun
    obtain ⟨rfl, hm⟩ := countLater_ok hround
    obtain ⟨rfl, hn⟩ := ih hloop
    refine ⟨rfl, ?_⟩
    rw [hn, hm, List.flatMap_cons, List.length_append]
    push_cast
    omega

/-- What the walk over the pages `ps` does, with result `n`. -/
structure PagesPruned (now maxRecords examined : U32) (ps : List U32) (h : Contract Address) (n : U32)
    (h' : Contract Address) (D : List Address) : Prop where
  struck : D = ((ps.flatMap (page h.storage)).take
    (quota maxRecords examined (ps.flatMap (page h.storage)).length)).filter (expiredAt h.storage now)
  host : h' = { h with
    storage := { h.storage.strikeRecords D with allowlistPage := h'.storage.allowlistPage }
    events := h.events ++ expiredEvents h.storage D }
  page : ∀ p ∈ ps, page h'.storage p = (page h.storage p).filter (· ∉ D)
  others : ∀ p, p ∉ ps ∨ h.storage.allowlistPage.get p = none →
    h'.storage.allowlistPage.get p = h.storage.allowlistPage.get p
  left : n.val = (ps.flatMap (Compliance.page h.storage)).length -
    (quota maxRecords examined (ps.flatMap (Compliance.page h.storage)).length : Nat)

/-- A page of the walk after its scan: the struck addresses are gone, and no other page was touched. -/
theorem page_scanned {now maxRecords examined : U32} {p : U32} {scan : Scan Address} {h₁ h₂ : Contract Address}
    {D : List Address} {u : Unit}
    (hD : Scanned now maxRecords (page h.storage p) ⟨[], false, false, 0, examined⟩ h scan h₁ D)
    (hwrite : Call.onlyIf (scan.changed = true)
      (Call.update fun s => { s with allowlistPage := s.allowlistPage.set p scan.next } : M Address Unit) h₁
        = .ok (u, h₂)) :
    h₂ = { h₁ with storage := { h₁.storage with allowlistPage := h₂.storage.allowlistPage } } ∧
      page h₂.storage p = (page h.storage p).filter (· ∉ D) ∧
      ∀ q, q ≠ p → h₂.storage.allowlistPage.get q = h.storage.allowlistPage.get q := by
  have hpages : h₁.storage.allowlistPage = h.storage.allowlistPage := by
    rw [hD.host]
    rfl
  rw [Call.onlyIf_ok] at hwrite
  rcases hwrite with ⟨-, hu⟩ | ⟨hno, hu⟩
  · rw [Call.update_ok] at hu
    cases hu
    refine ⟨rfl, ?_, ?_⟩
    · show ((h₁.storage.allowlistPage.set p scan.next).get p).getD [] = _
      rw [Storage.get_set_self, Option.getD_some, hD.next, List.nil_append]
    · intro q hq
      show (h₁.storage.allowlistPage.set p scan.next).get q = _
      rw [Storage.get_set_of_ne _ _ hq, hpages]
  · cases hu
    have hnil : D = [] := by
      by_contra hne
      exact hno (hD.changed.2 (.inr hne))
    refine ⟨rfl, ?_, fun q _ => by rw [hpages]⟩
    rw [hnil, page, hpages]
    exact (List.filter_eq_self.2 (by simp)).symm

section Walk

variable {now maxRecords examined n : U32} {p : U32} {ps : List U32} {scan : Scan Address}
  {h' h₂ : Contract Address} {D₁ D₂ : List Address}

omit [DecidableEq Address] in
theorem strikeRecords_append [DecidableEq Address] (s : State Address) (D E : List Address) :
    s.strikeRecords (D ++ E) = (s.strikeRecords D).strikeRecords E := by
  simp [State.strikeRecords, Storage.removeAll, List.foldl_append]

/-- The bound is reached on the first page: the later pages are only counted. -/
theorem PagesPruned.stop
    (hD₁ : Scanned now maxRecords (Compliance.page h.storage p) ⟨[], false, false, 0, examined⟩ h scan h' D₁)
    (hnd : ((p :: ps).flatMap (Compliance.page h.storage)).Nodup)
    (hhost : h₂ = { h with
      storage := { h.storage.strikeRecords D₁ with allowlistPage := h₂.storage.allowlistPage }
      events := h.events ++ expiredEvents h.storage D₁ })
    (hpage : Compliance.page h₂.storage p = (Compliance.page h.storage p).filter (· ∉ D₁))
    (hothers : ∀ q, q ≠ p → h₂.storage.allowlistPage.get q = h.storage.allowlistPage.get q)
    (hpresent : h.storage.allowlistPage.get p ≠ none) (hstop : scan.stoppedEarly = true)
    (hn : n.val = scan.unexaminedInPage.val + (ps.flatMap (Compliance.page h.storage)).length) :
    PagesPruned now maxRecords examined (p :: ps) h n h₂ D₁ := by
  rw [List.flatMap_cons, List.nodup_append] at hnd
  have hlt : quota maxRecords examined (Compliance.page h.storage p).length < (Compliance.page h.storage p).length :=
    (hD₁.stoppedEarly.1 hstop).resolve_left (by simp)
  have hq := quota_add_of_lt hlt (ps.flatMap (Compliance.page h.storage)).length
  refine ⟨?_, hhost, ?_, ?_, ?_⟩
  · rw [List.flatMap_cons, List.length_append, hq, List.take_append_of_le_length (quota_le _ _ _)]
    exact hD₁.struck
  · intro q hq'
    rcases List.mem_cons.1 hq' with rfl | hmem
    · exact hpage
    · by_cases hqp : q = p
      · rw [hqp]
        exact hpage
      · rw [Compliance.page, hothers q hqp, ← Compliance.page]
        refine (List.filter_eq_self.2 fun a ha => ?_).symm
        have hne : a ∉ D₁ := fun hD => hnd.2.2 a (hD₁.mem hD) a (List.mem_flatMap.2 ⟨q, hmem, ha⟩) rfl
        simpa using hne
  · rintro q (hq' | hq')
    · exact hothers q fun e => hq' (e ▸ List.mem_cons_self)
    · exact hothers q fun e => hpresent (e ▸ hq')
  · have hun : scan.unexaminedInPage.val = (0 : Int) + ((Compliance.page h.storage p).length -
        quota maxRecords examined (Compliance.page h.storage p).length : Nat) := hD₁.unexamined
    rw [List.flatMap_cons, List.length_append, hq, hn, hun]
    push_cast
    omega

/-- The first page is empty and is skipped. -/
theorem PagesPruned.skip (hps : p ∉ ps) (hempty : Compliance.page h.storage p = [])
    (hD : PagesPruned now maxRecords examined ps h n h' D) :
    PagesPruned now maxRecords examined (p :: ps) h n h' D := by
  have hflat : (p :: ps).flatMap (Compliance.page h.storage) = ps.flatMap (Compliance.page h.storage) := by
    rw [List.flatMap_cons, hempty, List.nil_append]
  refine ⟨by rw [hflat]; exact hD.struck, hD.host, ?_, ?_, by rw [hflat]; exact hD.left⟩
  · intro q hq
    rcases List.mem_cons.1 hq with rfl | hq
    · rw [Compliance.page, hD.others q (.inl hps), ← Compliance.page, hempty, List.filter_nil]
    · exact hD.page q hq
  · rintro q (hq | hq)
    · exact hD.others q (.inl fun hmem => hq (List.mem_cons_of_mem _ hmem))
    · exact hD.others q (.inr hq)

/-- The first page is examined whole, then the later ones. -/
theorem PagesPruned.go
    (hD₁ : Scanned now maxRecords (Compliance.page h.storage p) ⟨[], false, false, 0, examined⟩ h scan h' D₁)
    {h₃ : Contract Address} (hps : p ∉ ps) (hnd : ((p :: ps).flatMap (Compliance.page h.storage)).Nodup)
    (hhost : h₂ = { h with
      storage := { h.storage.strikeRecords D₁ with allowlistPage := h₂.storage.allowlistPage }
      events := h.events ++ expiredEvents h.storage D₁ })
    (hpage : Compliance.page h₂.storage p = (Compliance.page h.storage p).filter (· ∉ D₁))
    (hothers : ∀ q, q ≠ p → h₂.storage.allowlistPage.get q = h.storage.allowlistPage.get q)
    (hpresent : h.storage.allowlistPage.get p ≠ none) (hgo : ¬ scan.stoppedEarly = true)
    (hrest : ps.flatMap (Compliance.page h₂.storage) = ps.flatMap (Compliance.page h.storage))
    (hD₂ : PagesPruned now maxRecords scan.examined ps h₂ n h₃ D₂) :
    PagesPruned now maxRecords examined (p :: ps) h n h₃ (D₁ ++ D₂) := by
  rw [List.flatMap_cons, List.nodup_append] at hnd
  have hfull : quota maxRecords examined (Compliance.page h.storage p).length
      = (Compliance.page h.storage p).length := by
    by_contra hne
    exact hgo (hD₁.stoppedEarly.2 (.inr (lt_of_le_of_ne (quota_le _ _ _) hne)))
  have hex := hD₁.examined
  rw [hfull] at hex
  have hq := quota_add_of_full hfull hex (ps.flatMap (Compliance.page h.storage)).length
  -- neither part strikes an address of the other
  have hlater : ∀ a ∈ ps.flatMap (Compliance.page h.storage), a ∉ D₁ := fun a ha hD =>
    hnd.2.2 a (hD₁.mem hD) a ha rfl
  have hsub : ∀ a ∈ D₂, a ∈ ps.flatMap (Compliance.page h.storage) := fun a ha => by
    rw [hD₂.struck, hrest] at ha
    exact List.mem_of_mem_take (List.mem_filter.1 ha).1
  have hstrike : ∀ a, a ∉ D₁ → expiredAt h₂.storage now a = expiredAt h.storage now a := fun a ha => by
    rw [hhost]
    exact expiredAt_strikeRecords ha
  refine ⟨?_, ?_, ?_, ?_, ?_⟩
  · have hsecond : D₂ = ((ps.flatMap (Compliance.page h.storage)).take
        (quota maxRecords scan.examined (ps.flatMap (Compliance.page h.storage)).length)).filter
          (expiredAt h.storage now) := by
      rw [hD₂.struck, hrest]
      exact List.filter_congr fun a ha => hstrike a (hlater a (List.mem_of_mem_take ha))
    have hfirst : D₁ = (Compliance.page h.storage p).filter (expiredAt h.storage now) := by
      rw [hD₁.struck, hfull, List.take_length]
    rw [List.flatMap_cons, List.length_append, hq, List.take_length_add_append, List.filter_append, ← hfirst,
      ← hsecond]
  · have hev : expiredEvents h.storage (D₁ ++ D₂) = expiredEvents h.storage D₁ ++ expiredEvents h₂.storage D₂ := by
      have h₁ : expiredEvents h₂.storage D₂ = expiredEvents h.storage D₂ := by
        rw [hhost]
        exact expiredEvents_strikeRecords fun a ha => hlater a (hsub a ha)
      rw [h₁]
      exact List.filterMap_append
    have h₁ := hD₂.host
    rw [hev, strikeRecords_append, ← List.append_assoc]
    rw [hhost] at h₁ ⊢
    exact h₁
  · intro q hmem
    rcases List.mem_cons.1 hmem with rfl | hmem
    · rw [Compliance.page, hD₂.others q (.inl hps), ← Compliance.page, hpage]
      refine List.filter_congr fun a ha => ?_
      have hne : a ∉ D₂ := fun hD => hnd.2.2 a ha a (hsub a hD) rfl
      simp [hne]
    · have hqp : q ≠ p := fun e => hps (e ▸ hmem)
      rw [hD₂.page q hmem, Compliance.page, hothers q hqp, ← Compliance.page]
      refine List.filter_congr fun a ha => ?_
      have hne := hlater a (List.mem_flatMap.2 ⟨q, hmem, ha⟩)
      simp [hne]
  · rintro q hq'
    have hqp : q ≠ p := by
      rintro rfl
      rcases hq' with hq' | hq'
      · exact hq' List.mem_cons_self
      · exact hpresent hq'
    rw [hD₂.others q (hq'.imp (fun hno hmem => hno (List.mem_cons_of_mem _ hmem)) fun e => by rw [hothers q hqp, e]),
      hothers q hqp]
  · rw [hD₂.left, hrest, List.flatMap_cons, List.length_append, hq]
    push_cast
    omega

end Walk

/-- **The walk over the pages.** The induction is on the pages still to visit. -/
theorem prunePages_ok {now maxRecords : U32} : ∀ {ps : List U32} {examined n : U32} {h h' : Contract Address},
    ps.Nodup → (ps.flatMap (page h.storage)).Nodup →
    (∀ a ∈ ps.flatMap (page h.storage), h.storage.record.has a = true) →
    prunePages now maxRecords examined ps h = .ok (n, h') →
    ∃ D, PagesPruned now maxRecords examined ps h n h' D
  | [], examined, n, h, h', _, _, _, hrun => by
    rw [prunePages, Call.pure_ok] at hrun
    cases hrun
    refine ⟨[], by simp, ?_, by simp, by simp, ?_⟩
    · simp [State.strikeRecords, Storage.removeAll, expiredEvents]
    · have := quota_le maxRecords examined 0
      simp
      omega
  | p :: ps, examined, n, h, h', hps, hnd, hrec, hrun => by
    rw [List.nodup_cons] at hps
    rw [List.flatMap_cons, List.nodup_append] at hnd
    rw [prunePages, Call.bind_ok] at hrun
    obtain ⟨_, _, hs, hrun⟩ := hrun
    cases hs
    rw [Call.ite_ok] at hrun
    rcases hrun with ⟨hempty, hrun⟩ | ⟨hne, hrun⟩
    · obtain ⟨D, hD⟩ := prunePages_ok hps.2 hnd.2.1
        (fun a ha => hrec a (by rw [List.flatMap_cons]; exact List.mem_append_right _ ha)) hrun
      exact ⟨D, .skip hps.1 hempty hD⟩
    · rw [Call.bind_ok] at hrun
      obtain ⟨scan, h₁, hscan, hrun⟩ := hrun
      rw [Call.bind_ok] at hrun
      obtain ⟨_, h₂, hwrite, hrun⟩ := hrun
      obtain ⟨D₁, hD₁⟩ := scan_ok hnd.1
        (fun a ha => hrec a (by rw [List.flatMap_cons]; exact List.mem_append_left _ ha)) hscan
      obtain ⟨hhost, hpage, hothers⟩ := page_scanned hD₁ hwrite
      have hrest : ps.flatMap (page h₂.storage) = ps.flatMap (page h.storage) :=
        List.flatMap_congr fun q hq => by
          rw [page, hothers q (fun e => hps.1 (e ▸ hq)), ← page]
      have hstorage : h₂ = { h with
          storage := { h.storage.strikeRecords D₁ with allowlistPage := h₂.storage.allowlistPage }
          events := h.events ++ expiredEvents h.storage D₁ } := by
        rw [hD₁.host] at hhost
        exact hhost
      have hpresent : h.storage.allowlistPage.get p ≠ none := fun e => hne (page_eq_nil_of_get e)
      have hnd' : ((p :: ps).flatMap (page h.storage)).Nodup := by
        rw [List.flatMap_cons, List.nodup_append]
        exact hnd
      rw [Call.ite_ok] at hrun
      rcases hrun with ⟨hstop, hrun⟩ | ⟨hgo, hrun⟩
      · rw [Call.bind_ok] at hrun
        obtain ⟨_, h₃, htrap, hrun⟩ := hrun
        obtain ⟨_, _, e⟩ := Call.orTrap_ok.1 htrap
        cases e
        obtain ⟨rfl, hn⟩ := countPages_ok hrun
        rw [hrest] at hn
        exact ⟨D₁, .stop hD₁ hnd' hstorage hpage hothers hpresent hstop hn⟩
      · have hrec' : ∀ a ∈ ps.flatMap (page h₂.storage), h₂.storage.record.has a = true := fun a ha => by
          rw [hrest] at ha
          have hkept : a ∉ D₁ := fun hD => hnd.2.2 a (hD₁.mem hD) a ha rfl
          rw [hstorage]
          refine (has_strikeRecords hkept).trans (hrec a ?_)
          rw [List.flatMap_cons]
          exact List.mem_append_right _ ha
        obtain ⟨D₂, hD₂⟩ := prunePages_ok hps.2 (hrest ▸ hnd.2.1) hrec' hrun
        exact ⟨D₁ ++ D₂, .go hD₁ hps.1 hnd' hstorage hpage hothers hpresent hgo hrest hD₂⟩

/-! ## The call -/

/-- The listed addresses that a pruning examines: the first `maxRecords`, all of them for `0`. -/
def examined (s : State Address) (maxRecords : U32) : List Address :=
  if maxRecords = 0 then getAllowlist s else (getAllowlist s).take maxRecords.val.toNat

/-- The addresses that a pruning at ledger `now` strikes. -/
def pruned (s : State Address) (now maxRecords : U32) : List Address :=
  (examined s maxRecords).filter (expiredAt s now)

omit [DecidableEq Address] in
theorem examined_eq (s : State Address) (maxRecords : U32) :
    examined s maxRecords = (getAllowlist s).take (quota maxRecords 0 (getAllowlist s).length) := by
  unfold examined quota
  split
  · rw [List.take_length]
  · rw [MInt.val_zero, sub_zero, Nat.min_comm, ← List.take_take, List.take_length]

/-- **What `prune_expired` does**: the expired ones of the addresses it examines are struck, everything else stays,
and the answer counts the addresses not examined. -/
theorem pruneExpired_ok {admin : Address} {maxRecords n : U32} {h' : Contract Address} (hw : WellPaged h.storage)
    (hrun : pruneExpired env admin maxRecords h = .ok (n, h')) :
    h.storage.roles.admin = some admin ∧ env.authorized admin = true ∧
      Struck (pruned h.storage env.sequence maxRecords) h.storage h'.storage ∧
      h' = { h with
        storage := { h.storage.strikeRecords (pruned h.storage env.sequence maxRecords) with
          allowlistPage := h'.storage.allowlistPage }
        events := h.events ++ expiredEvents h.storage (pruned h.storage env.sequence maxRecords) } ∧
      n.val = (getAllowlist h.storage).length - (examined h.storage maxRecords).length := by
  simp only [pruneExpired, Call.bind_ok, Administered.requireAdmin_ok, administered_roles, Call.storage_ok] at hrun
  obtain ⟨_, _, ⟨hadmin, hauth, e⟩, _, _, hs, hrun⟩ := hrun
  cases e
  cases hs
  obtain ⟨D, hD⟩ := prunePages_ok (allowlistMeta h.storage).1.upTo_nodup hw.nodup
    (fun a ha => hw.mem_getAllowlist_iff_record.1 ha) hrun
  obtain rfl : D = pruned h.storage env.sequence maxRecords := by
    rw [pruned, examined_eq]
    exact hD.struck
  have hhost := hD.host
  refine ⟨hadmin, hauth, ⟨?_, ?_, ?_, ?_, ?_⟩, hhost, ?_⟩
  · intro a
    rw [hhost]
    exact Storage.get_removeAll _ _ _
  · intro a
    rw [hhost]
    exact Storage.get_removeAll _ _ _
  · intro p
    by_cases hp : p ∈ (allowlistMeta h.storage).1.upTo
    · exact hD.page p hp
    · have hnone : h.storage.allowlistPage.get p = none := hw.beyond p (by
        rw [MInt.mem_upTo] at hp
        omega)
      rw [page_eq_nil_of_get hnone, page, hD.others p (.inr hnone), hnone]
      rfl
  · intro p hnone
    rw [hD.others p (.inr hnone), hnone]
  · rw [hhost]
    rfl
  · rw [hD.left, examined_eq, List.length_take, Nat.min_eq_left (quota_le _ _ _)]
    rfl

end StellarRwa.Compliance

import StellarRwa.Compliance.Spec

/-!
# What the allowlist calls leave alone

The calls that work on the allowlist and its records, the gate among them, keep the roles, the blocked jurisdictions and
the holding periods (`call_framed`). Nothing about the pages is needed for that, not even for pruning.
-/

namespace StellarRwa.Compliance

open Lib

variable {Address : Type} [DecidableEq Address] {env : Env Address} {h h' : Contract Address}

/-- The fields that the allowlist calls keep. -/
structure Framed (s s' : State Address) : Prop where
  roles : s'.roles = s.roles
  blocked : s'.blocked = s.blocked
  blockedList : s'.blockedList = s.blockedList
  minHoldingPeriod : s'.minHoldingPeriod = s.minHoldingPeriod
  firstAcquiredLedger : s'.firstAcquiredLedger = s.firstAcquiredLedger

omit [DecidableEq Address] in
theorem Framed.refl (s : State Address) : Framed s s := ⟨rfl, rfl, rfl, rfl, rfl⟩

omit [DecidableEq Address] in
theorem Framed.trans {s s' s'' : State Address} (h₁ : Framed s s') (h₂ : Framed s' s'') : Framed s s'' where
  roles := h₂.roles.trans h₁.roles
  blocked := h₂.blocked.trans h₁.blocked
  blockedList := h₂.blockedList.trans h₁.blockedList
  minHoldingPeriod := h₂.minHoldingPeriod.trans h₁.minHoldingPeriod
  firstAcquiredLedger := h₂.firstAcquiredLedger.trans h₁.firstAcquiredLedger

/-! ## Records -/

theorem approveAddress_framed {now : U32} {a : Address} {j : Bytes} {e : U32} {u : Unit}
    (hrun : approveAddress now a j e h = .ok (u, h')) : Framed h.storage h'.storage := by
  obtain ⟨-, -, s, hs, hr⟩ := approveAddress_ok.1 hrun
  cases hr
  rcases hs with ⟨-, p, n, count, -, -, rfl⟩ | ⟨prev, -, rfl⟩
  · exact ⟨rfl, rfl, rfl, rfl, rfl⟩
  · exact ⟨rfl, rfl, rfl, rfl, rfl⟩

theorem approveEntries_framed {now : U32} {entries : List (AllowlistEntry Address)}
    (hrun : Call.forEach entries (fun entry => approveAddress now entry.address entry.jurisdiction entry.expiresAt) h
      = .ok ((), h')) : Framed h.storage h'.storage := by
  refine Call.forEach_rule (P := fun h₁ => Framed h.storage h₁.storage) ?_ (.refl _) hrun
  intro entry _ h₁ h₂ hframed hround
  exact hframed.trans (approveAddress_framed hround)

theorem remove_framed {admin a : Address} {u : Unit} (hrun : remove env admin a h = .ok (u, h')) :
    Framed h.storage h'.storage := by
  obtain ⟨-, -, -, s, hs, hr⟩ := remove_ok.1 hrun
  cases hr
  rcases hs with ⟨-, rfl⟩ | ⟨p, -, rfl⟩
  · exact ⟨rfl, rfl, rfl, rfl, rfl⟩
  · exact ⟨rfl, rfl, rfl, rfl, rfl⟩

/-! ## Pruning -/

theorem keepOrPrune_framed {now : U32} {a : Address} {b : Bool} (hrun : keepOrPrune now a h = .ok (b, h')) :
    Framed h.storage h'.storage := by
  rw [keepOrPrune, Call.bind_ok] at hrun
  obtain ⟨_, _, hs, hrun⟩ := hrun
  cases hs
  cases hrec : h.storage.record.get a with
  | none =>
    simp only [hrec, Call.pure_ok] at hrun
    cases hrun
    exact .refl _
  | some rec =>
    simp only [hrec, Call.ite_ok, Call.bind_ok, Call.update_ok, Call.publish_ok, Call.pure_ok] at hrun
    rcases hrun with ⟨-, _, _, e₁, _, _, e₂, _, _, e₃, e₄⟩ | ⟨-, e⟩
    · cases e₁; cases e₂; cases e₃; cases e₄
      exact ⟨rfl, rfl, rfl, rfl, rfl⟩
    · cases e
      exact .refl _

theorem pruneEntry_framed {now maxRecords : U32} {scan scan' : Scan Address} {a : Address}
    (hrun : pruneEntry now maxRecords scan a h = .ok (scan', h')) : Framed h.storage h'.storage := by
  rw [pruneEntry, Call.ite_ok] at hrun
  rcases hrun with ⟨-, hrun⟩ | ⟨-, hrun⟩
  · simp only [Call.bind_ok, Call.orTrap_ok, Call.pure_ok] at hrun
    obtain ⟨_, _, ⟨_, -, e₁⟩, e₂⟩ := hrun
    cases e₁; cases e₂
    exact .refl _
  · simp only [Call.bind_ok, Call.orTrap_ok, Call.ite_ok, Call.pure_ok] at hrun
    obtain ⟨_, _, ⟨_, -, e₁⟩, keep, h₁, hkeep, hrest⟩ := hrun
    cases e₁
    have hframed := keepOrPrune_framed hkeep
    rcases hrest with ⟨-, e₂⟩ | ⟨-, e₂⟩
    · cases e₂
      exact hframed
    · cases e₂
      exact hframed

omit [DecidableEq Address] in
theorem countLater_framed {total n p : U32} (hrun : (countLater total p : M Address U32) h = .ok (n, h')) : h' = h := by
  rw [countLater, Call.bind_ok] at hrun
  obtain ⟨_, _, hs, hrun⟩ := hrun
  cases hs
  cases hp : h.storage.allowlistPage.get p with
  | none =>
    simp only [hp, Call.pure_ok] at hrun
    cases hrun
    rfl
  | some l =>
    simp only [hp, Call.bind_ok, Call.orTrap_ok] at hrun
    obtain ⟨_, _, ⟨_, -, e₁⟩, _, -, e₂⟩ := hrun
    cases e₁; cases e₂
    rfl

/-- The walk over the pages, page by page. -/
theorem prunePages_framed {now maxRecords examined n : U32} {ps : List U32}
    (hrun : prunePages now maxRecords examined ps h = .ok (n, h')) : Framed h.storage h'.storage := by
  induction ps generalizing examined h with
  | nil =>
    rw [prunePages, Call.pure_ok] at hrun
    cases hrun
    exact .refl _
  | cons p ps ih =>
    rw [prunePages, Call.bind_ok] at hrun
    obtain ⟨_, _, hs, hrun⟩ := hrun
    cases hs
    rw [Call.ite_ok] at hrun
    rcases hrun with ⟨-, hrun⟩ | ⟨-, hrun⟩
    · exact ih hrun
    · simp only [Call.bind_ok, Call.onlyIf_ok, Call.update_ok, Call.ite_ok, Call.orTrap_ok] at hrun
      obtain ⟨scan, h₁, hscan, _, h₂, hwrite, hrest⟩ := hrun
      have hframed : Framed h.storage h₁.storage :=
        Call.foldEach_rule (P := fun _ h₁ => Framed h.storage h₁.storage)
          (fun _ _ _ _ _ _ hframed hround => hframed.trans (pruneEntry_framed hround)) (.refl _) hscan
      have hwritten : Framed h₁.storage h₂.storage := by
        rcases hwrite with ⟨-, e⟩ | ⟨-, e⟩
        · cases e
          exact ⟨rfl, rfl, rfl, rfl, rfl⟩
        · cases e
          exact .refl _
      rcases hrest with ⟨-, _, _, ⟨_, -, e⟩, hcount⟩ | ⟨-, hrun⟩
      · cases e
        have hlater := Call.foldEach_rule (P := fun _ (h₃ : Contract Address) => Framed h₂.storage h₃.storage)
          (fun _ _ _ _ _ _ hframed hround => by rwa [countLater_framed hround]) (.refl _) hcount
        exact (hframed.trans hwritten).trans hlater
      · exact (hframed.trans hwritten).trans (ih hrun)

theorem pruneExpired_framed {admin : Address} {maxRecords n : U32}
    (hrun : pruneExpired env admin maxRecords h = .ok (n, h')) : Framed h.storage h'.storage := by
  simp only [pruneExpired, Call.bind_ok, Administered.requireAdmin_ok, Call.storage_ok] at hrun
  obtain ⟨_, _, ⟨-, -, e₁⟩, _, _, e₂, hwalk⟩ := hrun
  cases e₁; cases e₂
  exact prunePages_framed hwalk

/-! ## All of them -/

/-- The calls that work on the allowlist. -/
def Op.lists : Op Address → Bool
  | .addToAllowlist .. | .addToAllowlistBatch .. | .suspend .. | .reinstate .. | .remove .. => true
  | .isAllowed .. | .pruneExpired .. => true
  | _ => false

/-- **The allowlist calls** leave the other fields alone. -/
theorem call_framed {op : Op Address} {r : Ret} (hop : op.lists = true) (hrun : call env op h = .ok (r, h')) :
    Framed h.storage h'.storage := by
  cases op <;> first | (cases hop; done) | skip
  all_goals
    simp only [call, Call.bind_ok, Call.pure_ok] at hrun
    obtain ⟨x, h₁, hrun, hr⟩ := hrun
    cases hr
  case addToAllowlist => exact approveAddress_framed (addToAllowlist_ok.1 hrun).2.2
  case addToAllowlistBatch => exact approveEntries_framed (addToAllowlistBatch_ok.1 hrun).2.2
  case suspend =>
    obtain ⟨-, -, rec, -, hr⟩ := suspend_ok.1 hrun
    cases hr
    exact ⟨rfl, rfl, rfl, rfl, rfl⟩
  case reinstate =>
    obtain ⟨-, -, rec, -, -, hr⟩ := reinstate_ok.1 hrun
    cases hr
    exact ⟨rfl, rfl, rfl, rfl, rfl⟩
  case remove => exact remove_framed hrun
  case isAllowed =>
    rw [(isAllowed_ok hrun).1]
    exact .refl _
  case pruneExpired => exact pruneExpired_framed hrun

end StellarRwa.Compliance

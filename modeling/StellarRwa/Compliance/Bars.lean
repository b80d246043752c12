import StellarRwa.Compliance.Gate

/-!
# Bars

An address is barred at a ledger when it has no record, or its record is suspended, expired or of a blocked
jurisdiction. A barred address does not pass the gate (`Barred.not_allowed`), and it stays barred, at that ledger and at
all later ones, until a call approves or reinstates it or unblocks its jurisdiction (`call_barred`).
-/

namespace StellarRwa.Compliance

open Lib

variable {Address : Type} [DecidableEq Address] {env : Env Address} {h h' : Contract Address} {s s' : State Address}
  {t t' : U32} {a : Address}

/-- Suspended, removed, expired or blocked. -/
def Barred (s : State Address) (t : U32) (a : Address) : Prop :=
  s.record.get a = none ∨ ∃ rec, s.record.get a = some rec ∧
    (rec.status = .suspended ∨ (rec.expiresAt ≠ 0 ∧ rec.expiresAt ≤ t) ∨
      (s.blocked.get (canon rec.jurisdiction)).getD false = true)

theorem Barred.not_allowed {s : State Address} {t : U32} {a : Address} (hb : Barred s t a) : ¬ Allowed s t a := by
  rintro ⟨rec, hrec, hstatus, hfresh, hunblocked, -⟩
  rcases hb with hnone | ⟨rec', hrec', hbar⟩
  · rw [hnone] at hrec
    cases hrec
  · rw [hrec] at hrec'
    cases hrec'
    rcases hbar with hsus | ⟨h0, hle⟩ | hblocked
    · rw [hstatus] at hsus
      cases hsus
    · rw [MInt.le_def] at hle
      rcases hfresh with h | hlt
      · exact h0 h
      · omega
    · rw [hblocked] at hunblocked
      cases hunblocked

/-- Time does not lift a bar. -/
theorem Barred.later (hb : Barred s t a) (hle : t ≤ t') : Barred s t' a := by
  rw [MInt.le_def] at hle
  rcases hb with hnone | ⟨rec, hrec, hsuspended | ⟨hexpires, hexpired⟩ | hblocked⟩
  · exact .inl hnone
  · exact .inr ⟨rec, hrec, .inl hsuspended⟩
  · rw [MInt.le_def] at hexpired
    refine .inr ⟨rec, hrec, .inr (.inl ⟨hexpires, ?_⟩)⟩
    rw [MInt.le_def]
    omega
  · exact .inr ⟨rec, hrec, .inr (.inr hblocked)⟩

/-- The call may lift a bar on `a`: it adds or reinstates `a`, or unblocks the jurisdiction of its record. -/
def Reapproves (a : Address) (s : State Address) (l : Env Address × Op Address) : Prop :=
  effectOn a s l = some .add ∨ effectOn a s l = some .reinstate ∨
    ∃ rec, s.record.get a = some rec ∧ blockingOf rec.jurisdiction l.2 = some false

/-- A call that does not re-approve `a` leaves it barred. -/
theorem GateStep.barred {l : Env Address × Op Address} (hstep : GateStep l s s') (hno : ¬ Reapproves a s l)
    (hb : Barred s t a) : Barred s' t a := by
  have hadd : effectOn a s l ≠ some .add := fun h => hno (.inl h)
  have hreinstate : effectOn a s l ≠ some .reinstate := fun h => hno (.inr (.inl h))
  have hblocked : ∀ rec, s.record.get a = some rec → (s.blocked.get (canon rec.jurisdiction)).getD false = true →
      (s'.blocked.get (canon rec.jurisdiction)).getD false = true := by
    intro rec hrec hbefore
    rw [hstep.blocked, hbefore]
    cases hblocking : blockingOf rec.jurisdiction l.2 with
    | none => rfl
    | some b =>
      cases b with
      | false => exact absurd (.inr (.inr ⟨rec, hrec, hblocking⟩)) hno
      | true => rfl
  have hrecord := hstep.record a
  generalize effectOn a s l = eff at hrecord hadd hreinstate
  generalize approvalOf a l.2 = approval at hrecord
  generalize hold : s.record.get a = old at hrecord
  generalize hnew : s'.record.get a = new at hrecord
  cases hrecord with
  | untouched =>
    rcases hb with hnone | ⟨rec, hrec, hsuspended | hexpired | hbefore⟩
    · exact .inl (hnew.trans (hold.symm.trans hnone))
    · exact .inr ⟨rec, hnew.trans (hold.symm.trans hrec), .inl hsuspended⟩
    · exact .inr ⟨rec, hnew.trans (hold.symm.trans hrec), .inr (.inl hexpired)⟩
    · exact .inr ⟨rec, hnew.trans (hold.symm.trans hrec), .inr (.inr (hblocked rec hrec hbefore))⟩
  | add _ _ => exact absurd rfl hadd
  | suspend rec => exact .inr ⟨_, hnew, .inl rfl⟩
  | reinstate _ => exact absurd rfl hreinstate
  | remove _ => exact .inl hnew
  | prune _ => exact .inl hnew

/-! ## Pruning lifts no bar -/

/-- From `s` to `s'` some records are gone, and nothing else that the gate reads of a record has changed. -/
structure Fewer (s s' : State Address) : Prop where
  record : ∀ a, s'.record.get a = none ∨ s'.record.get a = s.record.get a
  blocked : s'.blocked = s.blocked

theorem Fewer.refl (s : State Address) : Fewer s s := ⟨fun _ => .inr rfl, rfl⟩

theorem Fewer.trans {s'' : State Address} (h₁ : Fewer s s') (h₂ : Fewer s' s'') : Fewer s s'' := by
  refine ⟨fun a => ?_, h₂.blocked.trans h₁.blocked⟩
  rcases h₂.record a with hnone | hsame
  · exact .inl hnone
  · rw [hsame]
    exact h₁.record a

theorem Fewer.barred (h : Fewer s s') (hb : Barred s t a) : Barred s' t a := by
  rcases h.record a with hnone | hsame
  · exact .inl hnone
  · rw [Barred, hsame, h.blocked]
    exact hb

theorem keepOrPrune_fewer {now : U32} {b : Bool} (hrun : keepOrPrune now a h = .ok (b, h')) :
    Fewer h.storage h'.storage := by
  rw [keepOrPrune, Call.bind_ok] at hrun
  obtain ⟨_, _, hs, hrun⟩ := hrun
  cases hs
  cases hget : h.storage.record.get a with
  | none =>
    simp only [hget, Call.pure_ok] at hrun
    cases hrun
    exact .refl _
  | some r =>
    simp only [hget, Call.ite_ok, Call.bind_ok, Call.update_ok, Call.publish_ok, Call.pure_ok] at hrun
    rcases hrun with ⟨-, _, _, e₁, _, _, e₂, _, _, e₃, e₄⟩ | ⟨-, e⟩
    · cases e₁; cases e₂; cases e₃; cases e₄
      refine ⟨fun b => ?_, rfl⟩
      show (h.storage.record.remove a).get b = none ∨ _
      rw [Storage.get_remove]
      split
      · exact .inl rfl
      · exact .inr rfl
    · cases e
      exact .refl _

theorem pruneEntry_fewer {now maxRecords : U32} {scan scan' : Scan Address}
    (hrun : pruneEntry now maxRecords scan a h = .ok (scan', h')) : Fewer h.storage h'.storage := by
  simp only [pruneEntry, Call.ite_ok, Call.bind_ok, Call.orTrap_ok, Call.pure_ok] at hrun
  rcases hrun with ⟨-, _, _, ⟨_, -, e₁⟩, e₂⟩ | ⟨-, _, _, ⟨_, -, e₁⟩, keep, h₁, hkeep, ⟨-, e₂⟩ | ⟨-, e₂⟩⟩
  · cases e₁; cases e₂
    exact .refl _
  · cases e₁; cases e₂
    exact keepOrPrune_fewer hkeep
  · cases e₁; cases e₂
    exact keepOrPrune_fewer hkeep

theorem prunePages_fewer {now maxRecords : U32} {ps : List U32} : ∀ {examined n : U32} {h h' : Contract Address},
    prunePages now maxRecords examined ps h = .ok (n, h') → Fewer h.storage h'.storage := by
  induction ps with
  | nil =>
    intro examined n h h' hrun
    rw [prunePages, Call.pure_ok] at hrun
    cases hrun
    exact .refl _
  | cons p ps ih =>
    intro examined n h h' hrun
    simp only [prunePages, Call.bind_ok, Call.storage_ok, Call.ite_ok, Call.onlyIf_ok, Call.update_ok,
      Call.orTrap_ok] at hrun
    obtain ⟨_, _, e, ⟨-, hrun⟩ | ⟨-, scan, h₁, hscan, _, h₂, hwrite, hrun⟩⟩ := hrun
    · cases e
      exact ih hrun
    · cases e
      have hloop : Fewer h.storage h₁.storage := Call.foldEach_rule (P := fun _ h₁ => Fewer h.storage h₁.storage)
        (fun _ _ _ _ _ _ hP hround => hP.trans (pruneEntry_fewer hround)) (.refl _) hscan
      have hpage : Fewer h₁.storage h₂.storage := by
        rcases hwrite with ⟨-, e⟩ | ⟨-, e⟩
        · cases e
          exact ⟨fun _ => .inr rfl, rfl⟩
        · cases e
          exact .refl _
      refine hloop.trans (hpage.trans ?_)
      rcases hrun with ⟨-, _, _, ⟨_, -, e⟩, hcount⟩ | ⟨-, hrun⟩
      · cases e
        obtain ⟨rfl, -⟩ := countPages_ok hcount
        exact .refl _
      · exact ih hrun

theorem pruneExpired_fewer {admin : Address} {maxRecords n : U32}
    (hrun : pruneExpired env admin maxRecords h = .ok (n, h')) : Fewer h.storage h'.storage := by
  simp only [pruneExpired, Call.bind_ok, Administered.requireAdmin_ok, Call.storage_ok] at hrun
  obtain ⟨_, _, ⟨-, -, e₁⟩, _, _, e₂, hrun⟩ := hrun
  cases e₁; cases e₂
  exact prunePages_fewer hrun

/-- **A bar stays** until a call re-approves the address, whatever state the contract was in. -/
theorem call_barred {op : Op Address} {r : Ret} (hrun : call env op h = .ok (r, h'))
    (hno : ¬ Reapproves a h.storage (env, op)) (hb : Barred h.storage t a) : Barred h'.storage t a := by
  by_cases hprune : ∃ admin maxRecords, op = .pruneExpired admin maxRecords
  · obtain ⟨admin, maxRecords, rfl⟩ := hprune
    simp only [call, Call.bind_ok, Call.pure_ok] at hrun
    obtain ⟨n, h₁, hop, hr⟩ := hrun
    cases hr
    exact (pruneExpired_fewer hop).barred hb
  · exact (call_gate (fun admin maxRecords hop => absurd ⟨admin, maxRecords, hop⟩ hprune) hrun).barred hno hb

end StellarRwa.Compliance

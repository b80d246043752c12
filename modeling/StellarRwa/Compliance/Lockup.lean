import StellarRwa.Compliance.Spec

/-!
# The holding period at the gate

The holding period is the last thing `is_allowed` checks. Who fails an earlier check is refused with or without it; who
has `Cleared` them passes exactly when it is over. So two contracts that differ in the holding period of one address
answer alike wherever it counts for the same (`isAllowed_alike`).
-/

namespace StellarRwa.Compliance

open Lib

variable {Address : Type} [DecidableEq Address] {env : Env Address} {a : Address} {h h' k₁ k₂ : Contract Address}

/-- The checks of `is_allowed` before the holding period. -/
def Cleared (s : State Address) (t : U32) (a : Address) : Prop :=
  ∃ rec, s.record.get a = some rec ∧ rec.status = .approved ∧ (rec.expiresAt = 0 ∨ t.val < rec.expiresAt.val) ∧
    TwoLetters rec.jurisdiction ∧ (s.blocked.get (canon rec.jurisdiction)).getD false = false

/-- The storage without the holding period and the first acquisition of `a`. -/
def State.unlocked (s : State Address) (a : Address) : State Address :=
  { s with
    minHoldingPeriod := s.minHoldingPeriod.remove a
    firstAcquiredLedger := s.firstAcquiredLedger.remove a }

/-! ## What the gate answers -/

/-- A yes leaves the contract as it was; only refusals publish. -/
theorem isAllowed_yes (hrun : isAllowed env a h = .ok (true, h')) : h' = h := by
  obtain ⟨-, hb, -⟩ | ⟨_, -, -, -, hb, -⟩ | ⟨_, -, -, -, -, -, hhold⟩ := isAllowed_cases hrun
  · cases hb
  · cases hb
  · obtain ⟨-, -, hsame⟩ | ⟨-, hb, -⟩ := holdingPeriodOver_cases hhold
    · exact hsame
    · cases hb

theorem isAllowed_yes_iff :
    isAllowed env a h = .ok (true, h) ↔ Cleared h.storage env.sequence a ∧ ¬ Locked h.storage env.sequence a := by
  have hiff : (∃ h', isAllowed env a h = .ok (true, h')) ↔ isAllowed env a h = .ok (true, h) := by
    refine ⟨?_, fun hrun => ⟨h, hrun⟩⟩
    rintro ⟨h', hrun⟩
    rwa [isAllowed_yes hrun] at hrun
  rw [← hiff, isAllowed_true_iff]
  constructor
  · rintro ⟨⟨rec, hrec, hst, hfresh, hblk, hlock⟩, hcode⟩
    exact ⟨⟨rec, hrec, hst, hfresh, hcode rec hrec, hblk⟩, hlock⟩
  · rintro ⟨⟨rec, hrec, hst, hfresh, hcode, hblk⟩, hlock⟩
    refine ⟨⟨rec, hrec, hst, hfresh, hblk, hlock⟩, fun rec' hrec' => ?_⟩
    rw [hrec] at hrec'
    cases hrec'
    exact hcode

/-- The gate fails on the record of the address alone. -/
theorem isAllowed_error {f : Fault Error} :
    isAllowed env a h = .error f ↔ ∃ rec, h.storage.record.get a = some rec ∧ rec.status = .approved ∧
      ¬ (rec.expiresAt ≠ 0 ∧ rec.expiresAt ≤ env.sequence) ∧
      isJurisdictionBlocked h.storage rec.jurisdiction = .error f := by
  have hhold : ¬ holdingPeriodOver env a h = .error f := by
    obtain ⟨b, h', hok⟩ := holdingPeriodOver_total env h a
    simp [hok]
  rw [isAllowed, Call.bind_error]
  simp only [Call.storage_error, Call.storage_ok, false_or]
  cases hr : h.storage.record.get a with
  | none =>
    constructor
    · rintro ⟨_, _, e, hrun⟩
      cases e
      rw [hr] at hrun
      exact absurd hrun Call.pure_error
    · rintro ⟨_, e, -⟩
      cases e
  | some rec =>
    constructor
    · rintro ⟨_, _, e, hrun⟩
      cases e
      simp only [hr, Call.ite_error, Call.bind_error, Call.pure_error, Call.publish_error, Call.lift_error,
        Call.lift_ok, and_false, exists_false, or_false, false_or] at hrun
      obtain ⟨hst, hexp, hblk | ⟨_, _, ⟨_, -, e⟩, -, hrun⟩⟩ := hrun
      · exact ⟨rec, rfl, not_not.1 hst, hexp, hblk⟩
      · cases e
        exact absurd hrun hhold
    · rintro ⟨_, e, hst, hexp, hblk⟩
      cases e
      refine ⟨_, _, rfl, ?_⟩
      simp only [hr, hst, ne_eq, not_true_eq_false, if_false, if_neg hexp, Call.bind_error, Call.lift_error]
      exact .inl hblk

/-- Two contracts answer alike about an address whose record they agree on, in the same blocked jurisdictions, when its
holding period counts for the same. -/
theorem isAllowed_alike (hrec : k₁.storage.record.get a = k₂.storage.record.get a)
    (hblk : k₁.storage.blocked = k₂.storage.blocked)
    (hlock : Cleared k₁.storage env.sequence a →
      (Locked k₁.storage env.sequence a ↔ Locked k₂.storage env.sequence a)) :
    (isAllowed env a k₁).map Prod.fst = (isAllowed env a k₂).map Prod.fst := by
  have hcleared : Cleared k₁.storage env.sequence a ↔ Cleared k₂.storage env.sequence a := by
    rw [Cleared, Cleared, hrec, hblk]
  have herror : ∀ f, isAllowed env a k₁ = .error f ↔ isAllowed env a k₂ = .error f := fun f => by
    simp only [isAllowed_error, isJurisdictionBlocked, hrec, hblk]
  have hyes : isAllowed env a k₁ = .ok (true, k₁) ↔ isAllowed env a k₂ = .ok (true, k₂) := by
    rw [isAllowed_yes_iff, isAllowed_yes_iff, ← hcleared]
    exact and_congr_right fun hc => not_congr (hlock hc)
  cases h₁ : isAllowed env a k₁ with
  | error f => rw [(herror f).1 h₁]
  | ok r₁ =>
    obtain ⟨b₁, k₁'⟩ := r₁
    cases h₂ : isAllowed env a k₂ with
    | error f =>
      rw [(herror f).2 h₂] at h₁
      cases h₁
    | ok r₂ =>
      obtain ⟨b₂, k₂'⟩ := r₂
      suffices b₁ = b₂ by rw [this]; rfl
      cases b₁ with
      | true =>
        obtain rfl := isAllowed_yes h₁
        have := hyes.1 h₁
        rw [h₂] at this
        cases this
        rfl
      | false =>
        cases b₂ with
        | false => rfl
        | true =>
          obtain rfl := isAllowed_yes h₂
          have := hyes.2 h₂
          rw [h₁] at this
          cases this

/-- Who cleared the earlier checks is refused exactly while the holding period runs. -/
theorem Cleared.refused_iff (hc : Cleared h.storage env.sequence a) :
    (∃ h', isAllowed env a h = .ok (false, h')) ↔ Locked h.storage env.sequence a := by
  have hyes : isAllowed env a h = .ok (true, h) ↔
      Cleared h.storage env.sequence a ∧ ¬ Locked h.storage env.sequence a := isAllowed_yes_iff
  constructor
  · rintro ⟨h', hrun⟩
    by_contra hlock
    rw [hrun] at hyes
    cases hyes.2 ⟨hc, hlock⟩
  · intro hlock
    obtain ⟨rec, hrec, -, -, hcode, -⟩ := id hc
    obtain ⟨b, h', hrun⟩ := isAllowed_total env (h := h) (a := a) fun rec' hrec' => by
      rw [hrec] at hrec'
      cases hrec'
      exact hcode
    cases b with
    | false => exact ⟨h', hrun⟩
    | true =>
      obtain rfl := isAllowed_yes hrun
      exact absurd hlock (hyes.1 hrun).2

/-! ## The calls that set it -/

/-- The call sets the period or records the acquisition of `a`. -/
def Op.Locks (a : Address) : Op Address → Prop
  | .setMinHoldingPeriod _ holder _ | .recordAcquisition _ holder => holder = a
  | _ => False

/-- Such a call changes nothing else. -/
theorem call_unlocked {op : Op Address} {r : Ret} (hop : op.Locks a) (hrun : call env op h = .ok (r, h')) :
    h'.storage.unlocked a = h.storage.unlocked a := by
  cases op <;> first | (cases hop; done) | skip
  all_goals
    obtain rfl : _ = a := hop
    simp only [call, Call.bind_ok, Call.pure_ok] at hrun
    obtain ⟨x, h₁, hrun, hr⟩ := hrun
    cases hr
  case setMinHoldingPeriod minLedgers =>
    obtain ⟨-, -, hr⟩ := setMinHoldingPeriod_ok.1 hrun
    cases hr
    by_cases hm : minLedgers = 0 <;> simp [State.unlocked, hm]
  case recordAcquisition =>
    obtain ⟨-, -, ⟨-, hr⟩ | ⟨-, hr⟩⟩ := recordAcquisition_ok.1 hrun
    · cases hr
      simp [State.unlocked]
    · cases hr
      rfl

/-! ## Storages that differ there -/

section Unlocked

variable {s₁ s₂ : State Address} {b : Address}

theorem record_eq_of_unlocked (hs : s₁.unlocked b = s₂.unlocked b) : s₁.record = s₂.record := by
  show (s₁.unlocked b).record = (s₂.unlocked b).record
  rw [hs]

theorem blocked_eq_of_unlocked (hs : s₁.unlocked b = s₂.unlocked b) : s₁.blocked = s₂.blocked := by
  show (s₁.unlocked b).blocked = (s₂.unlocked b).blocked
  rw [hs]

/-- The holding periods of the others are the same. -/
theorem locked_iff_of_unlocked (hs : s₁.unlocked b = s₂.unlocked b) (hne : a ≠ b) (t : U32) :
    Locked s₁ t a ↔ Locked s₂ t a := by
  have hperiod := congrArg (fun s : State Address => s.minHoldingPeriod.get a) hs
  have hacquired := congrArg (fun s : State Address => s.firstAcquiredLedger.get a) hs
  simp only [State.unlocked, Storage.get_remove_of_ne _ hne] at hperiod hacquired
  rw [Locked, Locked, hperiod, hacquired]

end Unlocked

end StellarRwa.Compliance

import StellarRwa.Token.Metadata
import Mathlib.Algebra.Order.Group.Abs

/-!
# Changes of the valuation

The guard of `update_valuation` bounds a change by half of the old value, exactly, as long as the old value times 5000
fits (`checkValuationChange_ok_iff`); beyond that it overflows on every change, and on none too (`valuation_guard`). A
valuation of at least two can be brought to every target by updates that each pass the guard; at one the bound rounds
down to nothing, and the valuation is stuck (`phasing_iff`).
-/

namespace StellarRwa.Token

open Lib

variable {Address X : Type} {client : ComplianceClient Address X} {env : Env Address} {h h' : Contract Address X}

/-! ## The guard -/

section Guard

variable {oldValuation newValuation : I128}

/-- The difference and its absolute value always fit, as neither value is negative; the threshold is half of the old
value, rounded down, where five thousand times the old value fits. -/
theorem checkValuationChange_eq (hold : 0 < oldValuation.val) (hnew : 0 ≤ newValuation.val) :
    (checkValuationChange oldValuation newValuation : M Address X Unit) h =
      if 2 ^ 127 - 1 < oldValuation.val * 5000 then .error (.error .overflow)
      else if oldValuation.val < 2 * |newValuation.val - oldValuation.val| then .error (.error .valuationChangeTooLarge)
      else .ok ((), h) := by
  have holdHi := oldValuation.le_hi
  have hnewHi := newValuation.le_hi
  obtain ⟨change, hval⟩ : ∃ c : I128, c.val = newValuation.val - oldValuation.val :=
    MInt.exists_val (by omega) (by omega)
  have hchange : newValuation.checkedSub oldValuation = some change := MInt.checkedSub_eq_some.2 hval
  have habs : |change.val| ≤ 2 ^ 127 - 1 := by
    rw [hval, abs_le]
    constructor <;> omega
  have hnonneg : 0 ≤ |change.val| := abs_nonneg _
  obtain ⟨diff, hdiffVal⟩ : ∃ d : I128, d.val = |change.val| := MInt.exists_val (by omega) (by omega)
  have hdiff : change.checkedAbs = some diff := MInt.checkedAbs_eq_some.2 hdiffVal
  rw [hval] at hdiffVal
  have hbps : maxValuationChangeBps.val = 5000 := rfl
  unfold checkValuationChange
  rw [Call.bind_eq_of_ok (Call.orTrap_ok.2 ⟨change, hchange, rfl⟩),
    Call.bind_eq_of_ok (Call.orTrap_ok.2 ⟨diff, hdiff, rfl⟩)]
  split
  · rename_i hexceeds
    refine Call.bind_eq_of_error (Call.unwrapOrElse_error.2 ⟨?_, rfl⟩)
    rw [MInt.checkedMul_eq_none, hbps]
    omega
  · rename_i hfits
    obtain ⟨scaled, hscaledVal⟩ : ∃ s : I128, s.val = oldValuation.val * 5000 := MInt.exists_val (by omega) (by omega)
    have hscaled : oldValuation.checkedMul maxValuationChangeBps = some scaled :=
      MInt.checkedMul_eq_some.2 (by rw [hbps, hscaledVal])
    obtain ⟨maxChange, hmax, hmaxVal⟩ :=
      MInt.checkedDiv_isSome_of_nonneg (a := scaled) (b := bpsDenominator) (by decide) (by omega) (by decide)
    have hdenominator : bpsDenominator.val = 10000 := rfl
    rw [hdenominator, hscaledVal] at hmaxVal
    rw [Call.bind_eq_of_ok (Call.unwrapOrElse_ok.2 ⟨scaled, hscaled, rfl⟩),
      Call.bind_eq_of_ok (Call.unwrapOrElse_ok.2 ⟨maxChange, hmax, rfl⟩)]
    have hlt : maxChange < diff ↔ oldValuation.val < 2 * |newValuation.val - oldValuation.val| := by
      rw [MInt.lt_def, hdiffVal]
      omega
    split
    · rename_i hlarge
      exact Call.panicIf_error.2 ⟨hlt.2 hlarge, rfl⟩
    · rename_i hsmall
      exact Call.panicIf_ok.2 ⟨mt hlt.1 hsmall, rfl⟩

theorem checkValuationChange_ok_iff (hold : 0 < oldValuation.val) (hnew : 0 ≤ newValuation.val) :
    (checkValuationChange oldValuation newValuation : M Address X Unit) h = .ok ((), h) ↔
      2 * |newValuation.val - oldValuation.val| ≤ oldValuation.val ∧ oldValuation.val * 5000 ≤ 2 ^ 127 - 1 := by
  rw [checkValuationChange_eq hold hnew]
  split
  · rename_i hexceeds
    exact iff_of_false nofun fun hok => absurd hok.2 (not_le.2 hexceeds)
  · rename_i hfits
    split
    · rename_i hlarge
      exact iff_of_false nofun fun hok => absurd hok.1 (not_le.2 hlarge)
    · rename_i hsmall
      exact iff_of_true rfl ⟨not_lt.1 hsmall, not_lt.1 hfits⟩

end Guard

variable [DecidableEq Address] {md : AssetMetadata Address} {newValuation : I128}

/-- An update that the admin has signed. -/
theorem updateValuation_answered (hmd : h.storage.metadata = some md) (hsigned : env.authorized md.admin = true) :
    (∃ h', updateValuation env md.admin newValuation h = .ok ((), h')) ↔
      0 ≤ newValuation.val ∧ (0 < md.valuation.val →
        2 * |newValuation.val - md.valuation.val| ≤ md.valuation.val ∧ md.valuation.val * 5000 ≤ 2 ^ 127 - 1) := by
  constructor
  · rintro ⟨h', hrun⟩
    obtain ⟨md₁, hmd₁, -, -, hnew, hguard, -⟩ := updateValuation_ok.1 hrun
    cases hmd₁.symm.trans hmd
    exact ⟨hnew, fun hold => (checkValuationChange_ok_iff hold hnew).1 (hguard hold)⟩
  · rintro ⟨hnew, hguard⟩
    have hcheck : 0 < md.valuation.val →
        (checkValuationChange md.valuation newValuation : M Address X Unit) h = .ok ((), h) :=
      fun hold => (checkValuationChange_ok_iff hold hnew).2 (hguard hold)
    exact ⟨_, updateValuation_ok.2 ⟨md, hmd, hsigned, rfl, hnew, hcheck, rfl⟩⟩

theorem updateValuation_overflows (hmd : h.storage.metadata = some md) (hsigned : env.authorized md.admin = true)
    (hnew : 0 ≤ newValuation.val) (hexceeds : 2 ^ 127 - 1 < md.valuation.val * 5000) :
    updateValuation env md.admin newValuation h = .error (.error .overflow) := by
  have hold : 0 < md.valuation.val := by omega
  have hadmin : requireAdmin env md.admin h = .ok (md, h) := requireAdmin_ok.2 ⟨md, hmd, hsigned, rfl, rfl⟩
  unfold updateValuation
  have hcheck : ¬ newValuation < 0 := not_lt.2 hnew
  rw [Call.bind_eq_of_ok hadmin, Call.bind_eq_of_ok (Call.panicIf_ok.2 ⟨hcheck, rfl⟩)]
  refine Call.bind_eq_of_error ?_
  rw [Call.onlyIf, if_pos (MInt.lt_def.2 hold), checkValuationChange_eq hold hnew, if_pos hexceeds]

/-- No call makes the valuation negative. -/
theorem call_valuation_nonneg {op : Op Address} (hrun : call client env op h = .ok ((), h'))
    (hs : ∀ md, h.storage.metadata = some md → 0 ≤ md.valuation.val) :
    ∀ md', h'.storage.metadata = some md' → 0 ≤ md'.valuation.val := by
  intro md' hmd'
  cases hmd : h.storage.metadata with
  | none =>
    obtain ⟨admin, name, symbol, assetType, totalSupply, decimals, complianceContract, assetDescription, valuation,
      rfl⟩ := call_uninitialized hmd hrun
    obtain ⟨-, -, ⟨-, hvaluation⟩, -, -, -, -, x, -, hr⟩ := initializeToken_ok.1 hrun
    cases hr
    cases hmd'
    exact hvaluation
  | some md =>
    obtain ⟨md₁, hmd₁, hs₁⟩ := call_metadata hmd hrun
    obtain rfl : md₁ = md' := Option.some.inj (hmd₁.symm.trans hmd')
    by_cases hsame : md₁.valuation = md.valuation
    · rw [hsame]
      exact hs md hmd
    · obtain ⟨rfl, -⟩ := hs₁.valuation hsame
      obtain ⟨-, -, -, -, hnew, -⟩ := updateValuation_ok.1 hrun
      exact hnew

theorem run_valuation_nonneg (x : X) (ls : List (Label Address X)) :
    ∀ md, ((token client).run (Contract.fresh Address x) ls).storage.metadata = some md → 0 ≤ md.valuation.val := by
  refine System.invariant (I := fun h : Contract Address X => ∀ md, h.storage.metadata = some md → 0 ≤ md.valuation.val)
    (by simp [Contract.fresh, State.fresh]) ?_ ls
  intro h l u h' hs hstep
  cases l with
  | call env op => exact call_valuation_nonneg (Call.returned_eq_some.1 hstep) hs
  | others y =>
    cases hstep
    exact hs

/-- **The guard is a bound of one half, up to a size.** In every reachable state the valuation is not negative. An
update that the admin has signed is answered exactly when the new value is not negative and, unless the old value is
zero, the change is at most half of the old value and five thousand times the old value is at most `i128::MAX`. Above
that size every update to a value that is not negative overflows, also one that changes nothing. -/
theorem valuation_guard (client : ComplianceClient Address X) (x : X) (ls : List (Label Address X)) :
    let h := (token client).run (Contract.fresh Address x) ls
    ∀ md, h.storage.metadata = some md → 0 ≤ md.valuation.val ∧
      ∀ env : Env Address, env.authorized md.admin = true → ∀ newValuation : I128,
        (0 < md.valuation.val → ((∃ h', updateValuation env md.admin newValuation h = .ok ((), h')) ↔
          0 ≤ newValuation.val ∧ 2 * |newValuation.val - md.valuation.val| ≤ md.valuation.val ∧
            md.valuation.val * 5000 ≤ 2 ^ 127 - 1)) ∧
        (md.valuation.val = 0 →
          ((∃ h', updateValuation env md.admin newValuation h = .ok ((), h')) ↔ 0 ≤ newValuation.val)) ∧
        (0 ≤ newValuation.val → 2 ^ 127 - 1 < md.valuation.val * 5000 →
          updateValuation env md.admin newValuation h = .error (.error .overflow)) := by
  intro h md hmd
  refine ⟨run_valuation_nonneg x ls md hmd, fun env hsigned newValuation => ⟨fun hold => ?_, fun hzero => ?_, ?_⟩⟩
  · rw [updateValuation_answered hmd hsigned, forall_prop_of_true hold]
  · rw [updateValuation_answered hmd hsigned, hzero]
    simp
  · exact updateValuation_overflows hmd hsigned

/-- A token with the valuation 100. -/
def appraisedRun : List (Label ℕ Unit) :=
  [.call (.signed 0) (.initializeToken 1 [65] [65] [65] 100 0 9 [65] 100)]

/-- It may be raised to 150. -/
theorem valuation_guard_appraised :
    let h := (token fun _ x _ _ => some (true, x)).run (Contract.fresh ℕ ()) appraisedRun
    ∃ md, h.storage.metadata = some md ∧ ∃ h', updateValuation (.signed 0) md.admin 150 h = .ok ((), h') := by
  intro h
  have hmeta : (h.storage.metadata.map fun md => md.valuation.val) = some 100 := by decide +kernel
  obtain ⟨md, hmd, hvaluation⟩ := Option.map_eq_some_iff.1 hmeta
  have hguard := ((valuation_guard (fun _ x _ _ => some (true, x)) () appraisedRun md hmd).2 (.signed 0) rfl 150).1
  refine ⟨md, hmd, (hguard (by omega)).2 ?_⟩
  rw [hvaluation]
  decide

/-- A token whose valuation is as large as it can be. -/
def extremeRun : List (Label ℕ Unit) :=
  [.call (.signed 0) (.initializeToken 1 [65] [65] [65] 100 0 9 [65] ⟨2 ^ 127 - 1, by decide, by decide⟩)]

/-- Keeping the greatest valuation is a change by nothing, and fails. -/
theorem valuation_guard_extreme :
    let h := (token fun _ x _ _ => some (true, x)).run (Contract.fresh ℕ ()) extremeRun
    ∃ md, h.storage.metadata = some md ∧ md.admin = 1 ∧ 0 < md.valuation.val ∧
      ¬ ((∃ h', updateValuation (.signed 0) md.admin md.valuation h = .ok ((), h')) ↔
        0 ≤ md.valuation.val ∧ 2 * |md.valuation.val - md.valuation.val| ≤ md.valuation.val) := by
  intro h
  have hmeta : (h.storage.metadata.map fun md => (md.admin, md.valuation.val)) = some (1, 2 ^ 127 - 1) := by
    decide +kernel
  obtain ⟨md, hmd, hfields⟩ := Option.map_eq_some_iff.1 hmeta
  obtain ⟨hadmin, hvaluation⟩ := Prod.mk.inj hfields
  refine ⟨md, hmd, hadmin, by omega, fun hiff => ?_⟩
  obtain ⟨h', hrun⟩ := hiff.2 ⟨by omega, by simp [hvaluation]⟩
  have hover : updateValuation (.signed 0) md.admin md.valuation h = .error (.error .overflow) :=
    updateValuation_overflows hmd rfl (by omega) (by omega)
  cases hover.symm.trans hrun

/-! ## Phasing a large change -/

/-- From a value of at least two, some permitted change reaches the target, or comes closer to it and stays at two or
above: half of the value up or down is at least one. -/
theorem exists_phase {a b : Int} (ha : 2 ≤ a) (hb : 1 ≤ b) :
    ∃ c, 2 * |c - a| ≤ a ∧ 1 ≤ c ∧ c ≤ max a b ∧ (c = b ∨ 2 ≤ c ∧ (b - c).natAbs < (b - a).natAbs) := by
  have bound : ∀ c, -(a / 2) ≤ c - a → c - a ≤ a / 2 → 2 * |c - a| ≤ a := by
    intro c hlo hhi
    have habs := abs_le.2 ⟨hlo, hhi⟩
    omega
  by_cases hup : a + a / 2 < b
  · exact ⟨a + a / 2, bound _ (by omega) (by omega), by omega, by omega, .inr ⟨by omega, by omega⟩⟩
  by_cases hdown : b < a - a / 2
  · exact ⟨a - a / 2, bound _ (by omega) (by omega), by omega, by omega, .inr ⟨by omega, by omega⟩⟩
  · exact ⟨b, bound _ (by omega) (by omega), hb, by omega, .inl rfl⟩

/-- A call that updates the valuation. It is answered to the admin only. -/
def Label.Appraises (l : Label Address X) : Prop :=
  ∃ env admin newValuation, l = .call env (.updateValuation admin newValuation)

/-- Some updates of the valuation, each of them answered, take the token to the valuation `b`. -/
def Phased (client : ComplianceClient Address X) (h : Contract Address X) (b : I128) : Prop :=
  ∃ ls, (∀ l ∈ ls, l.Appraises) ∧ (token client).Answers h ls ∧
    ∃ md, ((token client).run h ls).storage.metadata = some md ∧ md.valuation = b

/-- How far the valuation is from `b`. -/
def gap (b : I128) (h : Contract Address X) : Nat :=
  match h.storage.metadata with
  | some md => (b.val - md.valuation.val).natAbs
  | none => 0

omit [DecidableEq Address] in
theorem gap_of_some (hmd : h.storage.metadata = some md) (b : I128) :
    gap b h = (b.val - md.valuation.val).natAbs := by simp [gap, hmd]

/-- The valuation is at least two and small enough for the guard not to overflow. -/
def Movable (h : Contract Address X) : Prop :=
  ∃ md, h.storage.metadata = some md ∧ 2 ≤ md.valuation.val ∧ md.valuation.val ≤ (2 ^ 127 - 1) / 10000

/-- **One phase.** -/
theorem Movable.step {b : I128} (hb : 0 < b.val) (hfits : b.val ≤ (2 ^ 127 - 1) / 10000) (hm : Movable h) :
    ∃ (l : Label Address X) (u : Unit) (h' : Contract Address X), l.Appraises ∧ (token client).step h l = some (u, h') ∧
      ((∃ md, h'.storage.metadata = some md ∧ md.valuation = b) ∨ Movable h' ∧ gap b h' < gap b h) := by
  obtain ⟨md, hmd, htwo, hle⟩ := hm
  obtain ⟨c, hguard, hpos, hmax, hcloser⟩ := exists_phase htwo hb
  have hcLe : c ≤ (2 ^ 127 - 1) / 10000 := hmax.trans (max_le hle hfits)
  have hcheck : (checkValuationChange md.valuation ⟨c, by omega, by omega⟩ : M Address X Unit) h = .ok ((), h) :=
    (checkValuationChange_ok_iff (by omega) (by show 0 ≤ c; omega)).2 ⟨hguard, by omega⟩
  have hrun : updateValuation (.signed 0) md.admin ⟨c, by omega, by omega⟩ h =
      .ok ((), rewritten h { md with valuation := ⟨c, by omega, by omega⟩ } (.valuation md.valuation _)) :=
    updateValuation_ok.2 ⟨md, hmd, rfl, rfl, by show 0 ≤ c; omega, fun _ => hcheck, rfl⟩
  refine ⟨.call (.signed 0) (.updateValuation md.admin _), (), _, ⟨_, _, _, rfl⟩, Call.returned_eq_some.2 hrun, ?_⟩
  rcases hcloser with hreached | ⟨hctwo, hlt⟩
  · exact .inl ⟨_, rfl, MInt.ext hreached⟩
  · refine .inr ⟨⟨_, rfl, hctwo, hcLe⟩, ?_⟩
    rw [gap_of_some hmd, gap_of_some rfl]
    exact hlt

/-- At one, the guard permits no change. -/
theorem stuck_step {l : Label Address X} {u : Unit} (hl : l.Appraises)
    (hone : ∃ md, h.storage.metadata = some md ∧ md.valuation.val = 1)
    (hstep : (token client).step h l = some (u, h')) :
    ∃ md, h'.storage.metadata = some md ∧ md.valuation.val = 1 := by
  obtain ⟨md, hmd, hone⟩ := hone
  obtain ⟨env, admin, newValuation, rfl⟩ := hl
  obtain ⟨md₁, hmd₁, -, -, hnew, hguard, hr⟩ := updateValuation_ok.1 (Call.returned_eq_some.1 hstep)
  obtain rfl : md₁ = md := Option.some.inj (hmd₁.symm.trans hmd)
  cases hr
  have hold : 0 < md₁.valuation.val := by omega
  obtain ⟨hhalf, -⟩ := (checkValuationChange_ok_iff hold hnew).1 (hguard hold)
  have hzero : |newValuation.val - md₁.valuation.val| ≤ 0 := by omega
  have hsame := abs_le.1 hzero
  exact ⟨_, rfl, by show newValuation.val = 1; omega⟩

theorem Phased.stuck {b : I128} (hp : Phased client h b)
    (hone : ∃ md, h.storage.metadata = some md ∧ md.valuation.val = 1) : b.val = 1 := by
  obtain ⟨ls, hls, hanswers, md', hmd', rfl⟩ := hp
  obtain ⟨md₁, hmd₁, hone₁⟩ := System.Answers.invariant
    (I := fun h : Contract Address X => ∃ md, h.storage.metadata = some md ∧ md.valuation.val = 1)
    (fun _ _ _ _ hl hs hstep => stuck_step hl hs hstep) hone hls hanswers
  obtain rfl : md₁ = md' := Option.some.inj (hmd₁.symm.trans hmd')
  exact hone₁

/-- **Phasing a large change.** Between two positive valuations whose product with 10000 fits, updates of the valuation
that are all answered lead from the one to the other exactly when the first is at least two, or they are equal. -/
theorem phasing_iff (client : ComplianceClient Address X) {h : Contract Address X} {md : AssetMetadata Address}
    {b : I128}
    (hmd : h.storage.metadata = some md) (hpos : 0 < md.valuation.val) (hle : md.valuation.val ≤ (2 ^ 127 - 1) / 10000)
    (hb : 0 < b.val) (hfits : b.val ≤ (2 ^ 127 - 1) / 10000) :
    Phased client h b ↔ 2 ≤ md.valuation.val ∨ b = md.valuation := by
  constructor
  · intro hphased
    by_cases htwo : 2 ≤ md.valuation.val
    · exact .inl htwo
    · have hone : md.valuation.val = 1 := by omega
      exact .inr (MInt.ext ((hphased.stuck ⟨md, hmd, hone⟩).trans hone.symm))
  · rintro (htwo | rfl)
    · obtain ⟨ls, hls, hanswers, hreached⟩ := System.progress_answered (M := token client)
        (Q := fun h => ∃ md, h.storage.metadata = some md ∧ md.valuation = b) (gap b)
        (fun _ hm => Movable.step hb hfits hm) ⟨md, hmd, htwo, hle⟩
      exact ⟨ls, hls, hanswers, hreached⟩
    · exact ⟨[], by simp, trivial, md, hmd, rfl⟩

/-- The token with the valuation 100 can be brought to 1000. -/
theorem phasing_iff_appraised :
    Phased (fun _ x _ _ => some (true, x))
      ((token fun _ x _ _ => some (true, x)).run (Contract.fresh ℕ ()) appraisedRun) 1000 := by
  have hmeta : (((token fun _ x _ _ => some (true, x)).run (Contract.fresh ℕ ()) appraisedRun).storage.metadata.map
      fun md => md.valuation.val) = some 100 := by decide +kernel
  obtain ⟨md, hmd, hvaluation⟩ := Option.map_eq_some_iff.1 hmeta
  exact (phasing_iff (fun _ x _ _ => some (true, x)) hmd (by omega) (by omega) (by decide) (by decide)).2
    (.inl (by omega))

/-- A token with the valuation 1. -/
def pennyRun : List (Label ℕ Unit) :=
  [.call (.signed 0) (.initializeToken 1 [65] [65] [65] 100 0 9 [65] 1)]

/-- It cannot be brought to 2. -/
theorem phasing_iff_penny :
    let h := (token fun _ x _ _ => some (true, x)).run (Contract.fresh ℕ ()) pennyRun
    (∃ md, h.storage.metadata = some md ∧ md.valuation.val = 1) ∧ ¬ Phased (fun _ x _ _ => some (true, x)) h 2 := by
  intro h
  have hmeta : (h.storage.metadata.map fun md => md.valuation.val) = some 1 := by decide +kernel
  have hone := Option.map_eq_some_iff.1 hmeta
  refine ⟨hone, fun hphased => ?_⟩
  exact absurd (hphased.stuck hone) (by decide)

end StellarRwa.Token

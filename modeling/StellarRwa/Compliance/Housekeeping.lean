import StellarRwa.Compliance.Allowlist
import StellarRwa.Compliance.Clearing
import StellarRwa.Compliance.Pruning

/-!
# Housekeeping

Two compliance contracts are `Indistinct` from a ledger on when they differ in expired records only, and in the list and
the counter that go with them. The gate answers alike at both (`isAllowed_indistinct`). `prune_expired` leaves a
contract that is indistinct from the one before (`prune_indistinct`), and every other call that is made at both keeps
them indistinct (`exec_indistinct`): it may well fail at one of them only, a suspension of a record that was pruned, but
then it did nothing at the other that anybody could notice. An approval needs room on the list, of which pruning gives
none back (`Orderly`).
-/

namespace StellarRwa.Compliance

open Lib

variable {Address : Type} [DecidableEq Address]

/-- The record of `a`, unless it has expired at ledger `t`. -/
def current (s : State Address) (t : U32) (a : Address) : Option (KycRecord Address) :=
  (s.record.get a).filter fun r => r.expiresAt = 0 ∨ t < r.expiresAt

/-- The same contract, but for expired records and the list of addresses. -/
structure Indistinct (t : U32) (s k : State Address) : Prop where
  framed : Framed s k
  current : ∀ a, current k t a = current s t a

section Relation

variable {s k m : State Address} {t t' : U32} {a : Address} {r rec : KycRecord Address}

omit [DecidableEq Address] in
theorem Framed.symm (hf : Framed s k) : Framed k s :=
  ⟨hf.roles.symm, hf.blocked.symm, hf.blockedList.symm, hf.minHoldingPeriod.symm, hf.firstAcquiredLedger.symm⟩

theorem current_eq_some : current s t a = some r ↔ s.record.get a = some r ∧ (r.expiresAt = 0 ∨ t < r.expiresAt) := by
  simp [current, Option.filter_eq_some_iff]

/-- A record that is not current has expired. -/
theorem current_eq_none : current s t a = none ↔ ∀ r, s.record.get a = some r → r.expiresAt ≠ 0 ∧ r.expiresAt ≤ t := by
  simp [current, Option.filter_eq_none_iff, MInt.lt_def, MInt.le_def]

theorem current_of_record (h : k.record.get a = s.record.get a) : current k t a = current s t a := by
  rw [current, current, h]

/-- What is current later is what is current now and does not expire in between. -/
theorem current_later (hle : t ≤ t') :
    current s t' a = (current s t a).filter fun r => r.expiresAt = 0 ∨ t' < r.expiresAt := by
  have hle' := MInt.le_def.1 hle
  rw [current, current, Option.filter_filter]
  congr 1
  funext r
  by_cases hzero : r.expiresAt = 0
  · simp [hzero]
  · simp only [hzero, false_or, MInt.lt_def, Bool.and_eq_decide]
    grind

theorem Indistinct.refl (s : State Address) : Indistinct t s s := ⟨.refl s, fun _ => rfl⟩

theorem Indistinct.symm (h : Indistinct t s k) : Indistinct t k s := ⟨h.framed.symm, fun a => (h.current a).symm⟩

theorem Indistinct.trans (h₁ : Indistinct t s k) (h₂ : Indistinct t k m) : Indistinct t s m :=
  ⟨h₁.framed.trans h₂.framed, fun a => (h₂.current a).trans (h₁.current a)⟩

/-- Time makes no difference between them. -/
theorem Indistinct.later (h : Indistinct t s k) (hle : t ≤ t') : Indistinct t' s k :=
  ⟨h.framed, fun a => by rw [current_later hle, current_later hle, h.current a]⟩

end Relation

/-! ## The gate -/

section Gate

variable {env : Env Address} {h k : Contract Address} {a : Address}

/-- Nobody without a current record passes. -/
theorem isAllowed_of_stale (hstale : current h.storage env.sequence a = none) :
    (isAllowed env a h).map Prod.fst = .ok false := by
  cases hrec : h.storage.record.get a with
  | none => exact isAllowed_of_none hrec
  | some r =>
    have hexpired : expiredAt h.storage env.sequence a = true := by
      simpa [expiredAt, hrec] using current_eq_none.1 hstale r hrec
    exact isAllowed_of_expired hexpired (MInt.le_def.2 le_rfl)

/-- Indistinct contracts answer alike. -/
theorem isAllowed_indistinct (hi : Indistinct env.sequence h.storage k.storage) (a : Address) :
    (isAllowed env a k).map Prod.fst = (isAllowed env a h).map Prod.fst := by
  cases hc : current h.storage env.sequence a with
  | none => rw [isAllowed_of_stale hc, isAllowed_of_stale ((hi.current a).trans hc)]
  | some r =>
    have hrec := (current_eq_some.1 hc).1
    have hrec' := (current_eq_some.1 ((hi.current a).trans hc)).1
    refine isAllowed_alike (hrec'.trans hrec.symm) hi.framed.blocked fun _ => ?_
    rw [Locked, Locked, hi.framed.minHoldingPeriod, hi.framed.firstAcquiredLedger]

end Gate

/-! ## Pruning -/

section Prune

variable {env : Env Address} {h h' : Contract Address}

/-- **Pruning cannot be noticed**: what it deletes had expired. -/
theorem prune_indistinct {admin : Address} {maxRecords n : U32} (hw : WellPaged h.storage)
    (hrun : pruneExpired env admin maxRecords h = .ok (n, h')) : Indistinct env.sequence h.storage h'.storage := by
  obtain ⟨-, -, hstruck, -, -⟩ := pruneExpired_ok hw hrun
  refine ⟨pruneExpired_framed hrun, fun a => ?_⟩
  by_cases ha : a ∈ pruned h.storage env.sequence maxRecords
  · have hgone : h'.storage.record.get a = none := by rw [hstruck.record, if_pos ha]
    have hexpired := (List.mem_filter.1 ha).2
    have hstale : current h.storage env.sequence a = none := by
      refine current_eq_none.2 fun r hr => ?_
      simpa [expiredAt, hr] using hexpired
    rw [hstale, current_eq_none]
    intro r hr
    cases hgone.symm.trans hr
  · exact current_of_record (by rw [hstruck.record, if_neg ha])

end Prune

/-! ## Approvals -/

section Approvals

variable {env : Env Address} {now : U32} {h h' k : Contract Address} {a : Address} {j : Bytes} {e : U32} {u : Unit}
  {n : ℕ}

/-- The same record of `a`, or none, written at both. -/
theorem Indistinct.write {s s' m m' : State Address} {t : U32} {r : Option (KycRecord Address)} (hi : Indistinct t s m)
    (hs : ∀ b, s'.record.get b = if b = a then r else s.record.get b) (hfs : Framed s s')
    (hm : ∀ b, m'.record.get b = if b = a then r else m.record.get b) (hfm : Framed m m') : Indistinct t s' m' := by
  refine ⟨(hfs.symm.trans hi.framed).trans hfm, fun b => ?_⟩
  by_cases hb : b = a
  · exact current_of_record (by rw [hs, hm, if_pos hb, if_pos hb])
  · have hsb : s'.record.get b = s.record.get b := by rw [hs, if_neg hb]
    have hmb : m'.record.get b = m.record.get b := by rw [hm, if_neg hb]
    rw [current_of_record hsb, current_of_record hmb, hi.current b]

theorem approveAddress_indistinct {t : U32} (hi : Indistinct t h.storage k.storage) (hroom : Room k.storage (n + 1))
    (hrun : approveAddress now a j e h = .ok (u, h')) :
    ∃ k', approveAddress now a j e k = .ok ((), k') ∧ Indistinct t h'.storage k'.storage ∧ Room k'.storage n := by
  obtain ⟨he, hj, -⟩ := approveAddress_ok.1 hrun
  obtain ⟨k', hrun', hroom'⟩ := approveAddress_returns he hj a hroom
  exact ⟨k', hrun', hi.write (approveAddress_record hrun).2 (approveAddress_framed hrun) (approveAddress_record hrun').2
    (approveAddress_framed hrun'), hroom'⟩

theorem approveEntries_indistinct {t : U32} : ∀ {entries : List (AllowlistEntry Address)} {h h' k : Contract Address},
    Indistinct t h.storage k.storage → Room k.storage (n + entries.length) →
    Call.forEach entries (fun entry => approveAddress now entry.address entry.jurisdiction entry.expiresAt) h =
      .ok ((), h') →
    ∃ k', Call.forEach entries (fun entry => approveAddress now entry.address entry.jurisdiction entry.expiresAt) k =
      .ok ((), k') ∧ Indistinct t h'.storage k'.storage ∧ Room k'.storage n
  | [], h, h', k, hi, hroom, hrun => by
    cases hrun
    exact ⟨k, rfl, hi, hroom⟩
  | entry :: entries, h, h', k, hi, hroom, hrun => by
    rw [Call.forEach_cons, Call.bind_ok] at hrun
    obtain ⟨_, h₁, hfirst, hrest⟩ := hrun
    rw [List.length_cons, ← Nat.add_assoc] at hroom
    obtain ⟨k₁, hfirst', hi₁, hroom₁⟩ := approveAddress_indistinct hi hroom hfirst
    obtain ⟨k', hrest', hi', hroom'⟩ := approveEntries_indistinct hi₁ hroom₁ hrest
    refine ⟨k', ?_, hi', hroom'⟩
    rw [Call.forEach_cons, Call.bind_ok]
    exact ⟨(), k₁, hfirst', hrest'⟩

end Approvals

/-! ## Calls about one record -/

/-- The address whose record the call changes or deletes. -/
def Op.subject : Op Address → Option Address
  | .suspend _ a | .reinstate _ a | .remove _ a => some a
  | _ => none

section Subjects

variable {env : Env Address} {h h' k : Contract Address} {a : Address} {op : Op Address} {r : Ret}

theorem remove_record {admin : Address} {u : Unit} (hrun : remove env admin a h = .ok (u, h')) (b : Address) :
    h'.storage.record.get b = if b = a then none else h.storage.record.get b := by
  obtain ⟨-, -, -, s, hs, hr⟩ := remove_ok.1 hrun
  cases hr
  rcases hs with ⟨-, rfl⟩ | ⟨p, -, rfl⟩
  · exact Storage.get_remove _ _ _
  · exact Storage.get_remove _ _ _

theorem remove_returns {admin : Address} {rec : KycRecord Address} (hadmin : h.storage.roles.admin = some admin)
    (hsigned : env.authorized admin = true) (hrec : h.storage.record.get a = some rec) :
    ∃ h', remove env admin a h = .ok ((), h') := by
  cases hp : h.storage.allowlistPageOf.get a with
  | none => exact ⟨_, remove_ok.2 ⟨hadmin, hsigned, ⟨rec, hrec⟩, _, .inl ⟨hp, rfl⟩, rfl⟩⟩
  | some p => exact ⟨_, remove_ok.2 ⟨hadmin, hsigned, ⟨rec, hrec⟩, _, .inr ⟨p, hp, rfl⟩, rfl⟩⟩

/-- About a record that has expired such a call does nothing that can be noticed. -/
theorem subject_stale (hop : op.subject = some a) (hstale : current h.storage env.sequence a = none)
    (hrun : call env op h = .ok (r, h')) : Indistinct env.sequence h.storage h'.storage := by
  have hwritten : ∀ {s : State Address}, Framed h.storage s → (∀ b, b ≠ a → s.record.get b = h.storage.record.get b) →
      current s env.sequence a = none → Indistinct env.sequence h.storage s := by
    intro s hframed hothers hgone
    refine ⟨hframed, fun b => ?_⟩
    by_cases hb : b = a
    · rw [hb, hgone, hstale]
    · exact current_of_record (hothers b hb)
  have hrewritten : ∀ {rec rec' : KycRecord Address}, h.storage.record.get a = some rec →
      rec'.expiresAt = rec.expiresAt →
      Indistinct env.sequence h.storage (h.storage.withRecord a rec') := by
    intro rec rec' hrec hexpiry
    refine hwritten ⟨rfl, rfl, rfl, rfl, rfl⟩ (fun b hb => by rw [withRecord_get, if_neg hb]) ?_
    refine current_eq_none.2 fun r₁ hr₁ => ?_
    rw [withRecord_get, if_pos rfl] at hr₁
    cases hr₁
    rw [hexpiry]
    exact current_eq_none.1 hstale rec hrec
  cases op <;> first | (cases hop; done) | skip
  all_goals
    cases hop
    simp only [call, Call.bind_ok, Call.pure_ok] at hrun
    obtain ⟨x, h₁, hrun, hr⟩ := hrun
    cases hr
  case suspend =>
    obtain ⟨-, -, rec, hrec, hr⟩ := suspend_ok.1 hrun
    cases hr
    exact hrewritten hrec rfl
  case reinstate =>
    obtain ⟨-, -, rec, hrec, -, hr⟩ := reinstate_ok.1 hrun
    cases hr
    exact hrewritten hrec rfl
  case remove =>
    have hgone := remove_record hrun
    refine hwritten (remove_framed hrun) (fun b hb => by rw [hgone, if_neg hb]) (current_eq_none.2 fun r₁ hr₁ => ?_)
    rw [hgone, if_pos rfl] at hr₁
    cases hr₁

/-- A current record is the same at both, and such a call does the same to it. -/
theorem subject_current {rec : KycRecord Address} (hop : op.subject = some a)
    (hi : Indistinct env.sequence h.storage k.storage) (hc : current h.storage env.sequence a = some rec)
    (hrun : call env op h = .ok (r, h')) :
    ∃ k', call env op k = .ok (r, k') ∧ Indistinct env.sequence h'.storage k'.storage := by
  have hrec := (current_eq_some.1 hc).1
  have hrec' := (current_eq_some.1 ((hi.current a).trans hc)).1
  have hroles := hi.framed.roles
  have hrewritten : ∀ rec', Indistinct env.sequence (h.storage.withRecord a rec') (k.storage.withRecord a rec') :=
    fun rec' =>
      hi.write (withRecord_get _ _ _) ⟨rfl, rfl, rfl, rfl, rfl⟩ (withRecord_get _ _ _) ⟨rfl, rfl, rfl, rfl, rfl⟩
  cases op <;> first | (cases hop; done) | skip
  all_goals
    cases hop
    simp only [call, Call.bind_ok, Call.pure_ok] at hrun ⊢
    obtain ⟨x, h₁, hrun, hr⟩ := hrun
    cases hr
  case suspend =>
    obtain ⟨hadmin, hsigned, rec₁, hrec₁, hr⟩ := suspend_ok.1 hrun
    cases hr
    obtain rfl := Option.some.inj (hrec.symm.trans hrec₁)
    exact ⟨_, ⟨_, _, suspend_ok.2 ⟨hroles ▸ hadmin, hsigned, rec, hrec', rfl⟩, rfl⟩, hrewritten _⟩
  case reinstate =>
    obtain ⟨hadmin, hsigned, rec₁, hrec₁, hstatus, hr⟩ := reinstate_ok.1 hrun
    cases hr
    obtain rfl := Option.some.inj (hrec.symm.trans hrec₁)
    exact ⟨_, ⟨_, _, reinstate_ok.2 ⟨hroles ▸ hadmin, hsigned, rec, hrec', hstatus, rfl⟩, rfl⟩, hrewritten _⟩
  case remove =>
    obtain ⟨hadmin, hsigned, -, -⟩ := remove_ok.1 hrun
    obtain ⟨k', hrun'⟩ := remove_returns (hroles ▸ hadmin) hsigned hrec'
    exact ⟨k', ⟨_, _, hrun', rfl⟩, hi.write (remove_record hrun) (remove_framed hrun) (remove_record hrun')
      (remove_framed hrun')⟩

end Subjects

/-! ## All calls but pruning -/

/-- The addresses that a call approves. -/
def Op.approvals : Op Address → ℕ
  | .addToAllowlist .. => 1
  | .addToAllowlistBatch _ entries => entries.length
  | _ => 0

def Op.prunes : Op Address → Bool
  | .pruneExpired .. => true
  | _ => false

section Calls

variable {env : Env Address} {h h' k : Contract Address} {op : Op Address} {r : Ret} {n : ℕ}

/-- The calls that do not work on the allowlist read and write the other fields only, and so do the same at both. -/
theorem unlisted_same (hop : op.lists = false) (hf : Framed h.storage k.storage) (hrun : call env op h = .ok (r, h')) :
    ∃ k', call env op k = .ok (r, k') ∧ Framed h'.storage k'.storage ∧ h'.storage.record = h.storage.record ∧
      k'.storage.record = k.storage.record := by
  obtain ⟨⟨roles, cursor, pages, pageOf, count, records, blocked, blockedList, periods, acquired⟩, x, es⟩ := k
  obtain ⟨rfl, rfl, rfl, rfl, rfl⟩ := hf
  cases op <;> first | (cases hop; done) | skip
  all_goals
    simp only [call, Call.bind_ok, Call.pure_ok] at hrun ⊢
    obtain ⟨x, h₁, hrun, hr⟩ := hrun
    cases hr
  case initializeContract =>
    obtain ⟨hadmin, hsigned, hr⟩ := initializeContract_ok.1 hrun
    cases hr
    exact ⟨_, ⟨_, _, initializeContract_ok.2 ⟨hadmin, hsigned, rfl⟩, rfl⟩, ⟨rfl, rfl, rfl, rfl, rfl⟩, rfl, rfl⟩
  case blockJurisdiction =>
    obtain ⟨hadmin, hsigned, hj, hr⟩ := blockJurisdiction_ok.1 hrun
    cases hr
    exact ⟨_, ⟨_, _, blockJurisdiction_ok.2 ⟨hadmin, hsigned, hj, rfl⟩, rfl⟩, ⟨rfl, rfl, rfl, rfl, rfl⟩, rfl, rfl⟩
  case unblockJurisdiction =>
    obtain ⟨hadmin, hsigned, hj, hr⟩ := unblockJurisdiction_ok.1 hrun
    cases hr
    exact ⟨_, ⟨_, _, unblockJurisdiction_ok.2 ⟨hadmin, hsigned, hj, rfl⟩, rfl⟩, ⟨rfl, rfl, rfl, rfl, rfl⟩, rfl, rfl⟩
  case proposeAdmin =>
    obtain ⟨hadmin, hsigned, hr⟩ := proposeAdmin_ok.1 hrun
    cases hr
    exact ⟨_, ⟨_, _, proposeAdmin_ok.2 ⟨hadmin, hsigned, rfl⟩, rfl⟩, ⟨rfl, rfl, rfl, rfl, rfl⟩, rfl, rfl⟩
  case cancelAdminProposal =>
    obtain ⟨hadmin, hsigned, hpending, hr⟩ := cancelAdminProposal_ok.1 hrun
    cases hr
    exact ⟨_, ⟨_, _, cancelAdminProposal_ok.2 ⟨hadmin, hsigned, hpending, rfl⟩, rfl⟩, ⟨rfl, rfl, rfl, rfl, rfl⟩, rfl,
      rfl⟩
  case acceptAdmin =>
    obtain ⟨hsigned, hpending, oldAdmin, hadmin, hr⟩ := acceptAdmin_ok.1 hrun
    cases hr
    exact ⟨_, ⟨_, _, acceptAdmin_ok.2 ⟨hsigned, hpending, oldAdmin, hadmin, rfl⟩, rfl⟩, ⟨rfl, rfl, rfl, rfl, rfl⟩, rfl,
      rfl⟩
  case setMinHoldingPeriod =>
    obtain ⟨hadmin, hsigned, hr⟩ := setMinHoldingPeriod_ok.1 hrun
    cases hr
    exact ⟨_, ⟨_, _, setMinHoldingPeriod_ok.2 ⟨hadmin, hsigned, rfl⟩, rfl⟩, ⟨rfl, rfl, rfl, rfl, rfl⟩, rfl, rfl⟩
  case recordAcquisition =>
    obtain ⟨hadmin, hsigned, ⟨hnone, hr⟩ | ⟨hsome, hr⟩⟩ := recordAcquisition_ok.1 hrun
    · cases hr
      exact ⟨_, ⟨_, _, recordAcquisition_ok.2 ⟨hadmin, hsigned, .inl ⟨hnone, rfl⟩⟩, rfl⟩, ⟨rfl, rfl, rfl, rfl, rfl⟩,
        rfl, rfl⟩
    · cases hr
      exact ⟨_, ⟨_, _, recordAcquisition_ok.2 ⟨hadmin, hsigned, .inr ⟨hsome, rfl⟩⟩, rfl⟩, ⟨rfl, rfl, rfl, rfl, rfl⟩,
        rfl, rfl⟩

theorem step_of_call {k' : Contract Address} (hrun : call env op k = .ok (r, k')) :
    (compliance Address).exec k (env, op) = k' := System.exec_of_some (Call.returned_eq_some.2 hrun)

/-- What one of them answers, the other need not answer, but afterwards they are indistinct again. -/
theorem answered_indistinct (hop : op.prunes = false) (hi : Indistinct env.sequence h.storage k.storage)
    (hroom : Room k.storage (n + op.approvals)) (hrun : call env op h = .ok (r, h')) :
    Indistinct env.sequence h'.storage ((compliance Address).exec k (env, op)).storage := by
  -- a call that leaves both as they were, as far as anybody can tell
  have hunnoticed : (∀ {k₁ k₂ : Contract Address} {r}, Indistinct env.sequence h.storage k₁.storage →
      call env op k₁ = .ok (r, k₂) → Indistinct env.sequence k₁.storage k₂.storage) →
      Indistinct env.sequence h'.storage ((compliance Address).exec k (env, op)).storage := by
    intro hkeep
    have hleft := (hkeep (.refl _) hrun).symm.trans hi
    cases hstep : (compliance Address).step k (env, op) with
    | none =>
      rw [System.exec_of_none hstep]
      exact hleft
    | some p =>
      rw [System.exec_of_some hstep]
      exact hleft.trans (hkeep hi (Call.returned_eq_some.1 hstep))
  cases hsubject : op.subject with
  | some a =>
    cases hc : current h.storage env.sequence a with
    | none => exact hunnoticed fun hi' hrun' => subject_stale hsubject ((hi'.current a).trans hc) hrun'
    | some rec =>
      obtain ⟨k', hrun', hi'⟩ := subject_current hsubject hi hc hrun
      rw [step_of_call hrun']
      exact hi'
  | none =>
    by_cases hlists : op.lists = true
    · cases op <;> first | (cases hlists; done) | (cases hop; done) | (cases hsubject; done) | skip
      case addToAllowlist admin a j e =>
        simp only [call, Call.bind_ok, Call.pure_ok] at hrun
        obtain ⟨x, h₁, hrun, hr⟩ := hrun
        cases hr
        obtain ⟨hadmin, hsigned, happrove⟩ := addToAllowlist_ok.1 hrun
        obtain ⟨k', happrove', hi', -⟩ := approveAddress_indistinct hi hroom happrove
        have hrun' := addToAllowlist_ok.2 ⟨hi.framed.roles ▸ hadmin, hsigned, happrove'⟩
        rw [step_of_call (Call.bind_ok.2 ⟨_, _, hrun', rfl⟩)]
        exact hi'
      case addToAllowlistBatch admin entries =>
        simp only [call, Call.bind_ok, Call.pure_ok] at hrun
        obtain ⟨x, h₁, hrun, hr⟩ := hrun
        cases hr
        obtain ⟨hadmin, hsigned, happrove⟩ := addToAllowlistBatch_ok.1 hrun
        obtain ⟨k', happrove', hi', -⟩ := approveEntries_indistinct hi hroom happrove
        have hrun' := addToAllowlistBatch_ok.2 ⟨hi.framed.roles ▸ hadmin, hsigned, happrove'⟩
        rw [step_of_call (Call.bind_ok.2 ⟨_, _, hrun', rfl⟩)]
        exact hi'
      case isAllowed a =>
        refine hunnoticed fun {k₁ k₂ r} _ hrun' => ?_
        simp only [call, Call.bind_ok, Call.pure_ok] at hrun'
        obtain ⟨x, h₁, hrun', hr⟩ := hrun'
        cases hr
        rw [(isAllowed_ok hrun').1]
        exact .refl _
    · obtain ⟨k', hrun', hf, hrecord, hrecord'⟩ := unlisted_same (Bool.not_eq_true _ ▸ hlists) hi.framed hrun
      rw [step_of_call hrun']
      refine ⟨hf, fun a => ?_⟩
      rw [current_of_record (congrArg (Storage.get · a) hrecord'),
        current_of_record (congrArg (Storage.get · a) hrecord),
        hi.current a]

/-- **Every call but a pruning** keeps two contracts indistinct, whichever of them answers it. -/
theorem exec_indistinct (hop : op.prunes = false) (hi : Indistinct env.sequence h.storage k.storage)
    (hroom : Room h.storage (n + op.approvals)) (hroom' : Room k.storage (n + op.approvals)) :
    Indistinct env.sequence ((compliance Address).exec h (env, op)).storage
      ((compliance Address).exec k (env, op)).storage := by
  cases hstep : (compliance Address).step h (env, op) with
  | some p =>
    rw [System.exec_of_some hstep]
    exact answered_indistinct hop hi hroom' (Call.returned_eq_some.1 hstep)
  | none =>
    rw [System.exec_of_none hstep]
    cases hstep' : (compliance Address).step k (env, op) with
    | some p =>
      rw [System.exec_of_some hstep']
      have hi' := answered_indistinct hop hi.symm hroom (Call.returned_eq_some.1 hstep')
      rw [System.exec_of_none hstep] at hi'
      exact hi'.symm
    | none =>
      rw [System.exec_of_none hstep']
      exact hi

/-- A pruning, answered or not. -/
theorem exec_prune_indistinct (hop : op.prunes = true) (hw : WellPaged h.storage) :
    Indistinct env.sequence h.storage ((compliance Address).exec h (env, op)).storage := by
  cases op <;> first | (cases hop; done) | skip
  case pruneExpired admin maxRecords =>
    cases hstep : (compliance Address).step h (env, .pruneExpired admin maxRecords) with
    | none =>
      rw [System.exec_of_none hstep]
      exact .refl _
    | some p =>
      rw [System.exec_of_some hstep]
      have hrun := Call.returned_eq_some.1 hstep
      simp only [call, Call.bind_ok] at hrun
      obtain ⟨n, h₁, hrun, hr⟩ := hrun
      obtain rfl : p.2 = h₁ := congrArg Prod.snd (Except.ok.inj hr).symm
      exact prune_indistinct hw hrun

/-! ## Room for what is to come -/

/-- The pages are in order and the list takes `n` more addresses. -/
structure Orderly (s : State Address) (n : ℕ) : Prop where
  paged : WellPaged s
  room : Room s n

omit [DecidableEq Address] in
theorem Room.mono {s : State Address} {m : ℕ} (hr : Room s n) (hle : m ≤ n) : Room s m := by
  have hcount := hr.count
  have hpages := hr.pages
  constructor <;> omega

omit [DecidableEq Address] in
theorem Room.same {s s' : State Address} (hr : Room s n) (hcount : s'.allowlistCount = s.allowlistCount)
    (hcursor : s'.allowlistMeta = s.allowlistMeta) : Room s' n := by
  constructor
  · rw [getAllowlistCount, hcount]
    exact hr.count
  · rw [allowlistMeta, hcursor]
    exact hr.pages

omit [DecidableEq Address] in
theorem Orderly.mono [DecidableEq Address] {s : State Address} {m : ℕ} (ho : Orderly s n) (hle : m ≤ n) : Orderly s m :=
  ⟨ho.paged, ho.room.mono hle⟩

/-- A call takes as much room as it approves addresses. -/
theorem call_orderly (ho : Orderly h.storage (n + op.approvals)) (hrun : call env op h = .ok (r, h')) :
    Orderly h'.storage n := by
  refine ⟨(call_listed ho.paged hrun).wellPaged, ?_⟩
  have hroom := ho.room
  have hoffice : op.administrative = true → _ := fun hop => call_administrative hop hrun
  cases op <;> simp only [call, Call.bind_ok, Call.pure_ok] at hrun <;> obtain ⟨x, h₁, hrun, hr⟩ := hrun <;> cases hr
  case addToAllowlist =>
    obtain ⟨-, -, happrove⟩ := addToAllowlist_ok.1 hrun
    obtain ⟨k', happrove', -, hroom'⟩ := approveAddress_indistinct (.refl (t := 0) _) hroom happrove
    cases happrove.symm.trans happrove'
    exact hroom'
  case addToAllowlistBatch =>
    obtain ⟨-, -, happrove⟩ := addToAllowlistBatch_ok.1 hrun
    obtain ⟨k', happrove', -, hroom'⟩ := approveEntries_indistinct (.refl (t := 0) _) hroom happrove
    cases happrove.symm.trans happrove'
    exact hroom'
  case suspend =>
    obtain ⟨-, -, rec, -, hr⟩ := suspend_ok.1 hrun
    cases hr
    exact hroom.same rfl rfl
  case reinstate =>
    obtain ⟨-, -, rec, -, -, hr⟩ := reinstate_ok.1 hrun
    cases hr
    exact hroom.same rfl rfl
  case remove =>
    obtain ⟨-, -, -, s, hs, hr⟩ := remove_ok.1 hrun
    cases hr
    rcases hs with ⟨-, rfl⟩ | ⟨p, -, rfl⟩
    · exact hroom.same rfl rfl
    · have hcount := hroom.count
      refine ⟨?_, hroom.pages⟩
      show ((getAllowlistCount h.storage).saturatingSub 1).val + _ ≤ _
      have hlo := (getAllowlistCount h.storage).lo_le
      rw [MInt.val_saturatingSub, MInt.val_one]
      omega
  case pruneExpired =>
    obtain ⟨-, -, -, hhost, -⟩ := pruneExpired_ok ho.paged hrun
    rw [hhost]
    exact hroom.same rfl rfl
  case isAllowed =>
    rw [(isAllowed_ok hrun).1]
    exact hroom
  case recordAcquisition =>
    obtain ⟨-, -, ⟨-, hr⟩ | ⟨-, hr⟩⟩ := recordAcquisition_ok.1 hrun <;> cases hr <;> exact hroom.same rfl rfl
  case blockJurisdiction =>
    obtain ⟨-, -, -, hr⟩ := blockJurisdiction_ok.1 hrun
    cases hr
    exact hroom.same rfl rfl
  case unblockJurisdiction =>
    obtain ⟨-, -, -, hr⟩ := unblockJurisdiction_ok.1 hrun
    cases hr
    exact hroom.same rfl rfl
  case setMinHoldingPeriod =>
    obtain ⟨-, -, hr⟩ := setMinHoldingPeriod_ok.1 hrun
    cases hr
    exact hroom.same rfl rfl
  all_goals
    obtain ⟨roles, e, -, rfl⟩ := hoffice rfl
    exact hroom.same rfl rfl

theorem exec_orderly (ho : Orderly h.storage (n + op.approvals)) :
    Orderly ((compliance Address).exec h (env, op)).storage n := by
  cases hstep : (compliance Address).step h (env, op) with
  | none =>
    rw [System.exec_of_none hstep]
    exact ho.mono (Nat.le_add_right _ _)
  | some p =>
    rw [System.exec_of_some hstep]
    exact call_orderly ho (Call.returned_eq_some.1 hstep)

end Calls

end StellarRwa.Compliance

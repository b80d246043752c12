import StellarRwa.Lib.Succession
import StellarRwa.Compliance.Frame
import StellarRwa.Dividend.Spec
import StellarRwa.Registry.Spec
import StellarRwa.Token.Metadata

/-!
# The admins of the four contracts

The admin of each contract is an office with a two-step succession: of the compliance, dividend and registry contracts
by the functions over `Administered`, of the token by fields of its metadata. Every call does one step of the office
(`call_office`), so in every run each acceptance answers the latest proposal (`handover_orderly`).
-/

namespace StellarRwa

open Lib

variable {Address X : Type} [DecidableEq Address]

/-- The call is signed by the address. -/
def Signed (env : Env Address) (a : Address) : Prop := env.authorized a = true

/-- The admin and the nominee as an office. -/
def Roles.office (r : Roles Address) : Office Address := ⟨r.admin, r.pendingAdmin⟩

section Administered

variable {S Ev E : Type} {c : Administered Address S Ev E} {env : Env Address} {h h' : Host S X Ev} {u : Unit}

/-- The storage keeps the roles that are written. -/
abbrev Administered.Faithful (c : Administered Address S Ev E) : Prop := ∀ r s, c.roles (c.setRoles r s) = r

theorem proposeAdmin_office (hc : c.Faithful) {admin newAdmin : Address}
    (hrun : (c.proposeAdmin env admin newAdmin : Call S X Ev E Unit) h = .ok (u, h')) :
    (c.roles h.storage).office.Step (Signed env) (some (.nominate admin newAdmin)) (c.roles h'.storage).office := by
  obtain ⟨hadmin, hsigned, hr⟩ := Administered.proposeAdmin_ok.1 hrun
  cases hr
  simp only [hc, Roles.office]
  exact .nominated hadmin hsigned

theorem cancelAdminProposal_office (hc : c.Faithful) {admin : Address}
    (hrun : (c.cancelAdminProposal env admin : Call S X Ev E Unit) h = .ok (u, h')) :
    (c.roles h.storage).office.Step (Signed env) (some (.withdraw admin)) (c.roles h'.storage).office := by
  obtain ⟨hadmin, hsigned, -, hr⟩ := Administered.cancelAdminProposal_ok.1 hrun
  cases hr
  simp only [hc, Roles.office]
  exact .withdrawn hadmin hsigned

theorem acceptAdmin_office (hc : c.Faithful) {newAdmin : Address}
    (hrun : (c.acceptAdmin env newAdmin : Call S X Ev E Unit) h = .ok (u, h')) :
    (c.roles h.storage).office.Step (Signed env) (some (.accept newAdmin)) (c.roles h'.storage).office := by
  obtain ⟨hsigned, hpending, oldAdmin, hadmin, hr⟩ := Administered.acceptAdmin_ok.1 hrun
  cases hr
  simp only [hc, Roles.office]
  exact .accepted hadmin hpending hsigned

end Administered

/-! ## The compliance contract -/

namespace Compliance

variable {env : Env Address} {h h' : Contract Address}

/-- What a call asks of the admin's office. -/
def Op.act : Op Address → Option (Act Address)
  | .initializeContract admin => some (.start admin)
  | .proposeAdmin admin newAdmin => some (.nominate admin newAdmin)
  | .cancelAdminProposal admin => some (.withdraw admin)
  | .acceptAdmin newAdmin => some (.accept newAdmin)
  | _ => none

theorem call_office {op : Op Address} {r : Ret} (hrun : call env op h = .ok (r, h')) :
    h.storage.roles.office.Step (Signed env) op.act h'.storage.roles.office := by
  have hc : (administered Address).Faithful := fun _ _ => rfl
  have hlists : op.lists = true → h'.storage.roles = h.storage.roles := fun hop => (call_framed hop hrun).roles
  cases op <;> simp only [call, Call.bind_ok, Call.pure_ok] at hrun <;> obtain ⟨x, h₁, hop, hr⟩ := hrun <;> cases hr
  case initializeContract =>
    obtain ⟨hadmin, hsigned, hr⟩ := initializeContract_ok.1 hop
    cases hr
    exact .started hadmin hsigned
  case blockJurisdiction =>
    obtain ⟨-, -, -, hr⟩ := blockJurisdiction_ok.1 hop
    cases hr
    exact .idle
  case unblockJurisdiction =>
    obtain ⟨-, -, -, hr⟩ := unblockJurisdiction_ok.1 hop
    cases hr
    exact .idle
  case setMinHoldingPeriod =>
    obtain ⟨-, -, hr⟩ := setMinHoldingPeriod_ok.1 hop
    cases hr
    exact .idle
  case recordAcquisition =>
    obtain ⟨-, -, ⟨-, hr⟩ | ⟨-, hr⟩⟩ := recordAcquisition_ok.1 hop
    · cases hr
      exact .idle
    · cases hr
      exact .idle
  case proposeAdmin => exact proposeAdmin_office hc hop
  case cancelAdminProposal => exact cancelAdminProposal_office hc hop
  case acceptAdmin => exact acceptAdmin_office hc hop
  all_goals
    rw [hlists rfl]
    exact .idle

/-- The admin of the compliance contract. -/
def adminship (Address : Type) [DecidableEq Address] : Succession (compliance Address) Address where
  office h := h.storage.roles.office
  act l := l.2.act
  signed l := Signed l.1
  step hstep := call_office (Call.returned_eq_some.1 hstep)

end Compliance

/-! ## The dividend contract -/

namespace Dividend

variable {A : Type} {w : World Address X A} {this : Address} {env : Env Address} {h h' : Contract Address X}

/-- What a call asks of the admin's office. -/
def Op.act : Op Address → Option (Act Address)
  | .initializeDividend admin => some (.start admin)
  | .proposeAdmin admin newAdmin => some (.nominate admin newAdmin)
  | .cancelAdminProposal admin => some (.withdraw admin)
  | .acceptAdmin newAdmin => some (.accept newAdmin)
  | _ => none

def Label.act : Label Address A → Option (Act Address)
  | .call _ op => op.act
  | .others _ => none

def Label.Signed : Label Address A → Address → Prop
  | .call env _, a => StellarRwa.Signed env a
  | .others _, _ => False

theorem Effect.roles_kept {s s' : State Address} {x x' : X} {op : Op Address} {r : Ret}
    (he : Effect w this env s x op r s' x') (hact : op.act = none) : s'.roles = s.roles := by
  cases he with
  | handover hop _ _ => cases op <;> first | (cases hact; done) | cases hop
  | initialized _ => cases hact
  | _ => rfl

theorem call_office {op : Op Address} {r : Ret} (hrun : call w this env op h = .ok (r, h')) :
    h.storage.roles.office.Step (Signed env) op.act h'.storage.roles.office := by
  have hc : (administered Address).Faithful := fun _ _ => rfl
  have heffect := call_effect hrun
  cases op <;> simp only [call, Call.bind_ok, Call.pure_ok] at hrun <;> obtain ⟨u, h₁, hop, hr⟩ := hrun <;> cases hr
  case initializeDividend =>
    obtain ⟨hadmin, hsigned, hr⟩ := initializeDividend_ok.1 hop
    cases hr
    exact .started hadmin hsigned
  case proposeAdmin => exact proposeAdmin_office hc hop
  case cancelAdminProposal => exact cancelAdminProposal_office hc hop
  case acceptAdmin => exact acceptAdmin_office hc hop
  all_goals
    rw [heffect.roles_kept rfl]
    exact .idle

/-- The admin of the dividend contract. -/
def adminship (w : World Address X A) (this : Address) : Succession (dividend w this) Address where
  office h := h.storage.roles.office
  act := Label.act
  signed := Label.Signed
  step {s l r s'} hstep := by
    cases l with
    | call env op => exact call_office (Call.returned_eq_some.1 hstep)
    | others a =>
      obtain ⟨x, -, e⟩ := Option.map_eq_some_iff.1 hstep
      cases e
      exact .idle

end Dividend

/-! ## The registry -/

namespace Registry

variable {assetAdmin : X → Address → Option Address} {env : Env Address} {h h' : Contract Address X}

/-- What a call asks of the admin's office. -/
def Op.act : Op Address → Option (Act Address)
  | .initializeRegistry admin => some (.start admin)
  | .proposeAdmin admin newAdmin => some (.nominate admin newAdmin)
  | .cancelAdminProposal admin => some (.withdraw admin)
  | .acceptAdmin newAdmin => some (.accept newAdmin)
  | _ => none

def Label.act : Label Address X → Option (Act Address)
  | .call _ op => op.act
  | .others _ => none

def Label.Signed : Label Address X → Address → Prop
  | .call env _, a => StellarRwa.Signed env a
  | .others _, _ => False

theorem call_office {op : Op Address} {r : Ret} (hrun : call assetAdmin env op h = .ok (r, h')) :
    h.storage.roles.office.Step (Signed env) op.act h'.storage.roles.office := by
  have hc : (administered Address).Faithful := fun _ _ => rfl
  cases op <;> simp only [call, Call.bind_ok, Call.pure_ok] at hrun <;> obtain ⟨u, h₁, hop, hr⟩ := hrun <;> cases hr
  case initializeRegistry =>
    obtain ⟨hadmin, hsigned, hr⟩ := initializeRegistry_ok.1 hop
    cases hr
    exact .started hadmin hsigned
  case registerAsset =>
    obtain ⟨-, -, -, -, -, -, -, id, -, count, -, tvl, -, hr⟩ := registerAsset_ok.1 hop
    cases hr
    exact .idle
  case deactivateAsset =>
    obtain ⟨entry, -, -, ⟨-, hr⟩ | ⟨-, tvl, -, hr⟩⟩ := deactivateAsset_ok.1 hop
    · cases hr
      exact .idle
    · cases hr
      exact .idle
  case updateValuation =>
    obtain ⟨-, -, -, entry, -, tvl, -, hr⟩ := updateValuation_ok.1 hop
    cases hr
    exact .idle
  case reactivateAsset =>
    obtain ⟨entry, -, -, ⟨-, hr⟩ | ⟨-, count, -, tvl, -, hr⟩⟩ := reactivateAsset_ok.1 hop
    · cases hr
      exact .idle
    · cases hr
      exact .idle
  case proposeAdmin => exact proposeAdmin_office hc hop
  case cancelAdminProposal => exact cancelAdminProposal_office hc hop
  case acceptAdmin => exact acceptAdmin_office hc hop

/-- The admin of the registry. -/
def adminship (assetAdmin : X → Address → Option Address) : Succession (registry assetAdmin) Address where
  office h := h.storage.roles.office
  act := Label.act
  signed := Label.Signed
  step {s l r s'} hstep := by
    cases l with
    | call env op => exact call_office (Call.returned_eq_some.1 hstep)
    | others x =>
      cases hstep
      exact .idle

end Registry

/-! ## The token -/

namespace Token

variable {client : ComplianceClient Address X} {env : Env Address} {h h' : Contract Address X} {u : Unit}

/-- What a call asks of the admin's office. -/
def Op.act : Op Address → Option (Act Address)
  | .initializeToken admin _ _ _ _ _ _ _ _ => some (.start admin)
  | .proposeAdmin admin newAdmin => some (.nominate admin newAdmin)
  | .cancelAdminProposal admin => some (.withdraw admin)
  | .acceptAdmin newAdmin => some (.accept newAdmin)
  | _ => none

def Label.act : Label Address X → Option (Act Address)
  | .call _ op => op.act
  | .others _ => none

/-- The admin and the nominee of the metadata; the office is vacant before `initialize`. -/
def State.office (s : State Address) : Office Address :=
  ⟨s.metadata.map AssetMetadata.admin, s.metadata.bind AssetMetadata.pendingAdmin⟩

theorem call_office {op : Op Address} (hrun : call client env op h = .ok (u, h')) :
    h.storage.office.Step (Signed env) op.act h'.storage.office := by
  cases hmd : h.storage.metadata with
  | none =>
    obtain ⟨admin, _, _, _, _, _, _, _, _, rfl⟩ := call_uninitialized hmd hrun
    obtain ⟨-, hsigned, -, -, -, -, -, x, -, hr⟩ := initializeToken_ok.1 hrun
    cases hr
    simp only [State.office, hmd]
    exact .started rfl hsigned
  | some md =>
    have hsome : ∀ md₁, h.storage.metadata = some md₁ → md₁ = md := fun md₁ h₁ => Option.some.inj (h₁.symm.trans hmd)
    obtain ⟨md', hmd', hs⟩ := call_metadata hmd hrun
    simp only [State.office, hmd, hmd', Option.map_some, Option.bind_some]
    by_cases hact : op.act = none
    · rw [hact]
      cases hs with
      | rewritten hr => cases hr <;> first | exact .idle | cases hact
      | _ => exact .idle
    · cases op <;> first | exact absurd rfl hact | skip
      case initializeToken =>
        have hnone := (initializeToken_ok.1 hrun).1
        cases hnone.symm.trans hmd
      case proposeAdmin =>
        obtain ⟨md₁, hmd₁, hsigned, rfl, hr⟩ := proposeAdmin_ok.1 hrun
        cases hr
        obtain rfl := hsome md₁ hmd₁
        cases hmd'
        exact .nominated rfl hsigned
      case cancelAdminProposal =>
        obtain ⟨md₁, hmd₁, hsigned, rfl, -, hr⟩ := cancelAdminProposal_ok.1 hrun
        cases hr
        obtain rfl := hsome md₁ hmd₁
        cases hmd'
        exact .withdrawn rfl hsigned
      case acceptAdmin =>
        obtain ⟨hsigned, md₁, hmd₁, hpending, hr⟩ := acceptAdmin_ok.1 hrun
        cases hr
        obtain rfl := hsome md₁ hmd₁
        cases hmd'
        exact .accepted rfl hpending hsigned

/-- The admin of the token. -/
def adminship (client : ComplianceClient Address X) : Succession (token client) Address where
  office h := h.storage.office
  act := Label.act
  signed l a := l.SignedBy a
  step {s l r s'} hstep := by
    cases l with
    | call env op => exact call_office (Call.returned_eq_some.1 hstep)
    | others x =>
      cases hstep
      exact .idle

end Token

/-! ## Runs -/

/-- **Two-step handover.** In every run of each of the four contracts from its deployment, `initialize` is answered at
most once; after it the admin changes only in an `accept_admin` that the new admin signed; and every `accept_admin`
answers the latest handover call before it, which is a `propose_admin` of the accepting address, signed by the admin of
that time, who is the admin still. -/
theorem handover_orderly {A : Type} (client : Token.ComplianceClient Address X) (w : Dividend.World Address X A)
    (this : Address) (assetAdmin : X → Address → Option Address) (x : X) :
    (∀ ls, (Token.adminship client).Orderly ((Token.token client).trace (Token.Contract.fresh Address x) ls)) ∧
      (∀ ls, (Compliance.adminship Address).Orderly
        ((Compliance.compliance Address).trace (Compliance.Contract.fresh Address) ls)) ∧
      (∀ ls, (Dividend.adminship w this).Orderly
        ((Dividend.dividend w this).trace (Dividend.Contract.fresh Address x) ls)) ∧
      ∀ ls, (Registry.adminship assetAdmin).Orderly
        ((Registry.registry assetAdmin).trace (Registry.Contract.fresh Address x) ls) :=
  ⟨fun ls => (Token.adminship client).orderly rfl ls, fun ls => (Compliance.adminship Address).orderly rfl ls,
    fun ls => (Dividend.adminship w this).orderly rfl ls, fun ls => (Registry.adminship assetAdmin).orderly rfl ls⟩

end StellarRwa

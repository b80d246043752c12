import StellarRwa.Lib.Alike
import StellarRwa.Lib.Indexer
import StellarRwa.Dividend.Model
import StellarRwa.Registry.Model

/-!
# What the registry and the dividend contract see of the tokens

The registry reads the admin of a token. The dividend contract reads its admin and its supply, and calls its `transfer`.
Nothing else of the other contracts matters to them: at other contracts that are related so that these views are the
same and transfers are answered alike (`Dividend.Sees`), every call of theirs ends the same (`Registry.call_alike`,
`Dividend.call_alike`).
-/

namespace StellarRwa

open Lib

/-! ## The offices -/

namespace Administered

variable {Address S X Ev E α : Type} [DecidableEq Address] {c : Administered Address S Ev E} {env : Env Address}
  {R : X → X → Prop} {e₁ e₂ : List Ev} {h₁ h₂ : Host S X Ev} {next : Unit → Call S X Ev E α}

theorem requireAdmin_alike {admin : Address} (ht : Twins R e₁ e₂ h₁ h₂) (hk : Alike R e₁ e₂ (next ()) h₁ h₂) :
    Alike R e₁ e₂ (c.requireAdmin env admin >>= next) h₁ h₂ :=
  .assoc <| .storage ht <| .assoc <| .unwrapOrElse fun _ _ => .assoc <| .requireAuth <| .panicIf fun _ => hk

theorem requireAdminOrAssetAdmin_alike {assetAdmin : X → Address → Option Address} {admin assetToken : Address}
    (ht : Twins R e₁ e₂ h₁ h₂) (hsame : assetAdmin h₁.outside assetToken = assetAdmin h₂.outside assetToken)
    (hk : Alike R e₁ e₂ (next ()) h₁ h₂) :
    Alike R e₁ e₂ (c.requireAdminOrAssetAdmin assetAdmin env admin assetToken >>= next) h₁ h₂ := by
  refine .assoc <| .storage ht <| .assoc <| .unwrapOrElse fun _ _ => .assoc <| .requireAuth ?_
  split
  · exact .value hk
  · exact .assoc <| .query hsame fun _ _ => .panicIf fun _ => hk

theorem proposeAdmin_alike {admin newAdmin : Address} (ht : Twins R e₁ e₂ h₁ h₂) :
    Alike R e₁ e₂ (c.proposeAdmin env admin newAdmin) h₁ h₂ :=
  requireAdmin_alike ht <| .update ht fun _ _ ht => .last <| .publish ht fun _ _ ht => .done ht

theorem cancelAdminProposal_alike {admin : Address} (ht : Twins R e₁ e₂ h₁ h₂) :
    Alike R e₁ e₂ (c.cancelAdminProposal env admin) h₁ h₂ :=
  requireAdmin_alike ht <| .storage ht <| .panicIf fun _ => .update ht fun _ _ ht => .last <| .publish ht fun _ _ ht =>
    .done ht

theorem acceptAdmin_alike {newAdmin : Address} (ht : Twins R e₁ e₂ h₁ h₂) :
    Alike R e₁ e₂ (c.acceptAdmin env newAdmin) h₁ h₂ :=
  .requireAuth <| .storage ht <| .unwrapOrElse fun _ _ => .panicIf fun _ => .unwrapOrElse fun _ _ =>
    .update ht fun _ _ ht => .last <| .publish ht fun _ _ ht => .done ht

end Administered

/-! ## The registry -/

namespace Registry

variable {Address X : Type} [DecidableEq Address] {assetAdmin : X → Address → Option Address} {env : Env Address}
  {R : X → X → Prop} {e₁ e₂ : List (Event Address)} {h₁ h₂ : Contract Address X}

/-- **A registry call** at other contracts that show the same admin of every token ends the same. -/
theorem call_alike {op : Op Address} (hR : ∀ x y, R x y → ∀ p, assetAdmin x p = assetAdmin y p)
    (ht : Twins R e₁ e₂ h₁ h₂) : Alike R e₁ e₂ (call assetAdmin env op) h₁ h₂ := by
  have hadmin := hR _ _ ht.outside
  cases op with
  | initializeRegistry admin =>
    refine .assoc <| .storage ht <| .assoc <| .panicIf fun _ => .assoc <| .requireAuth <| .assoc <| .update ht ?_
    intro _ _ ht
    refine .assoc <| .update ht fun _ _ ht => .assoc <| .update ht fun _ _ ht => .assoc <| .update ht fun _ _ ht => ?_
    exact .publish ht fun _ _ ht => .done ht
  | registerAsset issuer tokenContract name assetType valuation =>
    refine .assoc <| .assoc <| .storage ht <| .panicIf fun _ => .assoc <| .requireAuth <| .assoc <| .panicIf fun _ => ?_
    refine .assoc <| .panicIf fun _ => .assoc <| .panicIf fun _ => .assoc <| .panicIf fun _ => .assoc <| .storage ht ?_
    refine .assoc <| .panicIf fun _ => .assoc <| .orTrap fun id _ => .assoc <| .update ht fun _ _ ht => ?_
    refine .assoc <| .update ht fun _ _ ht => .assoc <| .update ht fun _ _ ht => .assoc <| .storage ht ?_
    refine .assoc <| .orTrap fun count _ => .assoc <| .update ht fun _ _ ht => .assoc <| .update ht fun _ _ ht => ?_
    refine .assoc <| .update ht fun _ _ ht => .assoc <| .storage ht <| .assoc <| .unwrapOrElse fun _ _ => ?_
    refine .assoc <| .update ht fun _ _ ht => .assoc <| .publish ht fun _ _ ht => .value <| .done ht
  | deactivateAsset admin assetId =>
    refine .assoc <| .assoc <| .storage ht <| .unwrapOrElse fun entry _ => .assoc ?_
    refine Administered.requireAdminOrAssetAdmin_alike ht (hadmin _) ?_
    refine .bind (.onlyIf ht ?_) fun _ _ _ ht => .done ht
    refine .update ht fun _ _ ht => .update ht fun _ _ ht => .storage ht <| .unwrapOrElse fun _ _ => ?_
    exact .update ht fun _ _ ht => .last <| .publish ht fun _ _ ht => .done ht
  | updateValuation admin assetId newValuation =>
    refine .assoc <| Administered.requireAdmin_alike ht <| .assoc <| .panicIf fun _ => ?_
    refine .assoc <| .assoc <| .storage ht <| .unwrapOrElse fun entry _ => .assoc <| .update ht fun _ _ ht => ?_
    refine .assoc <| .bind (.onlyIf ht ?_) fun _ _ _ ht => .publish ht fun _ _ ht => .done ht
    refine .storage ht <| .unwrapOrElse fun _ _ => .unwrapOrElse fun _ _ => ?_
    exact .last <| .update ht fun _ _ ht => .done ht
  | reactivateAsset admin assetId =>
    refine .assoc <| .assoc <| .storage ht <| .unwrapOrElse fun entry _ => .assoc ?_
    refine Administered.requireAdminOrAssetAdmin_alike ht (hadmin _) ?_
    refine .bind (.onlyIf ht ?_) fun _ _ _ ht => .done ht
    refine .update ht fun _ _ ht => .storage ht <| .orTrap fun _ _ => .update ht fun _ _ ht => ?_
    refine .unwrapOrElse fun _ _ => ?_
    exact .update ht fun _ _ ht => .last <| .publish ht fun _ _ ht => .done ht
  | proposeAdmin admin newAdmin => exact .bind (Administered.proposeAdmin_alike ht) fun _ _ _ ht => .done ht
  | cancelAdminProposal admin => exact .bind (Administered.cancelAdminProposal_alike ht) fun _ _ _ ht => .done ht
  | acceptAdmin newAdmin => exact .bind (Administered.acceptAdmin_alike ht) fun _ _ _ ht => .done ht

end Registry

/-! ## The dividend contract -/

namespace Dividend

variable {Address X A : Type} {w : World Address X A} {R : X → X → Prop}

/-- Related other contracts look the same to the dividend contract, and answer its transfers alike. -/
structure Sees (w : World Address X A) (R : X → X → Prop) : Prop where
  totalSupply : ∀ x y, R x y → ∀ p, w.totalSupply x p = w.totalSupply y p
  assetAdmin : ∀ x y, R x y → ∀ p, w.assetAdmin x p = w.assetAdmin y p
  transfer : ∀ x y, R x y → ∀ p from_ to_ amount,
    Option.Rel R (w.transfer x p from_ to_ amount) (w.transfer y p from_ to_ amount)

variable {this : Address} {env : Env Address} {e₁ e₂ : List (Event Address)} {h₁ h₂ : Contract Address X} {α : Type}
  {next : Unit → M Address X α}

theorem transfer_alike {p from_ to_ : Address} {amount : I128} (hsees : Sees w R) (ht : Twins R e₁ e₂ h₁ h₂)
    (hk : ∀ h₁' h₂', Twins R e₁ e₂ h₁' h₂' → Alike R e₁ e₂ (next ()) h₁' h₂') :
    Alike R e₁ e₂ (transfer w p from_ to_ amount >>= next) h₁ h₂ := by
  refine .invoke ht ?_ fun _ => hk
  have hsame := hsees.transfer _ _ ht.outside p from_ to_ amount
  generalize w.transfer h₁.outside p from_ to_ amount = r₁ at hsame ⊢
  generalize w.transfer h₂.outside p from_ to_ amount = r₂ at hsame ⊢
  cases hsame with
  | none => exact .none
  | some hR => exact .some ⟨rfl, hR⟩

theorem clear_alike {id : U64} (ht : Twins R e₁ e₂ h₁ h₂)
    (hk : ∀ h₁' h₂', Twins R e₁ e₂ h₁' h₂' → Alike R e₁ e₂ (next ()) h₁' h₂') :
    Alike R e₁ e₂ (clear id >>= next) h₁ h₂ :=
  .assoc <| .update ht fun _ _ ht => .update ht hk

theorem load_alike {id : U64} {k : Distribution Address → M Address X α} (ht : Twins R e₁ e₂ h₁ h₂)
    (hk : ∀ dist, Alike R e₁ e₂ (k dist) h₁ h₂) : Alike R e₁ e₂ (load id >>= k) h₁ h₂ :=
  .assoc <| .storage ht <| .unwrapOrElse fun dist _ => hk dist

variable [DecidableEq Address]

theorem claimable_alike {id : U64} {holder : Address} (ht : Twins R e₁ e₂ h₁ h₂) :
    Alike R e₁ e₂ (claimable id holder) h₁ h₂ := by
  refine load_alike ht fun dist => .storage ht <| .ite (fun _ => .done ht) fun _ => .ite (fun _ => .done ht) fun _ => ?_
  refine .assoc <| .storage ht <| .assoc <| .unwrapOrElse fun snap _ => .value <| .ite (fun _ => .done ht) fun _ => ?_
  exact .unwrapOrElse fun product _ => .last <| .orTrap fun _ _ => .done ht

theorem createDistributionDeadline_alike {admin assetToken paymentToken : Address} {totalAmount : I128}
    {eligible : List (Address × I128)} {deadline : U32} (hsees : Sees w R) (ht : Twins R e₁ e₂ h₁ h₂) :
    Alike R e₁ e₂ (createDistributionDeadline w this env admin assetToken paymentToken totalAmount eligible deadline)
      h₁ h₂ := by
  refine Administered.requireAdminOrAssetAdmin_alike ht (hsees.assetAdmin _ _ ht.outside _) <| .panicIf fun _ => ?_
  refine .panicIf fun _ => .query (hsees.totalSupply _ _ ht.outside _) fun _ _ => .panicIf fun _ => .panicIf fun _ => ?_
  refine .bind (.foldEach (fun entry _ round _ _ ht => ?_) ht) fun _ _ _ ht => ?_
  · exact .panicIf fun _ => .panicIf fun _ => .unwrapOrElse fun _ _ => .done ht
  · refine transfer_alike hsees ht fun _ _ ht => .storage ht <| .orTrap fun id _ => .update ht fun _ _ ht => ?_
    refine .update ht fun _ _ ht => .update ht fun _ _ ht => .update ht fun _ _ ht => .update ht fun _ _ ht => ?_
    exact .publish ht fun _ _ ht => .done ht

theorem claim_alike {id : U64} {holder : Address} (hsees : Sees w R) (ht : Twins R e₁ e₂ h₁ h₂) :
    Alike R e₁ e₂ (claim w this env id holder) h₁ h₂ := by
  refine .requireAuth <| load_alike ht fun dist => .panicIf fun _ => .panicIf fun _ => .storage ht ?_
  refine .panicIf fun _ => ?_
  refine .bind (claimable_alike ht) fun amount _ _ ht => .panicIf fun _ => .update ht fun _ _ ht => ?_
  refine transfer_alike hsees ht fun _ _ ht => .unwrapOrElse fun distributed _ => .panicIf fun _ => ?_
  refine .ite (fun _ => clear_alike ht fun _ _ ht => .value ?_) fun _ => .value ?_
  · exact .update ht fun _ _ ht => .last <| .publish ht fun _ _ ht => .done ht
  · exact .update ht fun _ _ ht => .last <| .publish ht fun _ _ ht => .done ht

/-- **A dividend call** at other contracts that it sees alike ends the same. -/
theorem call_alike {op : Op Address} (hsees : Sees w R) (ht : Twins R e₁ e₂ h₁ h₂) :
    Alike R e₁ e₂ (call w this env op) h₁ h₂ := by
  cases op with
  | initializeDividend admin =>
    refine .assoc <| .storage ht <| .assoc <| .panicIf fun _ => .assoc <| .requireAuth <| .assoc <| .update ht ?_
    intro _ _ ht
    exact .assoc <| .update ht fun _ _ ht => .publish ht fun _ _ ht => .done ht
  | createDistribution admin assetToken paymentToken totalAmount eligible =>
    exact .bind (createDistributionDeadline_alike hsees ht) fun _ _ _ ht => .done ht
  | createDistributionDeadline admin assetToken paymentToken totalAmount eligible deadline =>
    exact .bind (createDistributionDeadline_alike hsees ht) fun _ _ _ ht => .done ht
  | claim id holder => exact .bind (claim_alike hsees ht) fun _ _ _ ht => .done ht
  | reclaimUnclaimed admin id =>
    refine .assoc <| Administered.requireAdmin_alike ht <| .assoc <| load_alike ht fun dist => ?_
    refine .assoc <| .panicIf fun _ => ?_
    refine .assoc <| .panicIf fun _ => .assoc <| .panicIf fun _ => .assoc <| .orTrap fun remaining _ => ?_
    refine .assoc <| .panicIf fun _ => .assoc <| transfer_alike hsees ht fun _ _ ht => .assoc <| clear_alike ht ?_
    intro _ _ ht
    exact .assoc <| .update ht fun _ _ ht => .assoc <| .publish ht fun _ _ ht => .value <| .done ht
  | cancelDistribution admin id =>
    refine .assoc <| Administered.requireAdmin_alike ht <| .assoc <| load_alike ht fun dist => ?_
    refine .assoc <| .panicIf fun _ => ?_
    refine .assoc <| .panicIf fun _ => .assoc <| transfer_alike hsees ht fun _ _ ht => .assoc <| clear_alike ht ?_
    intro _ _ ht
    exact .assoc <| .update ht fun _ _ ht => .publish ht fun _ _ ht => .done ht
  | proposeAdmin admin newAdmin => exact .bind (Administered.proposeAdmin_alike ht) fun _ _ _ ht => .done ht
  | cancelAdminProposal admin => exact .bind (Administered.cancelAdminProposal_alike ht) fun _ _ _ ht => .done ht
  | acceptAdmin newAdmin => exact .bind (Administered.acceptAdmin_alike ht) fun _ _ _ ht => .done ht

end Dividend

end StellarRwa

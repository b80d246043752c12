import StellarRwa.Lib.Call

/-!
# The admin of a contract and its two-step handover

The compliance, dividend and registry contracts store an admin and a pending proposal under the same two keys and
carry the same four functions for them (`require_admin`, `propose_admin`, `cancel_admin_proposal`, `accept_admin`).
`Administered` says where a contract keeps the two keys and which errors and events it uses; the functions are
defined once over it.
-/

namespace StellarRwa

open Lib

/-- `DataKey::Admin` and `DataKey::PendingAdmin`. -/
structure Roles (Address : Type) where
  admin : Option Address
  pendingAdmin : Option Address
deriving DecidableEq

/-- A contract with an admin: its keys, and the errors and events of the handover. -/
structure Administered (Address S Ev E : Type) where
  roles : S → Roles Address
  setRoles : Roles Address → S → S
  notInitialized : E
  unauthorized : E
  noPendingAdmin : E
  proposed : Address → Address → Ev
  cancelled : Address → Ev
  setAdmin : Address → Address → Ev

namespace Administered

variable {Address S X Ev E : Type} [DecidableEq Address] (c : Administered Address S Ev E)

def requireAdmin (env : Env Address) (admin : Address) : Call S X Ev E Unit := do
  let s ← Call.storage
  let stored ← Call.unwrapOrElse (c.roles s).admin c.notInitialized
  Call.requireAuth env admin
  Call.panicIf (stored ≠ admin) c.unauthorized

/-- `require_admin_or_asset_admin`, where `assetAdmin` is `get_metadata().admin` of the asset token. -/
def requireAdminOrAssetAdmin (assetAdmin : X → Address → Option Address) (env : Env Address)
    (admin assetToken : Address) : Call S X Ev E Unit := do
  let s ← Call.storage
  let stored ← Call.unwrapOrElse (c.roles s).admin c.notInitialized
  Call.requireAuth env admin
  if admin = stored then
    pure ()
  else do
    let owner ← Call.query fun x => assetAdmin x assetToken
    Call.panicIf (admin ≠ owner) c.unauthorized

def getAdmin : Call S X Ev E Address := do
  let s ← Call.storage
  Call.unwrapOrElse (c.roles s).admin c.notInitialized

def proposeAdmin (env : Env Address) (admin newAdmin : Address) : Call S X Ev E Unit := do
  c.requireAdmin env admin
  Call.update fun s => c.setRoles { c.roles s with pendingAdmin := some newAdmin } s
  Call.publish (c.proposed admin newAdmin)

def cancelAdminProposal (env : Env Address) (admin : Address) : Call S X Ev E Unit := do
  c.requireAdmin env admin
  let s ← Call.storage
  Call.panicIf ((c.roles s).pendingAdmin = none) c.noPendingAdmin
  Call.update fun s => c.setRoles { c.roles s with pendingAdmin := none } s
  Call.publish (c.cancelled admin)

def acceptAdmin (env : Env Address) (newAdmin : Address) : Call S X Ev E Unit := do
  Call.requireAuth env newAdmin
  let s ← Call.storage
  let pending ← Call.unwrapOrElse (c.roles s).pendingAdmin c.noPendingAdmin
  Call.panicIf (pending ≠ newAdmin) c.unauthorized
  let oldAdmin ← Call.unwrapOrElse (c.roles s).admin c.notInitialized
  Call.update fun s => c.setRoles ⟨some newAdmin, none⟩ s
  Call.publish (c.setAdmin oldAdmin newAdmin)

/-! ## When they return -/

variable {c} {env : Env Address} {h : Host S X Ev} {r : Unit × Host S X Ev}

@[simp] theorem requireAdmin_ok {admin : Address} :
    (c.requireAdmin env admin : Call S X Ev E Unit) h = .ok r ↔
      (c.roles h.storage).admin = some admin ∧ env.authorized admin = true ∧ ((), h) = r := by
  simp [requireAdmin]

@[simp] theorem requireAdminOrAssetAdmin_ok {assetAdmin : X → Address → Option Address} {admin assetToken : Address} :
    (c.requireAdminOrAssetAdmin assetAdmin env admin assetToken : Call S X Ev E Unit) h = .ok r ↔
      (∃ stored, (c.roles h.storage).admin = some stored ∧
        (admin = stored ∨ assetAdmin h.outside assetToken = some admin)) ∧
      env.authorized admin = true ∧ ((), h) = r := by
  simp only [requireAdminOrAssetAdmin, Call.bind_ok, Call.storage_ok, Call.unwrapOrElse_ok, Call.requireAuth_ok,
    Call.ite_ok, Call.pure_ok, Call.query_ok, Call.panicIf_ok]
  constructor
  · rintro ⟨_, _, hs, stored, _, ⟨_, ha, hb⟩, _, _, ⟨hauth, hu⟩, hrest⟩
    cases hs
    cases hb
    cases hu
    rcases hrest with ⟨heq, hr⟩ | ⟨_, owner, _, ⟨_, hget, hi⟩, hno, hr⟩
    · exact ⟨⟨stored, ha, .inl heq⟩, hauth, hr⟩
    · cases hi
      obtain rfl : admin = owner := by simpa using hno
      exact ⟨⟨stored, ha, .inr hget⟩, hauth, hr⟩
  · rintro ⟨⟨stored, ha, hor⟩, hauth, hr⟩
    refine ⟨_, _, rfl, stored, _, ⟨_, ha, rfl⟩, _, _, ⟨hauth, rfl⟩, ?_⟩
    by_cases heq : admin = stored
    · exact .inl ⟨heq, hr⟩
    · have hget := hor.resolve_left heq
      exact .inr ⟨heq, admin, h, ⟨admin, hget, rfl⟩, by simp, hr⟩

/-- How the check of a signer fails. -/
theorem requireAdminOrAssetAdmin_error {assetAdmin : X → Address → Option Address} {admin assetToken : Address}
    {f : Fault E}
    (hrun : (c.requireAdminOrAssetAdmin assetAdmin env admin assetToken : Call S X Ev E Unit) h = .error f) :
    f = .trap ∨ f = .error c.notInitialized ∨ f = .error c.unauthorized := by
  simp only [requireAdminOrAssetAdmin, Call.bind_error, Call.storage_error, Call.unwrapOrElse_error,
    Call.requireAuth_error, Call.ite_error, Call.pure_error, Call.query, Call.invoke_error, Call.panicIf_error,
    false_or, and_false] at hrun
  rcases hrun with ⟨_, _, -, ⟨-, rfl⟩ | ⟨_, _, -, ⟨-, rfl⟩ | ⟨_, _, -, -, ⟨-, rfl⟩ | ⟨_, _, -, -, rfl⟩⟩⟩⟩
  · exact .inr (.inl rfl)
  · exact .inl rfl
  · exact .inl rfl
  · exact .inr (.inr rfl)

omit [DecidableEq Address] in
@[simp] theorem getAdmin_ok {r : Address × Host S X Ev} :
    (c.getAdmin : Call S X Ev E Address) h = .ok r ↔
      ∃ admin, (c.roles h.storage).admin = some admin ∧ (admin, h) = r := by
  simp [getAdmin]

@[simp] theorem proposeAdmin_ok {admin newAdmin : Address} :
    (c.proposeAdmin env admin newAdmin : Call S X Ev E Unit) h = .ok r ↔
      (c.roles h.storage).admin = some admin ∧ env.authorized admin = true ∧
      ((), { h with
        storage := c.setRoles { c.roles h.storage with pendingAdmin := some newAdmin } h.storage
        events := h.events ++ [c.proposed admin newAdmin] }) = r := by
  simp [proposeAdmin, and_assoc]

@[simp] theorem cancelAdminProposal_ok {admin : Address} :
    (c.cancelAdminProposal env admin : Call S X Ev E Unit) h = .ok r ↔
      (c.roles h.storage).admin = some admin ∧ env.authorized admin = true ∧
      (c.roles h.storage).pendingAdmin ≠ none ∧
      ((), { h with
        storage := c.setRoles { c.roles h.storage with pendingAdmin := none } h.storage
        events := h.events ++ [c.cancelled admin] }) = r := by
  simp [cancelAdminProposal, and_assoc]

@[simp] theorem acceptAdmin_ok {newAdmin : Address} :
    (c.acceptAdmin env newAdmin : Call S X Ev E Unit) h = .ok r ↔
      env.authorized newAdmin = true ∧ (c.roles h.storage).pendingAdmin = some newAdmin ∧
      ∃ oldAdmin, (c.roles h.storage).admin = some oldAdmin ∧
      ((), { h with
        storage := c.setRoles ⟨some newAdmin, none⟩ h.storage
        events := h.events ++ [c.setAdmin oldAdmin newAdmin] }) = r := by
  simp [acceptAdmin]

end Administered

end StellarRwa

import StellarRwa.Lib.Indexer
import StellarRwa.Handover

/-!
# Notices of a handover

All contracts announce the same four things about their admin: the first one, a proposal, its withdrawal, and the
acceptance. Whoever has read all notices knows the admin and the pending proposal, and knows which notices cannot be.
-/

namespace StellarRwa

/-- An event about the admin. -/
inductive Notice (Address : Type)
  | init (admin : Address)
  | proposed (admin newAdmin : Address)
  | cancelled (admin : Address)
  | setAdmin (oldAdmin newAdmin : Address)

variable {Address : Type} [DecidableEq Address]

/-- What a notice makes of the roles; nothing when it does not fit. -/
def Roles.read (r : Roles Address) : Notice Address → Option (Roles Address)
  | .init admin => if r.admin = none then some { r with admin := some admin } else none
  | .proposed admin newAdmin =>
    if r.admin = some admin then some { r with pendingAdmin := some newAdmin } else none
  | .cancelled admin =>
    if r.admin = some admin ∧ r.pendingAdmin ≠ none then some { r with pendingAdmin := none } else none
  | .setAdmin oldAdmin newAdmin =>
    if r.admin = some oldAdmin ∧ r.pendingAdmin = some newAdmin then some ⟨some newAdmin, none⟩ else none

section Reading

variable {r : Roles Address} {admin newAdmin : Address}

theorem Roles.read_init (h : r.admin = none) : r.read (.init admin) = some { r with admin := some admin } := if_pos h

theorem Roles.read_proposed (h : r.admin = some admin) :
    r.read (.proposed admin newAdmin) = some { r with pendingAdmin := some newAdmin } := if_pos h

theorem Roles.read_cancelled (h : r.admin = some admin) (hpending : r.pendingAdmin ≠ none) :
    r.read (.cancelled admin) = some { r with pendingAdmin := none } := if_pos ⟨h, hpending⟩

theorem Roles.read_setAdmin (h : r.admin = some admin) (hpending : r.pendingAdmin = some newAdmin) :
    r.read (.setAdmin admin newAdmin) = some ⟨some newAdmin, none⟩ := if_pos ⟨h, hpending⟩

end Reading

end StellarRwa

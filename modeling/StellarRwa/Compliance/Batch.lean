import StellarRwa.Compliance.Frame

/-!
# Approving in a batch

`add_to_allowlist_batch` checks the admin once and then approves entry after entry, as the single calls do: no approval
changes the roles, so the check would give the same answer before every entry (`addToAllowlistBatch_refines`).
-/

namespace StellarRwa.Compliance

open Lib

variable {Address : Type} [DecidableEq Address] {env : Env Address} {admin : Address} {h h' : Contract Address}

/-- `add_to_allowlist` for each entry, one call after the other. -/
def addEach (env : Env Address) (admin : Address) (entries : List (AllowlistEntry Address)) : M Address Unit :=
  Call.forEach entries fun entry => addToAllowlist env admin entry.address entry.jurisdiction entry.expiresAt

/-- Once the admin check passes, it does nothing. -/
theorem addToAllowlist_eq (hadmin : h.storage.roles.admin = some admin) (hauth : env.authorized admin = true)
    (a : Address) (j : Bytes) (e : U32) :
    addToAllowlist env admin a j e h = approveAddress env.sequence a j e h := by
  have hcheck : (administered Address).requireAdmin env admin h = .ok ((), h) :=
    Administered.requireAdmin_ok.2 ⟨hadmin, hauth, rfl⟩
  exact Call.bind_eq_of_ok hcheck

/-- The loop of the batch and the single calls, by induction on the entries: the roles stay as they are. -/
theorem addEach_eq (hauth : env.authorized admin = true) {entries : List (AllowlistEntry Address)} :
    ∀ {h : Contract Address}, h.storage.roles.admin = some admin →
      addEach env admin entries h = Call.forEach entries
        (fun entry => approveAddress env.sequence entry.address entry.jurisdiction entry.expiresAt) h := by
  induction entries with
  | nil => exact fun _ => rfl
  | cons entry entries ih =>
    intro h hadmin
    have hfirst := addToAllowlist_eq hadmin hauth entry.address entry.jurisdiction entry.expiresAt
    rw [addEach, Call.forEach_cons, Call.forEach_cons]
    cases hround : approveAddress env.sequence entry.address entry.jurisdiction entry.expiresAt h with
    | error f => rw [Call.bind_eq_of_error hround, Call.bind_eq_of_error (hfirst.trans hround)]
    | ok r =>
      obtain ⟨u, h₁⟩ := r
      rw [Call.bind_eq_of_ok hround, Call.bind_eq_of_ok (hfirst.trans hround)]
      refine ih ?_
      rw [(approveAddress_framed hround).roles, hadmin]

/-- **`add_to_allowlist_batch` refines `add_to_allowlist`.** On a list that is not empty the batch ends exactly as the
single calls one after the other: with the same storage and events, or with the error of the first single call that
fails; then nothing has changed. -/
theorem addToAllowlistBatch_refines (env : Env Address) (admin : Address) (entry : AllowlistEntry Address)
    (entries : List (AllowlistEntry Address)) (h : Contract Address) :
    addToAllowlistBatch env admin (entry :: entries) h = addEach env admin (entry :: entries) h ∧
      ∀ f, addToAllowlistBatch env admin (entry :: entries) h = .error f →
        (∃ before failing after h₁, entry :: entries = before ++ failing :: after ∧
          addEach env admin before h = .ok ((), h₁) ∧
          addToAllowlist env admin failing.address failing.jurisdiction failing.expiresAt h₁ = .error f) ∧
        (compliance Address).exec h (env, .addToAllowlistBatch admin (entry :: entries)) = h := by
  have heq : addToAllowlistBatch env admin (entry :: entries) h = addEach env admin (entry :: entries) h := by
    cases hcheck : (administered Address).requireAdmin env admin h with
    | error f =>
      -- the check fails for the batch and for the first single call
      rw [addToAllowlistBatch, Call.bind_eq_of_error hcheck, addEach, Call.forEach_cons]
      exact (Call.bind_eq_of_error (Call.bind_eq_of_error hcheck)).symm
    | ok r =>
      obtain ⟨hadmin, hauth, hr⟩ := Administered.requireAdmin_ok.1 hcheck
      cases hr
      rw [addToAllowlistBatch, Call.bind_eq_of_ok hcheck, addEach_eq hauth hadmin]
  refine ⟨heq, fun f hfault => ⟨Call.forEach_error.1 (heq.symm.trans hfault), System.exec_of_none ?_⟩⟩
  have hcall : call env (.addToAllowlistBatch admin (entry :: entries)) h = .error f := Call.bind_eq_of_error hfault
  exact Call.returned_eq_none.2 ⟨f, hcall⟩

end StellarRwa.Compliance

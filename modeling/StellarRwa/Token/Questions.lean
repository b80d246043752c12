import StellarRwa.Lib.Alike
import StellarRwa.Token.Spec

/-!
# What a token call asks

A token call depends on the other contracts through the questions it asks of compliance contracts, and nothing else.
`Op.questions` lists what a call made in a given storage may ask; at hosts where all these questions have the same
answer the call ends the same (`call_alike`).
-/

namespace StellarRwa.Token

open Lib

variable {Address X : Type} {R : X → X → Prop} {client : ComplianceClient Address X} {env : Env Address}
  {e₁ e₂ : List (Event Address)} {h h₁ h₂ : Contract Address X}

/-- The question `q`, a compliance contract and an address, has the same answer at related states; after a yes the
states are related again. -/
def Agrees (R : X → X → Prop) (client : ComplianceClient Address X) (env : Env Address) (q : Address × Address) :
    Prop :=
  ∀ x₁ x₂, R x₁ x₂ →
    (client env x₁ q.1 q.2 = none ∧ client env x₂ q.1 q.2 = none) ∨
      ∃ b y₁ y₂, client env x₁ q.1 q.2 = some (b, y₁) ∧ client env x₂ q.1 q.2 = some (b, y₂) ∧ (b = true → R y₁ y₂)

/-! ## Helpers -/

theorem requireCompliant_alike {compliance who : Address} {e : Error} (hq : Agrees R client env (compliance, who))
    (ht : Twins R e₁ e₂ h₁ h₂) : Alike R e₁ e₂ (requireCompliant client env compliance who e) h₁ h₂ := by
  have hrun : ∀ h : Contract Address X, requireCompliant client env compliance who e h =
      match client env h.outside compliance who with
      | none => .error .trap
      | some (b, x) => if b then .ok ((), { h with outside := x }) else .error (.error e) := by
    intro h
    cases hx : client env h.outside compliance who with
    | none => simp [requireCompliant, compliant, hx]
    | some p =>
      obtain ⟨b, x⟩ := p
      cases b <;> simp [requireCompliant, compliant, hx]
  unfold Alike
  rw [hrun, hrun]
  rcases hq _ _ ht.outside with ⟨hx₁, hx₂⟩ | ⟨b, y₁, y₂, hx₁, hx₂, hR⟩
  · rw [hx₁, hx₂]
    exact .faulted
  · rw [hx₁, hx₂]
    cases b with
    | false => exact .faulted
    | true => exact .returned ⟨ht.storage, hR rfl, ht.events⟩

theorem metadata_alike {α : Type} {k : AssetMetadata Address → M Address X α} (ht : Twins R e₁ e₂ h₁ h₂)
    (hk : ∀ md, h₁.storage.metadata = some md → Alike R e₁ e₂ (k md) h₁ h₂) :
    Alike R e₁ e₂ (metadata >>= k) h₁ h₂ :=
  .assoc <| .storage ht <| .unwrapOrElse hk

theorem setMetadata_alike {α : Type} {md : AssetMetadata Address} {next : Unit → M Address X α}
    (ht : Twins R e₁ e₂ h₁ h₂)
    (hk : ∀ h₁' h₂', Twins R e₁ e₂ h₁' h₂' → Alike R e₁ e₂ (next ()) h₁' h₂') :
    Alike R e₁ e₂ (setMetadata md >>= next) h₁ h₂ := .update ht hk

variable [DecidableEq Address]

theorem setBalance_alike {α : Type} {id : Address} {amount : I128} {next : Unit → M Address X α}
    (ht : Twins R e₁ e₂ h₁ h₂)
    (hk : ∀ h₁' h₂', Twins R e₁ e₂ h₁' h₂' → Alike R e₁ e₂ (next ()) h₁' h₂') :
    Alike R e₁ e₂ (setBalance id amount >>= next) h₁ h₂ := .update ht hk

theorem requireAdmin_alike {α : Type} {admin : Address} {k : AssetMetadata Address → M Address X α}
    (ht : Twins R e₁ e₂ h₁ h₂)
    (hk : ∀ md, h₁.storage.metadata = some md → md.admin = admin → Alike R e₁ e₂ (k md) h₁ h₂) :
    Alike R e₁ e₂ (requireAdmin env admin >>= k) h₁ h₂ := by
  refine .assoc <| metadata_alike ht fun md hmd => ?_
  refine .assoc <| .requireAuth <| .assoc <| .panicIf fun hadmin => .value ?_
  exact hk md hmd (not_not.1 hadmin)

/-! ## Moving balances -/

theorem sendTo_alike {md : AssetMetadata Address} {from_ to_ : Address} {amount : I128}
    (hq : Agrees R client env (md.complianceContract, to_)) (ht : Twins R e₁ e₂ h₁ h₂) :
    Alike R e₁ e₂ (sendTo client env md from_ to_ amount) h₁ h₂ := by
  refine .bind (requireCompliant_alike hq ht) fun _ _ _ ht => .storage ht <| .panicIf fun _ => .ite ?_ ?_
  · intro _
    exact .last <| .publish ht fun _ _ ht => .done ht
  · intro _
    refine .orTrap fun newFromBal _ => setBalance_alike ht fun _ _ ht => .unwrapOrElse fun newToBal _ => ?_
    exact setBalance_alike ht fun _ _ ht => .last <| .publish ht fun _ _ ht => .done ht

theorem mintTo_alike {md : AssetMetadata Address} {supply : I128} {to_ : Address} {amount : I128}
    (hq : Agrees R client env (md.complianceContract, to_)) (ht : Twins R e₁ e₂ h₁ h₂) :
    Alike R e₁ e₂ (mintTo client env md supply to_ amount) h₁ h₂ := by
  refine .bind (requireCompliant_alike hq ht) fun _ _ _ ht => .unwrapOrElse fun newSupply _ => ?_
  refine .storage ht <| .unwrapOrElse fun newToBal _ => setBalance_alike ht fun _ _ ht => .done ht

/-! ## All of them -/

/-- The addresses whose balances a call may move, each asked about when the token is not paused. -/
def Op.parties : Op Address → List Address
  | .transfer from_ to_ _ => [from_, to_]
  | .transferBatch from_ transfers => from_ :: transfers.map Prod.fst
  | .mint _ to_ _ => [to_]
  | .mintBatch _ recipients => recipients.map Prod.fst
  | .burn from_ _ => [from_]
  | .transferFrom _ from_ to_ _ => [from_, to_]
  | _ => []

/-- What a call made in storage `s` may ask, and of which compliance contract. -/
def Op.questions (op : Op Address) (s : State Address) : List (Address × Address) :=
  match s.metadata with
  | none =>
    match op with
    | .initializeToken admin _ _ _ _ _ complianceContract _ _ => [(complianceContract, admin)]
    | _ => []
  | some md =>
    match op with
    | .setCompliance admin compliance => if md.admin = admin then [(compliance, admin)] else []
    | _ => if md.paused = true then [] else op.parties.map fun a => (md.complianceContract, a)

omit [DecidableEq Address] in
theorem checkValuationChange_alike {oldValuation newValuation : I128} (ht : Twins R e₁ e₂ h₁ h₂) :
    Alike R e₁ e₂ (checkValuationChange oldValuation newValuation) h₁ h₂ := by
  refine .orTrap fun _ _ => .orTrap fun _ _ => .unwrapOrElse fun _ _ => .unwrapOrElse fun _ _ => ?_
  exact .last <| .panicIf fun _ => .done ht

omit [DecidableEq Address] in
/-- A call that rewrites the metadata and publishes one event. -/
theorem rewrite_alike {md : AssetMetadata Address} {e : Event Address} (ht : Twins R e₁ e₂ h₁ h₂) :
    Alike R e₁ e₂ (setMetadata md >>= fun _ => Call.publish e : M Address X Unit) h₁ h₂ :=
  setMetadata_alike ht fun _ _ ht => .last <| .publish ht fun _ _ ht => .done ht

/-- **A token call** at twins that answer its questions alike ends the same. -/
theorem call_alike {op : Op Address} (ht : Twins R e₁ e₂ h₁ h₂)
    (hq : ∀ q ∈ op.questions h₁.storage, Agrees R client env q) : Alike R e₁ e₂ (call client env op) h₁ h₂ := by
  -- at a token that is not paused, every party is asked about
  have hparty : ∀ md, h₁.storage.metadata = some md → ¬ md.paused = true → (∀ admin c, op ≠ .setCompliance admin c) →
      ∀ a ∈ op.parties, Agrees R client env (md.complianceContract, a) := by
    intro md hmd hpaused hop a ha
    refine hq _ ?_
    cases op <;> first | exact absurd rfl (hop _ _) | skip
    all_goals
      simp only [Op.questions, hmd, if_neg hpaused]
      exact List.mem_map.2 ⟨a, ha, rfl⟩
  cases op with
  | initializeToken admin _ _ _ _ _ complianceContract =>
    refine .storage ht <| .panicIf fun hnone => .requireAuth <| .panicIf fun _ => .panicIf fun _ => .panicIf fun _ =>
      .panicIf fun _ => .panicIf fun _ => ?_
    have hask : Agrees R client env (complianceContract, admin) := by
      refine hq _ ?_
      simp [Op.questions, not_not.1 hnone]
    refine .bind (requireCompliant_alike hask ht) fun _ _ _ ht => setMetadata_alike ht fun _ _ ht => ?_
    refine setBalance_alike ht fun _ _ ht => .publish ht fun _ _ ht => .last <| .publish ht fun _ _ ht => .done ht
  | transfer from_ to_ amount =>
    refine .requireAuth <| .panicIf fun _ => metadata_alike ht fun md hmd => .panicIf fun hpaused => ?_
    have hask := hparty md hmd hpaused (by simp)
    refine .bind (requireCompliant_alike (hask from_ (by simp [Op.parties])) ht) fun _ _ _ ht => ?_
    exact sendTo_alike (hask to_ (by simp [Op.parties])) ht
  | transferBatch from_ transfers =>
    refine .requireAuth <| metadata_alike ht fun md hmd => .panicIf fun hpaused => ?_
    have hask := hparty md hmd hpaused (by simp)
    refine .bind (requireCompliant_alike (hask from_ (by simp [Op.parties])) ht) fun _ _ _ ht => ?_
    refine .foldEach (fun p hp _ _ _ ht => .panicIf fun _ => ?_) ht
    exact sendTo_alike (hask p.1 (List.mem_cons_of_mem _ (List.mem_map_of_mem hp))) ht
  | mint admin to_ amount =>
    refine requireAdmin_alike ht fun md hmd _ => .panicIf fun _ => .panicIf fun hpaused => ?_
    have hask := hparty md hmd hpaused (by simp)
    exact .bind (mintTo_alike (hask to_ (by simp [Op.parties])) ht) fun _ _ _ ht => rewrite_alike ht
  | mintBatch admin recipients =>
    refine requireAdmin_alike ht fun md hmd _ => .panicIf fun hpaused => ?_
    have hask := hparty md hmd hpaused (by simp)
    refine .bind (.foldEach (fun p hp _ _ _ ht => .panicIf fun _ => ?_) ht) fun _ _ _ ht => ?_
    · refine .bind (mintTo_alike (hask p.1 (List.mem_map_of_mem hp)) ht) fun _ _ _ ht => ?_
      exact .publish ht fun _ _ ht => .done ht
    · exact .last <| setMetadata_alike ht fun _ _ ht => .done ht
  | burn from_ amount =>
    refine .requireAuth <| .panicIf fun _ => metadata_alike ht fun md hmd => .panicIf fun hpaused => ?_
    have hask := hparty md hmd hpaused (by simp)
    refine .bind (requireCompliant_alike (hask from_ (by simp [Op.parties])) ht) fun _ _ _ ht => ?_
    refine .storage ht <| .panicIf fun _ => .orTrap fun _ _ => setBalance_alike ht fun _ _ ht => ?_
    exact .unwrapOrElse fun _ _ => rewrite_alike ht
  | approve =>
    refine .requireAuth <| .panicIf fun _ => metadata_alike ht fun md hmd => .panicIf fun _ => .panicIf fun _ => ?_
    exact .update ht fun _ _ ht => .last <| .publish ht fun _ _ ht => .done ht
  | transferFrom spender from_ to_ amount =>
    refine .requireAuth <| .panicIf fun _ => metadata_alike ht fun md hmd => .panicIf fun hpaused => ?_
    have hask := hparty md hmd hpaused (by simp)
    refine .bind (requireCompliant_alike (hask from_ (by simp [Op.parties])) ht) fun _ _ _ ht => ?_
    refine .bind (requireCompliant_alike (hask to_ (by simp [Op.parties])) ht) fun _ _ _ ht => ?_
    refine .storage ht <| .panicIf fun _ => .panicIf fun _ => .orTrap fun _ _ => setBalance_alike ht fun _ _ ht => ?_
    refine .storage ht <| .unwrapOrElse fun _ _ => setBalance_alike ht fun _ _ ht => .orTrap fun _ _ => ?_
    exact .update ht fun _ _ ht => .last <| .publish ht fun _ _ ht => .done ht
  | pause caller =>
    exact .requireAuth <| metadata_alike ht fun _ _ => .panicIf fun _ => rewrite_alike ht
  | unpause admin => exact requireAdmin_alike ht fun _ _ _ => rewrite_alike ht
  | setGuardian admin guardian => exact requireAdmin_alike ht fun _ _ _ => rewrite_alike ht
  | updateValuation admin newValuation =>
    refine requireAdmin_alike ht fun _ _ _ => .panicIf fun _ => ?_
    exact .bind (.onlyIf ht (checkValuationChange_alike ht)) fun _ _ _ ht => rewrite_alike ht
  | setCompliance admin compliance =>
    refine requireAdmin_alike ht fun md hmd hadmin => ?_
    have hask : Agrees R client env (compliance, admin) := by
      refine hq _ ?_
      simp [Op.questions, hmd, hadmin]
    exact .bind (requireCompliant_alike hask ht) fun _ _ _ ht => rewrite_alike ht
  | proposeAdmin admin newAdmin => exact requireAdmin_alike ht fun _ _ _ => rewrite_alike ht
  | cancelAdminProposal admin => exact requireAdmin_alike ht fun _ _ _ => .panicIf fun _ => rewrite_alike ht
  | acceptAdmin newAdmin =>
    refine .requireAuth <| metadata_alike ht fun _ _ => .unwrapOrElse fun _ _ => .panicIf fun _ => rewrite_alike ht

/-! ## What refuses a call -/

section Refused

variable {f : Fault Error}

omit [DecidableEq Address] in
@[simp] theorem metadata_error :
    (metadata : M Address X _) h = .error f ↔ h.storage.metadata = none ∧ .error .notInitialized = f := by
  simp [metadata]

omit [DecidableEq Address] in
@[simp] theorem setMetadata_error {md : AssetMetadata Address} :
    ¬ (setMetadata md : M Address X Unit) h = .error f := Call.update_error

@[simp] theorem setBalance_error {id : Address} {amount : I128} :
    ¬ (setBalance id amount : M Address X Unit) h = .error f := Call.update_error

omit [DecidableEq Address] in
@[simp] theorem checkAmount_error {amount : I128} :
    (checkAmount amount : M Address X Unit) h = .error f ↔ amount.val ≤ 0 ∧ .error .invalidAmount = f := by
  simp [checkAmount, MInt.le_def]

omit [DecidableEq Address] in
@[simp] theorem checkStr_error {s : Bytes} {minLen maxLen : Nat} :
    (checkStr s minLen maxLen : M Address X Unit) h = .error f ↔
      (s.length < minLen ∨ maxLen < s.length) ∧ .error .invalidInput = f := by
  simp [checkStr]

omit [DecidableEq Address] in
@[simp] theorem requireCompliant_error {compliance who : Address} {e : Error} :
    requireCompliant client env compliance who e h = .error f ↔
      (client env h.outside compliance who = none ∧ .trap = f) ∨
        ∃ x, client env h.outside compliance who = some (false, x) ∧ .error e = f := by
  simp [requireCompliant, compliant]

/-- `burn` refuses its sender when the stored compliance contract says no. -/
theorem burn_refused {from_ : Address} {amount : I128} :
    burn client env from_ amount h = .error (.error .senderNotCompliant) ↔ env.authorized from_ = true ∧
      0 < amount.val ∧ ∃ md, h.storage.metadata = some md ∧ md.paused = false ∧
      ∃ x, client env h.outside md.complianceContract from_ = some (false, x) := by
  simp [burn]

theorem setCompliance_refused {admin compliance : Address} :
    setCompliance client env admin compliance h = .error (.error .invalidCompliance) ↔
      ∃ md, h.storage.metadata = some md ∧ env.authorized admin = true ∧ md.admin = admin ∧
      ∃ x, client env h.outside compliance admin = some (false, x) := by
  simp [setCompliance, requireAdmin]

theorem initializeToken_refused {admin : Address} {name symbol assetType : Bytes} {totalSupply : I128} {decimals : U32}
    {complianceContract : Address} {assetDescription : Bytes} {valuation : I128} :
    initializeToken client env admin name symbol assetType totalSupply decimals complianceContract assetDescription
        valuation h = .error (.error .recipientNotCompliant) ↔
      h.storage.metadata = none ∧ env.authorized admin = true ∧ (0 ≤ totalSupply.val ∧ 0 ≤ valuation.val) ∧
      (1 ≤ name.length ∧ name.length ≤ 64) ∧ (1 ≤ symbol.length ∧ symbol.length ≤ 16) ∧
      (1 ≤ assetType.length ∧ assetType.length ≤ 32) ∧
      (1 ≤ assetDescription.length ∧ assetDescription.length ≤ 256) ∧
      ∃ x, client env h.outside complianceContract admin = some (false, x) := by
  simp [initializeToken, MInt.lt_def]

end Refused

/-! ## Who can be asked about -/

/-- The call takes tokens from `a` by a transfer. -/
def Op.MovesOut (a : Address) : Op Address → Prop
  | .transfer from_ _ _ | .transferBatch from_ _ | .transferFrom _ from_ _ _ => from_ = a
  | _ => False

/-- The token is initialized under an admin other than `a`, and paused or not pointed at `c`. -/
def Unasked (s : State Address) (c a : Address) : Prop :=
  ∃ md, s.metadata = some md ∧ md.admin ≠ a ∧ (md.paused = true ∨ md.complianceContract ≠ c)

/-- No call asks `c` about an address that is out of its reach. -/
theorem Unasked.ne_of_mem {s : State Address} {c a : Address} (hu : Unasked s c a) {op : Op Address}
    {q : Address × Address} (hq : q ∈ op.questions s) : q ≠ (c, a) := by
  obtain ⟨md, hmd, hadmin, hgate⟩ := hu
  rintro rfl
  by_cases hset : ∃ admin compliance, op = .setCompliance admin compliance
  · obtain ⟨admin, compliance, rfl⟩ := hset
    simp only [Op.questions, hmd] at hq
    split at hq
    · rename_i heq
      obtain ⟨-, rfl⟩ := Prod.mk.inj (List.mem_singleton.1 hq)
      exact hadmin heq
    · cases hq
  · have hmem : (c, a) ∈ if md.paused = true then [] else op.parties.map fun a => (md.complianceContract, a) := by
      cases op <;> first | exact absurd ⟨_, _, rfl⟩ hset | simpa only [Op.questions, hmd] using hq
    split at hmem
    · cases hmem
    · rename_i hpaused
      obtain ⟨_, -, e⟩ := List.mem_map.1 hmem
      rcases hgate with hp | hc
      · exact hpaused hp
      · exact hc (Prod.mk.inj e).1

/-- In every other storage some call that takes nothing from `a` is refused exactly when `c` says no to `a`: a burn by
`a`, or, where `a` is or becomes the admin, `set_compliance` or `initialize`. -/
theorem exists_asking {s : State Address} {c a : Address} (hu : ¬ Unasked s c a) (n : U32) :
    ∃ (op : Op Address) (f : Fault Error), ¬ op.MovesOut a ∧
      ∀ (client : ComplianceClient Address X) (h : Contract Address X), h.storage = s →
        (call client (Env.signed n) op h = .error f ↔ ∃ x, client (Env.signed n) h.outside c a = some (false, x)) := by
  cases hmd : s.metadata with
  | none =>
    refine ⟨.initializeToken a [65] [65] [65] 0 0 c [65] 0, .error .recipientNotCompliant, not_false,
      fun client h hs => ?_⟩
    refine initializeToken_refused.trans ?_
    simp [hs, hmd, Env.signed]
  | some md =>
    by_cases hadmin : md.admin = a
    · refine ⟨.setCompliance a c, .error .invalidCompliance, not_false, fun client h hs => ?_⟩
      refine setCompliance_refused.trans ?_
      simp [hs, hmd, Env.signed, hadmin]
    · have hpaused : md.paused = false := Bool.not_eq_true _ ▸ fun hp => hu ⟨md, hmd, hadmin, .inl hp⟩
      have hc : md.complianceContract = c := by_contra fun hc => hu ⟨md, hmd, hadmin, .inr hc⟩
      refine ⟨.burn a 1, .error .senderNotCompliant, not_false, fun client h hs => ?_⟩
      refine burn_refused.trans ?_
      simp [hs, hmd, Env.signed, hpaused, hc]

end StellarRwa.Token

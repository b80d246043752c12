import StellarRwa.Lib.Blind
import StellarRwa.Lib.Lapsing
import StellarRwa.Lib.Refinement
import StellarRwa.Lockup

/-!
# Allowances in temporary storage

The token keeps its allowances in temporary storage, where entries lapse; `approve` prolongs an entry up to its
expiration ledger and `transfer_from` writes it back without prolonging it. Here the token is modelled with such a
storage, whose operations are a parameter, and shown to do what the token of `Token.Model` does, where nothing lapses:
no allowance is lost early and none outlives its expiration (`temporary_refines`). One call ends otherwise: an approval
of a positive amount traps when the host does not prolong its entry that far (`Refused`). The other entry points do not
look at the allowances (`call_blind`), so they are taken over.
-/

namespace StellarRwa.Token.Temporary

open Lib

variable {Address X T : Type}

/-! ## Calls that do not look at the allowances -/

section Blind

/-- Other allowances. -/
def withAllowance (A : Storage (Address × Address) AllowanceValue) (s : State Address) : State Address :=
  { s with allowance := A }

variable {A : Storage (Address × Address) AllowanceValue} {client : ComplianceClient Address X} {env : Env Address}

theorem metadata_blind : Blind (withAllowance A) (metadata : M Address X _) :=
  .storage (fun _ => rfl) fun _ => .unwrapOrElse

theorem setMetadata_blind {md : AssetMetadata Address} : Blind (withAllowance A) (setMetadata md : M Address X Unit) :=
  .update fun _ => rfl

theorem checkAmount_blind {amount : I128} : Blind (withAllowance A) (checkAmount amount : M Address X Unit) := .panicIf

theorem checkStr_blind {s : Bytes} {minLen maxLen : Nat} :
    Blind (withAllowance A) (checkStr s minLen maxLen : M Address X Unit) := .panicIf

theorem requireCompliant_blind {compliance who : Address} {e : Error} :
    Blind (withAllowance A) (requireCompliant client env compliance who e) :=
  .bind .invoke fun _ => .panicIf

variable [DecidableEq Address]

theorem setBalance_blind {id : Address} {amount : I128} :
    Blind (withAllowance A) (setBalance id amount : M Address X Unit) := .update fun _ => rfl

theorem requireAdmin_blind {admin : Address} : Blind (withAllowance A) (requireAdmin env admin : M Address X _) :=
  .bind metadata_blind fun _ => .bind .requireAuth fun _ => .bind .panicIf fun _ => .pure

theorem sendTo_blind {md : AssetMetadata Address} {from_ to_ : Address} {amount : I128} :
    Blind (withAllowance A) (sendTo client env md from_ to_ amount) := by
  refine .bind requireCompliant_blind fun _ => .storage (fun _ => rfl) fun s => ?_
  refine .bind .panicIf fun _ => .ite .publish ?_
  refine .bind .orTrap fun _ => .bind setBalance_blind fun _ => ?_
  exact .bind .unwrapOrElse fun _ => .bind setBalance_blind fun _ => .publish

theorem mintTo_blind {md : AssetMetadata Address} {supply : I128} {to_ : Address} {amount : I128} :
    Blind (withAllowance A) (mintTo client env md supply to_ amount) := by
  refine .bind requireCompliant_blind fun _ => .bind .unwrapOrElse fun _ => .storage (fun _ => rfl) fun s => ?_
  exact .bind .unwrapOrElse fun _ => .bind setBalance_blind fun _ => .pure

/-- The entry points that touch the allowances. -/
def touchesAllowance : Op Address → Bool
  | .approve .. | .transferFrom .. => true
  | _ => false

/-- No other call looks at the allowances. -/
theorem call_blind {op : Op Address} (hop : touchesAllowance op = false) :
    Blind (withAllowance A) (call client env op) := by
  cases op with
  | initializeToken =>
    refine .storage (fun _ => rfl) fun s => .bind .panicIf fun _ => .bind .requireAuth fun _ => ?_
    refine .bind .panicIf fun _ => .bind checkStr_blind fun _ => .bind checkStr_blind fun _ => ?_
    refine .bind checkStr_blind fun _ => .bind checkStr_blind fun _ => .bind requireCompliant_blind fun _ => ?_
    exact .bind setMetadata_blind fun _ => .bind setBalance_blind fun _ => .bind .publish fun _ => .publish
  | transfer =>
    refine .bind .requireAuth fun _ => .bind checkAmount_blind fun _ => .bind metadata_blind fun md => ?_
    exact .bind .panicIf fun _ => .bind requireCompliant_blind fun _ => sendTo_blind
  | transferBatch =>
    refine .bind .requireAuth fun _ => .bind metadata_blind fun md => .bind .panicIf fun _ => ?_
    refine .bind requireCompliant_blind fun _ => .foldEach fun _ p => ?_
    exact .bind checkAmount_blind fun _ => sendTo_blind
  | mint =>
    refine .bind requireAdmin_blind fun md => .bind checkAmount_blind fun _ => .bind .panicIf fun _ => ?_
    exact .bind mintTo_blind fun _ => .bind setMetadata_blind fun _ => .publish
  | mintBatch =>
    refine .bind requireAdmin_blind fun md => .bind .panicIf fun _ => ?_
    refine .bind (.foldEach fun _ p => ?_) fun _ => setMetadata_blind
    exact .bind checkAmount_blind fun _ => .bind mintTo_blind fun _ => .bind .publish fun _ => .pure
  | burn =>
    refine .bind .requireAuth fun _ => .bind checkAmount_blind fun _ => .bind metadata_blind fun md => ?_
    refine .bind .panicIf fun _ => .bind requireCompliant_blind fun _ => .storage (fun _ => rfl) fun s => ?_
    refine .bind .panicIf fun _ => .bind .orTrap fun _ => .bind setBalance_blind fun _ => ?_
    exact .bind .unwrapOrElse fun _ => .bind setMetadata_blind fun _ => .publish
  | approve => cases hop
  | transferFrom => cases hop
  | pause =>
    refine .bind .requireAuth fun _ => .bind metadata_blind fun md => ?_
    exact .bind .panicIf fun _ => .bind setMetadata_blind fun _ => .publish
  | updateValuation =>
    refine .bind requireAdmin_blind fun md => .bind .panicIf fun _ => .bind (.onlyIf ?_) fun _ => ?_
    · refine .bind .orTrap fun _ => .bind .orTrap fun _ => ?_
      exact .bind .unwrapOrElse fun _ => .bind .unwrapOrElse fun _ => .panicIf
    · exact .bind setMetadata_blind fun _ => .publish
  | setCompliance =>
    refine .bind requireAdmin_blind fun md => .bind requireCompliant_blind fun _ => ?_
    exact .bind setMetadata_blind fun _ => .publish
  | cancelAdminProposal =>
    refine .bind requireAdmin_blind fun md => .bind .panicIf fun _ => ?_
    exact .bind setMetadata_blind fun _ => .publish
  | acceptAdmin =>
    refine .bind .requireAuth fun _ => .bind metadata_blind fun md => .bind .unwrapOrElse fun _ => ?_
    exact .bind .panicIf fun _ => .bind setMetadata_blind fun _ => .publish
  | unpause => exact .bind requireAdmin_blind fun md => .bind setMetadata_blind fun _ => .publish
  | setGuardian => exact .bind requireAdmin_blind fun md => .bind setMetadata_blind fun _ => .publish
  | proposeAdmin => exact .bind requireAdmin_blind fun md => .bind setMetadata_blind fun _ => .publish

end Blind

/-! ## The token over temporary storage -/

/-- The storage, with the allowances in temporary storage. -/
structure TokenState (Address T : Type) where
  metadata : Option (AssetMetadata Address)
  balance : Book Address
  allowance : T

abbrev TokenM (Address X T α : Type) := Call (TokenState Address T) X (Event Address) Error α

abbrev TokenHost (Address X T : Type) := Host (TokenState Address T) X (Event Address)

/-- The same contract with the allowances `A`, which do not lapse. -/
def plain (A : Storage (Address × Address) AllowanceValue) (c : TokenHost Address X T) : Contract Address X :=
  ⟨⟨c.storage.metadata, c.storage.balance, A⟩, c.outside, c.events⟩

/-- The contract after a call that does not touch the allowances. -/
def backed (t : T) (h : Contract Address X) : TokenHost Address X T :=
  ⟨⟨h.storage.metadata, h.storage.balance, t⟩, h.outside, h.events⟩

/-- What does not touch the allowances, as it is. -/
def asIs {α : Type} (x : M Address X α) : TokenM Address X T α := fun c =>
  (x (plain ∅ c)).map fun r => (r.1, backed c.storage.allowance r.2)

theorem asIs_ok {α : Type} {x : M Address X α} {c : TokenHost Address X T} {r : α × TokenHost Address X T} :
    (asIs x : TokenM Address X T α) c = .ok r ↔
      ∃ a h, x (plain ∅ c) = .ok (a, h) ∧ (a, backed c.storage.allowance h) = r := by
  unfold asIs
  cases x (plain ∅ c) with
  | error f => simp [Except.map]
  | ok r' =>
    obtain ⟨a, h⟩ := r'
    simp [Except.map]

variable (L : Lapsing T (Address × Address) AllowanceValue)

/-- `extend_ttl(&key, live_for, live_for)`. -/
def prolong (env : Env Address) (key : Address × Address) (liveFor : U32) : TokenM Address X T Unit := do
  let s ← Call.storage
  let allowance ← Call.orTrap (L.extendTtl s.allowance env.sequence key liveFor liveFor)
  Call.update fun s => { s with allowance }

def approve (env : Env Address) (from_ spender : Address) (amount : I128) (expirationLedger : U32) :
    TokenM Address X T Unit := do
  Call.requireAuth env from_
  Call.panicIf (amount < 0) .invalidAmount
  let md ← asIs metadata
  Call.panicIf (md.paused = true) .paused
  Call.panicIf (0 < amount ∧ expirationLedger < env.sequence) .invalidInput
  Call.update fun s =>
    { s with allowance := L.set s.allowance env.sequence (from_, spender) ⟨amount, expirationLedger⟩ }
  Call.onlyIf (0 < amount) (prolong L env (from_, spender) (expirationLedger.saturatingSub env.sequence))
  Call.publish (.approve from_ spender amount expirationLedger)

def allowance (env : Env Address) (s : TokenState Address T) (from_ spender : Address) : I128 :=
  match L.get s.allowance env.sequence (from_, spender) with
  | some v => if env.sequence ≤ v.expirationLedger then v.amount else 0
  | none => 0

/-- The stored allowance, nothing when it is absent or has lapsed. -/
def current (s : TokenState Address T) (n : U32) (from_ spender : Address) : AllowanceValue :=
  (L.get s.allowance n (from_, spender)).getD ⟨0, 0⟩

variable [DecidableEq Address] (client : ComplianceClient Address X)

def transferFrom (env : Env Address) (spender from_ to_ : Address) (amount : I128) : TokenM Address X T Unit := do
  Call.requireAuth env spender
  asIs (checkAmount amount)
  let md ← asIs metadata
  Call.panicIf (md.paused = true) .paused
  asIs (requireCompliant client env md.complianceContract from_ .senderNotCompliant)
  asIs (requireCompliant client env md.complianceContract to_ .recipientNotCompliant)
  let s ← Call.storage
  let current := current L s env.sequence from_ spender
  Call.panicIf (current.expirationLedger < env.sequence ∨ current.amount < amount) .insufficientAllowance
  let fromBal := Book.balance s.balance from_
  Call.panicIf (fromBal < amount) .insufficientBalance
  let newFromBal ← Call.orTrap (fromBal.checkedSub amount)
  asIs (setBalance from_ newFromBal)
  let s ← Call.storage
  let newToBal ← Call.unwrapOrElse ((Book.balance s.balance to_).checkedAdd amount) .overflow
  asIs (setBalance to_ newToBal)
  let left ← Call.orTrap (current.amount.checkedSub amount)
  Call.update fun s =>
    { s with allowance := L.set s.allowance env.sequence (from_, spender) ⟨left, current.expirationLedger⟩ }
  Call.publish (.transfer from_ to_ amount newFromBal newToBal)

def callTemporary (env : Env Address) (op : Op Address) : TokenM Address X T Unit :=
  match op with
  | .approve from_ spender amount expirationLedger => approve L env from_ spender amount expirationLedger
  | .transferFrom spender from_ to_ amount => transferFrom L client env spender from_ to_ amount
  | op => asIs (call client env op)

/-- A deployed token and the ledger of its last call. -/
structure Deployed (Address X T : Type) where
  host : TokenHost Address X T
  now : U32

def Deployed.fresh (Address : Type) (L : Lapsing T (Address × Address) AllowanceValue) (x : X) :
    Deployed Address X T := ⟨⟨⟨none, ∅, L.empty⟩, x, []⟩, 0⟩

/-- The token as a system of calls at ledgers that do not go back. -/
def temporaryToken : System (Deployed Address X T) (Label Address X) Unit where
  step c
    | .call env op =>
      if c.now ≤ env.sequence then
        ((callTemporary L client env op).returned c.host).map fun r => (r.1, ⟨r.2, env.sequence⟩)
      else none
    | .others x => some ((), { c with host := { c.host with outside := x } })

/-! ## What the calls do -/

section Specs

variable {L} {client} {env : Env Address} {c : TokenHost Address X T} {r : Unit × TokenHost Address X T}

omit [DecidableEq Address] in
theorem approve_temporary {from_ spender : Address} {amount : I128} {expirationLedger : U32} :
    approve L env from_ spender amount expirationLedger c = .ok r ↔ env.authorized from_ = true ∧ 0 ≤ amount.val ∧
      ∃ md, c.storage.metadata = some md ∧ md.paused = false ∧
      (0 < amount.val → env.sequence.val ≤ expirationLedger.val) ∧
      ∃ t, (0 < amount.val ∧
            L.extendTtl (L.set c.storage.allowance env.sequence (from_, spender) ⟨amount, expirationLedger⟩)
              env.sequence (from_, spender) (expirationLedger.saturatingSub env.sequence)
              (expirationLedger.saturatingSub env.sequence) = some t ∨
          ¬ 0 < amount.val ∧
            L.set c.storage.allowance env.sequence (from_, spender) ⟨amount, expirationLedger⟩ = t) ∧
        ((), { c with
          storage := { c.storage with allowance := t }
          events := c.events ++ [.approve from_ spender amount expirationLedger] }) = r := by
  simp [approve, prolong, asIs_ok, backed, plain, MInt.lt_def, or_and_right, exists_or]

theorem transferFrom_temporary {spender from_ to_ : Address} {amount : I128} :
    transferFrom L client env spender from_ to_ amount c = .ok r ↔ env.authorized spender = true ∧ 0 < amount.val ∧
      ∃ md, c.storage.metadata = some md ∧ md.paused = false ∧
      ∃ x, client env c.outside md.complianceContract from_ = some (true, x) ∧
      ∃ y, client env x md.complianceContract to_ = some (true, y) ∧
      (env.sequence.val ≤ (current L c.storage env.sequence from_ spender).expirationLedger.val ∧
        amount.val ≤ (current L c.storage env.sequence from_ spender).amount.val) ∧
      amount.val ≤ (Book.balance c.storage.balance from_).val ∧
      ∃ newFromBal newToBal left : I128, newFromBal.val = (Book.balance c.storage.balance from_).val - amount.val ∧
        newToBal.val = (Book.balance (c.storage.balance.set from_ newFromBal) to_).val + amount.val ∧
        left.val = (current L c.storage env.sequence from_ spender).amount.val - amount.val ∧
        ((), { storage :=
                { c.storage with
                  balance := (c.storage.balance.set from_ newFromBal).set to_ newToBal
                  allowance := L.set c.storage.allowance env.sequence (from_, spender)
                    ⟨left, (current L c.storage env.sequence from_ spender).expirationLedger⟩ }
               outside := y
               events := c.events ++ [.transfer from_ to_ amount newFromBal newToBal] }) = r := by
  simp [transferFrom, asIs_ok, backed, plain, MInt.lt_def, current]

end Specs

/-! ## Nothing is lost early -/

/-- An allowance that can still be spent at ledger `n`. -/
def Due (v : AllowanceValue) (n : U32) : Prop := 0 < v.amount.val ∧ n.val ≤ v.expirationLedger.val

/-- `h` is the same contract with allowances that do not lapse, and from ledger `n` on temporary storage keeps them. -/
structure Shadows (L : Lapsing T (Address × Address) AllowanceValue) (n : U32) (c : TokenHost Address X T)
    (h : Contract Address X) : Prop where
  same : plain h.storage.allowance c = h
  keeps : L.Keeps Due c.storage.allowance n h.storage.allowance
  nonneg : ∀ k v, h.storage.allowance.get k = some v → 0 ≤ v.amount.val

/-- The call is an approval of a positive amount, and the host does not prolong its entry until the expiration
ledger. -/
def Refused (L : Lapsing T (Address × Address) AllowanceValue) (env : Env Address) (c : TokenHost Address X T) :
    Op Address → Prop
  | .approve from_ spender amount expirationLedger =>
    0 < amount.val ∧
      L.extendTtl (L.set c.storage.allowance env.sequence (from_, spender) ⟨amount, expirationLedger⟩) env.sequence
        (from_, spender) (expirationLedger.saturatingSub env.sequence)
        (expirationLedger.saturatingSub env.sequence) = none
  | _ => False

section Steps

variable {L} {client} {env : Env Address} {n : U32} {c c' : TokenHost Address X T} {h h' : Contract Address X}
  {A : Storage (Address × Address) AllowanceValue} {u : Unit}

theorem Shadows.later (hs : Shadows L n c h) {m : U32} (hle : n ≤ m) : Shadows L m c h :=
  ⟨hs.same, hs.keeps.later hle, hs.nonneg⟩

/-- The views agree at every ledger from now on. -/
theorem Shadows.allowance_eq (hs : Shadows L n c h) (hle : n ≤ env.sequence) (a b : Address) :
    allowance L env c.storage a b = Token.allowance env h.storage a b := by
  unfold allowance Token.allowance
  cases hget : L.get c.storage.allowance env.sequence (a, b) with
  | some v => rw [hs.keeps.sound _ _ _ hle hget]
  | none =>
    cases hstored : h.storage.allowance.get (a, b) with
    | none => rfl
    | some v =>
      -- what has lapsed could not be spent any more
      have hnot : ¬ Due v env.sequence := by
        intro hdue
        cases hget.symm.trans (hs.keeps.due _ _ _ hle hstored hdue)
      have hnonneg := hs.nonneg _ _ hstored
      show 0 = if env.sequence ≤ v.expirationLedger then v.amount else 0
      split
      · rename_i hlive
        have hzero : v.amount.val = 0 := by
          by_contra hne
          exact hnot ⟨by omega, hlive⟩
        exact (MInt.eq_zero_iff.2 hzero).symm
      · rfl

/-- What can be spent of the stored allowance is there. -/
theorem Shadows.current_eq (hs : Shadows L n c h) (hle : n ≤ env.sequence) {a b : Address} {k : Int} (hk : 0 < k)
    (hcovered : env.sequence.val ≤ (currentAllowance h.storage a b).expirationLedger.val ∧
      k ≤ (currentAllowance h.storage a b).amount.val) :
    current L c.storage env.sequence a b = currentAllowance h.storage a b := by
  unfold current currentAllowance at *
  cases hstored : h.storage.allowance.get (a, b) with
  | none =>
    rw [hstored] at hcovered
    exact absurd hcovered.2 (not_le.2 hk)
  | some v =>
    rw [hstored] at hcovered
    have hdue : Due v env.sequence := ⟨lt_of_lt_of_le hk hcovered.2, hcovered.1⟩
    rw [hs.keeps.due _ _ _ hle hstored hdue]

/-- And what is there is stored. -/
theorem Shadows.currentAllowance_eq (hs : Shadows L n c h) (hle : n ≤ env.sequence) {a b : Address} {k : Int}
    (hk : 0 < k) (hcovered : k ≤ (current L c.storage env.sequence a b).amount.val) :
    currentAllowance h.storage a b = current L c.storage env.sequence a b := by
  unfold current currentAllowance at *
  cases hget : L.get c.storage.allowance env.sequence (a, b) with
  | none =>
    rw [hget] at hcovered
    exact absurd hcovered (not_le.2 hk)
  | some v => rw [hs.keeps.sound _ _ _ hle hget]

/-- A call that does not look at the allowances. -/
theorem Shadows.asIs {x : M Address X Unit} (hs : Shadows L n c h)
    (hx : Blind (withAllowance h.storage.allowance) x) :
    (∀ c', (asIs x : TokenM Address X T Unit) c = .ok (u, c') → ∃ h', x h = .ok (u, h') ∧ Shadows L n c' h') ∧
      ∀ h', x h = .ok (u, h') → ∃ c', (asIs x : TokenM Address X T Unit) c = .ok (u, c') := by
  have hchanged : x h = changedEnd (withAllowance h.storage.allowance) (x (plain ∅ c)) := by
    rw [← hx (plain ∅ c)]
    exact congrArg x hs.same.symm
  constructor
  · intro c' hrun
    obtain ⟨a, h₀, h₀run, hr⟩ := asIs_ok.1 hrun
    cases hr
    rw [h₀run] at hchanged
    exact ⟨_, hchanged, rfl, hs.keeps, hs.nonneg⟩
  · intro h' hrun
    rw [hrun] at hchanged
    cases h₀run : x (plain ∅ c) with
    | error f =>
      rw [h₀run] at hchanged
      cases hchanged
    | ok r =>
      rw [h₀run] at hchanged
      cases hchanged
      exact ⟨_, asIs_ok.2 ⟨_, _, h₀run, rfl⟩⟩

/-- An approval prolongs its entry up to the expiration ledger. -/
theorem Shadows.approve (hL : L.Lawful) (hs : Shadows L n c h) (hle : n ≤ env.sequence) {from_ spender : Address}
    {amount : I128} {expirationLedger : U32}
    (hrun : approve L env from_ spender amount expirationLedger c = .ok (u, c')) :
    ∃ h', Token.approve env from_ spender amount expirationLedger h = .ok (u, h') ∧
      Shadows L env.sequence c' h' := by
  obtain ⟨A, rfl⟩ : ∃ A, h = plain A c := ⟨_, hs.same.symm⟩
  obtain ⟨hsigned, hamount, md, hmd, hactive, hlive, t, hprolonged, hr⟩ := approve_temporary.1 hrun
  cases hr
  refine ⟨_, approve_ok.2 ⟨hsigned, hamount, md, hmd, hactive, hlive, rfl⟩, rfl, ?_, ?_⟩
  · have hkeeps := hs.keeps.later hle
    rcases hprolonged with ⟨hpos, hextend⟩ | ⟨hzero, rfl⟩
    · apply hkeeps.extended hL hextend
      intro m hdue
      have hm : m.val ≤ expirationLedger.val := hdue.2
      have hexpires := hlive hpos
      have hhi := expirationLedger.le_hi
      have hlo := env.sequence.lo_le
      rw [MInt.val_saturatingSub]
      omega
    · apply hkeeps.set hL
      intro m _ hdue
      exact absurd hdue.1 hzero
  · intro k v hv
    replace hv := (Storage.get_set _ _ _ _).symm.trans hv
    split at hv
    · cases hv
      exact hamount
    · exact hs.nonneg k v hv

theorem Shadows.approve_answered (hs : Shadows L n c h) {from_ spender : Address} {amount : I128}
    {expirationLedger : U32} (hrun : Token.approve env from_ spender amount expirationLedger h = .ok (u, h'))
    (hnot : ¬ Refused L env c (.approve from_ spender amount expirationLedger)) :
    ∃ c', Temporary.approve L env from_ spender amount expirationLedger c = .ok (u, c') := by
  obtain ⟨A, rfl⟩ : ∃ A, h = plain A c := ⟨_, hs.same.symm⟩
  obtain ⟨hsigned, hamount, md, hmd, hactive, hlive, -⟩ := approve_ok.1 hrun
  by_cases hpos : 0 < amount.val
  · obtain ⟨t, ht⟩ := Option.ne_none_iff_exists'.1 fun hnone => hnot ⟨hpos, hnone⟩
    exact ⟨_, approve_temporary.2 ⟨hsigned, hamount, md, hmd, hactive, hlive, t, .inl ⟨hpos, ht⟩, rfl⟩⟩
  · exact ⟨_, approve_temporary.2 ⟨hsigned, hamount, md, hmd, hactive, hlive, _, .inr ⟨hpos, rfl⟩, rfl⟩⟩

/-- Spending writes the entry back with the time that it has. -/
theorem Shadows.transferFrom (hL : L.Lawful) (hs : Shadows L n c h) (hle : n ≤ env.sequence)
    {spender from_ to_ : Address} {amount : I128}
    (hrun : transferFrom L client env spender from_ to_ amount c = .ok (u, c')) :
    ∃ h', Token.transferFrom client env spender from_ to_ amount h = .ok (u, h') ∧
      Shadows L env.sequence c' h' := by
  obtain ⟨A, rfl⟩ : ∃ A, h = plain A c := ⟨_, hs.same.symm⟩
  obtain ⟨hsigned, hamount, md, hmd, hactive, x, hx, y, hy, hcovered, hfunds, newFromBal, newToBal, left, hfrom, hto,
    hleft, hr⟩ := transferFrom_temporary.1 hrun
  have hsame := hs.currentAllowance_eq hle hamount hcovered.2
  cases hr
  rw [← hsame] at hcovered hleft ⊢
  refine ⟨_, transferFrom_ok.2 ⟨hsigned, hamount, md, hmd, hactive, x, hx, y, hy, hcovered, hfunds, newFromBal,
    newToBal, left, hfrom, hto, hleft, rfl⟩, rfl, ?_, ?_⟩
  · apply (hs.keeps.later hle).set hL
    intro m hm hdue
    -- what is left is due no longer than what was there
    have hstored : A.get (from_, spender) = some (currentAllowance (plain A c).storage from_ spender) := by
      unfold currentAllowance at hcovered ⊢
      cases hget : (plain A c).storage.allowance.get (from_, spender) with
      | none =>
        rw [hget] at hcovered
        exact absurd hcovered.2 (not_le.2 hamount)
      | some v => exact hget
    refine ⟨_, hs.keeps.due m _ _ (le_trans (MInt.le_def.1 hle) (MInt.le_def.1 hm)) hstored ⟨?_, hdue.2⟩⟩
    exact lt_of_lt_of_le hamount hcovered.2
  · intro k v hv
    replace hv := (Storage.get_set _ _ _ _).symm.trans hv
    split at hv
    · cases hv
      show 0 ≤ left.val
      omega
    · exact hs.nonneg k v hv

theorem Shadows.transferFrom_answered (hs : Shadows L n c h) (hle : n ≤ env.sequence) {spender from_ to_ : Address}
    {amount : I128} (hrun : Token.transferFrom client env spender from_ to_ amount h = .ok (u, h')) :
    ∃ c', Temporary.transferFrom L client env spender from_ to_ amount c = .ok (u, c') := by
  obtain ⟨A, rfl⟩ : ∃ A, h = plain A c := ⟨_, hs.same.symm⟩
  obtain ⟨hsigned, hamount, md, hmd, hactive, x, hx, y, hy, hcovered, hfunds, newFromBal, newToBal, left, hfrom, hto,
    hleft, -⟩ := transferFrom_ok.1 hrun
  have hsame := hs.current_eq hle hamount hcovered
  rw [← hsame] at hcovered hleft
  exact ⟨_, transferFrom_temporary.2 ⟨hsigned, hamount, md, hmd, hactive, x, hx, y, hy, hcovered, hfunds, newFromBal,
    newToBal, left, hfrom, hto, hleft, rfl⟩⟩

/-- **One call**: what the token answers over temporary storage it answers as it is. -/
theorem Shadows.call (hL : L.Lawful) (hs : Shadows L n c h) (hle : n ≤ env.sequence) {op : Op Address}
    (hrun : callTemporary L client env op c = .ok (u, c')) :
    ∃ h', Token.call client env op h = .ok (u, h') ∧ Shadows L env.sequence c' h' := by
  cases hop : touchesAllowance op with
  | true =>
    cases op <;> first | cases hop; done | skip
    case approve => exact hs.approve hL hle hrun
    case transferFrom => exact hs.transferFrom hL hle hrun
  | false =>
    have hblind : Blind (withAllowance h.storage.allowance) (Token.call client env op) := call_blind hop
    cases op <;> first | cases hop; done | skip
    all_goals
      obtain ⟨h', hrun', hs'⟩ := (hs.asIs hblind).1 c' hrun
      exact ⟨h', hrun', hs'.later hle⟩

/-- And the other way round, unless the host does not let an approval live so long. -/
theorem Shadows.call_answered (hs : Shadows L n c h) (hle : n ≤ env.sequence) {op : Op Address}
    (hrun : Token.call client env op h = .ok (u, h')) (hnot : ¬ Refused L env c op) :
    ∃ c', callTemporary L client env op c = .ok (u, c') := by
  cases hop : touchesAllowance op with
  | true =>
    cases op <;> first | cases hop; done | skip
    case approve => exact hs.approve_answered hrun hnot
    case transferFrom => exact hs.transferFrom_answered hle hrun
  | false =>
    have hblind : Blind (withAllowance h.storage.allowance) (Token.call client env op) := call_blind hop
    cases op <;> first | cases hop; done | skip
    all_goals exact (hs.asIs hblind).2 h' hrun

end Steps

/-! ## Runs -/

section Runs

variable {L} {client} {c : Deployed Address X T} {h : Contract Address X}

/-- The two tokens: the same metadata, balances, answers of other contracts and events, allowances that are the same at
every ledger from now on, and the same calls that are answered, but for approvals that the host refuses to keep. -/
structure Equivalent (L : Lapsing T (Address × Address) AllowanceValue) (client : ComplianceClient Address X)
    (c : Deployed Address X T) (h : Contract Address X) : Prop where
  metadata : c.host.storage.metadata = h.storage.metadata
  balance : c.host.storage.balance = h.storage.balance
  outside : c.host.outside = h.outside
  events : c.host.events = h.events
  allowance : ∀ (env : Env Address) (a b : Address), c.now ≤ env.sequence →
    allowance L env c.host.storage a b = Token.allowance env h.storage a b
  answered : ∀ (env : Env Address) (op : Op Address), c.now ≤ env.sequence →
    ((∃ c', callTemporary L client env op c.host = .ok ((), c')) ↔
      (∃ h', Token.call client env op h = .ok ((), h')) ∧ ¬ Refused L env c.host op)

/-- What the host refuses is not answered. -/
theorem not_refused {env : Env Address} {op : Op Address} {host host' : TokenHost Address X T}
    (hrun : callTemporary L client env op host = .ok ((), host')) : ¬ Refused L env host op := by
  intro hrefused
  cases op <;> first | exact hrefused | skip
  case approve =>
    obtain ⟨-, -, md, -, -, -, t, ⟨-, hextend⟩ | ⟨hzero, -⟩, -⟩ := approve_temporary.1 hrun
    · cases hextend.symm.trans hrefused.2
    · exact hzero hrefused.1

theorem Shadows.equivalent (hL : L.Lawful) (hs : Shadows L c.now c.host h) : Equivalent L client c h where
  metadata := congrArg (fun h : Contract Address X => h.storage.metadata) hs.same
  balance := congrArg (fun h : Contract Address X => h.storage.balance) hs.same
  outside := congrArg (fun h : Contract Address X => h.outside) hs.same
  events := congrArg (fun h : Contract Address X => h.events) hs.same
  allowance env a b hle := hs.allowance_eq hle a b
  answered env op hle := by
    constructor
    · rintro ⟨c', hrun⟩
      obtain ⟨h', hrun', -⟩ := hs.call hL hle hrun
      exact ⟨⟨h', hrun'⟩, not_refused hrun⟩
    · rintro ⟨⟨h', hrun⟩, hnot⟩
      exact hs.call_answered hle hrun hnot

theorem Shadows.step (hL : L.Lawful) (hs : Shadows L c.now c.host h) {l : Label Address X} {u : Unit}
    {c' : Deployed Address X T} (hstep : (temporaryToken L client).step c l = some (u, c')) :
    ∃ u' h', (Token.token client).step h l = some (u', h') ∧ Shadows L c'.now c'.host h' := by
  cases l with
  | call env op =>
    simp only [temporaryToken] at hstep
    split at hstep
    · rename_i hle
      obtain ⟨⟨u₁, host⟩, hrun, hr⟩ := Option.map_eq_some_iff.1 hstep
      cases hr
      obtain ⟨h', hrun', hs'⟩ := hs.call hL hle (Call.returned_eq_some.1 hrun)
      exact ⟨_, h', Call.returned_eq_some.2 hrun', hs'⟩
    · cases hstep
  | others x =>
    cases hstep
    refine ⟨(), { h with outside := x }, rfl, ?_, hs.keeps, hs.nonneg⟩
    exact congrArg (fun h : Contract Address X => { h with outside := x }) hs.same

/-- **Temporary storage loses no allowance.** Over any storage whose entries lapse as the host promises, after every run
the token is `Equivalent` to the token whose allowances never lapse, after the calls that were answered: its storage,
events and allowances are the same, and the next call is answered by both or by neither, unless it is an approval that
the host refuses to keep for as long as it should (`Refused`), which is never answered here. -/
theorem temporary_refines (hL : L.Lawful) (client : ComplianceClient Address X) (x : X) (ls : List (Label Address X)) :
    Equivalent L client ((temporaryToken L client).run (Deployed.fresh Address L x) ls)
      ((Token.token client).run (Contract.fresh Address x)
        (((temporaryToken L client).trace (Deployed.fresh Address L x) ls).map Done.label)) := by
  have hstart :
      Shadows L (Deployed.fresh Address L x).now (Deployed.fresh Address L x).host (Contract.fresh Address x) := by
    refine ⟨rfl, .empty hL, fun k v hv => ?_⟩
    cases (Storage.get_empty k).symm.trans hv
  have hrun := System.lockstep (M := temporaryToken L client) (N := Token.token client)
    (Q := fun (c : Deployed Address X T) h => Shadows L c.now c.host h)
    (fun hs hstep => hs.step hL hstep) hstart ls
  exact hrun.equivalent hL

/-- 1 lets 2 spend 50 until ledger 30, longer than a new entry lives, and 2 spends 30 of it at ledger 20. -/
def spendingRun : List (Label ℕ (Fleet ℕ)) :=
  [.call (Env.signed 10) (.initializeToken 0 [65] [65] [65] 100 0 9 [65] 0),
    .call (Env.signed 10) (.mint 0 1 100), .call (Env.signed 10) (.approve 1 2 50 30),
    .call (Env.signed 20) (.transferFrom 2 1 0 30)]

/-- New entries live for 16 ledgers; the rest of the allowance can be read until ledger 30. -/
theorem temporary_refines_entries :
    let L := Lapsing.entries (ℕ × ℕ) AllowanceValue 16 3110400
    let c := (temporaryToken L isAllowedAt).run (Deployed.fresh ℕ L (lockupWorld mintedRun).outside) spendingRun
    Equivalent L isAllowedAt c ((Token.token isAllowedAt).run (Contract.fresh ℕ (lockupWorld mintedRun).outside)
        (((temporaryToken L isAllowedAt).trace (Deployed.fresh ℕ L (lockupWorld mintedRun).outside) spendingRun).map
          Done.label)) ∧
      allowance L (Env.signed 30) c.host.storage 1 2 = 20 :=
  ⟨temporary_refines (Lapsing.entries_lawful 16 3110400) isAllowedAt _ _, by decide +kernel⟩

end Runs

end StellarRwa.Token.Temporary

import StellarRwa.Lib.Book
import StellarRwa.Lib.Call
import StellarRwa.Lib.System

/-!
# The asset token

The token's storage and entry points, under the source's names. The compliance contract is called through
`ComplianceClient`, which answers from the state of the other contracts and may change that state; nothing else is
assumed of it. Time-to-live extensions are left out: entries stay readable.
-/

namespace StellarRwa.Token

open Lib

structure AssetMetadata (Address : Type) where
  name : Bytes
  symbol : Bytes
  assetType : Bytes
  totalSupply : I128
  decimals : U32
  admin : Address
  complianceContract : Address
  assetDescription : Bytes
  valuation : I128
  paused : Bool
  guardian : Option Address
  pendingAdmin : Option Address
deriving DecidableEq

structure AllowanceValue where
  amount : I128
  expirationLedger : U32
deriving DecidableEq

inductive Error
  | alreadyInitialized
  | notInitialized
  | unauthorized
  | insufficientBalance
  | invalidAmount
  | paused
  | senderNotCompliant
  | recipientNotCompliant
  | overflow
  | invalidInput
  | invalidCompliance
  | noPendingAdmin
  | insufficientAllowance
  | valuationChangeTooLarge
deriving DecidableEq, Repr

inductive Event (Address : Type)
  | genesis (admin : Address) (totalSupply : I128)
  | mint (to_ : Address) (amount : I128)
  | transfer (from_ to_ : Address) (amount newFromBal newToBal : I128)
  | burn (from_ : Address) (amount : I128)
  | approve (from_ spender : Address) (amount : I128) (expirationLedger : U32)
  | pause (caller : Address)
  | unpause (admin : Address)
  | guardian (guardian : Option Address)
  | valuation (oldValuation newValuation : I128)
  | setcomp (oldCompliance newCompliance : Address)
  | proposed (admin newAdmin : Address)
  | cancelled (admin : Address)
  | setAdmin (oldAdmin newAdmin : Address)
deriving DecidableEq

/-- The storage, one field for each kind of `DataKey`. -/
structure State (Address : Type) where
  metadata : Option (AssetMetadata Address)
  balance : Book Address
  allowance : Storage (Address × Address) AllowanceValue

/-- The storage of a contract that was just deployed. -/
def State.fresh (Address : Type) : State Address := ⟨none, ∅, ∅⟩

/-- `is_allowed` of the contract at an address, answered from the state of the other contracts; `none` is a trap. -/
abbrev ComplianceClient (Address X : Type) := Env Address → X → Address → Address → Option (Bool × X)

abbrev maxNameLen : Nat := 64
abbrev maxSymbolLen : Nat := 16
abbrev maxAssetTypeLen : Nat := 32
abbrev maxDescLen : Nat := 256

def maxValuationChangeBps : I128 := ⟨5000, by decide, by decide⟩
def bpsDenominator : I128 := ⟨10000, by decide, by decide⟩

variable {Address X : Type}

abbrev M (Address X α : Type) := Call (State Address) X (Event Address) Error α

/-! ## Helpers -/

def metadata : M Address X (AssetMetadata Address) := do
  let s ← Call.storage
  Call.unwrapOrElse s.metadata .notInitialized

def setMetadata (md : AssetMetadata Address) : M Address X Unit :=
  Call.update fun s => { s with metadata := some md }

def checkAmount (amount : I128) : M Address X Unit := Call.panicIf (amount ≤ 0) .invalidAmount

def checkStr (s : Bytes) (minLen maxLen : Nat) : M Address X Unit :=
  Call.panicIf (s.length < minLen ∨ maxLen < s.length) .invalidInput

variable (client : ComplianceClient Address X)

def compliant (env : Env Address) (compliance who : Address) : M Address X Bool :=
  Call.invoke fun x => client env x compliance who

/-- `if !Self::compliant(..) { panic_err(e) }`. -/
def requireCompliant (env : Env Address) (compliance who : Address) (e : Error) : M Address X Unit := do
  let ok ← compliant client env compliance who
  Call.panicIf (ok = false) e

variable [DecidableEq Address]

def balance (s : State Address) (id : Address) : I128 := Book.balance s.balance id

def setBalance (id : Address) (amount : I128) : M Address X Unit :=
  Call.update fun s => { s with balance := s.balance.set id amount }

def requireAdmin (env : Env Address) (admin : Address) : M Address X (AssetMetadata Address) := do
  let md ← metadata
  Call.requireAuth env admin
  Call.panicIf (md.admin ≠ admin) .unauthorized
  pure md

/-! ## Views -/

def totalSupply : M Address X I128 := do
  let md ← metadata
  pure md.totalSupply

def getMetadata : M Address X (AssetMetadata Address) := metadata

def getPendingAdmin : M Address X (Option Address) := do
  let md ← metadata
  pure md.pendingAdmin

/-! ## Moving balances -/

def initializeToken (env : Env Address) (admin : Address) (name symbol assetType : Bytes) (totalSupply : I128)
    (decimals : U32) (complianceContract : Address) (assetDescription : Bytes) (valuation : I128) :
    M Address X Unit := do
  let s ← Call.storage
  Call.panicIf (s.metadata ≠ none) .alreadyInitialized
  Call.requireAuth env admin
  Call.panicIf (totalSupply < 0 ∨ valuation < 0) .invalidAmount
  checkStr name 1 maxNameLen
  checkStr symbol 1 maxSymbolLen
  checkStr assetType 1 maxAssetTypeLen
  checkStr assetDescription 1 maxDescLen
  requireCompliant client env complianceContract admin .recipientNotCompliant
  setMetadata {
    name, symbol, assetType, totalSupply, decimals, admin, complianceContract, assetDescription, valuation
    paused := false, guardian := none, pendingAdmin := none }
  setBalance admin totalSupply
  Call.publish (.genesis admin totalSupply)
  Call.publish (.mint admin totalSupply)

/-- `transfer` from the recipient's check on, and the body of the loop of `transfer_batch` after `check_amount`: the
source has the same lines in both. The recipient's balance is read before the debit. -/
def sendTo (env : Env Address) (md : AssetMetadata Address) (from_ to_ : Address) (amount : I128) :
    M Address X Unit := do
  requireCompliant client env md.complianceContract to_ .recipientNotCompliant
  let s ← Call.storage
  let fromBal := balance s from_
  Call.panicIf (fromBal < amount) .insufficientBalance
  if from_ = to_ then Call.publish (.transfer from_ to_ amount fromBal fromBal)
  else do
    let toBal := balance s to_
    let newFromBal ← Call.orTrap (fromBal.checkedSub amount)
    setBalance from_ newFromBal
    let newToBal ← Call.unwrapOrElse (toBal.checkedAdd amount) .overflow
    setBalance to_ newToBal
    Call.publish (.transfer from_ to_ amount newFromBal newToBal)

def transfer (env : Env Address) (from_ to_ : Address) (amount : I128) : M Address X Unit := do
  Call.requireAuth env from_
  checkAmount amount
  let md ← metadata
  Call.panicIf (md.paused = true) .paused
  requireCompliant client env md.complianceContract from_ .senderNotCompliant
  sendTo client env md from_ to_ amount

def transferBatch (env : Env Address) (from_ : Address) (transfers : List (Address × I128)) : M Address X Unit := do
  Call.requireAuth env from_
  let md ← metadata
  Call.panicIf (md.paused = true) .paused
  requireCompliant client env md.complianceContract from_ .senderNotCompliant
  Call.forEach transfers fun p => do
    checkAmount p.2
    sendTo client env md from_ p.1 p.2

/-- The check and the credit of one mint, shared by `mint` and the loop of `mint_batch`; returns the new supply. -/
def mintTo (env : Env Address) (md : AssetMetadata Address) (supply : I128) (to_ : Address) (amount : I128) :
    M Address X I128 := do
  requireCompliant client env md.complianceContract to_ .recipientNotCompliant
  let newSupply ← Call.unwrapOrElse (supply.checkedAdd amount) .overflow
  let s ← Call.storage
  let newToBal ← Call.unwrapOrElse ((balance s to_).checkedAdd amount) .overflow
  setBalance to_ newToBal
  pure newSupply

def mint (env : Env Address) (admin to_ : Address) (amount : I128) : M Address X Unit := do
  let md ← requireAdmin env admin
  checkAmount amount
  Call.panicIf (md.paused = true) .paused
  let newSupply ← mintTo client env md md.totalSupply to_ amount
  setMetadata { md with totalSupply := newSupply }
  Call.publish (.mint to_ amount)

def mintBatch (env : Env Address) (admin : Address) (recipients : List (Address × I128)) : M Address X Unit := do
  let md ← requireAdmin env admin
  Call.panicIf (md.paused = true) .paused
  let newSupply ← Call.foldEach (fun supply p => do
    checkAmount p.2
    let newSupply ← mintTo client env md supply p.1 p.2
    Call.publish (.mint p.1 p.2)
    pure newSupply) md.totalSupply recipients
  setMetadata { md with totalSupply := newSupply }

def burn (env : Env Address) (from_ : Address) (amount : I128) : M Address X Unit := do
  Call.requireAuth env from_
  checkAmount amount
  let md ← metadata
  Call.panicIf (md.paused = true) .paused
  requireCompliant client env md.complianceContract from_ .senderNotCompliant
  let s ← Call.storage
  let fromBal := balance s from_
  Call.panicIf (fromBal < amount) .insufficientBalance
  let newFromBal ← Call.orTrap (fromBal.checkedSub amount)
  setBalance from_ newFromBal
  let newSupply ← Call.unwrapOrElse (md.totalSupply.checkedSub amount) .overflow
  setMetadata { md with totalSupply := newSupply }
  Call.publish (.burn from_ amount)

/-! ## Allowances -/

def approve (env : Env Address) (from_ spender : Address) (amount : I128) (expirationLedger : U32) :
    M Address X Unit := do
  Call.requireAuth env from_
  Call.panicIf (amount < 0) .invalidAmount
  let md ← metadata
  Call.panicIf (md.paused = true) .paused
  Call.panicIf (0 < amount ∧ expirationLedger < env.sequence) .invalidInput
  Call.update fun s => { s with allowance := s.allowance.set (from_, spender) ⟨amount, expirationLedger⟩ }
  Call.publish (.approve from_ spender amount expirationLedger)

def allowance (env : Env Address) (s : State Address) (from_ spender : Address) : I128 :=
  match s.allowance.get (from_, spender) with
  | some v => if env.sequence ≤ v.expirationLedger then v.amount else 0
  | none => 0

/-- The recipient's balance is read after the debit. -/
def transferFrom (env : Env Address) (spender from_ to_ : Address) (amount : I128) : M Address X Unit := do
  Call.requireAuth env spender
  checkAmount amount
  let md ← metadata
  Call.panicIf (md.paused = true) .paused
  requireCompliant client env md.complianceContract from_ .senderNotCompliant
  requireCompliant client env md.complianceContract to_ .recipientNotCompliant
  let s ← Call.storage
  let current := (s.allowance.get (from_, spender)).getD ⟨0, 0⟩
  Call.panicIf (current.expirationLedger < env.sequence ∨ current.amount < amount) .insufficientAllowance
  let fromBal := balance s from_
  Call.panicIf (fromBal < amount) .insufficientBalance
  let newFromBal ← Call.orTrap (fromBal.checkedSub amount)
  setBalance from_ newFromBal
  let s ← Call.storage
  let newToBal ← Call.unwrapOrElse ((balance s to_).checkedAdd amount) .overflow
  setBalance to_ newToBal
  let left ← Call.orTrap (current.amount.checkedSub amount)
  Call.update fun s =>
    { s with allowance := s.allowance.set (from_, spender) ⟨left, current.expirationLedger⟩ }
  Call.publish (.transfer from_ to_ amount newFromBal newToBal)

/-! ## Administration -/

def pause (env : Env Address) (caller : Address) : M Address X Unit := do
  Call.requireAuth env caller
  let md ← metadata
  Call.panicIf (md.admin ≠ caller ∧ md.guardian ≠ some caller) .unauthorized
  setMetadata { md with paused := true }
  Call.publish (.pause caller)

def unpause (env : Env Address) (admin : Address) : M Address X Unit := do
  let md ← requireAdmin env admin
  setMetadata { md with paused := false }
  Call.publish (.unpause admin)

def setGuardian (env : Env Address) (admin : Address) (guardian : Option Address) : M Address X Unit := do
  let md ← requireAdmin env admin
  setMetadata { md with guardian }
  Call.publish (.guardian guardian)

/-- The bound on a single change of the valuation; an old valuation of zero is exempt. -/
def checkValuationChange (oldValuation newValuation : I128) : M Address X Unit := do
  let change ← Call.orTrap (newValuation.checkedSub oldValuation)
  let diff ← Call.orTrap change.checkedAbs
  let scaled ← Call.unwrapOrElse (oldValuation.checkedMul maxValuationChangeBps) .overflow
  let maxChange ← Call.unwrapOrElse (scaled.checkedDiv bpsDenominator) .overflow
  Call.panicIf (maxChange < diff) .valuationChangeTooLarge

def updateValuation (env : Env Address) (admin : Address) (newValuation : I128) : M Address X Unit := do
  let md ← requireAdmin env admin
  Call.panicIf (newValuation < 0) .invalidAmount
  Call.onlyIf (0 < md.valuation) (checkValuationChange md.valuation newValuation)
  setMetadata { md with valuation := newValuation }
  Call.publish (.valuation md.valuation newValuation)

def setCompliance (env : Env Address) (admin compliance : Address) : M Address X Unit := do
  let md ← requireAdmin env admin
  requireCompliant client env compliance admin .invalidCompliance
  setMetadata { md with complianceContract := compliance }
  Call.publish (.setcomp md.complianceContract compliance)

def proposeAdmin (env : Env Address) (admin newAdmin : Address) : M Address X Unit := do
  let md ← requireAdmin env admin
  setMetadata { md with pendingAdmin := some newAdmin }
  Call.publish (.proposed admin newAdmin)

def cancelAdminProposal (env : Env Address) (admin : Address) : M Address X Unit := do
  let md ← requireAdmin env admin
  Call.panicIf (md.pendingAdmin = none) .noPendingAdmin
  setMetadata { md with pendingAdmin := none }
  Call.publish (.cancelled admin)

def acceptAdmin (env : Env Address) (newAdmin : Address) : M Address X Unit := do
  Call.requireAuth env newAdmin
  let md ← metadata
  let pending ← Call.unwrapOrElse md.pendingAdmin .noPendingAdmin
  Call.panicIf (pending ≠ newAdmin) .unauthorized
  setMetadata { md with admin := newAdmin, pendingAdmin := none }
  Call.publish (.setAdmin md.admin newAdmin)

/-! ## Calls -/

/-- The entry points that can change the contract. -/
inductive Op (Address : Type)
  | initializeToken (admin : Address) (name symbol assetType : Bytes) (totalSupply : I128) (decimals : U32)
      (complianceContract : Address) (assetDescription : Bytes) (valuation : I128)
  | transfer (from_ to_ : Address) (amount : I128)
  | transferBatch (from_ : Address) (transfers : List (Address × I128))
  | mint (admin to_ : Address) (amount : I128)
  | mintBatch (admin : Address) (recipients : List (Address × I128))
  | burn (from_ : Address) (amount : I128)
  | approve (from_ spender : Address) (amount : I128) (expirationLedger : U32)
  | transferFrom (spender from_ to_ : Address) (amount : I128)
  | pause (caller : Address)
  | unpause (admin : Address)
  | setGuardian (admin : Address) (guardian : Option Address)
  | updateValuation (admin : Address) (newValuation : I128)
  | setCompliance (admin compliance : Address)
  | proposeAdmin (admin newAdmin : Address)
  | cancelAdminProposal (admin : Address)
  | acceptAdmin (newAdmin : Address)

def call (env : Env Address) : Op Address → M Address X Unit
  | .initializeToken admin name symbol assetType totalSupply decimals complianceContract assetDescription valuation =>
    initializeToken client env admin name symbol assetType totalSupply decimals complianceContract assetDescription
      valuation
  | .transfer from_ to_ amount => transfer client env from_ to_ amount
  | .transferBatch from_ transfers => transferBatch client env from_ transfers
  | .mint admin to_ amount => mint client env admin to_ amount
  | .mintBatch admin recipients => mintBatch client env admin recipients
  | .burn from_ amount => burn client env from_ amount
  | .approve from_ spender amount expirationLedger => approve env from_ spender amount expirationLedger
  | .transferFrom spender from_ to_ amount => transferFrom client env spender from_ to_ amount
  | .pause caller => pause env caller
  | .unpause admin => unpause env admin
  | .setGuardian admin guardian => setGuardian env admin guardian
  | .updateValuation admin newValuation => updateValuation env admin newValuation
  | .setCompliance admin compliance => setCompliance client env admin compliance
  | .proposeAdmin admin newAdmin => proposeAdmin env admin newAdmin
  | .cancelAdminProposal admin => cancelAdminProposal env admin
  | .acceptAdmin newAdmin => acceptAdmin env newAdmin

/-- A deployed token: its storage, the other contracts, and the events it has published. -/
abbrev Contract (Address X : Type) := Host (State Address) X (Event Address)

def Contract.fresh (Address : Type) {X : Type} (x : X) : Contract Address X := ⟨State.fresh Address, x, []⟩

/-- A call of the token, or anything the other contracts do among themselves. -/
inductive Label (Address X : Type)
  | call (env : Env Address) (op : Op Address)
  | others (x : X)

/-- The token as a system of calls, among other contracts that change at will. -/
def token : System (Contract Address X) (Label Address X) Unit where
  step h
    | .call env op => (call client env op).returned h
    | .others x => some ((), { h with outside := x })

end StellarRwa.Token

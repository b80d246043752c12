import StellarRwa.Lib.Storage
import StellarRwa.Lib.System
import StellarRwa.Handover

/-!
# The dividend contract

The storage and the entry points of the dividend contract, under the source's names. The asset and payment tokens are
the `World`: their views and transfers act on a state that the contract does not see, and they may act by themselves
between the calls. Time-to-live extensions are left out: entries stay readable.
-/

namespace StellarRwa.Dividend

open Lib

structure Distribution (Address : Type) where
  id : U64
  assetToken : Address
  paymentToken : Address
  totalAmount : I128
  distributed : I128
  createdAt : U32
  completed : Bool
  deadline : U32
  cancelled : Bool
deriving DecidableEq

inductive Error
  | alreadyInitialized
  | notInitialized
  | unauthorized
  | distributionNotFound
  | invalidAmount
  | nothingToClaim
  | alreadyClaimed
  | zeroSupply
  | overDistributed
  | arithmeticOverflow
  | duplicateHolder
  | noPendingAdmin
  | deadlinePassed
  | deadlineNotReached
  | noDeadline
  | distributionTooYoung
  | deadlineInPast
deriving DecidableEq, Repr

inductive Event (Address : Type)
  | init (admin : Address)
  | created (admin : Address) (id : U64) (totalAmount : I128)
  | claim (holder : Address) (distributionId : U64) (amount : I128)
  | reclaim (admin : Address) (distributionId : U64) (remaining : I128)
  | cancel (admin : Address) (distributionId : U64)
  | proposed (admin newAdmin : Address)
  | cancelled (admin : Address)
  | setAdmin (oldAdmin newAdmin : Address)
deriving DecidableEq

/-- The storage, one field for each kind of `DataKey` that the contract writes. -/
structure State (Address : Type) where
  roles : Roles Address
  counter : Option U64
  dist : Storage U64 (Distribution Address)
  claimed : Storage (U64 × Address) Bool
  assetIds : Storage Address (List U64)
  supply : Storage U64 I128
  snapshot : Storage U64 (List (Address × I128))

/-- The storage of a contract that was just deployed. -/
def State.fresh (Address : Type) : State Address := ⟨⟨none, none⟩, none, ∅, ∅, ∅, ∅, ∅⟩

/-- The other contracts. `totalSupply` and `assetAdmin` are the read-only view of an asset token (`total_supply` and
`get_metadata().admin`), `transfer` is that of a payment token, and `act` is whatever they do on their own. -/
structure World (Address X A : Type) where
  totalSupply : X → Address → Option I128
  assetAdmin : X → Address → Option Address
  transfer : X → (token from_ to_ : Address) → I128 → Option X
  act : A → X → Option X

variable {Address X A : Type}

abbrev M (Address X α : Type) := Call (State Address) X (Event Address) Error α

def administered (Address : Type) : Administered Address (State Address) (Event Address) Error where
  roles := State.roles
  setRoles r s := { s with roles := r }
  notInitialized := .notInitialized
  unauthorized := .unauthorized
  noPendingAdmin := .noPendingAdmin
  proposed := .proposed
  cancelled := .cancelled
  setAdmin := .setAdmin

def initializeDividend (env : Env Address) (admin : Address) : M Address X Unit := do
  let s ← Call.storage
  Call.panicIf (s.roles.admin ≠ none) .alreadyInitialized
  Call.requireAuth env admin
  Call.update fun s => { s with roles := { s.roles with admin := some admin } }
  Call.update fun s => { s with counter := some 0 }
  Call.publish (.init admin)

def load (id : U64) : M Address X (Distribution Address) := do
  let s ← Call.storage
  Call.unwrapOrElse (s.dist.get id) .distributionNotFound

def getDistribution (distributionId : U64) : M Address X (Distribution Address) := load distributionId

def getPendingAdmin (s : State Address) : Option Address := s.roles.pendingAdmin

def getAdmin : M Address X Address := (administered Address).getAdmin

def loadSupply (s : State Address) (distributionId : U64) : I128 := (s.supply.get distributionId).getD 0

/-- `TokenClient::transfer`. -/
def transfer (w : World Address X A) (token from_ to_ : Address) (amount : I128) : M Address X Unit :=
  Call.invoke fun x => (w.transfer x token from_ to_ amount).map fun x' => ((), x')

variable [DecidableEq Address]

/-! ## Creation -/

/-- One round of the loop over `eligible`: the sum of the balances so far and the addresses seen. -/
def tally (round : I128 × Storage Address Unit) (entry : Address × I128) :
    M Address X (I128 × Storage Address Unit) := do
  let (snapshotSupply, seen) := round
  let (addr, balance) := entry
  Call.panicIf (balance < 0) .invalidAmount
  Call.panicIf (seen.has addr = true) .duplicateHolder
  let snapshotSupply ← Call.unwrapOrElse (snapshotSupply.checkedAdd balance) .arithmeticOverflow
  pure (snapshotSupply, seen.set addr ())

variable (w : World Address X A) (this : Address)

def createDistributionDeadline (env : Env Address) (admin assetToken paymentToken : Address) (totalAmount : I128)
    (eligible : List (Address × I128)) (deadline : U32) : M Address X U64 := do
  (administered Address).requireAdminOrAssetAdmin w.assetAdmin env admin assetToken
  Call.panicIf (totalAmount ≤ 0) .invalidAmount
  Call.panicIf (deadline ≠ 0 ∧ deadline < env.sequence) .deadlineInPast
  let supply ← Call.query fun x => w.totalSupply x assetToken
  Call.panicIf (supply ≤ 0) .zeroSupply
  Call.panicIf (eligible.length = 0) .invalidAmount
  let (snapshotSupply, _) ← Call.foldEach tally (0, ∅) eligible
  transfer w paymentToken admin this totalAmount
  let s ← Call.storage
  let id ← Call.orTrap ((s.counter.getD 0).checkedAdd 1)
  Call.update fun s => { s with snapshot := s.snapshot.set id eligible }
  Call.update fun s => { s with supply := s.supply.set id snapshotSupply }
  let dist : Distribution Address :=
    { id, assetToken, paymentToken, totalAmount, distributed := 0, createdAt := env.sequence, completed := false,
      deadline, cancelled := false }
  Call.update fun s => { s with dist := s.dist.set id dist }
  Call.update fun s =>
    { s with assetIds := s.assetIds.set dist.assetToken ((s.assetIds.get dist.assetToken).getD [] ++ [id]) }
  Call.update fun s => { s with counter := some id }
  Call.publish (.created admin id totalAmount)
  pure id

def createDistribution (env : Env Address) (admin assetToken paymentToken : Address) (totalAmount : I128)
    (eligible : List (Address × I128)) : M Address X U64 :=
  createDistributionDeadline w this env admin assetToken paymentToken totalAmount eligible 0

/-- The records of the ids listed for the asset; ids without a record are skipped. -/
def getDistributionsForAsset (s : State Address) (assetToken : Address) : List (Distribution Address) :=
  ((s.assetIds.get assetToken).getD []).filterMap s.dist.get

/-! ## Claims -/

def hasClaimed (s : State Address) (distributionId : U64) (holder : Address) : Bool :=
  (s.claimed.get (distributionId, holder)).getD false

/-- The balance of the first entry of a snapshot for `holder`. -/
def balanceIn (snap : List (Address × I128)) (holder : Address) : I128 :=
  ((snap.find? fun e => e.1 = holder).map Prod.snd).getD 0

def snapshotBalance (distributionId : U64) (holder : Address) : M Address X I128 := do
  let s ← Call.storage
  let snap ← Call.unwrapOrElse (s.snapshot.get distributionId) .distributionNotFound
  pure (balanceIn snap holder)

def claimable (distributionId : U64) (holder : Address) : M Address X I128 := do
  let dist ← load distributionId
  let s ← Call.storage
  if hasClaimed s distributionId holder = true then pure 0
  else
    let supply := loadSupply s distributionId
    if supply ≤ 0 then pure 0
    else do
      let basis ← snapshotBalance distributionId holder
      if basis ≤ 0 then pure 0
      else do
        let product ← Call.unwrapOrElse (dist.totalAmount.checkedMul basis) .arithmeticOverflow
        Call.orTrap (product.checkedDiv supply)

/-- Remove the snapshot and the supply of a distribution that is over. -/
def clear (distributionId : U64) : M Address X Unit := do
  Call.update fun s => { s with snapshot := s.snapshot.remove distributionId }
  Call.update fun s => { s with supply := s.supply.remove distributionId }

def claim (env : Env Address) (distributionId : U64) (holder : Address) : M Address X Unit := do
  Call.requireAuth env holder
  let dist ← load distributionId
  Call.panicIf (dist.completed = true) .nothingToClaim
  Call.panicIf (dist.deadline ≠ 0 ∧ dist.deadline < env.sequence) .deadlinePassed
  let s ← Call.storage
  Call.panicIf (hasClaimed s distributionId holder = true) .alreadyClaimed
  let amount ← claimable distributionId holder
  Call.panicIf (amount ≤ 0) .nothingToClaim
  Call.update fun s => { s with claimed := s.claimed.set (distributionId, holder) true }
  transfer w dist.paymentToken this holder amount
  let distributed ← Call.unwrapOrElse (dist.distributed.checkedAdd amount) .arithmeticOverflow
  let dist := { dist with distributed }
  Call.panicIf (dist.totalAmount < dist.distributed) .overDistributed
  let dist ←
    if dist.totalAmount ≤ dist.distributed then do
      clear distributionId
      pure { dist with completed := true }
    else pure dist
  Call.update fun s => { s with dist := s.dist.set distributionId dist }
  Call.publish (.claim holder distributionId amount)

/-! ## Reclaiming and cancelling -/

def reclaimUnclaimed (env : Env Address) (admin : Address) (distributionId : U64) : M Address X I128 := do
  (administered Address).requireAdmin env admin
  let dist ← load distributionId
  Call.panicIf (dist.deadline = 0) .noDeadline
  Call.panicIf (env.sequence ≤ dist.deadline) .deadlineNotReached
  Call.panicIf (dist.completed = true) .nothingToClaim
  let remaining ← Call.orTrap (dist.totalAmount.checkedSub dist.distributed)
  Call.panicIf (remaining ≤ 0) .nothingToClaim
  transfer w dist.paymentToken this admin remaining
  let dist := { dist with distributed := dist.totalAmount, completed := true }
  clear distributionId
  Call.update fun s => { s with dist := s.dist.set distributionId dist }
  Call.publish (.reclaim admin distributionId remaining)
  pure remaining

def cancelDistribution (env : Env Address) (admin : Address) (distributionId : U64) : M Address X Unit := do
  (administered Address).requireAdmin env admin
  let dist ← load distributionId
  Call.panicIf (0 < dist.distributed) .invalidAmount
  Call.panicIf (dist.completed = true) .nothingToClaim
  transfer w dist.paymentToken this admin dist.totalAmount
  let cancelledDist := { dist with completed := true, cancelled := true }
  clear distributionId
  Call.update fun s => { s with dist := s.dist.set distributionId cancelledDist }
  Call.publish (.cancel admin distributionId)

/-! ## Administration -/

def proposeAdmin (env : Env Address) (admin newAdmin : Address) : M Address X Unit :=
  (administered Address).proposeAdmin env admin newAdmin

def cancelAdminProposal (env : Env Address) (admin : Address) : M Address X Unit :=
  (administered Address).cancelAdminProposal env admin

def acceptAdmin (env : Env Address) (newAdmin : Address) : M Address X Unit :=
  (administered Address).acceptAdmin env newAdmin

/-! ## Calls -/

/-- The entry points that can change the contract. -/
inductive Op (Address : Type)
  | initializeDividend (admin : Address)
  | createDistribution (admin assetToken paymentToken : Address) (totalAmount : I128)
    (eligible : List (Address × I128))
  | createDistributionDeadline (admin assetToken paymentToken : Address) (totalAmount : I128)
    (eligible : List (Address × I128)) (deadline : U32)
  | claim (distributionId : U64) (holder : Address)
  | reclaimUnclaimed (admin : Address) (distributionId : U64)
  | cancelDistribution (admin : Address) (distributionId : U64)
  | proposeAdmin (admin newAdmin : Address)
  | cancelAdminProposal (admin : Address)
  | acceptAdmin (newAdmin : Address)

/-- What an entry point returns. -/
inductive Ret
  | unit
  | id (id : U64)
  | amount (remaining : I128)
deriving DecidableEq

def call (env : Env Address) : Op Address → M Address X Ret
  | .initializeDividend admin => do initializeDividend env admin; pure .unit
  | .createDistribution admin assetToken paymentToken totalAmount eligible => do
    let id ← createDistribution w this env admin assetToken paymentToken totalAmount eligible
    pure (.id id)
  | .createDistributionDeadline admin assetToken paymentToken totalAmount eligible deadline => do
    let id ← createDistributionDeadline w this env admin assetToken paymentToken totalAmount eligible deadline
    pure (.id id)
  | .claim distributionId holder => do claim w this env distributionId holder; pure .unit
  | .reclaimUnclaimed admin distributionId => do
    let remaining ← reclaimUnclaimed w this env admin distributionId
    pure (.amount remaining)
  | .cancelDistribution admin distributionId => do cancelDistribution w this env admin distributionId; pure .unit
  | .proposeAdmin admin newAdmin => do proposeAdmin env admin newAdmin; pure .unit
  | .cancelAdminProposal admin => do cancelAdminProposal env admin; pure .unit
  | .acceptAdmin newAdmin => do acceptAdmin env newAdmin; pure .unit

/-- A deployed dividend contract: its storage, the other contracts, and the events it has published. -/
abbrev Contract (Address X : Type) := Host (State Address) X (Event Address)

def Contract.fresh (Address : Type) {X : Type} (x : X) : Contract Address X := ⟨State.fresh Address, x, []⟩

/-- A call of the contract, or something that the other contracts do. -/
inductive Label (Address A : Type)
  | call (env : Env Address) (op : Op Address)
  | others (a : A)

/-- The dividend contract at the address `this`, as a system of calls among the other contracts. -/
def dividend : System (Contract Address X) (Label Address A) Ret where
  step h
    | .call env op => (call w this env op).returned h
    | .others a => (w.act a h.outside).map fun x => (.unit, { h with outside := x })

end StellarRwa.Dividend

import StellarRwa.Lib.Storage
import StellarRwa.Lib.System
import StellarRwa.Handover
import StellarRwa.Compliance.Jurisdiction

/-!
# The compliance contract

The contract's storage, its entry points and the helpers they share, under the source's names. A call either returns
or leaves everything as it was. Time-to-live extensions are left out: entries stay readable.
-/

namespace StellarRwa.Compliance

open Lib

inductive ComplianceStatus
  | approved
  | pending
  | rejected
  | suspended
deriving DecidableEq, Repr

structure AllowlistEntry (Address : Type) where
  address : Address
  jurisdiction : Bytes
  expiresAt : U32
deriving DecidableEq

structure KycRecord (Address : Type) where
  address : Address
  status : ComplianceStatus
  jurisdiction : Bytes
  verifiedAt : U32
  expiresAt : U32
deriving DecidableEq

inductive Event (Address : Type)
  | init (admin : Address)
  | approved (address : Address) (jurisdiction : Bytes) (expiresAt : U32) (prevJurisdiction : Bytes)
      (prevExpiresAt : U32) (wasSuspended : Bool)
  | suspend (address : Address)
  | reinstat (address : Address)
  | removed (address : Address)
  | expired (address : Address) (expiresAt : U32)
  | hldfail (address : Address) (firstAcquired minLedgers now : U64)
  | blockjur (jurisdiction : Bytes)
  | unblkjur (jurisdiction : Bytes)
  | proposed (admin newAdmin : Address)
  | cancelled (admin : Address)
  | setAdmin (oldAdmin newAdmin : Address)
  | minhld (holder : Address) (minLedgers : U64)
  | acquired (holder : Address) (ledger : U64)
deriving DecidableEq

/-- The storage, one field for each kind of `DataKey`. -/
structure State (Address : Type) where
  roles : Roles Address
  allowlistMeta : Option (U32 × U32)
  allowlistPage : Storage U32 (List Address)
  allowlistPageOf : Storage Address U32
  allowlistCount : Option U32
  record : Storage Address (KycRecord Address)
  blocked : Storage Bytes Bool
  blockedList : Option (List Bytes)
  minHoldingPeriod : Storage Address U64
  firstAcquiredLedger : Storage Address U64

/-- The storage of a contract that was just deployed. -/
def State.fresh (Address : Type) : State Address :=
  ⟨⟨none, none⟩, none, ∅, ∅, none, ∅, ∅, none, ∅, ∅⟩

abbrev allowlistPageSize : Int := 200

/-- The most addresses that one call of `get_allowlist_page` returns. -/
abbrev maxAllowlistPageSize : U32 := 200

variable {Address : Type}

abbrev M (Address α : Type) := Call (State Address) Unit (Event Address) Error α

def administered (Address : Type) : Administered Address (State Address) (Event Address) Error where
  roles := State.roles
  setRoles r s := { s with roles := r }
  notInitialized := .notInitialized
  unauthorized := .unauthorized
  noPendingAdmin := .noPendingAdmin
  proposed := .proposed
  cancelled := .cancelled
  setAdmin := .setAdmin

/-! ## Views -/

def allowlistMeta (s : State Address) : U32 × U32 := s.allowlistMeta.getD (0, 0)

/-- The addresses on page `p`; an absent page holds none. -/
def page (s : State Address) (p : U32) : List Address := (s.allowlistPage.get p).getD []

/-- Absent and empty pages are skipped, which is to say that they contribute nothing. -/
def getAllowlist (s : State Address) : List Address := (allowlistMeta s).1.upTo.flatMap (page s)

def getAllowlistCount (s : State Address) : U32 := s.allowlistCount.getD 0

/-- The local variables of `get_allowlist_page`. -/
structure PageScan (Address : Type) where
  skipped : U32
  result : List Address

/-- The walk over the addresses of one page: the first `offset` addresses of the list are skipped, and the walk breaks
off once the result is full. -/
def takeEntries (offset limit : U32) : PageScan Address → List Address → M Address (PageScan Address)
  | scan, [] => pure scan
  | scan, a :: later =>
    if scan.skipped < offset then do
      let skipped ← Call.orTrap (scan.skipped.checkedAdd 1)
      takeEntries offset limit { scan with skipped } later
    else if limit.val ≤ scan.result.length then pure scan
    else takeEntries offset limit { scan with result := scan.result ++ [a] } later

/-- The walk over the pages, which breaks off once the result is full. -/
def takePages (offset limit : U32) : PageScan Address → List U32 → M Address (PageScan Address)
  | scan, [] => pure scan
  | scan, pageIdx :: later =>
    if limit.val ≤ scan.result.length then pure scan
    else do
      let s ← Call.storage
      if page s pageIdx = [] then takePages offset limit scan later
      else do
        let scan ← takeEntries offset limit scan (page s pageIdx)
        takePages offset limit scan later

def getAllowlistPage (offset limit : U32) : M Address (List Address) := do
  let limit := if limit = 0 ∨ maxAllowlistPageSize < limit then maxAllowlistPageSize else limit
  let s ← Call.storage
  let scan ← takePages offset limit ⟨0, []⟩ (allowlistMeta s).1.upTo
  pure scan.result

def getAdmin : M Address Address := (administered Address).getAdmin

def getPendingAdmin (s : State Address) : Option Address := s.roles.pendingAdmin

def blockedList (s : State Address) : List Bytes := s.blockedList.getD []

def getBlockedJurisdictions (s : State Address) : List Bytes := blockedList s

def isJurisdictionBlocked (s : State Address) (jurisdiction : Bytes) : Except (Fault Error) Bool :=
  match normalizeJurisdiction jurisdiction with
  | .error e => .error e
  | .ok j => .ok ((s.blocked.get j).getD false)

variable [DecidableEq Address]

def getRecord (s : State Address) (address : Address) : Option (KycRecord Address) := s.record.get address

def statusOf (s : State Address) (address : Address) : Option ComplianceStatus :=
  (getRecord s address).map KycRecord.status

def getMinHoldingPeriod (s : State Address) (holder : Address) : Option U64 := s.minHoldingPeriod.get holder

def getFirstAcquiredLedger (s : State Address) (holder : Address) : Option U64 := s.firstAcquiredLedger.get holder

/-! ## The allowlist pages -/

/-- The cursor to append at: a fresh page once the current one is full. -/
def openPage (cursor : U32 × U32) : M Address (U32 × U32) :=
  if allowlistPageSize ≤ cursor.2 then do
    let pageIdx ← Call.orTrap (cursor.1.checkedAdd 1)
    pure (pageIdx, 0)
  else pure cursor

def appendToAllowlist (address : Address) : M Address Unit := do
  let s ← Call.storage
  let cursor ← openPage (allowlistMeta s)
  Call.update fun s => { s with allowlistPage := s.allowlistPage.set cursor.1 (page s cursor.1 ++ [address]) }
  Call.update fun s => { s with allowlistPageOf := s.allowlistPageOf.set address cursor.1 }
  let pageLen ← Call.orTrap (cursor.2.checkedAdd 1)
  Call.update fun s => { s with allowlistMeta := some (cursor.1, pageLen) }
  let s ← Call.storage
  let count ← Call.orTrap ((getAllowlistCount s).checkedAdd 1)
  Call.update fun s => { s with allowlistCount := some count }

def removeFromAllowlist (address : Address) : M Address Unit := do
  let s ← Call.storage
  match s.allowlistPageOf.get address with
  | none => pure ()
  | some pageIdx => do
    Call.update fun s =>
      { s with allowlistPage := s.allowlistPage.set pageIdx ((page s pageIdx).filter (· ≠ address)) }
    Call.update fun s => { s with allowlistPageOf := s.allowlistPageOf.remove address }
    Call.update fun s => { s with allowlistCount := some ((getAllowlistCount s).saturatingSub 1) }

/-! ## Records -/

/-- What `add_to_allowlist` does once the caller is known to be the admin, and the body of the loop of
`add_to_allowlist_batch`: the source has the same lines in both. -/
def approveAddress (now : U32) (address : Address) (jurisdiction : Bytes) (expiresAt : U32) : M Address Unit := do
  Call.panicIf (expiresAt ≠ 0 ∧ expiresAt ≤ now) .invalidExpiry
  let jurisdiction ← Call.lift (normalizeJurisdiction jurisdiction)
  let s ← Call.storage
  let prev := s.record.get address
  let record : KycRecord Address := ⟨address, .approved, jurisdiction, now, expiresAt⟩
  Call.update fun s => { s with record := s.record.set address record }
  Call.onlyIf (prev = none) (appendToAllowlist address)
  match prev with
  | some r =>
    Call.publish
      (.approved address jurisdiction expiresAt r.jurisdiction r.expiresAt (r.status = ComplianceStatus.suspended))
  | none => Call.publish (.approved address jurisdiction expiresAt jurisdiction 0 false)

def addToAllowlist (env : Env Address) (admin address : Address) (jurisdiction : Bytes) (expiresAt : U32) :
    M Address Unit := do
  (administered Address).requireAdmin env admin
  approveAddress env.sequence address jurisdiction expiresAt

def addToAllowlistBatch (env : Env Address) (admin : Address) (entries : List (AllowlistEntry Address)) :
    M Address Unit := do
  (administered Address).requireAdmin env admin
  Call.forEach entries fun entry => approveAddress env.sequence entry.address entry.jurisdiction entry.expiresAt

def loadRecord (address : Address) : M Address (KycRecord Address) := do
  let s ← Call.storage
  Call.unwrapOrElse (s.record.get address) .recordNotFound

def suspend (env : Env Address) (admin address : Address) : M Address Unit := do
  (administered Address).requireAdmin env admin
  let record ← loadRecord address
  Call.update fun s => { s with record := s.record.set address { record with status := .suspended } }
  Call.publish (.suspend address)

def reinstate (env : Env Address) (admin address : Address) : M Address Unit := do
  (administered Address).requireAdmin env admin
  let record ← loadRecord address
  Call.panicIf (record.status ≠ .suspended) .notSuspended
  Call.update fun s => { s with record := s.record.set address { record with status := .approved } }
  Call.publish (.reinstat address)

def remove (env : Env Address) (admin address : Address) : M Address Unit := do
  (administered Address).requireAdmin env admin
  let s ← Call.storage
  Call.panicIf (s.record.has address = false) .recordNotFound
  Call.update fun s => { s with record := s.record.remove address }
  removeFromAllowlist address
  Call.publish (.removed address)

/-! ## The gate -/

/-- The minimum-holding-period check of `is_allowed`; without a period or without a recorded acquisition it passes. -/
def holdingPeriodOver (env : Env Address) (address : Address) : M Address Bool := do
  let s ← Call.storage
  match s.minHoldingPeriod.get address, s.firstAcquiredLedger.get address with
  | some minLedgers, some firstAcquired =>
    if 0 < minLedgers ∧ env.sequence.toU64 < firstAcquired.saturatingAdd minLedgers then do
      Call.publish (.hldfail address firstAcquired minLedgers env.sequence.toU64)
      pure false
    else pure true
  | _, _ => pure true

def isAllowed (env : Env Address) (address : Address) : M Address Bool := do
  let s ← Call.storage
  match s.record.get address with
  | none => pure false
  | some record =>
    if record.status ≠ .approved then pure false
    else if record.expiresAt ≠ 0 ∧ record.expiresAt ≤ env.sequence then do
      Call.publish (.expired address record.expiresAt)
      pure false
    else do
      let blocked ← Call.lift (isJurisdictionBlocked s record.jurisdiction)
      if blocked then pure false else holdingPeriodOver env address

/-! ## Jurisdictions -/

def blockJurisdiction (env : Env Address) (admin : Address) (jurisdiction : Bytes) : M Address Unit := do
  (administered Address).requireAdmin env admin
  let j ← Call.lift (normalizeJurisdiction jurisdiction)
  let s ← Call.storage
  let alreadyBlocked := (s.blocked.get j).getD false
  Call.update fun s => { s with blocked := s.blocked.set j true }
  Call.onlyIf (alreadyBlocked = false) (Call.update fun s => { s with blockedList := some (blockedList s ++ [j]) })
  Call.publish (.blockjur j)

def unblockJurisdiction (env : Env Address) (admin : Address) (jurisdiction : Bytes) : M Address Unit := do
  (administered Address).requireAdmin env admin
  let j ← Call.lift (normalizeJurisdiction jurisdiction)
  Call.update fun s => { s with blocked := s.blocked.remove j }
  Call.update fun s => { s with blockedList := some ((blockedList s).filter (· ≠ j)) }
  Call.publish (.unblkjur j)

/-! ## Pruning -/

/-- The local variables of `prune_expired` while it walks one page. -/
structure Scan (Address : Type) where
  next : List Address
  changed : Bool
  stoppedEarly : Bool
  unexaminedInPage : U32
  examined : U32

/-- Whether an examined address stays; an expired record is deleted. -/
def keepOrPrune (now : U32) (addr : Address) : M Address Bool := do
  let s ← Call.storage
  match s.record.get addr with
  | some r =>
    if r.expiresAt ≠ 0 ∧ r.expiresAt ≤ now then do
      Call.update fun s => { s with record := s.record.remove addr }
      Call.update fun s => { s with allowlistPageOf := s.allowlistPageOf.remove addr }
      Call.publish (.expired addr r.expiresAt)
      pure false
    else pure true
  | none => pure false

/-- One address of a page: kept unexamined once the bound is reached, else examined. -/
def pruneEntry (now maxRecords : U32) (scan : Scan Address) (addr : Address) : M Address (Scan Address) :=
  if maxRecords ≠ 0 ∧ maxRecords ≤ scan.examined then do
    let n ← Call.orTrap (scan.unexaminedInPage.checkedAdd 1)
    pure { scan with next := scan.next ++ [addr], stoppedEarly := true, unexaminedInPage := n }
  else do
    let examined ← Call.orTrap (scan.examined.checkedAdd 1)
    let keep ← keepOrPrune now addr
    if keep then pure { scan with examined, next := scan.next ++ [addr] }
    else pure { scan with examined, changed := true }

/-- The entries on the pages not yet visited, added to those left on the current page. -/
def countLater (total : U32) (laterIdx : U32) : M Address U32 := do
  let s ← Call.storage
  match s.allowlistPage.get laterIdx with
  | some p => do
    let len ← Call.orTrap (MInt.ofInt? p.length)
    Call.orTrap (total.checkedAdd len)
  | none => pure total

/-- The walk over the pages still to visit. -/
def prunePages (now maxRecords : U32) : U32 → List U32 → M Address U32
  | _, [] => pure 0
  | examined, pageIdx :: later => do
    let s ← Call.storage
    if page s pageIdx = [] then prunePages now maxRecords examined later
    else do
      let scan ← Call.foldEach (pruneEntry now maxRecords) ⟨[], false, false, 0, examined⟩ (page s pageIdx)
      Call.onlyIf (scan.changed = true)
        (Call.update fun s => { s with allowlistPage := s.allowlistPage.set pageIdx scan.next })
      if scan.stoppedEarly then do
        let _ ← Call.orTrap (pageIdx.checkedAdd 1)
        Call.foldEach countLater scan.unexaminedInPage later
      else prunePages now maxRecords scan.examined later

def pruneExpired (env : Env Address) (admin : Address) (maxRecords : U32) : M Address U32 := do
  (administered Address).requireAdmin env admin
  let s ← Call.storage
  prunePages env.sequence maxRecords 0 (allowlistMeta s).1.upTo

/-! ## Administration and holding periods -/

def initializeContract (env : Env Address) (admin : Address) : M Address Unit := do
  let s ← Call.storage
  Call.panicIf (s.roles.admin ≠ none) .alreadyInitialized
  Call.requireAuth env admin
  Call.update fun s => { s with roles := { s.roles with admin := some admin } }
  Call.publish (.init admin)

def proposeAdmin (env : Env Address) (admin newAdmin : Address) : M Address Unit :=
  (administered Address).proposeAdmin env admin newAdmin

def cancelAdminProposal (env : Env Address) (admin : Address) : M Address Unit :=
  (administered Address).cancelAdminProposal env admin

def acceptAdmin (env : Env Address) (newAdmin : Address) : M Address Unit :=
  (administered Address).acceptAdmin env newAdmin

def setMinHoldingPeriod (env : Env Address) (admin holder : Address) (minLedgers : U64) : M Address Unit := do
  (administered Address).requireAdmin env admin
  Call.update fun s =>
    { s with minHoldingPeriod :=
        if minLedgers = 0 then s.minHoldingPeriod.remove holder else s.minHoldingPeriod.set holder minLedgers }
  Call.publish (.minhld holder minLedgers)

def recordAcquisition (env : Env Address) (admin holder : Address) : M Address Unit := do
  (administered Address).requireAdmin env admin
  let s ← Call.storage
  Call.onlyIf (s.firstAcquiredLedger.has holder = false) do
    Call.update fun s =>
      { s with firstAcquiredLedger := s.firstAcquiredLedger.set holder env.sequence.toU64 }
    Call.publish (.acquired holder env.sequence.toU64)

/-! ## Calls and runs -/

/-- The entry points that can change the contract or publish an event. -/
inductive Op (Address : Type)
  | initializeContract (admin : Address)
  | addToAllowlist (admin address : Address) (jurisdiction : Bytes) (expiresAt : U32)
  | addToAllowlistBatch (admin : Address) (entries : List (AllowlistEntry Address))
  | suspend (admin address : Address)
  | reinstate (admin address : Address)
  | remove (admin address : Address)
  | isAllowed (address : Address)
  | blockJurisdiction (admin : Address) (jurisdiction : Bytes)
  | unblockJurisdiction (admin : Address) (jurisdiction : Bytes)
  | pruneExpired (admin : Address) (maxRecords : U32)
  | proposeAdmin (admin newAdmin : Address)
  | cancelAdminProposal (admin : Address)
  | acceptAdmin (newAdmin : Address)
  | setMinHoldingPeriod (admin holder : Address) (minLedgers : U64)
  | recordAcquisition (admin holder : Address)

/-- What an entry point returns. -/
inductive Ret
  | unit
  | bool (b : Bool)
  | u32 (n : U32)
deriving DecidableEq

def call (env : Env Address) : Op Address → M Address Ret
  | .initializeContract admin => do initializeContract env admin; pure .unit
  | .addToAllowlist admin address jurisdiction expiresAt => do
    addToAllowlist env admin address jurisdiction expiresAt; pure .unit
  | .addToAllowlistBatch admin entries => do addToAllowlistBatch env admin entries; pure .unit
  | .suspend admin address => do suspend env admin address; pure .unit
  | .reinstate admin address => do reinstate env admin address; pure .unit
  | .remove admin address => do remove env admin address; pure .unit
  | .isAllowed address => do let b ← isAllowed env address; pure (.bool b)
  | .blockJurisdiction admin jurisdiction => do blockJurisdiction env admin jurisdiction; pure .unit
  | .unblockJurisdiction admin jurisdiction => do unblockJurisdiction env admin jurisdiction; pure .unit
  | .pruneExpired admin maxRecords => do let n ← pruneExpired env admin maxRecords; pure (.u32 n)
  | .proposeAdmin admin newAdmin => do proposeAdmin env admin newAdmin; pure .unit
  | .cancelAdminProposal admin => do cancelAdminProposal env admin; pure .unit
  | .acceptAdmin newAdmin => do acceptAdmin env newAdmin; pure .unit
  | .setMinHoldingPeriod admin holder minLedgers => do setMinHoldingPeriod env admin holder minLedgers; pure .unit
  | .recordAcquisition admin holder => do recordAcquisition env admin holder; pure .unit

/-- A deployed contract: its storage and the events it has published. -/
abbrev Contract (Address : Type) := Host (State Address) Unit (Event Address)

def Contract.fresh (Address : Type) : Contract Address := ⟨State.fresh Address, (), []⟩

/-- The compliance contract as a system of calls. -/
def compliance (Address : Type) [DecidableEq Address] : System (Contract Address) (Env Address × Op Address) Ret where
  step h l := (call l.1 l.2).returned h

/-- The answered calls of a run. -/
abbrev History (Address : Type) := List (Done (Contract Address) (Env Address × Op Address) Ret)

end StellarRwa.Compliance

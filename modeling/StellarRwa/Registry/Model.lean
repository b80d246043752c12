import StellarRwa.Lib.Storage
import StellarRwa.Lib.System
import StellarRwa.Handover

/-!
# The registry

The registry's storage, the entry points that write it and the views that read it page by page, under the source's
names. The registered token contracts are asked for their admin through `assetAdmin`, which reads the state of the other
contracts. Time-to-live extensions are left out: entries stay readable.
-/

namespace StellarRwa.Registry

open Lib

structure AssetEntry (Address : Type) where
  id : U64
  tokenContract : Address
  issuer : Address
  name : Bytes
  assetType : Bytes
  valuation : I128
  createdAt : U32
  active : Bool
deriving DecidableEq

inductive Error
  | alreadyInitialized
  | notInitialized
  | unauthorized
  | assetNotFound
  | invalidValuation
  | overflow
  | invalidInput
  | noPendingAdmin
  | duplicateAsset
deriving DecidableEq, Repr

inductive Event (Address : Type)
  | init (admin : Address)
  | register (issuer : Address) (id : U64)
  | deactvate (assetId : U64)
  | reactvate (assetId : U64)
  | valuation (assetId : U64) (oldValuation newValuation : I128)
  | proposed (admin newAdmin : Address)
  | cancelled (admin : Address)
  | setAdmin (oldAdmin newAdmin : Address)
deriving DecidableEq

/-- The storage, one field for each kind of `DataKey` that the contract writes. -/
structure State (Address : Type) where
  roles : Roles Address
  counter : Option U64
  activeCount : Option U64
  totalValuation : Option I128
  asset : Storage U64 (AssetEntry Address)
  issuerIndex : Storage Address (List U64)
  typeIndex : Storage Bytes (List U64)
  tokenContractIndex : Storage Address U64

/-- The storage of a contract that was just deployed. -/
def State.fresh (Address : Type) : State Address := ⟨⟨none, none⟩, none, none, none, ∅, ∅, ∅, ∅⟩

abbrev maxNameLen : Nat := 64

/-- The allowed asset types, as bytes: `real_estate`, `invoice`, `commodity`, `bond`, `equity`, `fund`. -/
def validAssetTypes : List Bytes :=
  [[114, 101, 97, 108, 95, 101, 115, 116, 97, 116, 101],
    [105, 110, 118, 111, 105, 99, 101],
    [99, 111, 109, 109, 111, 100, 105, 116, 121],
    [98, 111, 110, 100],
    [101, 113, 117, 105, 116, 121],
    [102, 117, 110, 100]]

variable {Address X : Type}

abbrev M (Address X α : Type) := Call (State Address) X (Event Address) Error α

def administered (Address : Type) : Administered Address (State Address) (Event Address) Error where
  roles := State.roles
  setRoles r s := { s with roles := r }
  notInitialized := .notInitialized
  unauthorized := .unauthorized
  noPendingAdmin := .noPendingAdmin
  proposed := .proposed
  cancelled := .cancelled
  setAdmin := .setAdmin

/-! ## Views -/

def totalValueLocked (s : State Address) : I128 := s.totalValuation.getD 0

def assetCount (s : State Address) : U64 := s.counter.getD 0

def activeCount (s : State Address) : U64 := s.activeCount.getD 0

def getTotalAssetCount (s : State Address) : U32 := (s.counter.getD 0).toU32

def getPendingAdmin (s : State Address) : Option Address := s.roles.pendingAdmin

def getAdmin : M Address X Address := (administered Address).getAdmin

/-- `index_ids` of an issuer or a type; an absent index is empty. -/
def indexIds {K : Type} [DecidableEq K] (index : Storage K (List U64)) (key : K) : List U64 := (index.get key).getD []

/-! ## Registration -/

def initializeRegistry (env : Env Address) (admin : Address) : M Address X Unit := do
  let s ← Call.storage
  Call.panicIf (s.roles.admin ≠ none) .alreadyInitialized
  Call.requireAuth env admin
  Call.update fun s => { s with roles := { s.roles with admin := some admin } }
  Call.update fun s => { s with counter := some 0 }
  Call.update fun s => { s with activeCount := some 0 }
  Call.update fun s => { s with totalValuation := some 0 }
  Call.publish (.init admin)

def assertInit : M Address X Unit := do
  let s ← Call.storage
  Call.panicIf (s.roles.admin = none) .notInitialized

/-- The byte-exact comparison with every allowed type. -/
def validateAssetType (assetType : Bytes) : M Address X Unit :=
  Call.panicIf (assetType ∉ validAssetTypes) .invalidInput

variable [DecidableEq Address]

/-- Append an id to the list at `key`. -/
def pushId {K : Type} [DecidableEq K] (index : Storage K (List U64)) (key : K) (id : U64) : Storage K (List U64) :=
  index.set key (indexIds index key ++ [id])

def registerAsset (env : Env Address) (issuer tokenContract : Address) (name assetType : Bytes) (valuation : I128) :
    M Address X U64 := do
  assertInit
  Call.requireAuth env issuer
  Call.panicIf (valuation < 0) .invalidValuation
  Call.panicIf (name.length = 0) .invalidInput
  Call.panicIf (maxNameLen < name.length) .invalidInput
  validateAssetType assetType
  let s ← Call.storage
  Call.panicIf (s.tokenContractIndex.has tokenContract = true) .duplicateAsset
  let id ← Call.orTrap ((assetCount s).checkedAdd 1)
  let entry : AssetEntry Address :=
    { id, tokenContract, issuer, name, assetType, valuation, createdAt := env.sequence, active := true }
  Call.update fun s => { s with asset := s.asset.set id entry }
  Call.update fun s => { s with tokenContractIndex := s.tokenContractIndex.set tokenContract id }
  Call.update fun s => { s with counter := some id }
  let s ← Call.storage
  let count ← Call.orTrap ((activeCount s).checkedAdd 1)
  Call.update fun s => { s with activeCount := some count }
  Call.update fun s => { s with issuerIndex := pushId s.issuerIndex entry.issuer id }
  Call.update fun s => { s with typeIndex := pushId s.typeIndex entry.assetType id }
  let s ← Call.storage
  let newTvl ← Call.unwrapOrElse ((totalValueLocked s).checkedAdd entry.valuation) .overflow
  Call.update fun s => { s with totalValuation := some newTvl }
  Call.publish (.register issuer id)
  pure id

/-! ## Pages -/

/-- The most entries that one call returns. -/
abbrev maxPageSize : U32 := 100

/-- `if let Some(entry) = storage.get(Asset(id)) { out.push_back(entry) }`. -/
def pushEntry (out : List (AssetEntry Address)) (id : U64) : M Address X (List (AssetEntry Address)) := do
  let s ← Call.storage
  match s.asset.get id with
  | some entry => pure (out ++ [entry])
  | none => pure out

/-- The entry of `ids.get(idx).unwrap()`. -/
def pushAt (ids : List U64) (out : List (AssetEntry Address)) (idx : U32) :
    M Address X (List (AssetEntry Address)) := do
  let id ← Call.orTrap ids[idx.val.toNat]?
  pushEntry out id

/-- The entries of a slice of an id list. The length of a host vector is a `u32`; the index stays below `end`, so
counting it up does not overflow. -/
def fetchAssetsPage (ids : List U64) (offset limit : U32) : M Address X (List (AssetEntry Address)) := do
  let total : U32 ← Call.orTrap (MInt.ofNat? ids.length)
  if total ≤ offset ∨ limit = 0 then pure []
  else
    let end_ := min total (offset.saturatingAdd limit)
    Call.foldEach (pushAt ids) [] (offset.between end_)

/-- A numbered page of the ids under `key`. -/
def fetchIndexPage {K : Type} [DecidableEq K] (index : State Address → Storage K (List U64)) (key : K)
    (page pageSize : U32) : M Address X (List (AssetEntry Address)) := do
  let s ← Call.storage
  let capped := min pageSize maxPageSize
  let offset := page.saturatingMul capped
  fetchAssetsPage (indexIds (index s) key) offset capped

def getAssetsByIssuer (issuer : Address) : M Address X (List (AssetEntry Address)) := do
  let s ← Call.storage
  fetchAssetsPage (indexIds s.issuerIndex issuer) 0 maxPageSize

def getAssetsByIssuerPage (issuer : Address) (page pageSize : U32) : M Address X (List (AssetEntry Address)) :=
  fetchIndexPage State.issuerIndex issuer page pageSize

def getAssetsByType (assetType : Bytes) : M Address X (List (AssetEntry Address)) := do
  let s ← Call.storage
  fetchAssetsPage (indexIds s.typeIndex assetType) 0 maxPageSize

def getAssetsByTypePage (assetType : Bytes) (page pageSize : U32) : M Address X (List (AssetEntry Address)) :=
  fetchIndexPage State.typeIndex assetType page pageSize

def getAllAssets (startId : U64) (limit : U32) : M Address X (List (AssetEntry Address)) := do
  let s ← Call.storage
  let start := max startId 1
  let cappedLimit := min limit maxPageSize
  let next ← Call.orTrap ((assetCount s).checkedAdd 1)
  let end_ := min (start.saturatingAdd cappedLimit.toU64) next
  Call.foldEach pushEntry [] (start.between end_)

/-- The page size of `get_assets_page` and `get_active_assets_page`: zero asks for the most. -/
def cappedSize (pageSize : U32) : U32 := if pageSize = 0 ∨ maxPageSize < pageSize then maxPageSize else pageSize

def getAssetsPage (startIndex pageSize : U32) : M Address X (List (AssetEntry Address)) := do
  let s ← Call.storage
  let counter := assetCount s
  if counter = 0 then pure []
  else
    let startId := startIndex.toU64.saturatingAdd 1
    if counter < startId then pure []
    else
      let endId := min (startId.saturatingAdd (cappedSize pageSize).toU64) (counter.saturatingAdd 1)
      Call.foldEach pushEntry [] (startId.between endId)

/-- The local variables of `get_active_assets_page`. -/
structure ActiveScan (Address : Type) where
  skipped : U32
  out : List (AssetEntry Address)

/-- One id of the scan: an entry with the flag asked for is skipped, or put out. -/
def scanEntry (startIndex : U32) (activeOnly : Bool) (scan : ActiveScan Address) (id : U64) :
    M Address X (ActiveScan Address) := do
  let s ← Call.storage
  match s.asset.get id with
  | some entry =>
    if entry.active = activeOnly then
      if scan.skipped < startIndex then do
        let skipped ← Call.orTrap (scan.skipped.checkedAdd 1)
        pure { scan with skipped }
      else pure { scan with out := scan.out ++ [entry] }
    else pure scan
  | none => pure scan

/-- `while id <= counter && out.len() < capped`. -/
def scanEntries (startIndex capped : U32) (activeOnly : Bool) :
    ActiveScan Address → List U64 → M Address X (ActiveScan Address)
  | scan, [] => pure scan
  | scan, id :: later => do
    if scan.out.length < capped.val then
      let scan ← scanEntry startIndex activeOnly scan id
      let _ ← Call.orTrap (id.checkedAdd 1)
      scanEntries startIndex capped activeOnly scan later
    else pure scan

def getActiveAssetsPage (startIndex pageSize : U32) (activeOnly : Bool) : M Address X (List (AssetEntry Address)) := do
  let s ← Call.storage
  let counter := assetCount s
  if counter = 0 then pure []
  else
    let scan ← scanEntries startIndex (cappedSize pageSize) activeOnly ⟨0, []⟩ (MInt.through 1 counter)
    pure scan.out

/-! ## Changing an entry -/

def loadAsset (assetId : U64) : M Address X (AssetEntry Address) := do
  let s ← Call.storage
  Call.unwrapOrElse (s.asset.get assetId) .assetNotFound

def getAsset (assetId : U64) : M Address X (AssetEntry Address) := loadAsset assetId

variable (assetAdmin : X → Address → Option Address)

def deactivateAsset (env : Env Address) (admin : Address) (assetId : U64) : M Address X Unit := do
  let entry ← loadAsset assetId
  (administered Address).requireAdminOrAssetAdmin assetAdmin env admin entry.tokenContract
  Call.onlyIf (entry.active = true) do
    Call.update fun s => { s with asset := s.asset.set assetId { entry with active := false } }
    Call.update fun s => { s with activeCount := some ((activeCount s).saturatingSub 1) }
    let s ← Call.storage
    let newTvl ← Call.unwrapOrElse ((totalValueLocked s).checkedSub entry.valuation) .overflow
    Call.update fun s => { s with totalValuation := some newTvl }
    Call.publish (.deactvate assetId)

/-- The change of the running total when an active entry is revalued. -/
def revalueTotal (oldValuation newValuation : I128) : M Address X Unit := do
  let s ← Call.storage
  let rest ← Call.unwrapOrElse ((totalValueLocked s).checkedSub oldValuation) .overflow
  let newTvl ← Call.unwrapOrElse (rest.checkedAdd newValuation) .overflow
  Call.update fun s => { s with totalValuation := some newTvl }

def updateValuation (env : Env Address) (admin : Address) (assetId : U64) (newValuation : I128) :
    M Address X Unit := do
  (administered Address).requireAdmin env admin
  Call.panicIf (newValuation < 0) .invalidValuation
  let entry ← loadAsset assetId
  Call.update fun s => { s with asset := s.asset.set assetId { entry with valuation := newValuation } }
  Call.onlyIf (entry.active = true) (revalueTotal entry.valuation newValuation)
  Call.publish (.valuation assetId entry.valuation newValuation)

def reactivateAsset (env : Env Address) (admin : Address) (assetId : U64) : M Address X Unit := do
  let entry ← loadAsset assetId
  (administered Address).requireAdminOrAssetAdmin assetAdmin env admin entry.tokenContract
  Call.onlyIf (entry.active = false) do
    Call.update fun s => { s with asset := s.asset.set assetId { entry with active := true } }
    let s ← Call.storage
    let count ← Call.orTrap ((activeCount s).checkedAdd 1)
    Call.update fun s => { s with activeCount := some count }
    let newTvl ← Call.unwrapOrElse ((totalValueLocked s).checkedAdd entry.valuation) .overflow
    Call.update fun s => { s with totalValuation := some newTvl }
    Call.publish (.reactvate assetId)

/-! ## Administration -/

def proposeAdmin (env : Env Address) (admin newAdmin : Address) : M Address X Unit :=
  (administered Address).proposeAdmin env admin newAdmin

def cancelAdminProposal (env : Env Address) (admin : Address) : M Address X Unit :=
  (administered Address).cancelAdminProposal env admin

def acceptAdmin (env : Env Address) (newAdmin : Address) : M Address X Unit :=
  (administered Address).acceptAdmin env newAdmin

/-! ## Calls -/

/-- The entry points that can change the contract. -/
inductive Op (Address : Type)
  | initializeRegistry (admin : Address)
  | registerAsset (issuer tokenContract : Address) (name assetType : Bytes) (valuation : I128)
  | deactivateAsset (admin : Address) (assetId : U64)
  | updateValuation (admin : Address) (assetId : U64) (newValuation : I128)
  | reactivateAsset (admin : Address) (assetId : U64)
  | proposeAdmin (admin newAdmin : Address)
  | cancelAdminProposal (admin : Address)
  | acceptAdmin (newAdmin : Address)

/-- The id that a registration returns; nothing for the other entry points. -/
abbrev Ret := Option U64

def call (env : Env Address) : Op Address → M Address X Ret
  | .initializeRegistry admin => do initializeRegistry env admin; pure none
  | .registerAsset issuer tokenContract name assetType valuation => do
    let id ← registerAsset env issuer tokenContract name assetType valuation
    pure (some id)
  | .deactivateAsset admin assetId => do deactivateAsset assetAdmin env admin assetId; pure none
  | .updateValuation admin assetId newValuation => do updateValuation env admin assetId newValuation; pure none
  | .reactivateAsset admin assetId => do reactivateAsset assetAdmin env admin assetId; pure none
  | .proposeAdmin admin newAdmin => do proposeAdmin env admin newAdmin; pure none
  | .cancelAdminProposal admin => do cancelAdminProposal env admin; pure none
  | .acceptAdmin newAdmin => do acceptAdmin env newAdmin; pure none

/-- A deployed registry: its storage, the other contracts, and the events it has published. -/
abbrev Contract (Address X : Type) := Host (State Address) X (Event Address)

def Contract.fresh (Address : Type) {X : Type} (x : X) : Contract Address X := ⟨State.fresh Address, x, []⟩

/-- A call of the registry, or anything the other contracts do. -/
inductive Label (Address X : Type)
  | call (env : Env Address) (op : Op Address)
  | others (x : X)

/-- The registry as a system of calls, among other contracts that change at will. -/
def registry : System (Contract Address X) (Label Address X) Ret where
  step h
    | .call env op => (call assetAdmin env op).returned h
    | .others x => some (none, { h with outside := x })

end StellarRwa.Registry

import StellarRwa.Lib.MachineInt
import StellarRwa.Lib.Storage
import StellarRwa.Lib.Call
import StellarRwa.Lib.Alike
import StellarRwa.Lib.System
import StellarRwa.Lib.Refinement
import StellarRwa.Lib.Succession
import StellarRwa.Lib.Roster
import StellarRwa.Lib.Book
import StellarRwa.Lib.Index
import StellarRwa.Lib.Numbering
import StellarRwa.Lib.Shares
import StellarRwa.Lib.Sweep
import StellarRwa.Lib.Paging
import StellarRwa.Lib.Indexer
import StellarRwa.Lib.Lapsing
import StellarRwa.Lib.Blind
import StellarRwa.Lib.Visit
import StellarRwa.Handover
import StellarRwa.Notices
import StellarRwa.Compliance.Jurisdiction
import StellarRwa.Compliance.Model
import StellarRwa.Compliance.Spec
import StellarRwa.Compliance.Frame
import StellarRwa.Compliance.Pages
import StellarRwa.Compliance.Prune
import StellarRwa.Compliance.Allowlist
import StellarRwa.Compliance.Listing
import StellarRwa.Compliance.Gate
import StellarRwa.Compliance.Bars
import StellarRwa.Compliance.Blocked
import StellarRwa.Compliance.Lockup
import StellarRwa.Compliance.Batch
import StellarRwa.Compliance.Pruning
import StellarRwa.Compliance.Sweeps
import StellarRwa.Compliance.EventLog
import StellarRwa.Compliance.Transitions
import StellarRwa.Compliance.Indexer
import StellarRwa.Compliance.Clearing
import StellarRwa.Compliance.Housekeeping
import StellarRwa.Token.Model
import StellarRwa.Token.Spec
import StellarRwa.Token.Metadata
import StellarRwa.Token.Allowance
import StellarRwa.Token.Temporary
import StellarRwa.Token.Ledger
import StellarRwa.Token.Conservation
import StellarRwa.Token.Gated
import StellarRwa.Token.Questions
import StellarRwa.Token.Overflow
import StellarRwa.Token.Valuation
import StellarRwa.Network
import StellarRwa.Lockup
import StellarRwa.Token.Batches
import StellarRwa.Token.Delegated
import StellarRwa.Token.PostBalances
import StellarRwa.Token.Exposure
import StellarRwa.Token.Indexer
import StellarRwa.Fuzz.Harness
import StellarRwa.Fuzz.TransferBatch
import StellarRwa.Registry.Model
import StellarRwa.Registry.Spec
import StellarRwa.Registry.Totals
import StellarRwa.Registry.Overflow
import StellarRwa.Registry.Independence
import StellarRwa.Registry.Indexes
import StellarRwa.Registry.Pages
import StellarRwa.Registry.Walks
import StellarRwa.Registry.Delisting
import StellarRwa.Registry.Visits
import StellarRwa.Registry.Indexer
import StellarRwa.Dividend.Model
import StellarRwa.Dividend.Spec
import StellarRwa.Dividend.Lifecycle
import StellarRwa.Dividend.Indexes
import StellarRwa.Dividend.Phases
import StellarRwa.Dividend.Tokens
import StellarRwa.Dividend.Escrow
import StellarRwa.Dividend.Claims
import StellarRwa.Dividend.Accounting
import StellarRwa.Dividend.Funding
import StellarRwa.Succession
import StellarRwa.Dividend.Recovery
import StellarRwa.Dividend.Dust
import StellarRwa.Dividend.Snapshot
import StellarRwa.Dividend.Claimable
import StellarRwa.Dividend.Indexer
import StellarRwa.Deployment.Ledger
import StellarRwa.Deployment.Model
import StellarRwa.Deployment.Projection
import StellarRwa.Deployment.Escrow
import StellarRwa.Deployment.Gate
import StellarRwa.Deployment.Snapshot
import StellarRwa.Deployment.Custody
import StellarRwa.Deployment.Opening
import StellarRwa.Deployment.Twins
import StellarRwa.Deployment.Housekeeping

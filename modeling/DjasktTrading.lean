import DjasktTrading.Reasoning.Rounding
import DjasktTrading.Reasoning.Numerals
import DjasktTrading.Reasoning.Runs
import DjasktTrading.Reasoning.Purge
import DjasktTrading.Reasoning.Slots
import DjasktTrading.Reasoning.Entries
import DjasktTrading.Reasoning.Transactions
import DjasktTrading.Reasoning.Progress
import DjasktTrading.Reasoning.Pages
import DjasktTrading.Reasoning.Tallies
import DjasktTrading.Reasoning.Throttle
import DjasktTrading.Reasoning.Scopes
import DjasktTrading.Reasoning.Latch
import DjasktTrading.Reasoning.Mailbox
import DjasktTrading.Ledger.Models
import DjasktTrading.Ledger.PriceService
import DjasktTrading.Ledger.TradeService
import DjasktTrading.Ledger.CashService
import DjasktTrading.Ledger.Tables
import DjasktTrading.Ledger.Commits
import DjasktTrading.Ledger.Jobs
import DjasktTrading.Ledger.Solvency
import DjasktTrading.Ledger.Reconstruction
import DjasktTrading.Ledger.MoneyPump
import DjasktTrading.Ledger.MainService
import DjasktTrading.Ledger.Statements
import DjasktTrading.Reasoning.Clock
import DjasktTrading.Reasoning.Expiry
import DjasktTrading.Reasoning.Reordering
import DjasktTrading.Ledger.Concurrency
import DjasktTrading.Ledger.Deadlock
import DjasktTrading.Ledger.Interleaving
import DjasktTrading.Ledger.Serializability
import DjasktTrading.Ledger.Atomicity
import DjasktTrading.Ledger.Idempotency
import DjasktTrading.Ledger.Reporting
import DjasktTrading.Ledger.Isolation
import DjasktTrading.Ledger.Liveness
import DjasktTrading.Ledger.History
import DjasktTrading.Ledger.Drift
import DjasktTrading.Ledger.Accuracy
import DjasktTrading.Ledger.Timeline
import DjasktTrading.Ledger.Pagination
import DjasktTrading.Ledger.Uuids
import DjasktTrading.Ledger.Views
import DjasktTrading.Ledger.Freshness
import DjasktTrading.Ledger.Recency
import DjasktTrading.Ledger.Renderings
import DjasktTrading.Ledger.AuditRows
import DjasktTrading.Realtime.Messages
import DjasktTrading.Client.PortfolioStream
import DjasktTrading.Ledger.Convergence
import DjasktTrading.Client.TradeExecution
import DjasktTrading.Client.StreamLifecycle
import DjasktTrading.Brokerage.Models
import DjasktTrading.Ledger.PricePayload
import DjasktTrading.Brokerage.SessionCache
import DjasktTrading.Brokerage.Strategies
import DjasktTrading.Brokerage.Orchestrator
import DjasktTrading.Brokerage.Router
import DjasktTrading.Brokerage.Links
import DjasktTrading.Brokerage.Logging
import DjasktTrading.Brokerage.Isolation
import DjasktTrading.Brokerage.Outcomes
import DjasktTrading.Brokerage.Concurrency
import DjasktTrading.Brokerage.Midnight
import DjasktTrading.Brokerage.Cooldown
import DjasktTrading.Brokerage.Provenance
import DjasktTrading.Accounts.TokenDenylist
import DjasktTrading.Accounts.Api
import DjasktTrading.Accounts.Sessions
import DjasktTrading.Accounts.LogoutAll
import DjasktTrading.Accounts.Revocation
import DjasktTrading.Accounts.FreshLogin
import DjasktTrading.Accounts.TokenRequests
import DjasktTrading.Accounts.Rotation
import DjasktTrading.Accounts.Signup
import DjasktTrading.Accounts.Creations
import DjasktTrading.Accounts.Duplicates
import DjasktTrading.Accounts.Winners
import DjasktTrading.Accounts.Acceptance
import DjasktTrading.Accounts.Lineage
import DjasktTrading.Realtime.Auth
import DjasktTrading.Realtime.Consumers
import DjasktTrading.Realtime.Ownership
import DjasktTrading.Realtime.Groups
import DjasktTrading.Realtime.Snapshots
import DjasktTrading.Realtime.Closing
import DjasktTrading.Realtime.Handshake
import DjasktTrading.Realtime.Relay
import DjasktTrading.Service.Requests
import DjasktTrading.Service.Authorization
import DjasktTrading.Extensions.Logger
import DjasktTrading.Extensions.Emission
import DjasktTrading.Extensions.RequestContext
import DjasktTrading.Extensions.Vault
import DjasktTrading.Extensions.RedisClient
import DjasktTrading.Extensions.QueueLogging

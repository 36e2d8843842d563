import PayzenoLedger.Consumers.Charges
import PayzenoLedger.Consumers.Convergence
import PayzenoLedger.Consumers.Defaults
import PayzenoLedger.Consumers.Disputes
import PayzenoLedger.Consumers.Holds
import PayzenoLedger.Ledger.Adjustments
import PayzenoLedger.Ledger.Audits
import PayzenoLedger.Ledger.BalanceCache
import PayzenoLedger.Ledger.Passes
import PayzenoLedger.Ledger.ReserveAccount
import PayzenoLedger.Ledger.Reversals
import PayzenoLedger.Api.Repeats
import PayzenoLedger.Settlement.Captures
import PayzenoLedger.Settlement.Exclusion
import PayzenoLedger.Settlement.Filing
import PayzenoLedger.Settlement.Ladders
import PayzenoLedger.Settlement.LineTypes
import PayzenoLedger.Settlement.Matching
import PayzenoLedger.Settlement.Outcomes
import PayzenoLedger.Settlement.PostedTotals
import PayzenoLedger.Settlement.Reconciled
import PayzenoLedger.Settlement.Totals
import PayzenoLedger.Workers.OutboxDrain
import PayzenoLedger.Settlement.Variances
import PayzenoLedger.Domain.Registry
import PayzenoLedger.Domain.Fx
import PayzenoLedger.Clients.Breaker
import PayzenoLedger.Settlement.Routing
import PayzenoLedger.Payouts.Arrivals
import PayzenoLedger.Settlement.MatchWalk
import PayzenoLedger.Payouts.References
import PayzenoLedger.Settlement.Fundings
import PayzenoLedger.Settlement.Intents
import PayzenoLedger.Domain.Fees
import PayzenoLedger.Domain.Quotes
import PayzenoLedger.Settlement.CsvFiles
import PayzenoLedger.Settlement.FixedWidthFiles
import PayzenoLedger.Domain.Splits
import PayzenoLedger.Repositories.Pages
import PayzenoLedger.Services.Balances
import PayzenoLedger.Ledger.BalanceHistory
import PayzenoLedger.Middleware.Redaction
import PayzenoLedger.Middleware.Bodies
import PayzenoLedger.Middleware.Cards
import PayzenoLedger.Middleware.Fields
import PayzenoLedger.Middleware.Masking
import PayzenoLedger.Payouts.Runs
import PayzenoLedger.Consumers.Inbox
import PayzenoLedger.Logging
import PayzenoLedger.Services.RateTables

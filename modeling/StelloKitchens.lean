import StelloKitchens.Accounts.Changes
import StelloKitchens.Accounts.Escalation
import StelloKitchens.Accounts.Kept
import StelloKitchens.Accounts.Links
import StelloKitchens.Accounts.OneTime
import StelloKitchens.Accounts.Owners
import StelloKitchens.Accounts.Roles
import StelloKitchens.Accounts.Store
import StelloKitchens.Billing.BillSeries
import StelloKitchens.Billing.Discipline
import StelloKitchens.Billing.Dividing
import StelloKitchens.Billing.EdgeBills
import StelloKitchens.Billing.Effects
import StelloKitchens.Billing.FaceValue
import StelloKitchens.Billing.Frames
import StelloKitchens.Billing.Loyalty
import StelloKitchens.Billing.Menu
import StelloKitchens.Billing.Moving
import StelloKitchens.Billing.OpenBills
import StelloKitchens.Billing.Opening
import StelloKitchens.Billing.OrderOps
import StelloKitchens.Billing.Orders
import StelloKitchens.Billing.OtpUses
import StelloKitchens.Billing.PointsLedger
import StelloKitchens.Billing.Previews
import StelloKitchens.Billing.Requests
import StelloKitchens.Billing.Safety
import StelloKitchens.Billing.Settle
import StelloKitchens.Billing.Store
import StelloKitchens.Billing.Touches
import StelloKitchens.Cloud.Batch
import StelloKitchens.Cloud.Deliveries
import StelloKitchens.Cloud.Exchange
import StelloKitchens.Cloud.Ingest
import StelloKitchens.Cloud.Kitchen
import StelloKitchens.Cloud.Orders
import StelloKitchens.Cloud.PrepTimes
import StelloKitchens.Cloud.Redelivery
import StelloKitchens.Cloud.Sale
import StelloKitchens.Cloud.SaleRows
import StelloKitchens.Cloud.Store
import StelloKitchens.Cloud.StoredSale
import StelloKitchens.Cloud.Sync
import StelloKitchens.Cloud.TwoPaths
import StelloKitchens.Connector.EndStates
import StelloKitchens.Connector.Ingest
import StelloKitchens.Connector.IngestedOnce
import StelloKitchens.Connector.Queue
import StelloKitchens.Edge.BillNumbers
import StelloKitchens.Edge.Catalog
import StelloKitchens.Edge.ClosedOrders
import StelloKitchens.Edge.Engine
import StelloKitchens.Edge.InvoiceSeries
import StelloKitchens.Edge.Ledger
import StelloKitchens.Edge.LedgerInvariant
import StelloKitchens.Edge.Lifecycle
import StelloKitchens.Edge.Order
import StelloKitchens.Edge.OrderInvariant
import StelloKitchens.Edge.PinLogin
import StelloKitchens.Edge.Push
import StelloKitchens.Edge.Retention
import StelloKitchens.Edge.Simulation
import StelloKitchens.Edge.Store
import StelloKitchens.Edge.Wire
import StelloKitchens.Feed.Pulls
import StelloKitchens.Feed.Server
import StelloKitchens.Finance.Additive
import StelloKitchens.Finance.ProfitAndLoss
import StelloKitchens.Inventory.AverageCost
import StelloKitchens.Inventory.Effects
import StelloKitchens.Inventory.Procurement
import StelloKitchens.Inventory.Stock
import StelloKitchens.Inventory.Stocktakes
import StelloKitchens.Inventory.Units
import StelloKitchens.Invoices.HsnSummary
import StelloKitchens.Invoices.Reconciles
import StelloKitchens.Invoices.StoredFigures
import StelloKitchens.Invoices.TallyVouchers
import StelloKitchens.Lib.Apportion
import StelloKitchens.Lib.Binary64
import StelloKitchens.Lib.ChangeFeed
import StelloKitchens.Lib.Changes
import StelloKitchens.Lib.Checked
import StelloKitchens.Lib.Csv
import StelloKitchens.Lib.Decimal
import StelloKitchens.Lib.DecimalError
import StelloKitchens.Lib.EscPos
import StelloKitchens.Lib.Grouping
import StelloKitchens.Lib.Guarded
import StelloKitchens.Lib.Journal
import StelloKitchens.Lib.KeyedTable
import StelloKitchens.Lib.Ledger
import StelloKitchens.Lib.Machine
import StelloKitchens.Lib.Numbering
import StelloKitchens.Lib.Obligations
import StelloKitchens.Lib.Process
import StelloKitchens.Lib.Queries
import StelloKitchens.Lib.RoundingError
import StelloKitchens.Lib.RoundingOrder
import StelloKitchens.Lib.Sequential
import StelloKitchens.Lib.Transaction
import StelloKitchens.Lib.Triples
import StelloKitchens.Lib.Words
import StelloKitchens.LowStock.Alerts
import StelloKitchens.LowStock.Changes
import StelloKitchens.LowStock.Sweeps
import StelloKitchens.Messaging.Campaigns
import StelloKitchens.Messaging.Changes
import StelloKitchens.Messaging.OptOuts
import StelloKitchens.Messaging.Outbox
import StelloKitchens.Messaging.Rates
import StelloKitchens.Messaging.Receipts
import StelloKitchens.Messaging.Senders
import StelloKitchens.Messaging.Sending
import StelloKitchens.Mfa.Base32
import StelloKitchens.Mfa.Changes
import StelloKitchens.Mfa.Kept
import StelloKitchens.Mfa.Service
import StelloKitchens.Mfa.SingleUse
import StelloKitchens.Mfa.StaysOn
import StelloKitchens.Mfa.Totp
import StelloKitchens.Payments.Captures
import StelloKitchens.Payments.CardLedger
import StelloKitchens.Payments.ClosedDrawers
import StelloKitchens.Payments.Collections
import StelloKitchens.Payments.Drawer
import StelloKitchens.Payments.GiftCards
import StelloKitchens.Payments.Parts
import StelloKitchens.Payments.RefundBalance
import StelloKitchens.Payments.RefundTerms
import StelloKitchens.Payments.Refunds
import StelloKitchens.Payments.Requests
import StelloKitchens.Payments.Store
import StelloKitchens.Payments.Touches
import StelloKitchens.Payments.Webhooks
import StelloKitchens.Printing.BillDocument
import StelloKitchens.Printing.BillFoots
import StelloKitchens.Printing.Claims
import StelloKitchens.Printing.Document
import StelloKitchens.Printing.Jobs
import StelloKitchens.Printing.Layout
import StelloKitchens.Printing.Stream
import StelloKitchens.Printing.TaxLines
import StelloKitchens.Printing.Wrapping
import StelloKitchens.ReportExport.Csv
import StelloKitchens.ReportExport.Schedules
import StelloKitchens.Reports.Sales
import StelloKitchens.Reports.SalesCounts
import StelloKitchens.Reservations.Bookings
import StelloKitchens.Reservations.Tables
import StelloKitchens.SaasBilling.Acknowledged
import StelloKitchens.SaasBilling.Calendar
import StelloKitchens.SaasBilling.Changes
import StelloKitchens.SaasBilling.Commits
import StelloKitchens.SaasBilling.Invoices
import StelloKitchens.SaasBilling.Lifecycle
import StelloKitchens.SaasBilling.Outcomes
import StelloKitchens.SaasBilling.PaidPeriods
import StelloKitchens.SaasBilling.Periods
import StelloKitchens.SaasBilling.Renewals
import StelloKitchens.SaasBilling.Series
import StelloKitchens.SaasBilling.Standing
import StelloKitchens.SaasBilling.Subscriptions
import StelloKitchens.ScanOrder.Decisions
import StelloKitchens.ScanOrder.Requests
import StelloKitchens.ScanOrder.Tokens
import StelloKitchens.Shared.Allocation
import StelloKitchens.Shared.Amount
import StelloKitchens.Shared.BillFigures
import StelloKitchens.Shared.BillNumber
import StelloKitchens.Shared.Billing
import StelloKitchens.Shared.Cents
import StelloKitchens.Shared.Coupon
import StelloKitchens.Shared.EdgeFeed
import StelloKitchens.Shared.EdgeProtocol
import StelloKitchens.Shared.FairShares
import StelloKitchens.Shared.JsText
import StelloKitchens.Shared.Money
import StelloKitchens.Shared.MoneyOrder
import StelloKitchens.Shared.Permissions
import StelloKitchens.Shared.Service
import StelloKitchens.Staff.Roster
import StelloKitchens.Staff.Swaps
import StelloKitchens.Sync.Figures
import StelloKitchens.Sync.Pull
import StelloKitchens.TenantScope.Client
import StelloKitchens.TenantScope.Isolation
import StelloKitchens.Webhooks.Attempts
import StelloKitchens.Webhooks.Deliveries
import StelloKitchens.Webhooks.Serialised
import StelloKitchens.Webhooks.Stranded
import StelloKitchens.Webhooks.Workers

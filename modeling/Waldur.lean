import Waldur.Lib.Table
import Waldur.Lib.Decimal
import Waldur.Lib.Calendar
import Waldur.Lib.Runs
import Waldur.Lib.Journal
import Waldur.Lib.Waterfall
import Waldur.Invoices.Models
import Waldur.Invoices.CreditSave
import Waldur.Invoices.CreditLedger
import Waldur.Invoices.Allocation
import Waldur.Invoices.Expiry
import Waldur.Invoices.Compensations
import Waldur.Invoices.CompensationRun
import Waldur.Invoices.Overdraft
import Waldur.Invoices.Handlers
import Waldur.Invoices.SaveSeries
import Waldur.Invoices.CompensationSave
import Waldur.Invoices.LedgerHistory
import Waldur.Invoices.Withdrawable
import Waldur.Invoices.Settlement
import Waldur.Invoices.MonthClose
import Waldur.Invoices.Rollback
import Waldur.Invoices.Restore
import Waldur.Marketplace.BillingDiscount
import Waldur.Marketplace.TotalLimit
import Waldur.Lib.Clock
import Waldur.Marketplace.LimitPeriods
import Waldur.Invoices.Termination
import Waldur.Marketplace.LimitQuantity
import Waldur.Marketplace.BillingUsage
import Waldur.Marketplace.Overage
import Waldur.Marketplace.ResourceTermination
import Waldur.Marketplace.Billing
import Waldur.Marketplace.AnnualBilling
import Waldur.Marketplace.AnnualRun
import Waldur.Marketplace.BillingChanges
import Waldur.Marketplace.FrozenInvoices
import Waldur.Policies.Evaluation
import Waldur.Policies.Lockout
import Waldur.Policies.Workers
import Waldur.Policies.Orphans
import Waldur.Policies.Costs
import Waldur.Policies.Preflight
import Waldur.Policies.Agreement
import Waldur.Lib.Reservations
import Waldur.Marketplace.PosixIds
import Waldur.Marketplace.PosixNumbers
import Waldur.Invoices.Concurrency
import Waldur.Invoices.LostUpdates
import Waldur.Marketplace.PosixWithheld
import Waldur.Checklist.Models
import Waldur.Lib.Digraph
import Waldur.Checklist.Dependencies
import Waldur.Checklist.Completion
import Waldur.Lib.Intervals
import Waldur.Marketplace.AutoApproval
import Waldur.Booking.Models
import Waldur.Booking.Processor
import Waldur.Booking.Calendar
import Waldur.Lib.Documents
import Waldur.OfferingMerge.Coverage
import Waldur.Lib.Repointing
import Waldur.OfferingMerge.Renames
import Waldur.OfferingMerge.Context
import Waldur.OfferingMerge.Snapshots
import Waldur.OfferingMerge.Execute
import Waldur.Checklist.Branches
import Waldur.Lib.TableCounts
import Waldur.Permissions.Models
import Waldur.Autoprovisioning.DryRun
import Waldur.Permissions.Grants
import Waldur.Permissions.ProjectManagers
import Waldur.Permissions.ConcurrentGrants
import Waldur.Proposals.CallRounds
import Waldur.Proposals.CallTransfer
import Waldur.Proposals.Workflow
import Waldur.Proposals.Progress
import Waldur.Proposals.Stranded
import Waldur.Policies.Debounce
import Waldur.Scim.GroupPatch
import Waldur.Permissions.PatFiltering
import Waldur.OfferingMerge.Remains
import Waldur.OfferingMerge.Verification
import Waldur.OfferingMerge.Undo
import Waldur.Lib.PythonDigits
import Waldur.Proposals.AwardIds
import Waldur.Lib.PythonFractions
import Waldur.Marketplace.DerivedLimits
import Waldur.Invoices.Forecast
import Waldur.Lib.CalendarMonths
import Waldur.Marketplace.PrepaidWindows
import Waldur.Chat.StreamParser
import Waldur.Chat.Cuts
import Waldur.Chat.ChunkBoundaries
import Waldur.Chat.KeptContent
import Waldur.Quotas.CounterRuns
import Waldur.Quotas.Models
import Waldur.Quotas.Aggregation
import Waldur.Quotas.Validation
import Waldur.Scim.SshKeys
import Waldur.Scim.UserPatch
import Waldur.Promotions.Campaigns
import Waldur.Invoices.Apportionment
import Waldur.Policies.UsagePolicies
import Waldur.Lib.TwoRateLine
import Waldur.Policies.Eta
import Waldur.Policies.SlurmPreview
import Waldur.Promotions.Discounts
import Waldur.Quotas.SetUsage
import Waldur.Marketplace.FormulaGrammar
import Waldur.Lib.Dependencies
import Waldur.Marketplace.DerivedSums
import Waldur.Lib.Doubles
import Waldur.Marketplace.LimitClamping
import Waldur.OfferingMerge.RoundTrip
import Waldur.Lib.CheckDigits
import Waldur.Proposals.Mistyping
import Waldur.Lib.DateRange
import Waldur.OpenPortal.AwardPace
import Waldur.Lib.Grouping
import Waldur.Permissions.RoleIndex
import Waldur.Lib.FirstFree
import Waldur.Marketplace.ProjectGroups
import Waldur.Lib.UnicodeEscape
import Waldur.Lib.JsonLiterals
import Waldur.Scim.Filters
import Waldur.Scim.FilterLiterals
import Waldur.Scim.FilterGrammar
import Waldur.Lib.PythonValues
import Waldur.Checklist.Operators
import Waldur.Lib.GroupedPeaks
import Waldur.Lib.TablePairs
import Waldur.Lib.TableUpserts
import Waldur.Marketplace.OrderReviews
import Waldur.Marketplace.PlanPeriods
import Waldur.Marketplace.UsageLimits
import Waldur.Lib.Amounts
import Waldur.Lib.Pledges
import Waldur.Marketplace.CounterNames
import Waldur.Marketplace.Reallocations
import Waldur.Users.Invitations
import Waldur.Marketplace.ResourceOrders
import Waldur.Lib.Cascades
import Waldur.Marketplace.ConditionalOptions
import Waldur.Lib.TableClaims
import Waldur.Marketplace.UniqueOptions
import Waldur.Marketplace.CourseAccounts

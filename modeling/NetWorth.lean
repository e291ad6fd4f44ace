import NetWorth.Assembly
import NetWorth.Settings.Document
import NetWorth.Source
import NetWorth.Trajectory.Document
import NetWorth.Proofs.NameMap
import NetWorth.Proofs.Attempt
import NetWorth.Proofs.Case
import NetWorth.Proofs.Reconciliation.Join
import NetWorth.Proofs.Reconciliation.Verdict
import NetWorth.Proofs.Calendar.Order
import NetWorth.Proofs.Possession
import NetWorth.Proofs.Reconciliation.Pairing
import NetWorth.Proofs.Declaration.Frame
import NetWorth.Proofs.Declaration.Isolation
import NetWorth.Proofs.Declaration.Scoping
import NetWorth.Proofs.Declaration.Typing
import NetWorth.Proofs.Declaration.Dating
import NetWorth.Proofs.Reconciliation.Labeling
import NetWorth.Proofs.Reconciliation.Rounds
import NetWorth.Proofs.Reconciliation.Apart
import NetWorth.Proofs.Amount
import NetWorth.Proofs.Flow
import NetWorth.Proofs.Decimal.Packing
import NetWorth.Proofs.Decimal.Whole
import NetWorth.Proofs.Law
import NetWorth.Proofs.Reconciliation.Redating
import NetWorth.Proofs.Trajectory
import NetWorth.Pipeline
import NetWorth.Proofs.Declaration.Failure
import NetWorth.Proofs.Declaration.Sharing
import NetWorth.Proofs.Numeral
import NetWorth.Proofs.Pipeline
import NetWorth.Proofs.Calendar.DateText
import NetWorth.Proofs.Export
import NetWorth.Proofs.Declaration.Document
import NetWorth.Proofs.Reconciliation.Naming
import NetWorth.Proofs.Flow.Paydays
import NetWorth.Proofs.Scope.FrameLog
import NetWorth.Proofs.Calendar.Shift
import NetWorth.Proofs.Calendar.Offset
import NetWorth.Proofs.Calendar.Timeline
import NetWorth.Proofs.Flow.Stretches
import NetWorth.Proofs.Amount.Total
import NetWorth.Proofs.Estate
import NetWorth.Proofs.Objective
import NetWorth.Proofs.Trajectory.Conservation
import NetWorth.Proofs.Expr.Construction
import NetWorth.Proofs.Asset

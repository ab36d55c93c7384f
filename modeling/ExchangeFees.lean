import ExchangeFees.Checked.Chain
import ExchangeFees.Demo
import ExchangeFees.Main
import ExchangeFees.Session
import ExchangeFees.Proofs.Fill.Amm
import ExchangeFees.Proofs.Session.Conservation
import ExchangeFees.Proofs.Session.Solvency
import ExchangeFees.Proofs.Fill.Matched
import ExchangeFees.Proofs.Fill.Venue
import ExchangeFees.Proofs.Terms
import ExchangeFees.Proofs.Checked.Chain
import ExchangeFees.Proofs.Fill.Trade
import ExchangeFees.Proofs.Record.Build
import ExchangeFees.Proofs.Schedule.Construction
import ExchangeFees.Proofs.Schedule.File
import ExchangeFees.Proofs.CommandLine.Response
import ExchangeFees.Proofs.Fill.Agreement
import ExchangeFees.Proofs.Reward.Curve
import ExchangeFees.Proofs.Fill.Funding
import ExchangeFees.Proofs.Session.Loss
import ExchangeFees.Proofs.Session.Frame
import ExchangeFees.Proofs.Session.Domination
import ExchangeFees.Proofs.Session.Erasure
import ExchangeFees.Proofs.Session.Reordering
import ExchangeFees.Proofs.Paused
import ExchangeFees.Proofs.Session.Pausing
import ExchangeFees.Proofs.Root.Iteration
import ExchangeFees.Proofs.Reward.Monotone
import ExchangeFees.Proofs.Json.Reader
import ExchangeFees.Proofs.CommandLine.Output
import ExchangeFees.Proofs.Quote
import ExchangeFees.Proofs.CommandLine.Answer
import ExchangeFees.Proofs.Fill.Carving
import ExchangeFees.Proofs.Fill.Monotone
import ExchangeFees.Proofs.Fill.Surplus
import ExchangeFees.Proofs.Fill.Wrapping
import ExchangeFees.Proofs.Share.Splitting
import ExchangeFees.Proofs.Schedule.Format
import ExchangeFees.Proofs.Text.Numeral
import ExchangeFees.Proofs.Quote.Restoring
import ExchangeFees.Proofs.Fill.Tracing
import ExchangeFees.Proofs.Trace

import Bourse.Feed.Provider
import Bourse.Ledger.Office
import Bourse.Main
import Bourse.Proofs.Bus.Lane
import Bourse.Proofs.Bus.Lifecycle
import Bourse.Proofs.Floor.Coherence
import Bourse.Proofs.Floor.Holdings
import Bourse.Proofs.Floor.Openings
import Bourse.Proofs.Floor.Refusals
import Bourse.Proofs.Intake.Delivery
import Bourse.Proofs.Intake.Leaving
import Bourse.Proofs.Intake.Retrying
import Bourse.Proofs.Intake.Settling
import Bourse.Proofs.Ledger.Forgetting
import Bourse.Proofs.Amount.Conversion
import Bourse.Proofs.Amount.Order
import Bourse.Proofs.Amount.Quotients
import Bourse.Proofs.Amount.Sums
import Bourse.Proofs.Amount.Writing
import Bourse.Proofs.Portfolio.Marking
import Bourse.Proofs.Portfolio.Settlement
import Bourse.Proofs.Portfolio.Worth
import Bourse.Proofs.Quotes.Desks
import Bourse.Proofs.Service.Callers
import Bourse.Proofs.Service.Cash
import Bourse.Proofs.Service.Stopping
import Bourse.Proofs.Signal.Waiting
import Bourse.Proofs.Throttle.Listening
import Bourse.Proofs.Valuation.Episodes
import Bourse.Proofs.Valuation.Tasks
import Bourse.Proofs.Ledger.Tidy
import Bourse.Proofs.Floor.Order
import Bourse.Proofs.Documents
import Bourse.Proofs.Service.Streams
import Bourse.Proofs.Service.Unbroken

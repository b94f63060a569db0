import Pushdown.Main
import Pushdown.Proofs.Automaton.RoundTrip
import Pushdown.Proofs.Simulation.Replay
import Pushdown.Proofs.Simulation.Verdict
import Pushdown.Proofs.Run.Agreement
import Pushdown.Proofs.Automaton.Moves
import Pushdown.Proofs.Run.Termination
import Pushdown.Proofs.Simulation.Bottom
import Pushdown.Proofs.Simulation.Confined
import Pushdown.Proofs.Automaton.Order
import Pushdown.Proofs.Layout
import Pushdown.Proofs.Place
import Pushdown.Proofs.Token.Occurrence
import Pushdown.Proofs.Automaton.Reload
import Pushdown.Proofs.Diagnosis
import Pushdown.Proofs.Simulation.Foresight
import Pushdown.Proofs.References
import Pushdown.Proofs.Report.Columns
import Pushdown.Proofs.Simulation.Printed
import Pushdown.Proofs.Serialization
import Pushdown.Proofs.Journal
import Pushdown.Proofs.Line.Local
import Pushdown.Proofs.CommandLine
import Pushdown.Proofs.CommandLine.Answers
import Pushdown.Proofs.CommandLine.Failure
import Pushdown.Proofs.Report.Emission

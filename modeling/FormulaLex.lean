import FormulaLex.Main
import FormulaLex.Session.Run
import FormulaLex.Proofs.Conservation
import FormulaLex.Proofs.Failure
import FormulaLex.Proofs.RoundTrip
import FormulaLex.Proofs.Simulation
import FormulaLex.Proofs.Exchange
import FormulaLex.Proofs.Interchange
import FormulaLex.Proofs.Recording
import FormulaLex.Proofs.TokenPlaces
import FormulaLex.Proofs.Conclusion
import FormulaLex.Proofs.Release
import FormulaLex.Proofs.Stepwise
import FormulaLex.Proofs.Translation
import FormulaLex.Proofs.Concatenation
import FormulaLex.Proofs.Closing
import FormulaLex.Proofs.Options
import FormulaLex.Proofs.Renewal
import FormulaLex.Proofs.Safety
import FormulaLex.Proofs.Escaping
import FormulaLex.Proofs.Unambiguity
import FormulaLex.Proofs.Causality
import FormulaLex.Proofs.ReadAhead
import FormulaLex.Proofs.Breakage
import FormulaLex.Proofs.Buffering
import FormulaLex.Proofs.ChunkSize
import FormulaLex.Proofs.Decoding
import FormulaLex.Proofs.Encoding
import FormulaLex.Proofs.Supply
import FormulaLex.Proofs.Report
import FormulaLex.Proofs.DefectOffset
import FormulaLex.Proofs.Custody
import FormulaLex.Proofs.Arrival
import FormulaLex.Proofs.DecodedText
import FormulaLex.Proofs.Scoping
import FormulaLex.Proofs.ArgumentOrder
import FormulaLex.Proofs.Coherence
import FormulaLex.Proofs.Termination
import FormulaLex.Proofs.Display

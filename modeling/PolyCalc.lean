import PolyCalc.Main
import PolyCalc.Session
import PolyCalc.Tour
import PolyCalc.Proofs.Poly.Ring
import PolyCalc.Proofs.Poly.Homomorphism
import PolyCalc.Proofs.Poly.Operands
import PolyCalc.Proofs.Poly.Degree
import PolyCalc.Proofs.Calculator.Reachable
import PolyCalc.Proofs.Calculator.Simulation
import PolyCalc.Proofs.Calculator.Feedback
import PolyCalc.Proofs.Calculator.Failures
import PolyCalc.Proofs.Calculator.Locality
import PolyCalc.Proofs.Poly.Paths
import PolyCalc.Proofs.Poly.DegreeLaw
import PolyCalc.Proofs.Poly.Joining
import PolyCalc.Proofs.Poly.Unambiguous
import PolyCalc.Proofs.Calculator.Language
import PolyCalc.Proofs.Text.Splitting
import PolyCalc.Proofs.Poly.ByOffset
import PolyCalc.Proofs.Config.Entries
import PolyCalc.Proofs.Config.Tables
import PolyCalc.Proofs.Config.Reading
import PolyCalc.Proofs.Config.Comments
import PolyCalc.Proofs.Config.Layout
import PolyCalc.Proofs.Config.Merging
import PolyCalc.Proofs.Config.Validation

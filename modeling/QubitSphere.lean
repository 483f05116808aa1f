import QubitSphere.Expr.Source
import QubitSphere.Main
import QubitSphere.Proofs.Turn.Recomposition
import QubitSphere.Proofs.Latex.Exact
import QubitSphere.Proofs.Expr.Height
import QubitSphere.Proofs.Workspace.Playback
import QubitSphere.Proofs.Ket.Direction
import QubitSphere.Proofs.Turn.Scene
import QubitSphere.Proofs.Expr.FirstError
import QubitSphere.Proofs.Expr.RoundTrip
import QubitSphere.Proofs.Workspace.Log
import QubitSphere.Proofs.Workspace.Meaning
import QubitSphere.Proofs.Report.Sequences
import QubitSphere.Proofs.Report.Admission
import QubitSphere.Proofs.Report.Noops
import QubitSphere.Proofs.Workspace.Independence
import QubitSphere.Proofs.Turn.Distinct
import QubitSphere.Proofs.Expr.Limit
import QubitSphere.Proofs.Turn.Noops
import QubitSphere.Proofs.Turn.Tolerance
import QubitSphere.Proofs.Ket.Phase
import QubitSphere.Proofs.Expr.Names
import QubitSphere.Proofs.Latex.Brackets
import QubitSphere.Proofs.Latex.Superscripts
import QubitSphere.Proofs.Latex.Unique
import QubitSphere.Proofs.Latex.NormalForm
import QubitSphere.Proofs.Latex.Reading
import QubitSphere.Proofs.Ket.Equation
import QubitSphere.Proofs.Expr.Segmentation
import QubitSphere.Proofs.Expr.Cursor

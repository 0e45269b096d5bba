import WingBox.Proofs.Definition.Stable
import WingBox.Proofs.Structure.Locality
import WingBox.Proofs.Structure.Persistence
import WingBox.Proofs.Structure.RibPoint
import WingBox.Proofs.Structure.Divided
import WingBox.Proofs.Structure.RibsAligned
import WingBox.Proofs.Structure.RibCount
import WingBox.Proofs.Exact.Coordinates
import WingBox.Proofs.Exact.Crossing
import WingBox.Proofs.Exact.Distance
import WingBox.Proofs.Structure.RibBoundary
import WingBox.Proofs.Structure.RunOver
import WingBox.Proofs.Structure.SectionRib
import WingBox.Proofs.Build.Components
import WingBox.Proofs.Cut.BoxTest
import WingBox.Proofs.Cut.Repeat
import WingBox.Proofs.Container.Operation
import WingBox.Proofs.Exact.Hit
import WingBox.Proofs.Structure.BuildOnce
import WingBox.Proofs.Exact.Arclength
import WingBox.Proofs.Exact.Normal
import WingBox.Proofs.Structure.SparLine
import WingBox.Proofs.Structure.SparPositions
import WingBox.Proofs.Structure.RibFace
import WingBox.Proofs.Cut.Distinct
import WingBox.Proofs.Exact.Project
import WingBox.Proofs.Exact.Change
import WingBox.Proofs.Structure.SparHeight

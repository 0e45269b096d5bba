import WingBox.Build.Loft
import WingBox.Wing.Basic

/-!
# The outer shape of a wing

The skins are lofts of the profile through all sections, and each section has a face.  The shell
is closed by the faces of the first and the last section.
-/

namespace WingBox

/-- The surfaces of a wing. -/
structure WingGeometry (K : Type) where
  /-- The upper skin, one face a segment. -/
  upper : Shape K
  /-- The lower skin, one face a segment. -/
  lower : Shape K
  /-- The faces of all sections. -/
  sectionFaces : List (Face K)
  /-- The face at the inner end. -/
  innerFace : Face K
  /-- The face at the outer end. -/
  outerFace : Face K

namespace WingGeometry

variable {K : Type} [Scalar K]

/-- The closed shell. -/
def loft (g : WingGeometry K) : Shape K :=
  ⟨g.upper.faces ++ g.lower.faces ++ [g.innerFace, g.outerFace], []⟩

/-- One of the skins. -/
def skin (g : WingGeometry K) : Side → Shape K
  | .upper => g.upper
  | .lower => g.lower

end WingGeometry

namespace Wing

variable {K : Type} [Scalar K]

/-- The profile in a section. -/
def profilePoints (w : Wing K) (s : WingSection K) : List (Vec K) := w.profile.map (·.place s)

/-- The face of a section. -/
def sectionFace (w : Wing K) (s : WingSection K) : Except (Error K) (Face K) := do
  let boundary ← Error.require (.geometry w.uid .degenerateProfile)
    (Wire.ofPoints? (w.profilePoints s))
  Error.ofShapeFault w.uid (Face.ofBoundary boundary.closed)

/-- The loft of some edges of the profile through all sections. -/
def skinOf (w : Wing K) (edges : Loft.EdgeRange) : Except (Error K) (Shape K) := do
  return .ofFaces (← Error.ofShapeFault w.uid (Loft.faces (w.sections.map w.profilePoints) edges))

/-- The surfaces of the wing. -/
def geometry (w : Wing K) : Except (Error K) (WingGeometry K) := do
  let upper ← w.skinOf ⟨0, w.trailingIndex⟩
  let lower ← w.skinOf ⟨w.trailingIndex, w.profile.length⟩
  let sectionFaces ← w.sections.mapM w.sectionFace
  let innerFace ← w.sectionFace w.firstSegment.inner
  let outerFace ← w.sectionFace w.lastSegment.outer
  return { upper, lower, sectionFaces, innerFace, outerFace }

end Wing

end WingBox

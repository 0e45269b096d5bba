import WingBox.Proofs.Structure.ParallelRibs
import WingBox.Structure.Ribs

/-!
# Rib faces and split parts of matching designs

The last stages: faces and caps of ribs, and the faces of spars and ribs after they are split by
each other.  A spar is split by all spars with another name, so this is the one stage at which the
order of the parts of a design matters.
-/

namespace WingBox

open Scalar

namespace Query

variable {K : Type} [Scalar K] {N : Naming} {d d' : Design K}

/-! ### Rib faces -/

section Faces

variable (h : d.LookupsMatch N d') {r r' : RibsDefinition K} (hr : d.RibsMatch N d' r r')
include h hr

omit [Scalar K] h hr in
theorem ribFace_match [Scalar K] {x x' : String} (hx : N.Owner x x') (shell : Shape K)
    (cut : RibCut K) : OutcomesMatch N Eq (ribFace x shell cut) (ribFace x' shell cut) := by
  unfold ribFace
  split
  · exact .ok rfl
  · exact trim_match hx cut.face shell

theorem parallel_ribsGeometry : Parallel N d d' Eq (ribsGeometry r) (ribsGeometry r') := by
  refine .cached (Store.filledBy_ribsGeometry hr.here) (Store.filledBy_ribsGeometry hr.there) ?_
  refine (parallel_cuts h hr).bind_eq fun cs => (parallel_loft h).bind_eq fun shell => ?_
  have hface (cut : RibCut K) := ribFace_match (N := N) (.ribs hr.toMatch.uid) shell cut
  exact (Parallel.ofExcept (.mapM hface cs)).bind_eq fun _ => .pure rfl

theorem parallel_ribsCaps : Parallel N d d' Eq (ribsCaps r) (ribsCaps r') := by
  refine .cached (Store.filledBy_ribsCaps hr.here) (Store.filledBy_ribsCaps hr.there) ?_
  refine (parallel_cuts h hr).bind_eq fun cs => ?_
  rw [hr.toMatch.hasCap]
  exact parallel_skinEdges h _ _

end Faces

/-! ### Splitting -/

section Split

variable (h : d.Match N d')
include h

omit [Scalar K] in
/-- The spars with another name than a spar, and than the one that it stands for. -/
theorem others_match {s s' : SparSegment K} (hs : d.SparsMatch N d' s s') :
    List.Forall₂ (d.SparsMatch N d') (d.spars.items.filter fun other => other.uid != s.uid)
      (d'.spars.items.filter fun other => other.uid != s'.uid) := by
  refine List.rel_filter (fun t t' ht => ?_) h.sparsMatch
  simpa using not_congr (N.spar_iff ht.toMatch.uid hs.toMatch.uid)

theorem parallel_cutShapes {ss ss' : List (SparSegment K)}
    (hss : List.Forall₂ (d.SparsMatch N d') ss ss') :
    Parallel N d d' Eq (ss.mapM fun spar => do return (← panels spar).cutShape)
      (ss'.mapM fun spar => do return (← panels spar).cutShape) := by
  have hcuts := Parallel.mapM (S := Eq) (f := fun spar => do return (← panels spar).cutShape)
    (g := fun spar => do return (← panels spar).cutShape) hss
    fun s s' hs => (parallel_panels h.lookupsMatch hs).bind_eq fun _ => .pure rfl
  simpa only [List.forall₂_eq_eq_eq] using hcuts

theorem parallel_sparTool (shape : Shape K) {ss ss' : List (SparSegment K)}
    (hss : List.Forall₂ (d.SparsMatch N d') ss ss') :
    Parallel N d d' Eq (sparTool shape ss) (sparTool shape ss') :=
  (parallel_cutShapes h hss).bind_eq fun _ => .pure rfl

theorem parallel_ribTool {rs rs' : List (RibsDefinition K)}
    (hrs : List.Forall₂ (d.RibsMatch N d') rs rs') :
    Parallel N d d' Eq (ribTool rs) (ribTool rs') := by
  have hfaces := Parallel.mapM (S := Eq) (f := fun r => do return (← cuts r).map (·.face))
    (g := fun r => do return (← cuts r).map (·.face)) hrs
    fun r r' hr => (parallel_cuts h.lookupsMatch hr).bind_eq fun _ => .pure rfl
  refine hfaces.bind fun faces faces' hfaces => ?_
  rw [List.forall₂_eq_eq_eq] at hfaces
  exact .pure (by rw [hfaces])

theorem parallel_sparDivided {s s' : SparSegment K} (hs : d.SparsMatch N d' s s') :
    Parallel N d d' Eq (sparDivided s) (sparDivided s') := by
  refine .cached (Store.filledBy_sparDivided hs.here) (Store.filledBy_sparDivided hs.there) ?_
  refine (parallel_sparGeometry h.lookupsMatch hs).bind_eq fun geometry => ?_
  refine Parallel.bind_read ?_
  refine (parallel_ribTool h h.ribsMatch).bind_eq fun ribs => ?_
  refine Parallel.bind_read ?_
  exact (parallel_sparTool h geometry (others_match h hs)).bind_eq fun _ => .pure rfl

theorem parallel_ribsDivided {r r' : RibsDefinition K} (hr : d.RibsMatch N d' r r') :
    Parallel N d d' Eq (ribsDivided r) (ribsDivided r') := by
  refine .cached (Store.filledBy_ribsDivided hr.here) (Store.filledBy_ribsDivided hr.there) ?_
  refine (parallel_ribsGeometry h.lookupsMatch hr).bind_eq fun geometry => ?_
  refine Parallel.bind_read ?_
  exact (parallel_sparTool h geometry h.sparsMatch).bind_eq fun _ => .pure rfl

end Split

end Query

end WingBox

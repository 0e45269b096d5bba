import WingBox.Proofs.Fault.Traversal
import WingBox.Proofs.Structure.Refusal
import WingBox.Proofs.Structure.Validity

/-!
# Indices of ribs and sides of caps

The number of ribs, the ribs before they are trimmed and their final faces are kept apart, and each
is looked into with an index that was checked against the number.

* `Query.length_cuts`: there are as many ribs before they are trimmed as are counted;
* `Query.yields_ribsGeometry`: each of them has one face, or one of them cannot be trimmed;
* `Query.isSome_side?`: caps are built on the sides on which they are declared;
* `Structure.answer_ribs`: a question about ribs is answered as it is asked of them.
-/

namespace WingBox

variable {K : Type} [Scalar K]

namespace Query

/-! ### What is yielded -/

section Yields

variable {α : Type} {d : Design K}

theorem Yields.unique {q : Query K α} {x y : Except (Error K) α} (hx : Yields d q x)
    (hy : Yields d q y) : x = y := hx.fresh_eq.symm.trans hy.fresh_eq

theorem Parallel.exists_yields {N : Naming} {d' : Design K} {β : Type} {R : α → β → Prop}
    {q : Query K α} {q' : Query K β} (h : Parallel N d d' R q q') : ∃ x, Yields d q x := by
  obtain ⟨x, -, hx, -⟩ := h
  exact ⟨x, hx⟩

/-- What a query finds is related to itself if runs of the query are related. -/
theorem Parallel.rel_self {N : Naming} {R : α → α → Prop} {q : Query K α} {x : α}
    (h : Parallel N d d R q q) (hx : Yields d q (.ok x)) : R x x := by
  obtain ⟨y, z, hy, hz, hyz⟩ := h
  obtain rfl := hy.unique hx
  obtain rfl := hz.unique hx
  cases hyz with
  | ok hR => exact hR

theorem Fails.of_yields {P : Error K → Prop} {q : Query K α} {x : Except (Error K) α}
    (h : Fails P q) (hx : Yields d q x) : ErrorIs P x := hx.fresh_eq ▸ h d .empty

theorem Yields.ofExcept (x : Except (Error K) α) : Yields d (ofExcept x) x := by
  cases x with
  | ok x => exact .pure x
  | error e => exact .throw e

/-- The query yields a value, or an error with the property. -/
def YieldsIs (P : Error K → Prop) (d : Design K) (q : Query K α) : Prop :=
  ∃ x, Yields d q x ∧ ErrorIs P x

namespace YieldsIs

variable {P : Error K → Prop}

theorem of_ok {q : Query K α} {x : α} (h : Yields d q (.ok x)) : YieldsIs P d q := ⟨_, h, trivial⟩

theorem of_planned {N : Naming} {d' : Design K} {β : Type} {R : α → β → Prop} {q : Query K α}
    {q' : Query K β} (hplan : Planned P 6 q) (h : Parallel N d d' R q q') : YieldsIs P d q := by
  obtain ⟨x, hx⟩ := h.exists_yields
  exact ⟨x, hx, hplan.fails.of_yields hx⟩

theorem bind {β : Type} {q : Query K α} {f : α → Query K β} (h : YieldsIs P d q)
    (hf : ∀ x, Yields d q (.ok x) → YieldsIs P d (f x)) : YieldsIs P d (q >>= f) := by
  obtain ⟨x | x, hq, hx⟩ := h
  · exact ⟨_, hq.bind_error, hx⟩
  · obtain ⟨y, hy, hP⟩ := hf x hq
    exact ⟨y, hq.bind_ok hy, hP⟩

theorem mono {P' : Error K → Prop} {q : Query K α} (h : YieldsIs P d q) (hP : ∀ e, P e → P' e) :
    YieldsIs P' d q := by
  obtain ⟨x | x, hq, hx⟩ := h
  · exact ⟨_, hq, hP x hx⟩
  · exact ⟨_, hq, trivial⟩

end YieldsIs

end Yields

/-! ### Ribs -/

/-- As many ribs are cut as are asked for. -/
theorem length_setCutsFrom {r : RibsDefinition K} {set : RibSet K} {sp : RibSpread K}
    {d : Design K} {count i : Nat} {s : Store K} {cs : List (RibCut K)}
    (h : ((setCutsFrom r set sp count i).answer d s).1 = .ok cs) : cs.length = count := by
  induction count generalizing i s cs with
  | zero =>
    cases h
    rfl
  | succ n ih =>
    simp only [setCutsFrom, answer_bind] at h
    split at h
    · split at h
      next hrest =>
        cases h
        rw [List.length_cons, ih (congrArg Prod.fst hrest)]
      next => cases h
    · cases h

section Ribs

variable {d : Design K} (h : d.Match .same d) {r : RibsDefinition K} (hr : d.RibsMatch .same d r r)
include h hr

/-- There are as many ribs before they are trimmed as are counted. -/
theorem length_cuts {c : Nat} {cs : List (RibCut K)} (hcount : Yields d (ribCount r) (.ok c))
    (hcuts : Yields d (buildCuts r) (.ok cs)) : cs.length = c := by
  have hbuilt : ((buildCuts r).answer d .empty).1 = .ok cs := hcuts.fresh_eq
  unfold ribCount at hcount
  unfold buildCuts at hbuilt
  split at hcount
  next set hset =>
    rw [hset] at hbuilt
    obtain ⟨x, hx⟩ := (parallel_spread h.lookupsMatch hr).exists_yields
    cases x with
    | error e => cases hcount.unique hx.bind_error
    | ok sp =>
      obtain rfl := Except.ok.inj (hcount.unique (hx.bind_ok (.pure _)))
      have hspread : ((spread r).answer d .empty).1 = .ok sp := hx.fresh_eq
      simp only [answer_bind] at hbuilt
      rw [← Prod.eta ((spread r).answer d .empty), hspread] at hbuilt
      exact length_setCutsFrom hbuilt
  next e hset =>
    rw [hset] at hbuilt
    obtain rfl := Except.ok.inj (hcount.unique (.pure 1))
    rw [answer_bind] at hbuilt
    split at hbuilt
    · cases hbuilt
      rfl
    · cases hbuilt

end Ribs

omit [Scalar K] in
theorem checkIndex_of_outside {what : Counted} {n c : Nat} (hn : n = 0 ∨ c < n) :
    (Error.checkIndex what n c : Except (Error K) Nat) = .error (.index what n c) := if_pos hn

omit [Scalar K] in
theorem checkIndex_of_lt {what : Counted} {n c : Nat} (hn : n < c) :
    (Error.checkIndex what (n + 1) c : Except (Error K) Nat) = .ok n :=
  if_neg (by omega)

section Place

variable {d : Design K} {r : RibsDefinition K} {c : Nat} (hcount : Yields d (ribCount r) (.ok c))
include hcount

theorem yields_place {n : Nat} (hn : n < c) : Yields d (Ribs.place r (n + 1)) (.ok n) :=
  checkIndex_of_lt (K := K) hn ▸ hcount.bind_ok (.ofExcept _)

theorem yields_place_of_outside {n : Nat} (hn : n = 0 ∨ c < n) :
    Yields d (Ribs.place r n) (.error (.index .rib n c)) :=
  checkIndex_of_outside (K := K) hn ▸ hcount.bind_ok (.ofExcept _)

end Place

theorem yields_pick {α : Type} {d : Design K} {xs : List α} {i : Nat} (n : Nat)
    (hi : i < xs.length) : Yields d (Ribs.pick n i xs) (.ok xs[i]) := by
  rw [Ribs.pick, List.getElem?_eq_getElem hi]
  exact .pure _

/-- Ribs that can be cut from a wing with surfaces are trimmed one after the other. -/
theorem yields_ribsGeometry {d : Design K} {r : RibsDefinition K} (hr : d.HasRibs r)
    {cs : List (RibCut K)} {w : WingGeometry K} (hcs : Yields d (cuts r) (.ok cs))
    (hw : Yields d wingGeometry (.ok w)) :
    Yields d (ribsGeometry r) (.ofFaces <$> cs.mapM (ribFace r.uid w.loft)) := by
  have hloft : Yields d loft (.ok w.loft) := hw.bind_ok (.pure _)
  refine .cached (Store.filledBy_ribsGeometry hr) (hcs.bind_ok (hloft.bind_ok ?_))
  have hfaces := Yields.ofExcept (d := d) (cs.mapM (ribFace r.uid w.loft))
  cases hmap : cs.mapM (ribFace r.uid w.loft) with
  | ok faces => exact Yields.bind_ok (hmap ▸ hfaces) (.pure _)
  | error e => exact Yields.bind_error (hmap ▸ hfaces)

/-- A final face is not trimmed, but the shell of the wing is made all the same. -/
theorem yields_ribsGeometry_of_final {d : Design K} {r : RibsDefinition K} (hr : d.HasRibs r)
    {cut : RibCut K} (hcuts : Yields d (cuts r) (.ok [cut])) (hfinal : cut.isTargetFace = true)
    {w : WingGeometry K} (hw : Yields d wingGeometry (.ok w)) :
    Yields d (ribsGeometry r) (.ok (.ofFace cut.face)) := by
  have hface : [cut].mapM (ribFace r.uid w.loft) = .ok [cut.face] := by
    rw [List.mapM_cons, ribFace, if_pos hfinal]
    rfl
  have hgeometry := yields_ribsGeometry hr hcuts hw
  rwa [hface] at hgeometry

/-- A shape has an image in every frame. -/
theorem exists_shapeIn {d : Design K} (frame : Frame) (shape : Shape K) :
    ∃ image, Yields d (shapeIn frame shape) (.ok image) := by
  cases frame with
  | wing => exact ⟨_, .pure _⟩
  | global => exact ⟨_, (Yields.read.bind_ok (.pure _)).bind_ok (.pure _)⟩

section Ribs

variable {d : Design K} (h : d.Match .same d) {r : RibsDefinition K} (hr : d.RibsMatch .same d r r)
include h hr

/-- Every rib has one face, which is its surface or the part of it inside the wing. -/
theorem exists_faces {g : Shape K} (hg : Yields d (ribsGeometry r) (.ok g)) :
    ∃ cs w, Yields d (cuts r) (.ok cs) ∧ Yields d wingGeometry (.ok w) ∧
      List.Forall₂ (fun cut f => ribFace r.uid w.loft cut = .ok f) cs g.faces := by
  obtain ⟨x, hcuts⟩ := (parallel_cuts h.lookupsMatch hr).exists_yields
  obtain ⟨y, hwing⟩ := (parallel_wingGeometry h.lookupsMatch).exists_yields
  have hbuild {z : Except (Error K) (Shape K)} (hz : Yields d (buildRibsGeometry r) z) :
      z = .ok g :=
    (hz.cached (Store.filledBy_ribsGeometry hr.here)).unique hg
  cases x with
  | error e => cases hbuild hcuts.bind_error
  | ok cs =>
    cases y with
    | error e => cases hbuild (hcuts.bind_ok (Yields.bind_error hwing.bind_error))
    | ok w =>
      have hfaces := (yields_ribsGeometry hr.here hcuts hwing).unique hg
      cases hmap : cs.mapM (ribFace r.uid w.loft) with
      | error e =>
        rw [hmap] at hfaces
        cases hfaces
      | ok faces =>
        rw [hmap] at hfaces
        cases hfaces
        exact ⟨cs, w, hcuts, hwing, forall₂_of_mapM hmap⟩

omit h in
/-- If the ribs have no faces one of them cannot be trimmed. -/
theorem exists_ribFace_error {cs : List (RibCut K)} {w : WingGeometry K} {e : Error K}
    (hcs : Yields d (cuts r) (.ok cs)) (hw : Yields d wingGeometry (.ok w))
    (he : Yields d (ribsGeometry r) (.error e)) :
    ∃ cut ∈ cs, ribFace r.uid w.loft cut = .error e := by
  have hfaces := (yields_ribsGeometry hr.here hcs hw).unique he
  cases hmap : cs.mapM (ribFace r.uid w.loft) with
  | ok faces =>
    rw [hmap] at hfaces
    cases hfaces
  | error e' =>
    rw [hmap] at hfaces
    cases hfaces
    exact exists_error_of_mapM hmap

/-! ### Counted ribs -/

variable {c : Nat} (hcount : Yields d (ribCount r) (.ok c))
include hcount

theorem length_of_cuts {cs : List (RibCut K)} (hcs : Yields d (cuts r) (.ok cs)) :
    cs.length = c := by
  obtain ⟨x, hx⟩ := (parallel_buildCuts h.lookupsMatch hr).exists_yields
  obtain rfl := (hx.cached (Store.filledBy_cuts hr.here)).unique hcs
  exact length_cuts h hr hcount hx

theorem length_of_ribsGeometry {g : Shape K} (hg : Yields d (ribsGeometry r) (.ok g)) :
    g.faces.length = c := by
  obtain ⟨cs, w, hcs, -, hfaces⟩ := exists_faces h hr hg
  rw [← hfaces.length_eq, length_of_cuts h hr hcount hcs]

theorem yields_cut {cs : List (RibCut K)} (hcs : Yields d (cuts r) (.ok cs)) {n : Nat}
    (hn : n < cs.length) : Yields d (Ribs.cut r (n + 1)) (.ok cs[n]) := by
  have hlt : n < c := length_of_cuts h hr hcount hcs ▸ hn
  exact (yields_place hcount hlt).bind_ok (hcs.bind_ok (yields_pick _ hn))

theorem yields_face {g : Shape K} (hg : Yields d (ribsGeometry r) (.ok g)) {n : Nat}
    (hn : n < g.faces.length) : Yields d (Ribs.face r (n + 1) .wing) (.ok g.faces[n]) := by
  have hlt : n < c := length_of_ribsGeometry h hr hcount hg ▸ hn
  exact (yields_place hcount hlt).bind_ok (hg.bind_ok ((yields_pick _ hn).bind_ok (.pure _)))

variable {n : Nat} (hn : n < c)
include hn

theorem yieldsIs_cut : YieldsIs Error.Caused d (Ribs.cut r (n + 1)) := by
  refine (YieldsIs.of_ok (yields_place hcount hn)).bind fun i hi => ?_
  obtain rfl := Except.ok.inj (hi.unique (yields_place hcount hn))
  have hcuts := parallel_cuts h.lookupsMatch hr
  refine (YieldsIs.of_planned (cuts_planned r) hcuts).bind fun cs hcs => ?_
  exact .of_ok (yields_pick _ (length_of_cuts h hr hcount hcs ▸ hn))

theorem yieldsIs_face (frame : Frame) : YieldsIs Error.Caused d (Ribs.face r (n + 1) frame) := by
  have hgeometry := parallel_ribsGeometry h.lookupsMatch hr
  refine (YieldsIs.of_ok (yields_place hcount hn)).bind fun i hi => ?_
  obtain rfl := Except.ok.inj (hi.unique (yields_place hcount hn))
  refine (YieldsIs.of_planned (ribsGeometry_planned r) hgeometry).bind fun g hg => ?_
  refine (YieldsIs.of_ok (yields_pick _ (length_of_ribsGeometry h hr hcount hg ▸ hn))).bind
    fun f _ => ?_
  exact .of_planned (faceIn_planned frame f) (parallel_faceIn h.lookupsMatch frame f)

theorem yieldsIs_midplanePoints (frame : Frame) :
    YieldsIs Error.Caused d (Ribs.midplanePoints r (n + 1) frame) := by
  have hpoint (p : Vec K) : YieldsIs Error.Caused d (pointIn frame p) :=
    .of_planned (pointIn_planned frame p) (parallel_pointIn h.lookupsMatch frame p)
  refine (yieldsIs_cut h hr hcount hn).bind fun cut _ => ?_
  exact (hpoint _).bind fun start _ => (hpoint _).bind fun stop _ => .of_ok (.pure _)

end Ribs

/-! ### Caps -/

/-- Edges are found on the sides on which they are asked for. -/
theorem isSome_side? {d : Design K} {s : Store K} {cutter : Shape K} {hasCap : Side → Bool}
    {caps : Caps K} (h : ((skinEdges cutter hasCap).answer d s).1 = .ok caps) (side : Side) :
    (caps.side? side).isSome = hasCap side := by
  have hedges {side : Side} {t : Store K} {o : Option (Shape K)}
      (h : ((if hasCap side then do
        return some (.ofEdges (((← wingGeometry).skin side).intersection cutter))
        else return none : Query K (Option (Shape K))).answer d t).1 = .ok o) :
      o.isSome = hasCap side := by
    split at h
    next hcap =>
      rw [answer_bind] at h
      split at h
      · cases h
        exact hcap.symm
      · cases h
    next hcap =>
      cases h
      exact (Bool.eq_false_iff.2 hcap).symm
  simp only [skinEdges, answer_bind] at h
  split at h
  next upper t hupper =>
    split at h
    next lower t' hlower =>
      cases h
      cases side with
      | upper => exact hedges (congrArg Prod.fst hupper)
      | lower => exact hedges (congrArg Prod.fst hlower)
    next => cases h
  next => cases h

/-- Caps that are built have the sides on which they are declared. -/
theorem isSome_side?_of_built {α : Type} {d : Design K} {s : Store K} {q : Query K α}
    {cutter : α → Shape K} {hasCap : Side → Bool} {caps : Caps K}
    (h : ((q >>= fun x => skinEdges (cutter x) hasCap).answer d s).1 = .ok caps) (side : Side) :
    (caps.side? side).isSome = hasCap side := by
  rw [answer_bind] at h
  split at h
  · exact isSome_side? h side
  · cases h

section Caps

variable {d : Design K} (h : d.LookupsMatch .same d) (side : Side) (frame : Frame)
include h

/-- A side that a builder of caps always fills is found in what is kept of the caps. -/
theorem yieldsIs_capsSide {kept build : Query K (Caps K)} (hplan : Planned Error.Caused 6 kept)
    (hkept : ∀ {x}, Yields d build x → Yields d kept x) (hbuild : Parallel .same d d Eq build build)
    (e : Error K)
    (hside : ∀ caps, (build.answer d .empty).1 = .ok caps → (caps.side? side).isSome) :
    YieldsIs Error.Caused d (do shapeIn frame (← require e ((← kept).side? side))) := by
  obtain ⟨x, hx⟩ := hbuild.exists_yields
  refine YieldsIs.bind ⟨x, hkept hx, ?_⟩ fun caps hcaps => ?_
  · exact (hkept hx).fresh_eq ▸ hplan.fails d .empty
  obtain rfl := (hkept hx).unique hcaps
  obtain ⟨shape, hshape⟩ := Option.isSome_iff_exists.1 (hside caps hx.fresh_eq)
  rw [hshape]
  refine (YieldsIs.of_ok (Yields.pure shape)).bind fun shape _ => ?_
  exact .of_planned (shapeIn_planned frame shape) (parallel_shapeIn h frame shape)

theorem yieldsIs_sparCapsOn {s : SparSegment K} (hs : d.SparsMatch .same d s s) :
    YieldsIs Error.Caused d (Spar.caps s side frame) := by
  unfold Spar.caps
  split
  next hcap =>
    refine yieldsIs_capsSide h side frame (sparCaps_planned s)
      (fun hx => hx.cached (Store.filledBy_sparCaps hs.here)) ?_ _
      fun caps hcaps => (isSome_side?_of_built hcaps side).trans hcap
    exact (parallel_panels h hs).bind_eq fun _ => parallel_skinEdges h _ _
  next => exact ⟨_, .throw _, trivial⟩

theorem yieldsIs_ribsCapsOn {r : RibsDefinition K} (hr : d.RibsMatch .same d r r) :
    YieldsIs Error.Caused d (Ribs.caps r side frame) := by
  unfold Ribs.caps
  split
  next hcap =>
    refine yieldsIs_capsSide h side frame (ribsCaps_planned r)
      (fun hx => hx.cached (Store.filledBy_ribsCaps hr.here)) ?_ _
      fun caps hcaps => (isSome_side?_of_built hcaps side).trans hcap
    exact (parallel_cuts h hr).bind_eq fun _ => parallel_skinEdges h _ _
  next => exact ⟨_, .throw _, trivial⟩

end Caps

end Query

/-! ### Structures -/

namespace Structure

variable {s : Structure K}

section Sound

variable (hs : s.Sound)
include hs

theorem match_self : s.design.Match .same s.design := Design.match_same hs.valid hs.valid rfl rfl

theorem answer_of_yields {α : Type} {q : Question K α} {x : Except (Error K) α}
    (hx : Query.Yields s.design q.query x) : s.answer q = x := (hx s.store hs.coherent).1

/-- What is answered from the store of the structure is answered from every coherent one. -/
theorem yields_of_parallel {α : Type} {R : α → α → Prop} {q : Query K α} {x : Except (Error K) α}
    (hq : Query.Parallel .same s.design s.design R q q)
    (h : (q.answer s.design s.store).1 = x) : Query.Yields s.design q x := by
  obtain ⟨y, hy⟩ := hq.exists_yields
  rwa [← h, (hy s.store hs.coherent).1]

theorem yields_of_answer {α : Type} {q : Question K α} {x : Except (Error K) α}
    (h : s.answer q = x) : Query.Yields s.design q.query x :=
  yields_of_parallel hs (Query.parallel_question (match_self hs) q.match_same) h

theorem yields_size {g : WingGeometry K} (hg : s.answer .wingGeometry = .ok g) :
    Query.Yields s.design Query.size (.ok g.loft.diagonal) := by
  have hwing : Query.Yields s.design Query.wingGeometry (.ok g) := yields_of_answer hs hg
  exact (hwing.bind_ok (.pure _) : Query.Yields s.design Query.loft (.ok g.loft)).bind_ok (.pure _)

variable {r : RibsDefinition K} (hr : s.design.HasRibs r)
include hr

theorem ribsMatch_self : s.design.RibsMatch .same s.design r r := by
  have hrel := (match_self hs).lookupsMatch.ribs (show Naming.same.ribs r.uid r.uid from rfl)
  rw [show s.design.ribs.get? r.uid = some r from hr] at hrel
  cases hrel with
  | some h => exact h

/-- A question about ribs is answered as it is asked of them. -/
theorem answer_ribs {α : Type} {q : RibsQuestion K α} {x : Except (Error K) α}
    (hx : Query.Yields s.design (q.query r) x) : s.answer (.ribs r.uid q) = x := by
  have hfound : Query.Yields s.design (Query.ribs r.uid) (.ok r) := by
    refine Query.Yields.read.bind_ok ?_
    rw [show s.design.ribs.get? r.uid = some r from hr]
    exact .pure r
  exact (hfound.bind_ok hx s.store hs.coherent).1

theorem yields_of_answer_ribs {α : Type} {q : RibsQuestion K α} {x : Except (Error K) α}
    (h : s.answer (.ribs r.uid q) = x) : Query.Yields s.design (q.query r) x := by
  have hquestion := Query.parallel_ribsQuestion (match_self hs) (ribsMatch_self hs hr) q
  obtain ⟨y, hy⟩ := hquestion.exists_yields
  rwa [← h, answer_ribs hs hr hy]

theorem answer_ribsAt {i : Nat} (hi : s.design.ribs.at? i = some r) {α : Type}
    (q : RibsQuestion K α) : s.answer (.ribsAt (i + 1) q) = s.answer (.ribs r.uid q) := by
  have hx := yields_of_answer_ribs hs hr (q := q) rfl
  have hlt : i < s.design.ribs.size := by
    by_contra hge
    rw [Registry.at?, List.getElem?_eq_none (Nat.not_lt.1 hge)] at hi
    cases hi
  have hfound : Query.Yields s.design (Query.ribsAt (i + 1)) (.ok r) := by
    refine Query.Yields.read.bind_ok ?_
    dsimp only
    rw [Query.checkIndex_of_lt hlt]
    refine Query.Yields.bind_ok (.ofExcept _) ?_
    rw [hi]
    exact .pure r
  exact (hfound.bind_ok hx s.store hs.coherent).1

end Sound

/-! ### Loaded parts -/

/-- Spar positions of a description are found in what is loaded from it. -/
theorem position_of_ofDescription {wing : Wing K} {desc : Description K} {p : SparPosition K}
    (h : ofDescription wing desc = .ok s) (hp : p ∈ desc.sparPositions) :
    s.design.positions.get? p.uid = some p := by
  obtain ⟨hvalid, -, rfl, -⟩ := ofDescription_ok h
  exact hvalid.positions.get?_eq_some_iff.2 ⟨hp, rfl⟩

/-- So are its spars. -/
theorem hasSpar_of_ofDescription {wing : Wing K} {desc : Description K} {spar : SparSegment K}
    (h : ofDescription wing desc = .ok s) (hspar : spar ∈ desc.sparSegments) :
    s.design.HasSpar spar := by
  obtain ⟨hvalid, -, rfl, -⟩ := ofDescription_ok h
  exact hvalid.spars.get?_eq_some_iff.2 ⟨hspar, rfl⟩

omit [Scalar K] in
theorem declaration_injective : Function.Injective (RibsDefinition.declaration (K := K)) := by
  rintro ⟨uid, p, cs⟩ ⟨uid', p', cs'⟩ h
  rw [RibsDefinition.declaration, RibsDefinition.declaration, RibsDeclaration.mk.injEq] at h
  obtain ⟨rfl, hset, hexplicit, rfl⟩ := h
  congr 1
  cases p <;> cases p' <;> simp_all [RibPlacement.set?, RibPlacement.explicit?]

/-- So are its ribs. -/
theorem hasRibs_of_ofDescription {wing : Wing K} {desc : Description K} {r : RibsDefinition K}
    (h : ofDescription wing desc = .ok s) (hr : r.declaration ∈ desc.ribsDefinitions) :
    s.design.HasRibs r := by
  obtain ⟨hvalid, -, rfl, -⟩ := ofDescription_ok h
  obtain ⟨t, ht, heq⟩ := List.mem_map.1 hr
  obtain rfl := declaration_injective heq
  exact hvalid.ribs.get?_eq_some_iff.2 ⟨ht, rfl⟩

end Structure

end WingBox

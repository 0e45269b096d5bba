import WingBox.Definition.Form
import WingBox.Proofs.Definition.Reread
import WingBox.Proofs.Json.Form

/-!
# Reading back definitions

Every definition lists the numbers that it stores (`numbers`).  If they are kept by their
numerals, a definition without lines reads back as itself, and one with lines as the definition
reread, since a line is read from the word of a line (`reads`).

The fields of a record are read from its members whatever their order is (`ofJson?_record`).
-/

namespace WingBox

open Json

variable {K : Type} [Scalar K] [JsonForm K]

/-- All numbers are kept by the numerals that are written for them. -/
def NumbersKept (xs : List Float) : Prop := ∀ x ∈ xs, Numeral.Kept x

theorem numbersKept_cons {x : Float} {xs : List Float} :
    NumbersKept (x :: xs) ↔ Numeral.Kept x ∧ NumbersKept xs := List.forall_mem_cons

theorem numbersKept_append {xs ys : List Float} :
    NumbersKept (xs ++ ys) ↔ NumbersKept xs ∧ NumbersKept ys := List.forall_mem_append

theorem numbersKept_flatMap {α : Type} {xs : List α} {f : α → List Float} :
    NumbersKept (xs.flatMap f) ↔ ∀ x ∈ xs, NumbersKept (f x) := List.forall_mem_flatMap

theorem numbersKept_toList_flatMap {α : Type} {o : Option α} {f : α → List Float} :
    NumbersKept (o.toList.flatMap f) ↔ ∀ x ∈ o, NumbersKept (f x) := by
  simp only [numbersKept_flatMap, Option.mem_toList, Option.mem_def]

/-! ### Lines -/

theorem NamedLine.reads (l : NamedLine) : Reads l l.reread := ⟨trivial, nofun, rfl⟩

theorem RibDatum.reads (r : RibDatum) : Reads r r.reread := ⟨trivial, nofun, rfl⟩

/-! ### Cross sections -/

namespace Cap

/-- The numbers of a cap. -/
def numbers (c : Cap K) : List K := [c.area]

theorem ofJson?_record {ms : List (String × Json)} (h : (ms.map Prod.fst).Nodup) :
    (ofJson? (record ms) : Option (Cap K)) = do
      return ⟨← withDefault 0 (ms.lookup "area"), ← omittable (ms.lookup "materialUid")⟩ := by
  change (fields? _ (record ms) >>= _) = _
  rw [fields?_record h]
  rfl

theorem reads {c : Cap Float} (h : NumbersKept c.numbers) : Reads c c := by
  have harea := reads_float (h c.area List.mem_cons_self)
  have huid : ∀ uid ∈ c.materialUid, Reads uid uid := fun uid _ => reads_string uid
  have hmembers : Members ["area", "materialUid"]
      (("area", toJson c.area) :: omittableMember "materialUid" c.materialUid) :=
    .cons harea.wellFormed (.omittable _ fun uid hmem => (huid uid hmem).wellFormed)
  refine reads_record hmembers (by decide) rfl fun hnodup => ?_
  rw [ofJson?_record hnodup]
  simp [List.lookup_cons, lookup_omittableMember, withDefault_toJson _ harea,
    omittable_toJson_self huid]

end Cap

theorem members_angle {x : Float} (h : Numeral.Kept x) (name : String) :
    Members [name] (angleMember name x) := by
  unfold angleMember
  split
  · exact ⟨List.nil_sublist _, nofun⟩
  · exact .cons (reads_float h).wellFormed .nil

/-- An angle that is not written is a right one. -/
theorem withDefault_angle {x : Float} (h : Numeral.Kept x) (name : String) :
    withDefault rightAngle ((angleMember name x).lookup name) = some x := by
  unfold angleMember
  split
  next heq =>
    rw [eq_rightAngle heq]
    rfl
  next =>
    rw [List.lookup_cons_self]
    exact (reads_float h).ofJson?

theorem lookup_angleMember_of_ne {x : Float} {name key : String} (h : key ≠ name) :
    (angleMember name x).lookup key = none := by
  unfold angleMember
  split
  · rfl
  · rw [List.lookup_cons, beq_eq_false_iff_ne.2 h]
    rfl

namespace SparCrossSection

/-- The numbers of a cross section. -/
def numbers (c : SparCrossSection K) : List K :=
  c.upperCap.toList.flatMap Cap.numbers ++ c.lowerCap.toList.flatMap Cap.numbers ++ [c.rotation]

theorem ofJson?_record {ms : List (String × Json)} (h : (ms.map Prod.fst).Nodup) :
    (ofJson? (record ms) : Option (SparCrossSection K)) = do
      return ⟨← omittable (ms.lookup "upperCap"), ← omittable (ms.lookup "lowerCap"),
        ← withDefault rightAngle (ms.lookup "rotation")⟩ := by
  change (fields? _ (record ms) >>= _) = _
  rw [fields?_record h]
  rfl

theorem reads {c : SparCrossSection Float} (h : NumbersKept c.numbers) : Reads c c := by
  simp only [numbers, numbersKept_append, numbersKept_toList_flatMap] at h
  obtain ⟨⟨hupper, hlower⟩, hrotation⟩ := h
  have hupper : ∀ cap ∈ c.upperCap, Reads cap cap := fun cap hcap => Cap.reads (hupper cap hcap)
  have hlower : ∀ cap ∈ c.lowerCap, Reads cap cap := fun cap hcap => Cap.reads (hlower cap hcap)
  have hrotation := hrotation c.rotation List.mem_cons_self
  have hmembers : Members ["upperCap", "lowerCap", "rotation"]
      (omittableMember "upperCap" c.upperCap ++ omittableMember "lowerCap" c.lowerCap
        ++ angleMember "rotation" c.rotation) :=
    ((Members.omittable "upperCap" fun cap hcap => (hupper cap hcap).wellFormed).append
      (.omittable "lowerCap" fun cap hcap => (hlower cap hcap).wellFormed)).append
      (members_angle hrotation "rotation")
  refine reads_record hmembers (by decide) rfl fun hnodup => ?_
  rw [ofJson?_record hnodup]
  simp [List.lookup_append, lookup_omittableMember, lookup_angleMember_of_ne,
    omittable_toJson_self hupper, omittable_toJson_self hlower, withDefault_angle hrotation]

end SparCrossSection

namespace RibCrossSection

/-- The numbers of a cross section. -/
def numbers (c : RibCrossSection K) : List K :=
  c.xRotation :: (c.upperCap.toList.flatMap Cap.numbers ++ c.lowerCap.toList.flatMap Cap.numbers)

theorem ofJson?_record {ms : List (String × Json)} (h : (ms.map Prod.fst).Nodup) :
    (ofJson? (record ms) : Option (RibCrossSection K)) = do
      return ⟨← withDefault rightAngle (ms.lookup "xRotation"), ← omittable (ms.lookup "upperCap"),
        ← omittable (ms.lookup "lowerCap")⟩ := by
  change (fields? _ (record ms) >>= _) = _
  rw [fields?_record h]
  rfl

theorem reads {c : RibCrossSection Float} (h : NumbersKept c.numbers) : Reads c c := by
  simp only [numbers, numbersKept_cons, numbersKept_append, numbersKept_toList_flatMap] at h
  obtain ⟨hrotation, hupper, hlower⟩ := h
  have hupper : ∀ cap ∈ c.upperCap, Reads cap cap := fun cap hcap => Cap.reads (hupper cap hcap)
  have hlower : ∀ cap ∈ c.lowerCap, Reads cap cap := fun cap hcap => Cap.reads (hlower cap hcap)
  have hmembers : Members ["xRotation", "upperCap", "lowerCap"]
      (angleMember "xRotation" c.xRotation ++ omittableMember "upperCap" c.upperCap
        ++ omittableMember "lowerCap" c.lowerCap) :=
    ((members_angle hrotation "xRotation").append
      (.omittable "upperCap" fun cap hcap => (hupper cap hcap).wellFormed)).append
      (.omittable "lowerCap" fun cap hcap => (hlower cap hcap).wellFormed)
  refine reads_record hmembers (by decide) rfl fun hnodup => ?_
  rw [ofJson?_record hnodup]
  simp [List.lookup_append, lookup_omittableMember, lookup_angleMember_of_ne,
    omittable_toJson_self hupper, omittable_toJson_self hlower, withDefault_angle hrotation]

end RibCrossSection

/-! ### Spars -/

/-- The numbers of a place in span direction. -/
def SparLocation.numbers : SparLocation K → List K
  | .eta x => [x]
  | .elementUid _ => []

namespace SparPosition

/-- The numbers of a position. -/
def numbers (p : SparPosition K) : List K := p.location.numbers ++ [p.xsi]

omit [Scalar K] in
theorem ofJsonInside?_record {outer : Nat} {ms : List (String × Json)}
    (h : (ms.map Prod.fst).Nodup) (hdepth : outer + (record ms).depth ≤ depthLimit)
    (hreadable : (record ms).readable = true) :
    (ofJsonInside? outer (record ms) : Option (SparPosition K)) = do
      return ⟨← required (ms.lookup "uid"), ← location? (ms.map fun (k, v) => (some k, v)),
        ← required (ms.lookup "xsi")⟩ := by
  rw [record] at hdepth hreadable ⊢
  simp only [ofJsonInside?, guard, if_pos hdepth, if_pos hreadable, member?_record h]
  rfl

/-- What is written for a place in span direction is no container, and the place is read from it
wherever it stands. -/
theorem location?_toJson {l : SparLocation Float} (h : NumbersKept l.numbers) (uid xsi : Json) :
    (locationMember l).2.WellFormed ∧ (locationMember l).2.depth = 0 ∧
      (locationMember l).2.readable = true ∧
      location? [(some "uid", uid), (some (locationMember l).1, (locationMember l).2),
        (some "xsi", xsi)] = some l := by
  cases l with
  | elementUid element => exact ⟨trivial, rfl, rfl, rfl⟩
  | eta x =>
    obtain ⟨n, hjson, hn, hread⟩ := toJson_of_kept (h x List.mem_cons_self)
    rw [locationMember, hjson]
    refine ⟨hn, rfl, Option.isSome_iff_exists.2 ⟨x, hread⟩, ?_⟩
    change (n.toFloat? >>= fun x => some (SparLocation.eta x)) = _
    rw [hread]
    rfl

/-- A position reads back inside any number of containers that leaves room for its own one. -/
theorem ofJsonInside?_toJson {p : SparPosition Float} (h : NumbersKept p.numbers) {outer : Nat}
    (houter : outer < depthLimit) :
    (toJson p).WellFormed ∧ ofJsonInside? outer (toJson p) = some p := by
  obtain ⟨uid, location, xsi⟩ := p
  obtain ⟨hlocation, hxsi⟩ := numbersKept_append.1 h
  have hxsi : Numeral.Kept xsi := hxsi xsi List.mem_cons_self
  obtain ⟨n, hjson, hn, hread⟩ := toJson_of_kept hxsi
  obtain ⟨hwellFormed, hdepth, hreadable, hplace⟩ :=
    location?_toJson hlocation (text uid) (toJson xsi)
  have hmembers : Members ["uid", (locationMember location).1, "xsi"]
      [("uid", text uid), locationMember location, ("xsi", toJson xsi)] :=
    .cons trivial (.cons hwellFormed (.cons (hjson ▸ hn) .nil))
  refine ⟨hmembers.record, ?_⟩
  change ofJsonInside? outer
    (record [("uid", text uid), locationMember location, ("xsi", toJson xsi)]) = _
  rw [ofJsonInside?_record]
  · have hlookup : [("uid", text uid), locationMember location, ("xsi", toJson xsi)].lookup "xsi" =
        some (toJson xsi) := by
      cases location <;> rfl
    have huid : required ([("uid", text uid), locationMember location,
        ("xsi", toJson xsi)].lookup "uid") = some uid := rfl
    have hplace : location? ([("uid", text uid), locationMember location,
        ("xsi", toJson xsi)].map fun (k, v) => (some k, v)) = some location := hplace
    rw [huid, hlookup, required_toJson (reads_float hxsi), hplace]
    rfl
  · refine hmembers.names.nodup ?_
    cases location with
    | eta x => exact (by decide : ["uid", "eta", "xsi"].Nodup)
    | elementUid element => exact (by decide : ["uid", "elementUid", "xsi"].Nodup)
  · have hflat : ∀ m ∈ [("uid", text uid), locationMember location, ("xsi", toJson xsi)],
        m.2.depth = 0 :=
      List.forall_mem_cons.2 ⟨rfl, List.forall_mem_cons.2 ⟨hdepth,
        List.forall_mem_singleton.2 (hjson ▸ rfl)⟩⟩
    rw [depth_record hflat]
    exact houter
  · have hnumber : (toJson xsi).readable = true :=
      hjson ▸ Option.isSome_iff_exists.2 ⟨xsi, hread⟩
    exact readable_record (List.forall_mem_cons.2 ⟨rfl, List.forall_mem_cons.2 ⟨hreadable,
      List.forall_mem_singleton.2 hnumber⟩⟩)

theorem reads {p : SparPosition Float} (h : NumbersKept p.numbers) : Reads p p := by
  obtain ⟨hwellFormed, hread⟩ := ofJsonInside?_toJson h (show 0 < _ by decide)
  exact ⟨hwellFormed, nofun, hread⟩

end SparPosition

namespace SparSegment

/-- The numbers of a spar. -/
def numbers (s : SparSegment K) : List K := s.crossSection.numbers

theorem ofJson?_record {ms : List (String × Json)} (h : (ms.map Prod.fst).Nodup) :
    (ofJson? (record ms) : Option (SparSegment K)) = do
      return ⟨← required (ms.lookup "uid"), ← required (ms.lookup "positionUids"),
        ← withDefault .plain (ms.lookup "crossSection")⟩ := by
  change (fields? _ (record ms) >>= _) = _
  rw [fields?_record h]
  rfl

theorem reads {s : SparSegment Float} (h : NumbersKept s.numbers) : Reads s s := by
  have huid := reads_string s.uid
  have hpositions : Reads s.positionUids s.positionUids := by
    have hmap := reads_list (f := id) fun uid (_ : uid ∈ s.positionUids) => reads_string uid
    rwa [List.map_id] at hmap
  have hsection := SparCrossSection.reads h
  have hmembers : Members ["uid", "positionUids", "crossSection"] [("uid", toJson s.uid),
      ("positionUids", toJson s.positionUids), ("crossSection", toJson s.crossSection)] :=
    .cons huid.wellFormed (.cons hpositions.wellFormed (.cons hsection.wellFormed .nil))
  refine reads_record hmembers (by decide) rfl fun hnodup => ?_
  rw [ofJson?_record hnodup]
  simp [List.lookup_cons, required_toJson huid, required_toJson hpositions,
    withDefault_toJson _ hsection]

end SparSegment

/-! ### Sets of ribs -/

namespace SetBoundary

/-- The numbers of a boundary. -/
def numbers : SetBoundary K → List K
  | eta x => [x]
  | _ => []

theorem reads {b : SetBoundary Float} (h : NumbersKept b.numbers) : Reads b b := by
  cases b with
  | eta x => exact reads_chosen (reads_float (h x List.mem_cons_self)) rfl rfl
  | elementUid uid => exact reads_chosen (reads_string uid) rfl rfl
  | sparPositionUid uid => exact reads_chosen (reads_string uid) rfl rfl

end SetBoundary

namespace RibCount

/-- The numbers of a count that may have a fraction. -/
def numbers : RibCount K → List K
  | numberOfRibs _ => []
  | spacing distance => [distance]

theorem reads {c : RibCount Float} (h : NumbersKept c.numbers) : Reads c c := by
  cases c with
  | numberOfRibs n => exact reads_chosen (reads_uint32 n) rfl rfl
  | spacing distance => exact reads_chosen (reads_float (h distance List.mem_cons_self)) rfl rfl

end RibCount

theorem RibCrossing.reads (c : RibCrossing) : Reads c c := by
  cases c <;> exact ⟨trivial, nofun, rfl⟩

namespace RibRotation

/-- The numbers of a rotation. -/
def numbers (r : RibRotation K) : List K := [r.z]

theorem ofJson?_record {ms : List (String × Json)} (h : (ms.map Prod.fst).Nodup) :
    (ofJson? (record ms) : Option (RibRotation K)) = do
      return ⟨← withDefault rightAngle (ms.lookup "z"), ← omittable (ms.lookup "reference")⟩ := by
  change (fields? _ (record ms) >>= _) = _
  rw [fields?_record h]
  rfl

theorem reads {r : RibRotation Float} (h : NumbersKept r.numbers) : Reads r r.reread := by
  have hz := reads_float (h r.z List.mem_cons_self)
  have hreference : ∀ d ∈ r.reference, Reads d d.reread := fun d _ => d.reads
  have hmembers : Members ["z", "reference"]
      (("z", toJson r.z) :: omittableMember "reference" r.reference) :=
    .cons hz.wellFormed (.omittable _ fun d hd => (hreference d hd).wellFormed)
  refine reads_record hmembers (by decide) rfl fun hnodup => ?_
  rw [ofJson?_record hnodup]
  simp [List.lookup_cons, lookup_omittableMember, withDefault_toJson _ hz,
    omittable_map_toJson hreference, reread]

end RibRotation

namespace RibSet

/-- The numbers of a set. -/
def numbers (s : RibSet K) : List K :=
  s.start.numbers ++ s.stop.numbers ++ s.count.numbers ++ s.rotation.numbers

theorem ofJson?_record {ms : List (String × Json)} (h : (ms.map Prod.fst).Nodup) :
    (ofJson? (record ms) : Option (RibSet K)) = do
      return ⟨← required (ms.lookup "ribReference"), ← required (ms.lookup "start"),
        ← required (ms.lookup "end"), ← required (ms.lookup "ribStart"),
        ← required (ms.lookup "ribEnd"), ← required (ms.lookup "count"),
        ← withDefault .cross (ms.lookup "crossing"),
        ← withDefault .plain (ms.lookup "rotation")⟩ := by
  change (fields? _ (record ms) >>= _) = _
  rw [fields?_record h]
  rfl

theorem reads {s : RibSet Float} (h : NumbersKept s.numbers) : Reads s s.reread := by
  simp only [numbers, numbersKept_append] at h
  obtain ⟨⟨⟨hstart, hstop⟩, hcount⟩, hrotation⟩ := h
  have hreference := s.ribReference.reads
  have hstart := SetBoundary.reads hstart
  have hstop := SetBoundary.reads hstop
  have hribStart := s.ribStart.reads
  have hribEnd := s.ribEnd.reads
  have hcount := RibCount.reads hcount
  have hcrossing := s.crossing.reads
  have hrotation := RibRotation.reads hrotation
  have hmembers : Members ["ribReference", "start", "end", "ribStart", "ribEnd", "count",
      "crossing", "rotation"] [("ribReference", toJson s.ribReference), ("start", toJson s.start),
      ("end", toJson s.stop), ("ribStart", toJson s.ribStart), ("ribEnd", toJson s.ribEnd),
      ("count", toJson s.count), ("crossing", toJson s.crossing),
      ("rotation", toJson s.rotation)] :=
    .cons hreference.wellFormed (.cons hstart.wellFormed (.cons hstop.wellFormed
      (.cons hribStart.wellFormed (.cons hribEnd.wellFormed (.cons hcount.wellFormed
        (.cons hcrossing.wellFormed (.cons hrotation.wellFormed .nil)))))))
  refine reads_record hmembers (by decide) rfl fun hnodup => ?_
  rw [ofJson?_record hnodup]
  simp [List.lookup_cons, required_toJson hreference, required_toJson hstart,
    required_toJson hstop, required_toJson hribStart, required_toJson hribEnd,
    required_toJson hcount, withDefault_toJson _ hcrossing, withDefault_toJson _ hrotation, reread]

end RibSet

/-! ### Explicit ribs -/

namespace RibEnd

/-- The numbers of an end. -/
def numbers : RibEnd K → List K
  | etaXsi eta xsi _ => [eta, xsi]
  | curve _ eta => [eta]
  | sparPosition _ => []

omit [Scalar K] in
theorem ofJson?_etaXsi {ms : List (String × Json)} (h : (ms.map Prod.fst).Nodup) :
    (ofJson? (chosen "etaXsi" (record ms)) : Option (RibEnd K)) = do
      return .etaXsi (← required (ms.lookup "eta")) (← required (ms.lookup "xsi"))
        (← omittable (ms.lookup "referenceUid")) := by
  change (fields? _ (record ms) >>= _) = _
  rw [fields?_record h]
  rfl

omit [Scalar K] in
theorem ofJson?_curve {ms : List (String × Json)} (h : (ms.map Prod.fst).Nodup) :
    (ofJson? (chosen "curve" (record ms)) : Option (RibEnd K)) = do
      return .curve (← required (ms.lookup "reference")) (← required (ms.lookup "eta")) := by
  change (fields? _ (record ms) >>= _) = _
  rw [fields?_record h]
  rfl

theorem reads {p : RibEnd Float} (h : NumbersKept p.numbers) : Reads p p.reread := by
  cases p with
  | sparPosition uid => exact reads_chosen (reads_string uid) rfl rfl
  | etaXsi eta xsi uid =>
    have heta := reads_float (h eta List.mem_cons_self)
    have hxsi := reads_float (h xsi (List.mem_cons_of_mem _ List.mem_cons_self))
    have huid : ∀ uid' ∈ uid, Reads uid' uid' := fun uid' _ => reads_string uid'
    have hmembers : Members ["eta", "xsi", "referenceUid"]
        ([("eta", toJson eta), ("xsi", toJson xsi)] ++ omittableMember "referenceUid" uid) :=
      .cons heta.wellFormed (.cons hxsi.wellFormed
        (.omittable _ fun uid' hmem => (huid uid' hmem).wellFormed))
    refine ⟨wellFormed_chosen hmembers.record, chosen_ne_null _ _, ?_⟩
    change ofJson? (chosen "etaXsi" (record _)) = _
    rw [ofJson?_etaXsi (hmembers.names.nodup (by decide))]
    simp [List.lookup_cons, lookup_omittableMember, required_toJson heta, required_toJson hxsi,
      omittable_toJson_self huid, reread]
  | curve reference eta =>
    have hreference := reference.reads
    have heta := reads_float (h eta List.mem_cons_self)
    have hmembers : Members ["reference", "eta"]
        [("reference", toJson reference), ("eta", toJson eta)] :=
      .cons hreference.wellFormed (.cons heta.wellFormed .nil)
    refine ⟨wellFormed_chosen hmembers.record, chosen_ne_null _ _, ?_⟩
    change ofJson? (chosen "curve" (record _)) = _
    rw [ofJson?_curve (hmembers.names.nodup (by decide))]
    simp [List.lookup_cons, required_toJson hreference, required_toJson heta, reread]

end RibEnd

namespace ExplicitRib

/-- The numbers of a rib. -/
def numbers (r : ExplicitRib K) : List K := r.start.numbers ++ r.stop.numbers

omit [Scalar K] in
theorem ofJson?_record {ms : List (String × Json)} (h : (ms.map Prod.fst).Nodup) :
    (ofJson? (record ms) : Option (ExplicitRib K)) = do
      return ⟨← required (ms.lookup "start"), ← required (ms.lookup "end"),
        ← required (ms.lookup "ribStart"), ← required (ms.lookup "ribEnd")⟩ := by
  change (fields? _ (record ms) >>= _) = _
  rw [fields?_record h]
  rfl

theorem reads {r : ExplicitRib Float} (h : NumbersKept r.numbers) : Reads r r.reread := by
  obtain ⟨hstart, hstop⟩ := numbersKept_append.1 h
  have hstart := RibEnd.reads hstart
  have hstop := RibEnd.reads hstop
  have hribStart := r.ribStart.reads
  have hribEnd := r.ribEnd.reads
  have hmembers : Members ["start", "end", "ribStart", "ribEnd"] [("start", toJson r.start),
      ("end", toJson r.stop), ("ribStart", toJson r.ribStart), ("ribEnd", toJson r.ribEnd)] :=
    .cons hstart.wellFormed (.cons hstop.wellFormed (.cons hribStart.wellFormed
      (.cons hribEnd.wellFormed .nil)))
  refine reads_record hmembers (by decide) rfl fun hnodup => ?_
  rw [ofJson?_record hnodup]
  simp [List.lookup_cons, required_toJson hstart, required_toJson hstop,
    required_toJson hribStart, required_toJson hribEnd, reread]

end ExplicitRib

/-! ### Declarations -/

namespace RibsDeclaration

/-- The numbers of a declaration. -/
def numbers (d : RibsDeclaration K) : List K :=
  d.ribsPositioning.toList.flatMap RibSet.numbers
    ++ d.explicitPositioning.toList.flatMap ExplicitRib.numbers ++ d.crossSection.numbers

theorem ofJson?_record {ms : List (String × Json)} (h : (ms.map Prod.fst).Nodup) :
    (ofJson? (record ms) : Option (RibsDeclaration K)) = do
      return ⟨← required (ms.lookup "uid"), ← omittable (ms.lookup "ribsPositioning"),
        ← omittable (ms.lookup "explicitPositioning"),
        ← withDefault .plain (ms.lookup "crossSection")⟩ := by
  change (fields? _ (record ms) >>= _) = _
  rw [fields?_record h]
  rfl

theorem reads {d : RibsDeclaration Float} (h : NumbersKept d.numbers) : Reads d d.reread := by
  simp only [numbers, numbersKept_append, numbersKept_toList_flatMap] at h
  obtain ⟨⟨hset, hrib⟩, hsection⟩ := h
  have huid := reads_string d.uid
  have hset : ∀ s ∈ d.ribsPositioning, Reads s s.reread := fun s hs => RibSet.reads (hset s hs)
  have hrib : ∀ r ∈ d.explicitPositioning, Reads r r.reread := fun r hr =>
    ExplicitRib.reads (hrib r hr)
  have hsection := RibCrossSection.reads hsection
  have hmembers : Members ["uid", "ribsPositioning", "explicitPositioning", "crossSection"]
      (("uid", toJson d.uid) :: omittableMember "ribsPositioning" d.ribsPositioning
        ++ omittableMember "explicitPositioning" d.explicitPositioning
        ++ [("crossSection", toJson d.crossSection)]) :=
    ((Members.cons huid.wellFormed (.omittable _ fun s hs => (hset s hs).wellFormed)).append
      (.omittable _ fun r hr => (hrib r hr).wellFormed)).append (.cons hsection.wellFormed .nil)
  refine reads_record hmembers (by decide) rfl fun hnodup => ?_
  rw [ofJson?_record hnodup]
  simp [List.lookup_cons, List.lookup_append, lookup_omittableMember, required_toJson huid,
    omittable_map_toJson hset, omittable_map_toJson hrib, withDefault_toJson _ hsection, reread]

end RibsDeclaration

/-! ### Descriptions -/

namespace Description

/-- The numbers that a description stores. -/
def numbers (d : Description K) : List K :=
  d.sparPositions.flatMap SparPosition.numbers ++ d.sparSegments.flatMap SparSegment.numbers
    ++ d.ribsDefinitions.flatMap RibsDeclaration.numbers

theorem ofJson?_record {ms : List (String × Json)} (h : (ms.map Prod.fst).Nodup) :
    (ofJson? (record ms) : Option (Description K)) = do
      return ⟨← positions? (ms.lookup "sparPositions"), ← withDefault [] (ms.lookup "sparSegments"),
        ← withDefault [] (ms.lookup "ribsDefinitions")⟩ := by
  change (fields? _ (record ms) >>= _) = _
  rw [fields?_record h]
  rfl

theorem positions?_toJson {ps : List (SparPosition Float)}
    (h : ∀ p ∈ ps, NumbersKept p.numbers) : positions? (some (toJson ps)) = some ps := by
  have hread := mapM_map_eq_some (f := id) fun p hp =>
    (SparPosition.ofJsonInside?_toJson (h p hp) (show 2 < _ by decide)).2
  rwa [List.map_id] at hread

theorem reads {d : Description Float} (h : NumbersKept d.numbers) : Reads d d.reread := by
  simp only [numbers, numbersKept_append, numbersKept_flatMap] at h
  obtain ⟨⟨hpositions, hspars⟩, hribs⟩ := h
  have hread := positions?_toJson hpositions
  have hpositions := reads_list (f := id) fun p hp => SparPosition.reads (hpositions p hp)
  have hspars := reads_list (f := id) fun s hs => SparSegment.reads (hspars s hs)
  have hribs := reads_list fun r hr => RibsDeclaration.reads (hribs r hr)
  have hmembers : Members ["sparPositions", "sparSegments", "ribsDefinitions"]
      [("sparPositions", toJson d.sparPositions), ("sparSegments", toJson d.sparSegments),
        ("ribsDefinitions", toJson d.ribsDefinitions)] :=
    .cons hpositions.wellFormed (.cons hspars.wellFormed (.cons hribs.wellFormed .nil))
  refine reads_record hmembers (by decide) rfl fun hnodup => ?_
  rw [ofJson?_record hnodup]
  simp [List.lookup_cons, hread, withDefault_toJson _ hspars, withDefault_toJson _ hribs, reread]

end Description

/-! ### Text -/

section Text

variable {α : Type} [JsonForm α] {x y : α}

omit [Scalar K] [JsonForm K] in
/-- An element is read from its text as it is read from its JSON value. -/
theorem ofText_pretty (h : Reads x y) :
    (ofText (toJson x).pretty : Except (Error K) α) = .ok y := by
  rw [ofText, parse?_pretty h.wellFormed, Option.bind_eq_bind, Option.bind_some, h.ofJson?]
  rfl

omit [Scalar K] [JsonForm K] in
theorem ofText_toText (h : Reads x y) : (ofText (toText x) : Except (Error K) α) = .ok y := by
  rw [ofText, toText, parse?_compact h.wellFormed, Option.bind_eq_bind, Option.bind_some, h.ofJson?]
  rfl

omit [Scalar K] [JsonForm K] in
/-- An element that is read from a text is read from the JSON value of the text. -/
theorem exists_of_ofText {text : String} (h : (ofText text : Except (Error K) α) = .ok x) :
    ∃ j, parse? text = some j ∧ ofJson? j = some x := by
  unfold ofText Error.require at h
  split at h
  next hvalue =>
    cases h
    exact Option.bind_eq_some_iff.1 hvalue
  next => cases h

end Text

end WingBox

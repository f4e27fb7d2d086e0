import EnvDiagram.Proofs.Diagram.Joints
import EnvDiagram.Proofs.Geometry

/-!
# The shapes of routes

An arrow leaves for its corridor strictly to the right: every lane lies behind the start of the
corridor and none behind its end, whichever arrows have taken lanes before. An elbow is only taken
if the target lies beyond the end of the corridor, so it never turns around. For any other target
the arrow goes over both ends and comes in from the left. There it comes down as far in front of
the target as its lane lies behind the source; if the target lies just that far to the right, the
way down is the column of the source, and an arrow to a target below cuts through its source.

* `Point.OnSegment`, `Route.CutsBack` — points on a segment, and routes that come back to a point
* `Route.AxisParallel`, `Route.Leads` — the shape of a route from point to point
* `Router.Reached` — the routers of one drawing
* `Router.routes_reached` — the shapes of all their routes, and which of them cut back
-/

namespace EnvDiagram

open Scalar

/-! ## Segments -/

namespace Point

/-- The length of a segment that runs along an axis. -/
def axisDistance (p q : Point Rat) : Rat := |q.x - p.x| + |q.y - p.y|

/-- Whether a point lies on a segment, its ends included. -/
def OnSegment (p : Point Rat) (s : Point Rat × Point Rat) : Prop :=
  ∃ t, 0 ≤ t ∧ t ≤ 1 ∧ p.x = s.1.x + t * (s.2.x - s.1.x) ∧ p.y = s.1.y + t * (s.2.y - s.1.y)

variable {p q : Point Rat} {s : Point Rat × Point Rat}

theorem axisDistance_pos (h : p.x ≠ q.x ∨ p.y ≠ q.y) : 0 < p.axisDistance q := by
  rcases h with h | h
  · exact add_pos_of_pos_of_nonneg (abs_pos.mpr (sub_ne_zero.mpr h.symm)) (abs_nonneg _)
  · exact add_pos_of_nonneg_of_pos (abs_nonneg _) (abs_pos.mpr (sub_ne_zero.mpr h.symm))

theorem min_le_interpolate_le_max {a b t : Rat} (hnonneg : 0 ≤ t) (hle : t ≤ 1) :
    min a b ≤ a + t * (b - a) ∧ a + t * (b - a) ≤ max a b := by
  rcases le_total a b with h | h
  · rw [min_eq_left h, max_eq_right h]
    constructor <;> nlinarith
  · rw [min_eq_right h, max_eq_left h]
    constructor <;> nlinarith

/-- The points of a segment are abreast of it. -/
theorem OnSegment.x_mem (h : p.OnSegment s) : min s.1.x s.2.x ≤ p.x ∧ p.x ≤ max s.1.x s.2.x := by
  obtain ⟨t, hnonneg, hle, hx, -⟩ := h
  rw [hx]
  exact min_le_interpolate_le_max hnonneg hle

theorem OnSegment.lt_x {x : Rat} (h : p.OnSegment s) (hfirst : x < s.1.x) (hlast : x < s.2.x) :
    x < p.x := (lt_min hfirst hlast).trans_le h.x_mem.1

theorem OnSegment.x_le {x : Rat} (h : p.OnSegment s) (hfirst : s.1.x ≤ x) (hlast : s.2.x ≤ x) :
    p.x ≤ x := h.x_mem.2.trans (max_le hfirst hlast)

/-- The points of a segment in a row are in the row. -/
theorem OnSegment.y_eq (h : p.OnSegment s) (hrow : s.2.y = s.1.y) : p.y = s.1.y := by
  obtain ⟨t, -, -, -, hy⟩ := h
  rw [hy, hrow, sub_self, mul_zero, add_zero]

theorem onSegment_vertical {x top bottom : Rat} (h : top < bottom) :
    p.OnSegment (⟨x, top⟩, ⟨x, bottom⟩) ↔ p.x = x ∧ top ≤ p.y ∧ p.y ≤ bottom := by
  have hheight : 0 < bottom - top := sub_pos.mpr h
  constructor
  · rintro ⟨t, hnonneg, hle, hx, hy⟩
    have hmem := min_le_interpolate_le_max (a := top) (b := bottom) hnonneg hle
    rw [min_eq_left h.le, max_eq_right h.le, ← hy] at hmem
    exact ⟨by rw [hx, sub_self, mul_zero, add_zero], hmem⟩
  · rintro ⟨hx, htop, hbottom⟩
    refine ⟨(p.y - top) / (bottom - top), div_nonneg (sub_nonneg.mpr htop) hheight.le, ?_, ?_, ?_⟩
    · exact (div_le_one hheight).mpr (sub_le_sub_right hbottom top)
    · rw [hx, sub_self, mul_zero, add_zero]
    · rw [div_mul_cancel₀ _ hheight.ne', add_sub_cancel]

end Point

namespace Route

/-- Whether every segment runs along an axis. -/
def AxisParallel {α : Type} (r : Route α) : Prop := ∀ s ∈ r.segments, s.1.x = s.2.x ∨ s.1.y = s.2.y

/-- Whether a segment after the first one runs through a point. -/
def CutsBack (r : Route Rat) (p : Point Rat) : Prop := ∃ s ∈ r.segments.tail, p.OnSegment s

/-- The shape of a route from point to point: one segment exactly if the points are next to each
other in a row, with the target to the right, or in a column. An elbow keeps between the points, a
detour goes around both of them. -/
structure Leads (source target : Point Rat) (r : Route Rat) : Prop where
  joins : r.Joins source target
  straight_iff : r.kind = .straight ↔
    |source.y - target.y| < 1 / 2 ∧ source.x < target.x ∨ |source.x - target.x| < 1 / 2
  ne_loop : r.kind ≠ .loop
  axisParallel : r.kind ≠ .straight → r.AxisParallel
  elbow : r.kind = .elbow → ∃ x, source.x < x ∧ x < target.x ∧
    r.points = [source, ⟨x, source.y⟩, ⟨x, target.y⟩, target]
  detour : r.kind = .detour → ∃ out top back, source.x < out ∧ top < source.y ∧ top < target.y ∧
    back < target.x ∧
    r.points = [source, ⟨out, source.y⟩, ⟨out, top⟩, ⟨back, top⟩, ⟨back, target.y⟩, target]

/-- Out through a column, and along it to the height of the target. -/
def elbowAt (source target : Point Rat) (x : Rat) : Route Rat :=
  ⟨.elbow, [source, ⟨x, source.y⟩, ⟨x, target.y⟩, target]⟩

/-- Out through one column, over the top, and down through another one. -/
def detourOver (source target : Point Rat) (out top back : Rat) : Route Rat :=
  ⟨.detour, [source, ⟨out, source.y⟩, ⟨out, top⟩, ⟨back, top⟩, ⟨back, target.y⟩, target]⟩

variable {source target p : Point Rat} {x out top back : Rat}

theorem axisParallel_elbowAt (source target : Point Rat) (x : Rat) :
    (elbowAt source target x).AxisParallel := by
  simp [AxisParallel, elbowAt, segments, segmentsOf]

theorem axisParallel_detourOver (source target : Point Rat) (out top back : Rat) :
    (detourOver source target out top back).AxisParallel := by
  simp [AxisParallel, detourOver, segments, segmentsOf]

theorem not_cutsBack_straight (source target : Point Rat) :
    ¬ (straight source target).CutsBack source := by
  rintro ⟨s, hs, -⟩
  exact List.not_mem_nil hs

theorem not_cutsBack_elbowAt (hout : source.x < x) (hin : x < target.x) :
    ¬ (elbowAt source target x).CutsBack source := by
  rintro ⟨s, hs, hon⟩
  simp only [elbowAt, segments, segmentsOf, List.tail_cons, List.zip_cons_cons,
    List.zip_nil_right, List.mem_cons, List.not_mem_nil, or_false] at hs
  rcases hs with rfl | rfl
  · exact lt_irrefl _ (hon.lt_x hout hout)
  · exact lt_irrefl _ (hon.lt_x hout (hout.trans hin))

/-- Only on its way down can a detour meet its source. -/
theorem cutsBack_detourOver_iff (hout : source.x < out) (htop : top < source.y)
    (hover : top < target.y) (hback : back < target.x)
    (hrow : source.y = target.y → target.x < source.x) :
    (detourOver source target out top back).CutsBack source ↔
      back = source.x ∧ source.y ≤ target.y := by
  constructor
  · rintro ⟨s, hs, hon⟩
    simp only [detourOver, segments, segmentsOf, List.tail_cons, List.zip_cons_cons,
      List.zip_nil_right, List.mem_cons, List.not_mem_nil, or_false] at hs
    rcases hs with rfl | rfl | rfl | rfl
    · exact absurd (hon.lt_x hout hout) (lt_irrefl _)
    · exact absurd (hon.y_eq rfl) htop.ne'
    · obtain ⟨hx, -, hy⟩ := (Point.onSegment_vertical hover).mp hon
      exact ⟨hx.symm, hy⟩
    · have hbehind := hrow (hon.y_eq rfl)
      exact absurd (hon.x_le hback.le le_rfl) (not_le.mpr hbehind)
  · rintro ⟨rfl, hy⟩
    refine ⟨(⟨source.x, top⟩, ⟨source.x, target.y⟩), ?_, ?_⟩
    · simp [detourOver, segments, segmentsOf]
    · exact (Point.onSegment_vertical hover).mpr ⟨rfl, htop.le, hy⟩

end Route

theorem near_iff_abs (x y : Rat) : Near x y ↔ |x - y| < 1 / 2 := by
  show x - y < 1 / 2 ∧ y - x < 1 / 2 ↔ _
  rw [abs_sub_lt_iff]

/-! ## Routers -/

namespace Router

/-- The routers of one drawing: lanes are taken by the arrows and forgotten again. -/
inductive Reached (config : Config Rat) : Router Rat → Prop
  | start : Reached config (ofConfig config)
  | reset {r : Router Rat} : Reached config r → Reached config r.reset
  | toPoint {r : Router Rat} (source target : Point Rat) :
      Reached config r → Reached config (r.toPoint source target).2
  | intoBox {r : Router Rat} (source : Point Rat) (box : Bounds Rat) (entryY : Rat) :
      Reached config r → Reached config (r.intoBox source box entryY).2
  | toFrame {r : Router Rat} (source : Point Rat) (frame : Bounds Rat) :
      Reached config r → Reached config (r.toFrame source frame).2

/-- The shapes of the routes of a router. A route from point to point cuts back through its source
exactly if the target lies in the next lane and below. -/
structure Routes (r : Router Rat) : Prop where
  toPoint : ∀ source target, (r.toPoint source target).1.Leads source target
  cutsBack_iff : ∀ source target, (r.toPoint source target).1.CutsBack source ↔
    target.x - source.x = r.laneOffset (nearestInt source.x) ∧
      1 / 2 ≤ target.x - source.x ∧ 1 / 2 ≤ target.y - source.y
  intoBox : ∀ source box entryY, (r.intoBox source box entryY).1.kind ≠ .straight →
    (r.intoBox source box entryY).1.AxisParallel
  toFrame : ∀ source frame, (r.toFrame source frame).1.kind ≠ .straight →
    (r.toFrame source frame).1.AxisParallel
  loopBack : ∀ source array, (r.loopBack source array).AxisParallel ∧
    (array.Contains source → ∀ s ∈ (r.loopBack source array).segments, 0 < s.1.axisDistance s.2)

variable {config : Config Rat} {r : Router Rat} {source target : Point Rat}

/-- Apart from the lanes that are taken a router stays as it is. -/
theorem reset_of_reached (h : Reached config r) : r.reset = ofConfig config := by
  induction h with
  | start => rfl
  | reset _ ih => exact ih
  | toPoint source target _ ih => rw [reset_toPoint, ih]
  | intoBox source box entryY _ ih => rw [reset_intoBox, ih]
  | toFrame source frame _ ih => rw [reset_toFrame, ih]

/-! ## Corridors -/

/-- A router with room for its lanes and its detours. -/
structure Roomy (r : Router Rat) : Prop where
  laneGap : 0 < r.laneGap
  lanes : 0 < r.lanes
  loopHeight : 0 < r.loopHeight

theorem roomy_of_reset (h : r.reset.Roomy) : r.Roomy := ⟨h.laneGap, h.lanes, h.loopHeight⟩

theorem roomy_ofConfig (hmargin : 0 < config.frameMarginX) (hheight : 0 < config.arrowMinHeight) :
    (ofConfig config).Roomy where
  laneGap := by
    have hlanes : (0 : Rat) < (max config.arrowLanes 1 : Nat) :=
      Nat.cast_pos.mpr (Nat.lt_of_lt_of_le Nat.one_pos (Nat.le_max_right ..))
    exact div_pos (half_pos hmargin) hlanes
  lanes := Nat.lt_of_lt_of_le Nat.one_pos (Nat.le_max_right ..)
  loopHeight := by
    show 0 < config.arrowMinHeight / 4
    linarith

/-- Every lane lies within its corridor. -/
theorem Roomy.laneOffset (h : r.Roomy) (corridor : Int) :
    0 < r.laneOffset corridor ∧ r.laneOffset corridor ≤ r.corridorWidth := by
  have hgap := h.laneGap
  constructor
  · exact mul_pos (Nat.cast_pos.mpr (Nat.succ_pos _)) hgap
  · have hlane : ((r.taken corridor % r.lanes + 1 : Nat) : Rat) ≤ (r.lanes : Rat) :=
      Nat.cast_le.mpr (Nat.mod_lt _ h.lanes)
    show ((r.taken corridor % r.lanes + 1 : Nat) : Rat) * r.laneGap ≤ r.laneGap * (r.lanes : Rat)
    rw [mul_comm r.laneGap]
    exact mul_le_mul_of_nonneg_right hlane hgap.le

/-! ## The shapes of the routes -/

theorem toPoint_of_near (r : Router Rat)
    (h : Near source.y target.y ∧ source.x < target.x ∨ Near source.x target.x) :
    (r.toPoint source target).1 = .straight source target := by
  rw [Router.toPoint, if_pos h]

theorem toPoint_of_beyond (r : Router Rat)
    (h : ¬ (Near source.y target.y ∧ source.x < target.x ∨ Near source.x target.x))
    (hbeyond : r.corridorWidth < target.x - source.x) :
    (r.toPoint source target).1 =
      .elbowAt source target (source.x + r.laneOffset (nearestInt source.x)) := by
  rw [Router.toPoint, if_neg h]
  exact congrArg Prod.fst (if_pos hbeyond)

theorem toPoint_of_within (r : Router Rat)
    (h : ¬ (Near source.y target.y ∧ source.x < target.x ∨ Near source.x target.x))
    (hwithin : ¬ r.corridorWidth < target.x - source.x) :
    (r.toPoint source target).1 =
      .detourOver source target (source.x + r.laneOffset (nearestInt source.x))
        (least source.y target.y - r.loopHeight)
        (target.x - r.laneOffset (nearestInt source.x)) := by
  rw [Router.toPoint, if_neg h]
  exact congrArg Prod.fst (if_neg hwithin)

/-- A detour passes above both of its ends. -/
theorem Roomy.top_lt (h : r.Roomy) (source target : Point Rat) :
    least source.y target.y - r.loopHeight < source.y ∧
      least source.y target.y - r.loopHeight < target.y := by
  have hheight := h.loopHeight
  show (if target.y < source.y then target.y else source.y) - _ < _ ∧
    (if target.y < source.y then target.y else source.y) - _ < _
  split <;> constructor <;> linarith

theorem Roomy.toPoint (h : r.Roomy) (source target : Point Rat) :
    (r.toPoint source target).1.Leads source target := by
  have hjoins := r.joins_toPoint source target
  have hnear : (Near source.y target.y ∧ source.x < target.x ∨ Near source.x target.x) ↔
      (|source.y - target.y| < 1 / 2 ∧ source.x < target.x ∨ |source.x - target.x| < 1 / 2) := by
    rw [near_iff_abs, near_iff_abs]
  obtain ⟨hpos, hle⟩ := h.laneOffset (nearestInt source.x)
  have hout := lt_add_of_pos_right source.x hpos
  by_cases hstraight : Near source.y target.y ∧ source.x < target.x ∨ Near source.x target.x
  · rw [r.toPoint_of_near hstraight] at hjoins ⊢
    exact ⟨hjoins, iff_of_true rfl (hnear.mp hstraight), nofun, fun hne => absurd rfl hne, nofun,
      nofun⟩
  · have hfar := fun hs => hstraight (hnear.mpr hs)
    by_cases hbeyond : r.corridorWidth < target.x - source.x
    · have hin : source.x + r.laneOffset (nearestInt source.x) < target.x := by linarith
      rw [r.toPoint_of_beyond hstraight hbeyond] at hjoins ⊢
      exact ⟨hjoins, iff_of_false nofun hfar, nofun, fun _ => Route.axisParallel_elbowAt _ _ _,
        fun _ => ⟨_, hout, hin, rfl⟩, nofun⟩
    · obtain ⟨htop, hover⟩ := h.top_lt source target
      have hback := sub_lt_self target.x hpos
      rw [r.toPoint_of_within hstraight hbeyond] at hjoins ⊢
      exact ⟨hjoins, iff_of_false nofun hfar, nofun,
        fun _ => Route.axisParallel_detourOver _ _ _ _ _, nofun,
        fun _ => ⟨_, _, _, hout, htop, hover, hback, rfl⟩⟩

/-- A target in the row of the source that no straight arrow leads to lies to the left. -/
theorem lt_of_not_near (hfar : ¬ (Near source.y target.y ∧ source.x < target.x ∨
    Near source.x target.x)) (hrow : source.y = target.y) : target.x < source.x := by
  rw [near_iff_abs, near_iff_abs, not_or, not_and, not_lt, not_lt] at hfar
  obtain ⟨hright, hcolumn⟩ := hfar
  have hle : target.x ≤ source.x := by
    refine hright ?_
    rw [hrow, sub_self, abs_zero]
    exact half_pos one_pos
  rw [abs_of_nonneg (sub_nonneg.mpr hle)] at hcolumn
  linarith

/-- A target that no straight arrow leads to, a lane to the right and not above the source, is
well apart from it. -/
theorem lane_iff_of_not_near {offset : Rat} (hpos : 0 < offset)
    (hfar : ¬ (Near source.y target.y ∧ source.x < target.x ∨ Near source.x target.x)) :
    target.x - offset = source.x ∧ source.y ≤ target.y ↔
      target.x - source.x = offset ∧ 1 / 2 ≤ target.x - source.x ∧
        1 / 2 ≤ target.y - source.y := by
  constructor
  · rintro ⟨hlane, hbelow⟩
    have hright : source.x < target.x := by linarith
    rw [near_iff_abs, near_iff_abs, not_or, not_and', not_lt, not_lt] at hfar
    obtain ⟨hrow, hcolumn⟩ := hfar
    have hapart := hrow hright
    rw [abs_sub_comm, abs_of_nonneg (sub_nonneg.mpr hbelow)] at hapart
    rw [abs_sub_comm, abs_of_nonneg (sub_nonneg.mpr hright.le)] at hcolumn
    exact ⟨by linarith, hcolumn, hapart⟩
  · rintro ⟨hlane, -, hbelow⟩
    exact ⟨by linarith, by linarith⟩

/-- Only a detour to a target in the next lane and below comes back to its source. -/
theorem Roomy.cutsBack_toPoint_iff (h : r.Roomy) (source target : Point Rat) :
    (r.toPoint source target).1.CutsBack source ↔
      target.x - source.x = r.laneOffset (nearestInt source.x) ∧
        1 / 2 ≤ target.x - source.x ∧ 1 / 2 ≤ target.y - source.y := by
  obtain ⟨hpos, hle⟩ := h.laneOffset (nearestInt source.x)
  have hout := lt_add_of_pos_right source.x hpos
  by_cases hstraight : Near source.y target.y ∧ source.x < target.x ∨ Near source.x target.x
  · rw [r.toPoint_of_near hstraight]
    refine iff_of_false (Route.not_cutsBack_straight source target) ?_
    rintro ⟨-, hx, hy⟩
    rcases hstraight with ⟨hrow, -⟩ | hcolumn
    · exact absurd hrow.2 (not_lt.mpr hy)
    · exact absurd hcolumn.2 (not_lt.mpr hx)
  · by_cases hbeyond : r.corridorWidth < target.x - source.x
    · have hin : source.x + r.laneOffset (nearestInt source.x) < target.x := by linarith
      rw [r.toPoint_of_beyond hstraight hbeyond]
      refine iff_of_false (Route.not_cutsBack_elbowAt hout hin) ?_
      rintro ⟨hlane, -, -⟩
      linarith
    · obtain ⟨htop, hover⟩ := h.top_lt source target
      rw [r.toPoint_of_within hstraight hbeyond,
        Route.cutsBack_detourOver_iff hout htop hover (sub_lt_self target.x hpos)
          (lt_of_not_near hstraight)]
      exact lane_iff_of_not_near hpos hstraight

theorem Roomy.intoBox (h : r.Roomy) (source : Point Rat) (box : Bounds Rat) (entryY : Rat)
    (hkind : (r.intoBox source box entryY).1.kind ≠ .straight) :
    (r.intoBox source box entryY).1.AxisParallel := by
  unfold Router.intoBox at hkind ⊢
  split at hkind
  · exact absurd rfl hkind
  · rename_i hbeside
    rw [if_neg hbeside]
    exact (h.toPoint ..).axisParallel hkind

theorem Roomy.toFrame (h : r.Roomy) (source : Point Rat) (frame : Bounds Rat)
    (hkind : (r.toFrame source frame).1.kind ≠ .straight) :
    (r.toFrame source frame).1.AxisParallel := by
  unfold Router.toFrame at hkind ⊢
  dsimp only at hkind ⊢
  split at hkind
  · rename_i hright
    rw [if_pos hright]
    split at hkind
    · exact absurd rfl hkind
    · rename_i hrow
      rw [if_neg hrow]
      simp [Route.AxisParallel, Route.segments, Route.segmentsOf]
  · rename_i hright
    rw [if_neg hright]
    exact (h.toPoint ..).axisParallel hkind

theorem axisParallel_loopBack (r : Router Rat) (source : Point Rat) (array : Bounds Rat) :
    (r.loopBack source array).AxisParallel := by
  simp [Route.AxisParallel, loopBack, Route.segments, Route.segmentsOf]

/-- From within an array the way around it goes up, to the left, down and to the right. -/
theorem Roomy.loopBack (h : r.Roomy) {array : Bounds Rat} (hin : array.Contains source) :
    ∀ s ∈ (r.loopBack source array).segments, 0 < s.1.axisDistance s.2 := by
  obtain ⟨hleft, -, htop, hbottom⟩ := hin
  have hgap := h.laneGap
  have hheight := h.loopHeight
  have htwice : twice r.laneGap = 2 * r.laneGap := rfl
  have hhalf : half array.height = array.height / 2 := rfl
  have hbox : source.y ≤ array.y + array.height := hbottom
  intro s hs
  simp only [Router.loopBack, Route.segments, Route.segmentsOf, List.tail_cons, List.zip_cons_cons,
    List.zip_nil_right, List.mem_cons, List.not_mem_nil, or_false, htwice, hhalf] at hs
  rcases hs with rfl | rfl | rfl | rfl
  · exact Point.axisDistance_pos (Or.inr (by dsimp only; linarith))
  · exact Point.axisDistance_pos (Or.inl (by dsimp only; linarith))
  · exact Point.axisDistance_pos (Or.inr (by dsimp only; linarith))
  · exact Point.axisDistance_pos (Or.inl (by dsimp only; linarith))

theorem Roomy.routes (h : r.Roomy) : r.Routes where
  toPoint := h.toPoint
  cutsBack_iff := h.cutsBack_toPoint_iff
  intoBox := h.intoBox
  toFrame := h.toFrame
  loopBack source array := ⟨r.axisParallel_loopBack source array, fun hin => h.loopBack hin⟩

/-- Whichever arrows have been routed before, every route has its shape. -/
theorem routes_reached (hmargin : 0 < config.frameMarginX) (hheight : 0 < config.arrowMinHeight)
    (h : Reached config r) : r.Routes :=
  (roomy_of_reset (reset_of_reached h ▸ roomy_ofConfig hmargin hheight)).routes

/-- Even without lanes to share there is one; it is taken twice here, at the end of the corridor. -/
theorem routes_reached_single :
    let config : Config Rat := { Config.standard with arrowLanes := 0 }
    let r := (((ofConfig config).toPoint ⟨0, 0⟩ ⟨30, 50⟩).2.toPoint ⟨0, 20⟩ ⟨31, 50⟩).2
    0 < config.frameMarginX ∧ 0 < config.arrowMinHeight ∧ Reached config r ∧ r.Routes := by
  intro config r
  have hmargin : (0 : Rat) < 60 := by norm_num
  have hheight : (0 : Rat) < 100 := by norm_num
  have hr : Reached config r := .toPoint _ _ (.toPoint _ _ .start)
  exact ⟨hmargin, hheight, hr, routes_reached hmargin hheight hr⟩

/-- The first arrow of a drawing goes back down through its source if the target lies below and five
to the right, where the first lane is. -/
theorem cutsBack_toPoint_standard :
    let config : Config Rat := .standard
    let route := ((ofConfig config).toPoint ⟨0, 0⟩ ⟨5, 50⟩).1
    0 < config.frameMarginX ∧ 0 < config.arrowMinHeight ∧ Reached config (ofConfig config) ∧
      route = ⟨.detour, [⟨0, 0⟩, ⟨5, 0⟩, ⟨5, -25⟩, ⟨0, -25⟩, ⟨0, 50⟩, ⟨5, 50⟩]⟩ ∧
      route.CutsBack ⟨0, 0⟩ := by
  intro config route
  have hmargin : (0 : Rat) < 60 := by norm_num
  have hheight : (0 : Rat) < 100 := by norm_num
  have hroute : route =
      ⟨.detour, [⟨0, 0⟩, ⟨5, 0⟩, ⟨5, -25⟩, ⟨0, -25⟩, ⟨0, 50⟩, ⟨5, 50⟩]⟩ := by decide +kernel
  have hon : Point.OnSegment ⟨0, 0⟩ (⟨0, -25⟩, ⟨0, 50⟩) :=
    (Point.onSegment_vertical (by norm_num)).mpr (by norm_num)
  refine ⟨hmargin, hheight, .start, hroute, (⟨0, -25⟩, ⟨0, 50⟩), ?_, hon⟩
  rw [hroute]
  simp [Route.segments, Route.segmentsOf]

end Router

end EnvDiagram

import EnvDiagram.Proofs.Diagram.Routing
import EnvDiagram.Proofs.Diagram.Sources
import EnvDiagram.Proofs.Layout.Arrangement
import EnvDiagram.Proofs.Layout.Margins

/-!
# Plumb arrows

What is placed to the right of a row or of the last cell of an array has its landing level with
the middle of the row or the cell. What is placed below another cell lies across the vertical line
through the middle of that cell. So with the standard settings the arrow of the reference that a
value is placed by takes no turn: it runs straight to the right or drops straight down. It never
has to go around an array, since no array is placed by one of its own cells.

* `Value.LiesAt.beside_or_under` — a value and where the arrow to it starts
* `Arena.InFrame.not_own_cell` — no array is placed by one of its own cells
* `Scene.plumb_redraw` — the arrows of the diagram of a snapshot
-/

namespace EnvDiagram

open Scalar

/-! ## Straight routes -/

namespace Route

/-- Whether a route is one horizontal segment that leads to the right. -/
def RunsRight (r : Route Rat) : Prop := ∃ p q, r = .straight p q ∧ p.y = q.y ∧ p.x < q.x

/-- Whether a route is one vertical segment that leads down. -/
def Drops (r : Route Rat) : Prop := ∃ p q, r = .straight p q ∧ p.x = q.x ∧ p.y < q.y

end Route

namespace Router

variable (r : Router Rat) {source : Point Rat} {box : Bounds Rat} {entryY : Rat}

theorem runsRight_intoBox (hx : source.x < box.x) (hy : entryY = source.y) :
    (r.intoBox source box entryY).1.RunsRight := by
  subst hy
  have houtside : ¬ (box.x ≤ source.x ∧ source.x ≤ box.right) :=
    fun h => absurd h.1 (not_le.mpr hx)
  have hlevel : Near source.y source.y := by
    rw [near_iff_abs, sub_self, abs_zero]
    norm_num
  refine ⟨source, ⟨box.x, source.y⟩, ?_, rfl, hx⟩
  rw [intoBox, if_neg houtside, toPoint, if_pos (Or.inl ⟨hlevel, hx⟩)]

theorem drops_intoBox (hleft : box.x ≤ source.x) (hright : source.x ≤ box.right)
    (hy : source.y < box.y) : (r.intoBox source box entryY).1.Drops := by
  refine ⟨source, ⟨source.x, box.y⟩, ?_, rfl, hy⟩
  rw [intoBox, if_pos ⟨hleft, hright⟩]
  dsimp only
  rw [if_pos hy]

end Router

/-! ## Values seen from their anchors -/

namespace Anchor

/-- Where the arrow of a row or a cell starts. -/
def tail {α : Type} [Scalar α] : Anchor α → Point α
  | .row _ _ _ _ b => ⟨b.right, b.y + half b.height⟩
  | .cell _ _ b _ _ => b.center
  | .stray _ _ => .origin

/-- Whether values are placed to the right of an anchor, and not below it. -/
def LeadsRight {α : Type} : Anchor α → Prop
  | .row .. => True
  | .cell _ _ _ isLast _ => isLast = true
  | .stray _ _ => False

/-- Whether the parts of a layout that an anchor knows of have their standard measures. A key may
stick out of its frame, but not as far as to the values next to it. -/
def Standard : Anchor Rat → Prop
  | .row _ _ _ frameBounds b => b.right ≤ frameBounds.right + 4 ∧ b.height = 40
  | .cell _ _ b _ height => b.width = 40 ∧ b.height = 40 ∧ height = 40
  | .stray _ _ => False

variable {anchor : Anchor Rat}

/-- Arrays and functions to the right of an anchor. -/
theorem Standard.right (h : anchor.Standard) (hright : anchor.LeadsRight) :
    (anchor.tail.x < (anchor.arrayOrigin .standard).x ∧
      (anchor.arrayOrigin .standard).y + 20 = anchor.tail.y) ∧
    anchor.tail.x < (anchor.functionCenter .standard).x - 2 * 15 ∧
      (anchor.functionCenter .standard).y = anchor.tail.y := by
  cases anchor with
  | row f i node frameBounds b =>
    obtain ⟨hkey, hheight⟩ := h
    refine ⟨⟨?_, ?_⟩, ?_, rfl⟩
    · show b.right < frameBounds.right + 60 / 4
      linarith
    · show b.y + 20 = b.y + b.height / 2
      linarith
    · show b.right < frameBounds.right + 60 / 4 + 2 * 15 - 2 * 15
      linarith
  | cell array i b isLast height =>
    obtain ⟨hwidth, hheight, -⟩ := h
    obtain rfl : isLast = true := hright
    refine ⟨⟨?_, ?_⟩, ?_, ?_⟩
    · show b.x + b.width / 2 < b.x + 2 * 40
      linarith
    · show b.y + 20 = b.y + b.height / 2
      linarith
    · show b.x + b.width / 2 < b.x + 2 * 40 + 40 / 2 - 2 * 15
      linarith
    · show b.y + 40 / 2 = b.y + b.height / 2
      linarith
  | stray array i => exact h.elim

/-- Arrays and functions below an anchor. -/
theorem Standard.down (h : anchor.Standard) (hdown : ¬ anchor.LeadsRight) :
    (anchor.tail.x = (anchor.arrayOrigin .standard).x + 20 ∧
      anchor.tail.y < (anchor.arrayOrigin .standard).y) ∧
    anchor.tail.x = (anchor.functionCenter .standard).x ∧
      anchor.tail.y < (anchor.functionCenter .standard).y - 15 := by
  cases anchor with
  | row f i node frameBounds b => exact absurd trivial hdown
  | cell array i b isLast height =>
    obtain ⟨hwidth, hheight, rfl⟩ := h
    obtain rfl : isLast = false := Bool.eq_false_of_not_eq_true hdown
    refine ⟨⟨?_, ?_⟩, ?_, ?_⟩
    · show b.x + b.width / 2 = b.x + 20
      linarith
    · show b.y + b.height / 2 < b.y + 40 + 40
      linarith
    · show b.x + b.width / 2 = b.x + 40 / 2
      linarith
    · show b.y + b.height / 2 < b.y + 40 + 40 + 15 - 15
      linarith
  | stray array i => exact h.elim

end Anchor

namespace Value

variable {x : Value Rat} {anchor anchor' : Anchor Rat}

/-- Whether a value lies to the right of where an arrow starts, with its landing level with it. -/
def Beside (x : Value Rat) (start : Point Rat) : Prop :=
  start.x < x.bounds.x ∧ x.landing.y = start.y

/-- Whether a value lies straight below where an arrow starts. -/
def Under (x : Value Rat) (start : Point Rat) : Prop :=
  x.bounds.x ≤ start.x ∧ start.x ≤ x.bounds.right ∧ start.y < x.bounds.y

/-- Where a value lies that an anchor puts there. The measures of the value come from an earlier
anchor, if it has moved. -/
theorem LiesAt.beside_or_under (h : x.LiesAt .standard anchor)
    (hplaced : x.PlacedFrom .standard anchor') (hlit : x.isLiteral = false)
    (hanchor : anchor.Standard) :
    (anchor.LeadsRight → x.Beside anchor.tail) ∧ (¬ anchor.LeadsRight → x.Under anchor.tail) := by
  cases hk : x.kind with
  | literal text placeholder => simp [isLiteral, hk] at hlit
  | array cells =>
    obtain ⟨hwidth, hheight⟩ := hplaced.measures_array hk
    rw [LiesAt, hk] at h
    have hx : x.bounds.x = (anchor.arrayOrigin .standard).x := congrArg Point.x h.1
    have hy : x.bounds.y = (anchor.arrayOrigin .standard).y := congrArg Point.y h.1
    refine ⟨fun hright => ?_, fun hdown => ?_⟩
    · obtain ⟨⟨hleft, hlevel⟩, -⟩ := hanchor.right hright
      have hlanding : x.landing.y = x.bounds.y + x.bounds.height / 2 := by
        rw [landing, hk]
        rfl
      exact ⟨by linarith, by linarith⟩
    · obtain ⟨⟨hleft, hbelow⟩, -⟩ := hanchor.down hdown
      refine ⟨by linarith, ?_, by linarith⟩
      show anchor.tail.x ≤ x.bounds.x + x.bounds.width
      linarith
  | function f =>
    obtain ⟨-, hradius, -, -⟩ := hplaced.measures_function hk
    rw [LiesAt, hk] at h
    obtain ⟨hcenter, hbounds⟩ := h
    have hx : x.bounds.x = f.center.x - 2 * f.radius := congrArg Bounds.x hbounds
    rw [hcenter, hradius] at hx
    refine ⟨fun hright => ?_, fun hdown => ?_⟩
    · obtain ⟨-, hleft, hlevel⟩ := hanchor.right hright
      have hlanding : x.landing.y = f.center.y := by rw [landing, hk]
      rw [hcenter] at hlanding
      exact ⟨by linarith, by linarith⟩
    · obtain ⟨-, hmiddle, hbelow⟩ := hanchor.down hdown
      have hy : x.bounds.y = f.center.y - f.radius := congrArg Bounds.y hbounds
      have hwidth : x.bounds.width = 4 * f.radius := congrArg Bounds.width hbounds
      rw [hcenter, hradius] at hy
      rw [hradius] at hwidth
      refine ⟨by linarith, ?_, by linarith⟩
      show anchor.tail.x ≤ x.bounds.x + x.bounds.width
      linarith

end Value

/-! ## The anchors of a layout -/

/-- The reference that says where a value lies is one to that value. -/
theorem Value.mem_of_preferred? {α : Type} {x : Value α} {r : Reference}
    {anchorOf : Reference → Option (Anchor α)} (h : x.preferred? anchorOf = some r) :
    r ∈ x.references := by
  unfold preferred? at h
  split at h
  · rcases Option.or_eq_some_iff.mp h with h | ⟨-, h⟩
    · exact List.mem_of_find?_eq_some h
    · exact List.mem_of_head? h
  · exact List.mem_of_head? h

/-- No array is placed by one of its own cells: one comes from the reference that it is placed by
to a row of a frame. -/
theorem Arena.InFrame.not_own_cell {α : Type} {a : Arena α} {frames : Array (Frame α)}
    {r : Reference} {f : Nat} (h : a.InFrame frames r f) {v i : Nat} {x : Value α}
    (hx : a.values[v]? = some x) (hr : x.preferred? (a.anchor? frames) = some r) :
    r ≠ .cell v i := by
  induction h generalizing v i x with
  | row frame index => exact nofun
  | cell hy _ hr' _ ih =>
    rintro ⟨⟩
    obtain rfl := Option.some.inj (hx.symm.trans hy)
    obtain rfl := Option.some.inj (hr.symm.trans hr')
    exact ih hx hr rfl

namespace Layout

/-- Whether a reference is a row or the last cell of its array. -/
def EndsRow {α : Type} (l : Layout α) : Reference → Prop
  | .binding _ _ => True
  | .cell array index => ∃ x cells, l.values[array]? = some x ∧ x.kind = .array cells ∧
      index + 1 = cells.size

/-- The key of a row ends before the values next to its frame. -/
theorem keyEnd_le {s : Snapshot} {f : Frame Rat} {b : Binding Rat}
    (hf : f ∈ (ofSnapshot .standard s).frames) (hb : b ∈ f.bindings) :
    b.bounds.right ≤ f.bounds.right + 4 := by
  obtain ⟨widest, -, hwidth, hrows⟩ := exists_widest (by norm_num [Config.standard]) hf
  obtain ⟨v, -, -, hkey, hx, hkeywidth, hwide⟩ := hrows b hb
  have hcolumns : Text.columns b.keyText ≤ 36 := by
    have hle := Frame.columns_keyText_le v
    rw [← hkey] at hle
    split at hle <;> omega
  have hle := keyEnd_le_edge_add hwide hcolumns
  have hkeywidth' : b.bounds.width = (Text.columns b.keyText : Rat) * 9 := hkeywidth
  have hwidth' : f.bounds.width = max 100 widest + 2 * 20 := hwidth
  have hx' : b.bounds.x = f.bounds.x + 20 := hx
  show b.bounds.x + b.bounds.width ≤ f.bounds.x + f.bounds.width + 4
  linarith only [hle, hkeywidth', hwidth', hx']

-- a layout is known by its lemmas here, not by how it is computed
attribute [local irreducible] ofSnapshot

/-- The anchors of the references of a layout. -/
theorem anchor_ofSnapshot {s : Snapshot} {r : Reference} {anchor : Anchor Rat} :
    let l := ofSnapshot (.standard : Config Rat) s
    l.arena.anchor? l.frames r = some anchor →
      anchor.Standard ∧ (anchor.LeadsRight ↔ l.EndsRow r) ∧
        l.tail? (.reference r) = some anchor.tail := by
  intro l h
  cases r with
  | binding i j =>
    obtain ⟨f, hf, h⟩ := Option.bind_eq_some_iff.mp h
    obtain ⟨b, hb, rfl⟩ := Option.map_eq_some_iff.mp h
    have hfm : f ∈ l.frames := Array.mem_of_getElem? hf
    have hbm : b ∈ f.bindings := Array.mem_of_getElem? hb
    refine ⟨⟨keyEnd_le hfm hbm, (clear_rowAnchor hfm hbm).2.2.2⟩, Iff.rfl, ?_⟩
    rw [tail?, hf, Option.bind_some, hb]
    rfl
  | cell v i =>
    obtain ⟨c, hc, rfl⟩ := Option.map_eq_some_iff.mp h
    obtain ⟨cells, hcells, hi⟩ := Option.bind_eq_some_iff.mp hc
    obtain ⟨x, hx, hkind⟩ := Option.bind_eq_some_iff.mp hcells
    have hk : x.kind = .array cells := cells?_eq_some_iff.mp hkind
    have hanchor : l.arena.cellAnchor v i = .cell v i c.bounds c.isLast x.bounds.height := by
      rw [Arena.cellAnchor, hx, hc]
    obtain ⟨_, _, hplaced⟩ := (spaced_ofSnapshot s).value.value hx
    have hheight := (hplaced.measures_array hk).2
    obtain ⟨-, -, hwide, hhigh⟩ := clear_cell hx hk hi
    rw [Value.PlacedFrom, hk] at hplaced
    have hlast : c.isLast = decide (i + 1 = cells.size) :=
      congrArg (fun cell => cell.isLast) (hplaced.2 i c hi)
    rw [hanchor]
    refine ⟨⟨hwide, hhigh, hheight⟩, ?_, ?_⟩
    · show c.isLast = true ↔ ∃ x cells, l.values[v]? = some x ∧ x.kind = .array cells ∧
        i + 1 = cells.size
      rw [hlast, decide_eq_true_iff]
      constructor
      · exact fun hend => ⟨x, cells, hx, hk, hend⟩
      · rintro ⟨x', cells', hx', hk', hend⟩
        obtain rfl := Option.some.inj (hx.symm.trans hx')
        obtain rfl := ValueKind.array.inj (hk.symm.trans hk')
        exact hend
    · rw [tail?, show l.values[v]? = some x from hx, Option.bind_some, hkind, Option.bind_some, hi]
      rfl

end Layout

/-! ## The arrows of a diagram -/

section

-- a layout is known by its lemmas here, not by how it is computed
attribute [local irreducible] Layout.ofSnapshot

/-- With the standard settings the arrow of the reference that an array or a function is placed by
runs straight to the right from a row or the last cell of an array, and drops straight down from
any other cell. -/
theorem Scene.plumb_redraw (layout : Layout Rat) (marks : List Mark) (s : Snapshot)
    (printable : Bool) :
    let sc : Scene Rat := ⟨.standard, layout, marks⟩
    let d := (sc.redraw s printable).1
    let l := (sc.redraw s printable).2.layout
    ∀ (v : Nat) (x : Value Rat), l.values[v]? = some x → x.isLiteral = false →
      ∃ r, x.preferred? (l.arena.anchor? l.frames) = some r ∧
        (∃ c ∈ d.connectors, c.source = .reference r) ∧
        ∀ c ∈ d.connectors, c.source = .reference r → c.target = .value v ∧
          (l.EndsRow r → c.route.RunsRight) ∧ (¬ l.EndsRow r → c.route.Drops) := by
  intro sc d l v x hx hlit
  have hback := Layout.backReferences_ofSnapshot sc.config s
  obtain ⟨hknown, r, anchor, hr, hanchor, hlies⟩ :=
    (Layout.settled_ofSnapshot sc.config s).value hx
  obtain ⟨f, r', hr', hframe⟩ := (Layout.arranged_ofSnapshot sc.config s).anchored hx
  obtain rfl := Option.some.inj (hr.symm.trans hr')
  have hother : ∀ i, r ≠ .cell v i := fun i => hframe.not_own_cell hx hr
  have htarget : l.target? r = some v := (hback.mem_iff hx).mp (Value.mem_of_preferred? hr)
  obtain ⟨_, _, hplaced⟩ := (Layout.spaced_ofSnapshot s).value.value hx
  obtain ⟨hstandard, hright, htail⟩ := Layout.anchor_ofSnapshot hanchor
  obtain ⟨hbeside, hunder⟩ := hlies.beside_or_under hplaced hlit hstandard
  refine ⟨r, hr, ?_, fun c hc hsource => ?_⟩
  · obtain ⟨c, hc, hsource, -⟩ := exists_connector printable (.reference htarget hx hlit)
    exact ⟨c, hc, hsource⟩
  · -- the arrow leads to the value, since a row or a cell has just one target
    have hleads : l.Arrow s (.reference r) c.target := by
      rw [← hsource]
      exact mem_arrows_redraw.mp (List.mem_map.mpr ⟨c, hc, rfl⟩)
    obtain ⟨w, y, start, hw, hy, hstart, hroute⟩ := (mayPaint_connector hc).intoBox hsource
    rw [hw] at hleads ⊢
    obtain ⟨htarget', -, -⟩ := hleads
    obtain rfl := Option.some.inj (htarget.symm.trans htarget')
    obtain rfl := Option.some.inj (hx.symm.trans hy)
    obtain rfl := Option.some.inj (htail.symm.trans hstart)
    obtain ⟨router, hroute⟩ := hroute hother
    rw [hroute]
    refine ⟨rfl, fun hends => ?_, fun hends => ?_⟩
    · obtain ⟨hleft, hlevel⟩ := hbeside (hright.mpr hends)
      exact router.runsRight_intoBox hleft hlevel
    · obtain ⟨hleft, hwidth, habove⟩ := hunder (fun h => hends (hright.mp h))
      exact router.drops_intoBox hleft hwidth habove

end

/-- An empty array in the first cell of two: the arrow to it drops. -/
theorem Scene.plumb_redraw_empty :
    let s : Snapshot := ⟨0, [⟨⟨0⟩, "global", none, [⟨"x", some (.object ⟨7⟩), false⟩]⟩],
      [(⟨7⟩, .array [.object ⟨8⟩, .null]), (⟨8⟩, .array [])], some ⟨0⟩⟩
    let sc : Scene Rat := .ofConfig .standard
    ∃ c ∈ (sc.redraw s false).1.connectors, c.source = .reference (.cell 0 0) ∧
      c.target = .value 1 ∧ c.route.Drops := by
  intro s sc
  let l := (sc.redraw s false).2.layout
  have hplaced : (l.values[1]?).map (fun x =>
      (x.isLiteral, x.preferred? (l.arena.anchor? l.frames))) =
        some (false, some (.cell 0 0)) := by cbv
  have hsize : (l.values[0]?).map (fun x => x.cells?.map Array.size) = some (some 2) := by cbv
  obtain ⟨x, hx, heq⟩ := Option.map_eq_some_iff.mp hplaced
  obtain ⟨hlit, hr⟩ := Prod.mk.inj heq
  have hends : ¬ l.EndsRow (.cell 0 0) := by
    rintro ⟨y, cells, hy, hk, hend⟩
    rw [hy, Option.map_some, Value.cells?, hk] at hsize
    cases hend.trans (Option.some.inj (Option.some.inj hsize))
  obtain ⟨r, hr', ⟨c, hc, hsource⟩, hroute⟩ := plumb_redraw .empty [] s false 1 x hx hlit
  obtain rfl := Option.some.inj (hr.symm.trans hr')
  obtain ⟨htarget, -, hdrops⟩ := hroute c hc hsource
  exact ⟨c, hc, hsource, htarget, hdrops hends⟩

end EnvDiagram

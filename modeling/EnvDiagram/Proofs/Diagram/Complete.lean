import EnvDiagram.Proofs.Diagram.Painting
import EnvDiagram.Proofs.Layout.References

/-!
# A diagram shows the whole layout

Every value is led to by a row, or by a cell of an array that was placed before it. The
drawing draws what the rows and the cells of drawn arrays lead to, so it draws every value.

* `Drawing.mem_drawn_paint` — every value of a snapshot's layout is drawn
* `Scene.outlines_redraw` — the shapes of a diagram are those of the frames and of all values
-/

namespace EnvDiagram

open scoped List

-- a layout is known by its lemmas here, not by how it is computed
attribute [local irreducible] Layout.ofSnapshot

variable {α : Type}

/-- The outlines of the shapes of a diagram, in order. -/
def Diagram.outlines (d : Diagram α) : List Outline := d.shapes.toList.map fun s => s.kind.outline

theorem filterMap_range_getElem? {β : Type} (xs : Array β) :
    (List.range xs.size).filterMap (xs[·]?) = xs.toList := by
  have hmap : (List.range xs.size).map (xs[·]?) = xs.toList.map some := by
    apply List.ext_getElem
    · simp
    · intro i hi hi'
      have hlt : i < xs.size := by simpa using hi
      simp [hlt]
  have hid := congrArg (List.filterMap id) hmap
  rwa [List.filterMap_map, List.filterMap_map, Function.id_comp, Function.id_comp,
    List.filterMap_some] at hid

namespace Layout

theorem mem_contents_of_cell {l : Layout α} {v t : Nat} {x : Value α} {cells : Array (Cell α)}
    {c : Cell α} (hx : l.values[v]? = some x) (hk : x.kind = .array cells) (hc : c ∈ cells)
    (ht : c.content = some t) : t ∈ l.contents v := by
  simp only [contents, hx, Option.bind_some, cells?_eq_some_iff.mpr hk]
  exact List.mem_filterMap.mpr ⟨c, Array.mem_toList_iff.mpr hc, ht⟩

variable [Scalar α] {config : Config α} {s : Snapshot}

theorem frames_of_levels :
    ((ofSnapshot config s).levels.flatMap Level.frames).filterMap ((ofSnapshot config s).frames[·]?) =
      (ofSnapshot config s).frames.toList := by
  rw [(ofSnapshot_laid config s).ids, filterMap_range_getElem?]

/-- Every value is led to by a row, or by a cell of an array that was placed before. -/
theorem exists_first_reference {v : Nat} (hv : v < (ofSnapshot config s).values.size) :
    (∃ frame ∈ (ofSnapshot config s).frames, ∃ b ∈ frame.bindings, b.target = some v) ∨
      ∃ array < v, v ∈ (ofSnapshot config s).contents array := by
  have hback := backReferences_ofSnapshot config s
  obtain ⟨x, hx⟩ : ∃ x, (ofSnapshot config s).values[v]? = some x :=
    ⟨_, Array.getElem?_eq_getElem hv⟩
  obtain ⟨r, hr⟩ : ∃ r, x.references.head? = some r := ⟨_, List.head?_eq_some_head (hback.nonempty hx)⟩
  have htarget := (hback.mem_iff hx).mp (List.mem_of_head? hr)
  cases r with
  | binding frame index =>
    obtain ⟨f, b, hf, hb, ht⟩ := target?_binding_iff.mp htarget
    exact Or.inl ⟨f, Array.mem_of_getElem? hf, b, Array.mem_of_getElem? hb, ht⟩
  | cell array index =>
    have hlt := (logged_ofSnapshot config s).first (entry_of_value hx) hr
    obtain ⟨y, cells, c, hy, hk, hc, hcontent⟩ := target?_cell_iff.mp htarget
    exact Or.inr ⟨array, hlt, mem_contents_of_cell hy hk (Array.mem_of_getElem? hc) hcontent⟩

end Layout

namespace Drawing

variable [Scalar α]

theorem outlines_diagram (d : Drawing α) (p : Painter α) : (d.diagram p).outlines = p.outlines := rfl

/-- Every value of a snapshot's layout is drawn. -/
theorem mem_drawn_paint {d : Drawing α} {config : Config α} {s : Snapshot}
    (hl : d.layout = .ofSnapshot config s) {v : Nat} (hv : v < d.layout.values.size) :
    v ∈ d.paint.drawn := by
  have hp := d.painting_paint
  induction v using Nat.strong_induction_on with
  | _ v ih =>
    refine (hp.awaited ?_ hv).resolve_right (by simp)
    rw [hl] at hv ⊢
    -- an array that leads to the value was placed before, so it is drawn by now
    rcases Layout.exists_first_reference hv with ⟨frame, hf, b, hb, ht⟩ | ⟨array, hlt, hcontent⟩
    · refine Or.inl ?_
      rw [Layout.frames_of_levels, List.mem_flatMap]
      exact ⟨frame, Array.mem_toList_iff.mpr hf,
        List.mem_filterMap.mpr ⟨b, Array.mem_toList_iff.mpr hb, ht⟩⟩
    · refine Or.inr ⟨array, ih array hlt ?_, hcontent⟩
      rw [hl]
      exact hlt.trans hv

/-- Every value of a snapshot's layout is drawn once. -/
theorem drawn_paint_perm {d : Drawing α} {config : Config α} {s : Snapshot}
    (hl : d.layout = .ofSnapshot config s) :
    d.paint.drawn ~ List.range d.layout.values.size := by
  have hp := d.painting_paint
  refine (List.perm_ext_iff_of_nodup hp.nodup List.nodup_range).mpr fun v => ?_
  rw [List.mem_range]
  exact ⟨hp.known v, mem_drawn_paint hl⟩

end Drawing

namespace Scene

variable [Scalar α]

/-- The drawing of a snapshot that a scene loads. -/
def drawing (sc : Scene α) (s : Snapshot) (printable : Bool) : Drawing α :=
  ⟨sc.config, .ofSnapshot sc.config s, sc.config.palette printable, printable⟩

theorem redraw_eq (sc : Scene α) (s : Snapshot) (printable : Bool) :
    sc.redraw s printable =
      ((sc.drawing s printable).diagram (sc.drawing s printable).paint,
        ⟨sc.config, .ofSnapshot sc.config s, (sc.drawing s printable).paint.marks⟩) := by
  unfold redraw draw Layout.draw load drawing
  rfl

/-- The shapes of a diagram are those of the frames and of all values, in some order. -/
theorem outlines_redraw (sc : Scene α) (s : Snapshot) (printable : Bool) :
    let l := (sc.load s).layout
    (sc.redraw s printable).1.outlines ~
      l.frames.toList.flatMap l.frameOutlines ++
        (List.range l.values.size).flatMap l.valueOutlines := by
  intro l
  have hl : l = .ofSnapshot sc.config s := rfl
  clear_value l
  subst hl
  have hlayout : (sc.drawing s printable).layout = .ofSnapshot sc.config s := rfl
  have hp := (sc.drawing s printable).painting_paint.outlines
  have hdrawn := Drawing.drawn_paint_perm hlayout
  rw [List.flatMap_nil, List.append_nil, hlayout, Layout.frames_of_levels] at hp
  rw [hlayout] at hdrawn
  rw [redraw_eq, Drawing.outlines_diagram]
  exact hp.trans ((hdrawn.flatMap_right _).append_left _)

end Scene

end EnvDiagram

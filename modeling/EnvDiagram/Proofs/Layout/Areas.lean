import EnvDiagram.Proofs.Geometry
import EnvDiagram.Proofs.Layout.Anchors

/-!
# Values stay in the areas of their frames

From the reference that says where a value lies one comes to a row: the reference is a row itself,
or a cell of an array, and the array has such a reference too. So every value belongs to a frame
(`Arena.Anchored`). While a frame is laid out, its area takes in whatever is placed and whatever
moves to one of its rows, so no value that belongs to the frame ends beyond it (`Arena.Framed`). A
function that moves leaves the area of its old frame as it is, and belongs to the new one.

* `Arena.InFrame`, `Arena.Anchored` — the frame that a reference or a value belongs to
* `Arena.InFrame.unique` — there is only one
* `Arena.framed_visit`, `Arena.framed_place`, `Layout.framed_bindFrame` — the area grows along
-/

namespace EnvDiagram

variable {α : Type}

/-! ## The frames of references -/

/-- The frame that a reference belongs to: a row to its own one, a cell to that of the reference
that says where the array lies. -/
inductive Arena.InFrame (a : Arena α) (frames : Array (Frame α)) : Reference → Nat → Prop
  | row (frame index : Nat) : InFrame a frames (.binding frame index) frame
  | cell {array index frame : Nat} {x : Value α} {cells : Array (Cell α)} {r : Reference} :
      a.values[array]? = some x → x.kind = .array cells →
        x.preferred? (a.anchor? frames) = some r → InFrame a frames r frame →
        InFrame a frames (.cell array index) frame

/-- Whether a value is anchored to a frame, be it by way of arrays. -/
def Arena.Anchored (a : Arena α) (frames : Array (Frame α)) (x : Value α) (frame : Nat) : Prop :=
  ∃ r, x.preferred? (a.anchor? frames) = some r ∧ a.InFrame frames r frame

theorem Value.preferred?_of_array {x : Value α} {cells : Array (Cell α)}
    (h : x.kind = .array cells) (anchorOf : Reference → Option (Anchor α)) :
    x.preferred? anchorOf = x.references.head? := by
  rw [preferred?, h]

theorem Value.preferred?_setContent (x : Value α) (index content : Nat)
    (anchorOf : Reference → Option (Anchor α)) :
    (x.setContent index content).preferred? anchorOf = x.preferred? anchorOf := by
  obtain ⟨id, datum, kind, bounds, references⟩ := x
  cases kind <;> rfl

theorem Value.bounds_setContent (x : Value α) (index content : Nat) :
    (x.setContent index content).bounds = x.bounds := by
  obtain ⟨id, datum, kind, bounds, references⟩ := x
  cases kind <;> rfl

namespace Arena

variable {a b : Arena α} {frames frames' : Array (Frame α)} {r : Reference} {x : Value α}
  {f g v : Nat}

theorem InFrame.unique (h : a.InFrame frames r f) (h' : a.InFrame frames r g) : f = g := by
  induction h with
  | row frame index =>
    cases h'
    rfl
  | cell hx _ hr _ ih =>
    cases h' with
    | cell hy _ hr' hframe =>
      obtain rfl := Option.some.inj (hx.symm.trans hy)
      obtain rfl := Option.some.inj (hr.symm.trans hr')
      exact ih hframe

theorem Anchored.unique (h : a.Anchored frames x f) (h' : a.Anchored frames x g) : f = g := by
  obtain ⟨r, hr, hframe⟩ := h
  obtain ⟨r', hr', hframe'⟩ := h'
  obtain rfl := Option.some.inj (hr.symm.trans hr')
  exact hframe.unique hframe'

/-- Whether the arrays of an arena are there in another one, with the same first references. -/
def KeepsArrays (a b : Arena α) : Prop := ∀ (v : Nat) (x : Value α) (cells : Array (Cell α)),
  a.values[v]? = some x → x.kind = .array cells →
    ∃ y cells', b.values[v]? = some y ∧ y.kind = .array cells' ∧
      y.references.head? = x.references.head?

/-- An array is placed by its first reference, so its cells belong to the same frame ever after. -/
theorem InFrame.mono (h : a.InFrame frames r f) (harrays : a.KeepsArrays b) :
    b.InFrame frames' r f := by
  induction h with
  | row frame index => exact .row frame index
  | cell hx hkind hr _ ih =>
    obtain ⟨y, cells', hy, hkind', hhead⟩ := harrays _ _ _ hx hkind
    refine .cell hy hkind' ?_ ih
    rw [Value.preferred?_of_array hkind] at hr
    rw [Value.preferred?_of_array hkind', hhead, hr]

theorem Anchored.mono (h : a.Anchored frames x f)
    (hknown : ∀ r ∈ x.references, (a.anchor? frames r).isSome)
    (hkeep : ∀ r anchor, a.anchor? frames r = some anchor → b.anchor? frames' r = some anchor)
    (harrays : a.KeepsArrays b) : b.Anchored frames' x f := by
  obtain ⟨r, hr, hframe⟩ := h
  refine ⟨r, ?_, hframe.mono harrays⟩
  rw [← hr]
  refine Value.preferred?_congr fun q hq => ?_
  obtain ⟨anchor, hanchor⟩ := Option.isSome_iff_exists.mp (hknown q hq)
  rw [hanchor, hkeep q anchor hanchor]

theorem KeepsArrays.push (hb : b.values = a.values.push x) : a.KeepsArrays b := by
  intro w y cells hy hkind
  refine ⟨y, cells, ?_, hkind, rfl⟩
  obtain ⟨hlt, rfl⟩ := Array.getElem?_eq_some_iff.mp hy
  rw [hb, Array.getElem?_push_lt hlt]

theorem KeepsArrays.modify (change : Value α → Value α)
    (hb : b.values = a.values.modify v change)
    (h : ∀ x cells, a.values[v]? = some x → x.kind = .array cells → ∃ cells',
      (change x).kind = .array cells' ∧ (change x).references.head? = x.references.head?) :
    a.KeepsArrays b := by
  intro w y cells hy hkind
  by_cases hvw : v = w
  · subst hvw
    obtain ⟨cells', hkind', hhead⟩ := h y cells hy hkind
    refine ⟨change y, cells', ?_, hkind', hhead⟩
    rw [hb, Array.getElem?_modify, if_pos rfl, hy]
    rfl
  · refine ⟨y, cells, ?_, hkind, rfl⟩
    rw [hb, Array.getElem?_modify, if_neg hvw, hy]

theorem keepsArrays_setContent (a : Arena α) (array index content : Nat) :
    a.KeepsArrays (a.setContent array index content) := by
  refine .modify (fun x => x.setContent index content) rfl fun x cells _ hkind => ?_
  rw [Value.setContent, hkind]
  exact ⟨_, rfl, rfl⟩

variable [Scalar α] {sc : Scope α} {config : Config α} {anchor : Anchor α}

/-- An array that is reached again stays, with a further reference behind the others. -/
theorem keepsArrays_again (h : a.Settled sc.config sc.frames) (v : Nat) (anchor : Anchor α) :
    a.KeepsArrays ((a.reanchor sc v anchor).addReference v anchor.reference) := by
  refine .modify _ (values_again sc a v anchor) fun x cells hx hkind => ?_
  have hstays : ¬ x.Moves sc anchor := by
    rintro ⟨f, hf, -⟩
    rw [hkind] at hf
    cases hf
  rw [Value.reanchor_of_not_moves hstays]
  exact ⟨cells, hkind, List.head?_append_of_ne_nil _ (h.value hx).references_ne_nil⟩

theorem keepsArrays_visit (h : a.Settled sc.config sc.frames) (anchor : Anchor α) (d : Datum) :
    a.KeepsArrays (a.visit sc anchor d).arena := by
  rcases visit_cases sc a anchor d with ⟨v, heq⟩ | ⟨b, text, placeholder, hvalues, -, heq⟩ |
    ⟨id, cells, heq⟩ | ⟨id, c, node, heq⟩
  · rw [heq]
    exact keepsArrays_again h v anchor
  · rw [heq]
    exact .push (values_visitText hvalues sc anchor text placeholder)
  · rw [heq]
    exact .push rfl
  · rw [heq]
    exact .push rfl

end Arena

/-! ## Areas -/

/-- Whether a rectangle ends, on the right and at the bottom, where another one does or before. -/
structure Bounds.EndsIn (b area : Bounds Rat) : Prop where
  right : b.right ≤ area.right
  bottom : b.bottom ≤ area.bottom

namespace Bounds.EndsIn

variable {a b c : Bounds Rat}

theorem refl (b : Bounds Rat) : b.EndsIn b := ⟨le_refl _, le_refl _⟩

theorem trans (h : a.EndsIn b) (h' : b.EndsIn c) : a.EndsIn c :=
  ⟨h.right.trans h'.right, h.bottom.trans h'.bottom⟩

theorem union_left (a b : Bounds Rat) : a.EndsIn (a.union b) :=
  ⟨right_le_union_left a b, bottom_le_union_left a b⟩

theorem union_right (a b : Bounds Rat) : b.EndsIn (a.union b) :=
  ⟨right_le_union_right a b, bottom_le_union_right a b⟩

end Bounds.EndsIn

namespace Arena

variable {a b : Arena Rat} {frames frames' : Array (Frame Rat)} {areas : List (Bounds Rat)}
  {area extent extent' : Bounds Rat} {config : Config Rat} {sc : Scope Rat} {anchor : Anchor Rat}
  {r : Reference} {x : Value Rat} {f v : Nat}

/-- Whether every value is anchored to a frame and ends in the area of that frame; the areas are
those of the frames so far, in order. -/
structure Framed (frames : Array (Frame Rat)) (areas : List (Bounds Rat)) (a : Arena Rat) :
    Prop where
  value : ∀ {v : Nat} {x : Value Rat}, a.values[v]? = some x →
    ∃ f area, a.Anchored frames x f ∧ areas[f]? = some area ∧ x.bounds.EndsIn area

/-- Values stay framed as long as their references keep their anchors. -/
theorem Framed.mono (h : a.Framed frames areas) (hsettled : a.Settled config frames)
    (hb : b.values = a.values)
    (hkeep : ∀ r anchor, a.anchor? frames r = some anchor → b.anchor? frames' r = some anchor) :
    b.Framed frames' areas := by
  have harrays : a.KeepsArrays b := fun v x cells hx hkind => ⟨x, cells, hb ▸ hx, hkind, rfl⟩
  refine ⟨fun hx => ?_⟩
  rw [hb] at hx
  obtain ⟨f, area, hanchored, harea, hends⟩ := h.value hx
  exact ⟨f, area, hanchored.mono (hsettled.value hx).known hkeep harrays, harea, hends⟩

theorem anchor?_of_values (hb : b.values = a.values) (frames : Array (Frame Rat)) (r : Reference) :
    b.anchor? frames r = a.anchor? frames r := by
  cases r with
  | binding frame index => rfl
  | cell array index => simp only [anchor?, cellAnchor, cell?, hb]

theorem getElem?_append_of_some (h : areas[f]? = some area) (more : List (Bounds Rat)) :
    (areas ++ more)[f]? = some area := by
  rw [List.getElem?_append_left (List.getElem?_eq_some_iff.mp h).1, h]

theorem getElem?_concat_widen (h : (areas ++ [extent])[f]? = some area)
    (hextent : extent.EndsIn extent') :
    ∃ area', (areas ++ [extent'])[f]? = some area' ∧ area.EndsIn area' := by
  rcases Nat.lt_trichotomy f areas.length with hlt | rfl | hgt
  · rw [List.getElem?_append_left hlt] at h
    exact ⟨area, by rw [List.getElem?_append_left hlt, h], .refl area⟩
  · rw [List.getElem?_concat_length] at h
    cases h
    exact ⟨extent', List.getElem?_concat_length, hextent⟩
  · rw [List.getElem?_eq_none (by simpa using hgt)] at h
    cases h

/-- A value that was placed before is where it was, and areas only grow. -/
theorem Framed.old (h : a.Framed frames (areas ++ [a.extent]))
    (hsettled : a.Settled config frames) (hcells : a.KeepsCells b) (harrays : a.KeepsArrays b)
    (hextent : a.extent.EndsIn b.extent) (hx : a.values[v]? = some x) :
    ∃ f area, b.Anchored frames x f ∧ (areas ++ [b.extent])[f]? = some area ∧
      x.bounds.EndsIn area := by
  obtain ⟨f, area, hanchored, harea, hends⟩ := h.value hx
  obtain ⟨area', harea', hwiden⟩ := getElem?_concat_widen harea hextent
  refine ⟨f, area', ?_, harea', hends.trans hwiden⟩
  exact hanchored.mono (hsettled.value hx).known (fun _ _ => hcells.anchor?) harrays

/-- A value is added that belongs to the frame of the last area. -/
theorem Framed.push (h : a.Framed frames (areas ++ [a.extent]))
    (hsettled : a.Settled config frames) (hcells : a.KeepsCells b)
    (hb : b.values = a.values.push x) (hextent : b.extent = a.extent.union x.bounds)
    (hr : x.references = [r]) (hframe : a.InFrame frames r areas.length) :
    b.Framed frames (areas ++ [b.extent]) := by
  have harrays : a.KeepsArrays b := .push hb
  have hgrows : a.extent.EndsIn b.extent := hextent ▸ .union_left ..
  refine ⟨fun {w y} hy => ?_⟩
  rw [hb, Array.getElem?_push] at hy
  split at hy
  · cases hy
    refine ⟨areas.length, b.extent, ⟨r, ?_, hframe.mono harrays⟩, List.getElem?_concat_length, ?_⟩
    · exact Value.preferred?_of_singleton hr _
    · exact hextent ▸ .union_right ..
  · exact h.old hsettled hcells harrays hgrows hy

/-- A value is changed: it stays, or belongs to the frame of the last area from now on. -/
theorem Framed.modify (h : a.Framed frames (areas ++ [a.extent]))
    (hsettled : a.Settled config frames) (hcells : a.KeepsCells b) (harrays : a.KeepsArrays b)
    (hextent : a.extent.EndsIn b.extent) (change : Value Rat → Value Rat)
    (hb : b.values = a.values.modify v change)
    (hchange : ∀ x, a.values[v]? = some x →
      (change x).preferred? (b.anchor? frames) = x.preferred? (b.anchor? frames) ∧
          (change x).bounds = x.bounds ∨
        ∃ r, (change x).preferred? (b.anchor? frames) = some r ∧
          b.InFrame frames r areas.length ∧ (change x).bounds.EndsIn b.extent) :
    b.Framed frames (areas ++ [b.extent]) := by
  refine ⟨fun {w y} hy => ?_⟩
  rw [hb, Array.getElem?_modify] at hy
  split at hy
  · rename_i hvw
    subst hvw
    obtain ⟨x, hx, rfl⟩ := Option.map_eq_some_iff.mp hy
    rcases hchange x hx with ⟨hpreferred, hbounds⟩ | ⟨r, hr, hframe, hends⟩
    · obtain ⟨f, area, ⟨r, hr, hframe⟩, harea, hends⟩ := h.old hsettled hcells harrays hextent hx
      exact ⟨f, area, ⟨r, hpreferred.trans hr, hframe⟩, harea, hbounds ▸ hends⟩
    · exact ⟨areas.length, b.extent, ⟨r, hr, hframe⟩, List.getElem?_concat_length, hends⟩
  · exact h.old hsettled hcells harrays hextent hy

theorem endsIn_extent_reanchor (sc : Scope Rat) (a : Arena Rat) (v : Nat) (anchor : Anchor Rat) :
    a.extent.EndsIn (a.reanchor sc v anchor).extent := by
  by_cases hmoves : ∃ x, a.values[v]? = some x ∧ x.Moves sc anchor
  · obtain ⟨x, hx, hx'⟩ := hmoves
    rw [reanchor_of_moves hx hx']
    exact .union_left ..
  · rw [reanchor_of_not_moves fun x hx hx' => hmoves ⟨x, hx, hx'⟩]
    exact .refl _

/-- A value that is reached again stays with its frame, or moves to a row of the one that is laid
out. -/
theorem framed_again (h : a.Framed sc.frames (areas ++ [a.extent]))
    (hsettled : a.Settled sc.config sc.frames)
    (hr : a.anchor? sc.frames anchor.reference = some anchor)
    (hframe : a.InFrame sc.frames anchor.reference areas.length) (v : Nat) :
    ((a.reanchor sc v anchor).addReference v anchor.reference).Framed sc.frames
      (areas ++ [(a.reanchor sc v anchor).extent]) := by
  let b := (a.reanchor sc v anchor).addReference v anchor.reference
  have harrays : a.KeepsArrays b := keepsArrays_again hsettled v anchor
  have hcells : a.KeepsCells b := fun array index _ =>
    (cellAnchor_addReference ..).trans (cellAnchor_reanchor sc a v anchor array index)
  have hrows : ∀ x, a.values[v]? = some x → ∀ node, ∀ r ∈ x.references,
      sc.isRowOf node r = (b.anchor? sc.frames r).any (·.isRowOf node) := by
    intro x hx node r hmem
    obtain ⟨anchor', hanchor'⟩ := Option.isSome_iff_exists.mp ((hsettled.value hx).known r hmem)
    exact isRowOf_eq (Option.isSome_of_eq_some (hcells.anchor? hanchor')) node
  refine h.modify hsettled hcells harrays (endsIn_extent_reanchor sc a v anchor) _
    (values_again sc a v anchor) fun x hx => ?_
  by_cases hmoves : x.Moves sc anchor
  · refine Or.inr ⟨anchor.reference, ?_, hframe.mono harrays, ?_⟩
    · exact Value.preferred?_of_moves hmoves (hrows x hx) (hcells.anchor? hr)
    · show (x.reanchor sc anchor).bounds.EndsIn (a.reanchor sc v anchor).extent
      rw [reanchor_of_moves hx hmoves]
      exact .union_right ..
  · refine Or.inl ⟨?_, ?_⟩
    · exact Value.preferred?_of_not_moves hmoves (hrows x hx) (hcells.anchor? hr)
        (hsettled.value hx).references_ne_nil
    · rw [Value.reanchor_of_not_moves hmoves]
      rfl

/-- What is visited from a row or a cell of the frame that is laid out belongs to that frame, or
stays where it is. -/
theorem framed_visit (h : a.Framed sc.frames (areas ++ [a.extent]))
    (hsettled : a.Settled sc.config sc.frames)
    (hr : a.anchor? sc.frames anchor.reference = some anchor)
    (hframe : a.InFrame sc.frames anchor.reference areas.length) (d : Datum) :
    (a.visit sc anchor d).arena.Framed sc.frames
      (areas ++ [(a.visit sc anchor d).arena.extent]) := by
  have hcells := keepsCells_visit sc a anchor d
  rcases visit_cases sc a anchor d with ⟨v, heq⟩ | ⟨b, text, placeholder, hvalues, hextent, heq⟩ |
    ⟨id, cells, heq⟩ | ⟨id, c, node, heq⟩
  · rw [heq]
    exact framed_again h hsettled hr hframe v
  · rw [heq] at hcells ⊢
    refine h.push hsettled hcells (values_visitText hvalues sc anchor text placeholder) ?_ rfl hframe
    rw [← hextent]
    rfl
  · rw [heq] at hcells ⊢
    exact h.push hsettled hcells rfl rfl rfl hframe
  · rw [heq] at hcells ⊢
    exact h.push hsettled hcells rfl rfl rfl hframe

theorem framed_setContent (h : a.Framed frames (areas ++ [a.extent]))
    (hsettled : a.Settled config frames) (array index content : Nat) :
    (a.setContent array index content).Framed frames (areas ++ [a.extent]) :=
  h.modify hsettled (keepsCells_setContent a array index content)
    (keepsArrays_setContent a array index content) (.refl _) (fun x => x.setContent index content)
    rfl fun x _ =>
      Or.inl ⟨x.preferred?_setContent index content _, x.bounds_setContent index content⟩

/-- The cells that a visit brings along belong to the frame of the reference that is visited. -/
theorem inFrame_of_mem_cells {d : Datum} {task : CellTask} (h : task ∈ (a.visit sc anchor d).cells)
    (harrays : a.KeepsArrays (a.visit sc anchor d).arena)
    (hframe : a.InFrame sc.frames anchor.reference f) :
    (a.visit sc anchor d).arena.InFrame sc.frames (.cell task.array task.index) f := by
  rcases visit_cases sc a anchor d with ⟨v, heq⟩ | ⟨b, text, placeholder, -, -, heq⟩ |
    ⟨id, cells, heq⟩ | ⟨id, c, node, heq⟩
  · rw [heq] at h
    cases h
  · rw [heq] at h
    cases h
  · rw [heq] at h harrays ⊢
    obtain ⟨harray, -⟩ := Ledger.mem_cellTasks.mp h
    rw [harray]
    refine .cell Array.getElem?_push_size rfl ?_ (hframe.mono harrays)
    exact Value.preferred?_of_singleton rfl _
  · rw [heq] at h
    cases h

/-- All that a datum leads to ends in the area of the frame that is laid out. -/
theorem framed_place (h : a.Framed sc.frames (areas ++ [a.extent]))
    (hsettled : a.Settled sc.config sc.frames)
    (hr : a.anchor? sc.frames anchor.reference = some anchor)
    (hframe : a.InFrame sc.frames anchor.reference areas.length) (d : Datum) :
    (a.place sc anchor d).1.Framed sc.frames (areas ++ [(a.place sc anchor d).1.extent]) := by
  -- the cells that wait are there, and belong to the frame
  let P : Arena Rat → List CellTask → Prop := fun a agenda =>
    a.Settled sc.config sc.frames ∧ a.Framed sc.frames (areas ++ [a.extent]) ∧
      ∀ task ∈ agenda, a.cellAnchor task.array task.index ≠ .stray task.array task.index ∧
        a.InFrame sc.frames (.cell task.array task.index) areas.length
  have hvisit : P (a.visit sc anchor d).arena (a.visit sc anchor d).cells :=
    ⟨settled_visit hsettled hr d, framed_visit h hsettled hr hframe d, fun task ht =>
      ⟨cellAnchor_of_mem_cells ht,
        inFrame_of_mem_cells ht (keepsArrays_visit hsettled anchor d) hframe⟩⟩
  refine (run_keeps (P := P) ?pass ?fill hvisit).2.1
  case pass =>
    rintro b task rest ⟨hsettled, hb, hcells⟩
    exact ⟨hsettled, hb, fun t ht => hcells t (List.mem_cons_of_mem _ ht)⟩
  case fill =>
    rintro b task rest ⟨hsettled, hb, hcells⟩ v
    obtain ⟨hcell, hframe⟩ := hcells task List.mem_cons_self
    have hanchor : b.anchor? sc.frames (b.cellAnchor task.array task.index).reference =
        some (b.cellAnchor task.array task.index) := by
      rw [reference_cellAnchor]
      exact anchor?_cell_eq_some_iff.mpr ⟨rfl, hcell⟩
    rw [← reference_cellAnchor] at hframe
    have harrays := keepsArrays_visit hsettled (b.cellAnchor task.array task.index) task.datum
    have hvisited := settled_visit hsettled hanchor task.datum
    refine ⟨settled_setContent hvisited .., ?_, fun t ht => ?_⟩
    · exact framed_setContent (framed_visit hb hsettled hanchor hframe task.datum) hvisited ..
    · have hfill := keepsArrays_setContent v.arena task.array task.index v.value
      rw [cellAnchor_setContent]
      rcases List.mem_append.mp ht with ht | ht
      · exact ⟨cellAnchor_of_mem_cells ht, (inFrame_of_mem_cells ht harrays hframe).mono hfill⟩
      · obtain ⟨hold, hframe⟩ := hcells t (List.mem_cons_of_mem _ ht)
        have hvisited : v.arena.InFrame sc.frames (.cell t.array t.index) areas.length :=
          hframe.mono harrays
        rw [cellAnchor_visit sc _ task.datum hold]
        exact ⟨hold, hvisited.mono hfill⟩

end Arena

namespace Layout

variable {sc : Scope Rat} {a : Arena Rat} {frame : Frame Rat} {areas : List (Bounds Rat)}

/-- The values of a frame's rows, with all that they lead to, end in its area. -/
theorem framed_bindFrame (h : a.Framed sc.frames areas) (hsettled : a.Settled sc.config sc.frames)
    (hframe : sc.frames[frame.id]? = some frame) (hid : frame.id = areas.length)
    (hrows : ∀ b ∈ frame.bindings, frame.bindings[b.index]? = some b) :
    (bindFrame sc a frame).arena.Framed sc.frames
      (areas ++ [(bindFrame sc a frame).arena.extent]) := by
  let P : List (Binding Rat) → Bound Rat → Prop := fun _ bound =>
    bound.arena.Settled sc.config sc.frames ∧
      bound.arena.Framed sc.frames (areas ++ [bound.arena.extent])
  have hstart : P [] ⟨{ a with extent := frame.bounds }, #[]⟩ := by
    refine ⟨⟨hsettled.value⟩, ⟨fun hx => ?_⟩⟩
    have hopen : Arena.Framed sc.frames areas { a with extent := frame.bounds } :=
      h.mono hsettled rfl fun _ _ hr => hr
    obtain ⟨f, area, hanchored, harea, hends⟩ := hopen.value hx
    exact ⟨f, area, hanchored, Arena.getElem?_append_of_some harea _, hends⟩
  unfold bindFrame
  rw [← Array.foldl_toList]
  refine (foldl_keeps (P := P) _ (fun done b bound hdone hbound => ?_) hstart).2
  obtain ⟨hsettled, hbound⟩ := hbound
  have hb : b ∈ frame.bindings := by
    rw [← Array.mem_toList_iff]
    exact hdone.subset (List.mem_append_right done List.mem_cons_self)
  show Arena.Settled _ _ (bindRow sc frame bound b).arena ∧
    Arena.Framed _ (areas ++ [(bindRow sc frame bound b).arena.extent])
      (bindRow sc frame bound b).arena
  cases hd : b.datum with
  | none =>
    rw [bindRow_of_none hd]
    exact ⟨hsettled, hbound⟩
  | some d =>
    have hanchor : bound.arena.anchor? sc.frames (frame.rowAnchor b).reference =
        some (frame.rowAnchor b) := Arena.anchor?_rowAnchor hframe (hrows b hb)
    have hin : bound.arena.InFrame sc.frames (frame.rowAnchor b).reference areas.length :=
      hid ▸ .row frame.id b.index
    rw [bindRow_of_some hd]
    exact ⟨Arena.settled_place hsettled hanchor d,
      Arena.framed_place hbound hsettled hanchor hin d⟩

end Layout

end EnvDiagram

import EnvDiagram.Proofs.Diagram.Outline

/-!
# What a drawing paints

What has been painted and what waits on the agenda make up, in some order, what the tasks set
so far and the values drawn so far contribute (`Painting.outlines`). Every step keeps this, so
when nothing waits any more the drawing consists of just these contributions, each once. The
cells of a value that is drawn wait until their values are drawn too (`Painting.awaited`).

* `Drawing.run_keeps` — what every step keeps is kept until nothing waits any more
* `Drawing.Painting` — the invariant
* `Drawing.Painting.run` — the agenda worked off
* `Drawing.Painting.paintFrame`, `Drawing.painting_paint` — frames and the whole layout
-/

namespace EnvDiagram

open scoped List

variable {α : Type}

/-- What is added comes before what waits, and counts with what is drawn. -/
theorem perm_append_insert {β : Type} {painted waiting done drawn : List β} (new : List β)
    (h : painted ++ waiting ~ done ++ drawn) :
    painted ++ new ++ waiting ~ done ++ (new ++ drawn) :=
  calc painted ++ new ++ waiting
    _ ~ new ++ (painted ++ waiting) := by
        rw [← List.append_assoc]
        exact List.perm_append_comm.append_right _
    _ ~ new ++ (done ++ drawn) := h.append_left _
    _ ~ done ++ (new ++ drawn) := by
        rw [← List.append_assoc, ← List.append_assoc]
        exact List.perm_append_comm.append_right _

namespace Drawing

/-! ## The agenda worked off -/

/-- What holds of a painter and of the tasks that wait, and still does when the first task is
worked off, holds when nothing waits any more. -/
theorem run_keeps [Scalar α] {d : Drawing α} {P : Painter α → List (DrawTask α) → Prop}
    (hskip : ∀ {p : Painter α} {v : Nat} {rest : List (DrawTask α)}, d.fresh? p v = none →
      P p (.value v :: rest) → P p rest)
    (hvalue : ∀ {p : Painter α} {v : Nat} {x : Value α} {rest : List (DrawTask α)},
      d.fresh? p v = some x → P p (.value v :: rest) →
        P (d.paintValue p v x).1 ((d.paintValue p v x).2 ++ rest))
    (hcell : ∀ {p : Painter α} {b : Bounds α} {c : Cell α} {rest : List (DrawTask α)},
      P p (.cell b c :: rest) → P (d.paintCell p b c).1 ((d.paintCell p b c).2 ++ rest))
    (harrow : ∀ {p : Painter α} {source : Reference} {start : Point α} {loop : Option (Bounds α)}
      {target : Nat} {rest : List (DrawTask α)}, P p (.arrow source start loop target :: rest) →
        P (d.paintArrow p source start loop target) rest)
    {p : Painter α} {agenda : List (DrawTask α)} (h : P p agenda) : P (d.run p agenda) [] := by
  fun_induction Drawing.run d p agenda with
  | case1 p => exact h
  | case2 p v rest hv ih => exact ih (hskip hv h)
  | case3 p v rest x hv step ih => exact ih (hvalue hv h)
  | case4 p b c rest step ih => exact ih (hcell h)
  | case5 p source start loop target rest ih => exact ih (harrow h)

/-- What is marked stays marked. -/
theorem marks_subset_run [Scalar α] (d : Drawing α) (p : Painter α) (agenda : List (DrawTask α)) :
    p.marks ⊆ (d.run p agenda).marks := by
  refine run_keeps (P := fun q _ => p.marks ⊆ q.marks) (fun _ h => h) ?value ?cell ?arrow
    (List.Subset.refl _)
  case value =>
    intro q v x rest _ h
    rw [marks_paintValue]
    exact fun m hm => List.mem_cons_of_mem _ (h hm)
  case cell =>
    intro q b c rest h
    rw [marks_paintCell]
    exact fun m hm => List.mem_cons_of_mem _ (h hm)
  case arrow =>
    intro q source start loop target rest h
    rw [marks_paintArrow]
    exact h

/-! ## What is painted and what waits -/

/-- A painter and its agenda, after tasks that contribute the outlines `done` and bring the
values `due`. -/
structure Painting (d : Drawing α) (done : List Outline) (due : List Nat) (p : Painter α)
    (agenda : List (DrawTask α)) : Prop where
  outlines : (p.outlines ++ agenda.flatMap (DrawTask.outlines d.layout)).Perm
    (done ++ p.drawn.flatMap d.layout.valueOutlines)
  nodup : p.drawn.Nodup
  known : ∀ v ∈ p.drawn, v < d.layout.values.size
  awaited : ∀ {t : Nat}, t ∈ due ∨ (∃ v ∈ p.drawn, t ∈ d.layout.contents v) →
    t < d.layout.values.size → t ∈ p.drawn ∨ t ∈ agenda.filterMap DrawTask.brings

variable {d : Drawing α} {done : List Outline} {due : List Nat} {p : Painter α}
  {agenda rest : List (DrawTask α)} {v : Nat} {x : Value α} {c : Cell α} {b : Bounds α}

theorem fresh?_eq_none : d.fresh? p v = none ↔ v ∈ p.drawn ∨ d.layout.values.size ≤ v := by
  rw [fresh?, Painter.mem_drawn]
  split
  · simp [*]
  · simp [*]

theorem fresh?_eq_some : d.fresh? p v = some x ↔ v ∉ p.drawn ∧ d.layout.values[v]? = some x := by
  rw [fresh?, Painter.mem_drawn]
  split <;> simp [*]

/-! ## Steps -/

/-- A value that is drawn already. -/
theorem Painting.skipValue (h : Painting d done due p (.value v :: rest))
    (hv : d.fresh? p v = none) : Painting d done due p rest where
  outlines := h.outlines
  nodup := h.nodup
  known := h.known
  awaited := by
    intro t ht hlt
    rcases h.awaited ht hlt with hin | hin
    · exact Or.inl hin
    · rcases List.mem_cons.mp hin with rfl | hin
      · exact Or.inl ((fresh?_eq_none.mp hv).resolve_right (Nat.not_le.mpr hlt))
      · exact Or.inr hin

variable [Scalar α]

/-- A value that is drawn now. -/
theorem Painting.paintValue (h : Painting d done due p (.value v :: rest))
    (hv : d.fresh? p v = some x) :
    Painting d done due (d.paintValue p v x).1 ((d.paintValue p v x).2 ++ rest) := by
  obtain ⟨hnew, hx⟩ := fresh?_eq_some.mp hv
  have hval : d.layout.valueOutlines v = d.layout.kindOutlines v x.kind := by
    rw [Layout.valueOutlines, hx]
  have hcontents : (d.paintValue p v x).2.filterMap DrawTask.brings = d.layout.contents v := by
    rw [brings_paintValue, Layout.contents, hx]
    rfl
  refine ⟨?outlines, ?nodup, ?known, ?awaited⟩
  case outlines =>
    rw [List.flatMap_append, ← List.append_assoc, outlines_paintValue, drawn_paintValue,
      List.flatMap_cons, hval]
    exact perm_append_insert _ h.outlines
  case nodup =>
    rw [drawn_paintValue]
    exact List.nodup_cons.mpr ⟨hnew, h.nodup⟩
  case known =>
    intro w hw
    rw [drawn_paintValue] at hw
    rcases List.mem_cons.mp hw with rfl | hw
    · exact (Array.getElem?_eq_some_iff.mp hx).1
    · exact h.known w hw
  case awaited =>
    intro t ht hlt
    rw [drawn_paintValue] at ht ⊢
    rw [List.filterMap_append, hcontents]
    -- what was awaited is drawn, or is this very value, or waits still
    have hold : t ∈ due ∨ (∃ w ∈ p.drawn, t ∈ d.layout.contents w) →
        t ∈ v :: p.drawn ∨ t ∈ d.layout.contents v ++ rest.filterMap DrawTask.brings := by
      intro ht
      rcases h.awaited ht hlt with hin | hin
      · exact Or.inl (List.mem_cons_of_mem _ hin)
      · rcases List.mem_cons.mp hin with rfl | hin
        · exact Or.inl List.mem_cons_self
        · exact Or.inr (List.mem_append_right _ hin)
    rcases ht with ht | ⟨w, hw, ht⟩
    · exact hold (Or.inl ht)
    · rcases List.mem_cons.mp hw with rfl | hw
      · exact Or.inr (List.mem_append_left _ ht)
      · exact hold (Or.inr ⟨w, hw, ht⟩)

/-- A cell gives way to its value and its arrow. -/
theorem Painting.paintCell (h : Painting d done due p (.cell b c :: rest)) :
    Painting d done due (d.paintCell p b c).1 ((d.paintCell p b c).2 ++ rest) where
  outlines := by
    rw [List.flatMap_append, ← List.append_assoc, outlines_paintCell, drawn_paintCell,
      List.append_assoc]
    exact h.outlines
  nodup := by
    rw [drawn_paintCell]
    exact h.nodup
  known := by
    rw [drawn_paintCell]
    exact h.known
  awaited := by
    intro t ht hlt
    rw [drawn_paintCell] at ht ⊢
    rw [List.filterMap_append, brings_paintCell]
    -- what the cell was to bring waits as a value now
    refine (h.awaited ht hlt).imp_right fun hin => ?_
    rw [List.filterMap_cons] at hin
    cases hc : c.content with
    | none => simpa [DrawTask.brings, hc] using hin
    | some target => simpa [DrawTask.brings, hc] using hin

theorem Painting.paintArrow {source : Reference} {start : Point α} {loop : Option (Bounds α)}
    {target : Nat} (h : Painting d done due p (.arrow source start loop target :: rest)) :
    Painting d done due (d.paintArrow p source start loop target) rest where
  outlines := by
    rw [outlines_paintArrow, drawn_paintArrow, List.append_assoc]
    exact h.outlines
  nodup := by
    rw [drawn_paintArrow]
    exact h.nodup
  known := by
    rw [drawn_paintArrow]
    exact h.known
  awaited := by
    rw [drawn_paintArrow]
    exact h.awaited

/-- The invariant holds until nothing waits any more. -/
theorem Painting.run (h : Painting d done due p agenda) : Painting d done due (d.run p agenda) [] :=
  run_keeps (P := Painting d done due) (fun hv h => h.skipValue hv) (fun hv h => h.paintValue hv)
    (fun h => h.paintCell) (fun h => h.paintArrow) h

/-! ## Rows and frames -/

omit [Scalar α] in
/-- Something new is painted or put on the empty agenda. -/
theorem Painting.add (h : Painting d done due p []) (p' : Painter α) (more : List Outline)
    (targets : List Nat) (hdrawn : p'.drawn = p.drawn)
    (hnew : p'.outlines ++ agenda.flatMap (DrawTask.outlines d.layout) = p.outlines ++ more)
    (htargets : ∀ t ∈ targets, t ∈ agenda.filterMap DrawTask.brings) :
    Painting d (done ++ more) (due ++ targets) p' agenda where
  outlines := by
    have hmore := perm_append_insert more h.outlines
    rwa [List.flatMap_nil, List.append_nil, ← List.append_assoc, ← hnew, ← hdrawn] at hmore
  nodup := hdrawn ▸ h.nodup
  known := hdrawn ▸ h.known
  awaited := by
    intro t ht hlt
    rw [hdrawn] at ht ⊢
    rcases ht with ht | ht
    · rcases List.mem_append.mp ht with ht | ht
      · exact Or.inl ((h.awaited (Or.inl ht) hlt).resolve_right (by simp))
      · exact Or.inr (htargets t ht)
    · exact Or.inl ((h.awaited (Or.inr ht) hlt).resolve_right (by simp))

theorem Painting.paintBinding (h : Painting d done due p []) (b : Binding α) :
    Painting d (done ++ d.layout.rowOutlines b) (due ++ b.target.toList) (d.paintBinding p b) [] := by
  unfold Drawing.paintBinding Layout.rowOutlines
  cases b.target with
  | none =>
    exact h.add ((p.emit (d.keyShape b)).mark _) _ [] rfl
      (by simp [keyShape, ShapeKind.outline]) (by simp)
  | some target =>
    refine Painting.run (h.add ((p.emit (d.keyShape b)).mark _) _ [target] rfl ?_ ?_)
    · simp [keyShape, ShapeKind.outline, DrawTask.outlines]
    · simp [DrawTask.brings]

theorem Painting.paintBindings (h : Painting d done due p []) (rows : List (Binding α)) :
    Painting d (done ++ rows.flatMap d.layout.rowOutlines) (due ++ rows.filterMap Binding.target)
      (rows.foldl d.paintBinding p) [] := by
  induction rows generalizing done due p with
  | nil => simpa using h
  | cons b rest ih =>
    have hrest := ih (h.paintBinding b)
    have hdue : b.target.toList ++ rest.filterMap Binding.target =
        (b :: rest).filterMap Binding.target := by
      cases hb : b.target <;> simp [hb]
    rwa [List.append_assoc, List.append_assoc, ← List.flatMap_cons, hdue] at hrest

theorem Painting.paintFrame (h : Painting d done due p []) {f : Nat} {frame : Frame α}
    (hf : d.layout.frames[f]? = some frame) :
    Painting d (done ++ d.layout.frameOutlines frame)
      (due ++ frame.bindings.toList.filterMap Binding.target) (d.paintFrame p f) [] := by
  have hfold : d.paintFrame p f = frame.bindings.toList.foldl d.paintBinding
      ((p.emitAll (d.frameShapes frame)).mark (.frame f)) := by
    rw [Drawing.paintFrame, hf]
    exact (Array.foldl_toList ..).symm
  rw [hfold, Layout.frameOutlines, ← List.append_assoc]
  have hdrawn : ((p.emitAll (d.frameShapes frame)).mark (.frame f)).drawn = p.drawn := by
    rw [Painter.drawn, Painter.marks_mark, Painter.marks_emitAll]
    rfl
  have hframe : Painting d (done ++ [.text (.label frame.id), .rect (.frame frame.id)]) (due ++ [])
      ((p.emitAll (d.frameShapes frame)).mark (.frame f)) [] :=
    h.add _ _ _ hdrawn (by simp [frameShapes, ShapeKind.outline]) (by simp)
  rw [List.append_nil] at hframe
  exact hframe.paintBindings _

theorem Painting.paintFrames (h : Painting d done due p []) (ids : List Nat) :
    Painting d (done ++ (ids.filterMap (d.layout.frames[·]?)).flatMap d.layout.frameOutlines)
      (due ++ (ids.filterMap (d.layout.frames[·]?)).flatMap fun frame =>
        frame.bindings.toList.filterMap Binding.target) (ids.foldl d.paintFrame p) [] := by
  induction ids generalizing done due p with
  | nil => simpa using h
  | cons f rest ih =>
    cases hf : d.layout.frames[f]? with
    | none =>
      rw [List.filterMap_cons_none hf, List.foldl_cons, Drawing.paintFrame, hf]
      exact ih h
    | some frame =>
      rw [List.filterMap_cons_some hf, List.flatMap_cons, List.flatMap_cons, ← List.append_assoc,
        ← List.append_assoc]
      exact ih (h.paintFrame hf)

/-- The drawing of a layout consists of its frames and the values drawn. -/
theorem painting_paint (d : Drawing α) :
    let frames := (d.layout.levels.flatMap Level.frames).filterMap (d.layout.frames[·]?)
    Painting d (frames.flatMap d.layout.frameOutlines)
      (frames.flatMap fun frame => frame.bindings.toList.filterMap Binding.target) d.paint [] := by
  have hstart : Painting d [] [] d.start [] := by
    refine ⟨?_, List.nodup_nil, by simp [start, Painter.drawn], ?_⟩
    · simp [start, Painter.outlines, Painter.drawn]
    · simp [start, Painter.drawn]
  exact hstart.paintFrames _

end Drawing

end EnvDiagram

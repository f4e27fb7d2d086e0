import EnvDiagram.Proofs.Diagram.Painting
import EnvDiagram.Proofs.Layout.Frames
import EnvDiagram.Proofs.Steps

/-!
# The tasks of a drawing

A task carries along what its step needs of the layout: a cell and the rectangle of its array, or
the point where an arrow starts. In a layout whose parts know their numbers these are what the
layout has in that place, from the first row on and as long as tasks come of tasks. So an
invariant of the drawing may rely on it in each of its steps.

* `Layout.tail?` — where the arrows of a layout start
* `DrawTask.Fits` — a task carries what the layout has
* `Drawing.Keeps`, `Drawing.Keeps.run`, `Drawing.Keeps.paint` — an invariant of single steps holds
  of the whole drawing
-/

namespace EnvDiagram

variable {α : Type}

/-- What is marked in a frame itself: the frame and its rows. -/
def Layout.frameMarks (l : Layout α) (i : Nat) : List Mark :=
  match l.frames[i]? with
  | none => []
  | some f => .frame i :: (List.range f.bindings.size).map (.binding i)

variable [Scalar α]

/-- Where an arrow from a row, a cell or a function starts. -/
def Layout.tail? (l : Layout α) : ArrowSource → Option (Point α)
  | .reference (.binding i j) =>
    ((l.frames[i]?).bind fun f => f.bindings[j]?).map Binding.arrowTail
  | .reference (.cell v i) =>
    (((l.values[v]?).bind Value.cells?).bind (·[i]?)).map fun c => c.bounds.center
  | .function v => ((l.values[v]?).bind Value.glyph?).map FunctionGlyph.rightCircle

/-- Whether a task carries what the layout has. A way around an array leads back to its own
cell, so there the target is an array with the rectangle that is carried. -/
def DrawTask.Fits (l : Layout α) : DrawTask α → Prop
  | .value _ => True
  | .cell bounds c => ∃ x cells, l.values[c.array]? = some x ∧ x.kind = .array cells ∧
      cells[c.index]? = some c ∧ x.bounds = bounds
  | .arrow source start loop target => l.tail? (.reference source) = some start ∧
      ∀ bounds, loop = some bounds →
        ∃ x cells, l.values[target]? = some x ∧ x.kind = .array cells ∧ x.bounds = bounds

namespace Drawing

variable {d : Drawing α} {p : Painter α} {v i j : Nat} {x : Value α} {bounds : Bounds α}
  {c : Cell α} {f : Frame α} {b : Binding α} {t : DrawTask α}

/-! ## Tasks come of tasks -/

theorem fits_paintValue (hl : d.layout.Numbered) (hx : d.layout.values[v]? = some x)
    (ht : t ∈ (d.paintValue p v x).2) : t.Fits d.layout := by
  unfold paintValue at ht
  split at ht
  · simp at ht
  · rename_i cells hk
    obtain ⟨c, hc, rfl⟩ := List.mem_map.mp ht
    obtain ⟨i, hi⟩ := Array.getElem?_of_mem (Array.mem_toList_iff.mp hc)
    obtain ⟨harray, hindex⟩ := hl.cell hx hk hi
    exact ⟨x, cells, by rw [harray, hx], hk, by rw [hindex, hi], rfl⟩
  · simp at ht

theorem fits_paintCell (h : DrawTask.Fits d.layout (.cell bounds c))
    (ht : t ∈ (d.paintCell p bounds c).2) : t.Fits d.layout := by
  obtain ⟨x, cells, hx, hk, hc, hbounds⟩ := h
  unfold paintCell at ht
  split at ht
  · simp at ht
  · rename_i target _
    rcases List.mem_cons.mp ht with rfl | ht
    · trivial
    · obtain rfl := List.mem_singleton.mp ht
      refine ⟨?_, fun bounds' hloop => ?_⟩
      · simp [Layout.tail?, hx, Value.cells?, hk, hc]
      · -- the arrow goes around the array only if it leads back to it
        split at hloop
        · rename_i htarget
          cases hloop
          exact ⟨x, cells, htarget ▸ hx, hk, hbounds⟩
        · simp at hloop

/-- The tasks of a row. -/
def rowTasks (b : Binding α) : List (DrawTask α) :=
  match b.target with
  | none => []
  | some target => [.value target, .arrow (.binding b.frame b.index) b.arrowTail none target]

theorem fits_rowTasks (hl : d.layout.Numbered) (hf : d.layout.frames[i]? = some f)
    (hb : f.bindings[j]? = some b) (ht : t ∈ rowTasks b) : t.Fits d.layout := by
  obtain ⟨hframe, hindex⟩ := hl.row hf hb
  unfold rowTasks at ht
  split at ht
  · simp at ht
  · rcases List.mem_cons.mp ht with rfl | ht
    · trivial
    · obtain rfl := List.mem_singleton.mp ht
      refine ⟨?_, by simp⟩
      simp [Layout.tail?, hframe, hindex, hf, hb]

theorem paintBinding_eq (d : Drawing α) (p : Painter α) (b : Binding α) :
    d.paintBinding p b =
      d.run ((p.emit (d.keyShape b)).mark (.binding b.frame b.index)) (rowTasks b) := by
  unfold paintBinding rowTasks
  cases b.target with
  | none => exact (run_nil ..).symm
  | some target => rfl

/-! ## Invariants -/

/-- An invariant of what has been marked of the frames, of the painter and of the tasks that wait:
every single step of the drawing keeps it. -/
structure Keeps (d : Drawing α) (P : List Mark → Painter α → List (DrawTask α) → Prop) : Prop where
  skip : ∀ {done : List Mark} {p : Painter α} {v : Nat} {rest : List (DrawTask α)},
    d.fresh? p v = none → P done p (.value v :: rest) → P done p rest
  value : ∀ {done : List Mark} {p : Painter α} {v : Nat} {x : Value α} {rest : List (DrawTask α)},
    d.fresh? p v = some x → P done p (.value v :: rest) →
      P done (d.paintValue p v x).1 ((d.paintValue p v x).2 ++ rest)
  cell : ∀ {done : List Mark} {p : Painter α} {bounds : Bounds α} {c : Cell α}
    {rest : List (DrawTask α)}, DrawTask.Fits d.layout (.cell bounds c) →
      P done p (.cell bounds c :: rest) →
      P done (d.paintCell p bounds c).1 ((d.paintCell p bounds c).2 ++ rest)
  arrow : ∀ {done : List Mark} {p : Painter α} {source : Reference} {start : Point α}
    {loop : Option (Bounds α)} {target : Nat} {rest : List (DrawTask α)},
      DrawTask.Fits d.layout (.arrow source start loop target) →
      P done p (.arrow source start loop target :: rest) →
      P done (d.paintArrow p source start loop target) rest
  frame : ∀ {done : List Mark} {p : Painter α} {i : Nat} {f : Frame α},
    d.layout.frames[i]? = some f → P done p [] →
      P (done ++ [.frame i]) ((p.emitAll (d.frameShapes f)).mark (.frame i)) []
  row : ∀ {done : List Mark} {p : Painter α} {i j : Nat} {f : Frame α} {b : Binding α},
    d.layout.frames[i]? = some f → f.bindings[j]? = some b → P done p [] →
      P (done ++ [.binding i j]) ((p.emit (d.keyShape b)).mark (.binding i j)) (rowTasks b)

namespace Keeps

variable {P : List Mark → Painter α → List (DrawTask α) → Prop} {done : List Mark}
  {agenda : List (DrawTask α)}

/-- The tasks that wait fit all along, so the invariant holds when none waits any more. -/
theorem run (h : d.Keeps P) (hl : d.layout.Numbered) (hfits : ∀ t ∈ agenda, t.Fits d.layout)
    (hp : P done p agenda) : P done (d.run p agenda) [] := by
  let Q : Painter α → List (DrawTask α) → Prop := fun q rest =>
    (∀ t ∈ rest, t.Fits d.layout) ∧ P done q rest
  refine (run_keeps (P := Q) ?skip ?value ?cell ?arrow ⟨hfits, hp⟩).2
  case skip =>
    rintro q v rest hv ⟨hrest, hq⟩
    exact ⟨fun t ht => hrest t (List.mem_cons_of_mem _ ht), h.skip hv hq⟩
  case value =>
    rintro q v x rest hv ⟨hrest, hq⟩
    refine ⟨fun t ht => ?_, h.value hv hq⟩
    rcases List.mem_append.mp ht with ht | ht
    · exact fits_paintValue hl (fresh?_eq_some.mp hv).2 ht
    · exact hrest t (List.mem_cons_of_mem _ ht)
  case cell =>
    rintro q bounds c rest ⟨hrest, hq⟩
    have hcell := hrest _ List.mem_cons_self
    refine ⟨fun t ht => ?_, h.cell hcell hq⟩
    rcases List.mem_append.mp ht with ht | ht
    · exact fits_paintCell hcell ht
    · exact hrest t (List.mem_cons_of_mem _ ht)
  case arrow =>
    rintro q source start loop target rest ⟨hrest, hq⟩
    exact ⟨fun t ht => hrest t (List.mem_cons_of_mem _ ht), h.arrow (hrest _ List.mem_cons_self) hq⟩

theorem paintFrame (h : d.Keeps P) (hl : d.layout.Numbered) (hp : P done p []) (i : Nat) :
    P (done ++ d.layout.frameMarks i) (d.paintFrame p i) [] := by
  cases hf : d.layout.frames[i]? with
  | none =>
    rw [Layout.frameMarks, hf, Drawing.paintFrame, hf, List.append_nil]
    exact hp
  | some f =>
    have hfold : d.paintFrame p i = f.bindings.toList.foldl d.paintBinding
        ((p.emitAll (d.frameShapes f)).mark (.frame i)) := by
      rw [Drawing.paintFrame, hf]
      exact (Array.foldl_toList ..).symm
    have hmarks : done ++ d.layout.frameMarks i =
        done ++ [.frame i] ++ (List.range f.bindings.toList.length).map (.binding i) := by
      rw [Layout.frameMarks, hf, Array.length_toList, List.append_assoc, List.singleton_append]
    rw [hfold, hmarks]
    let Q : List (Binding α) → Painter α → Prop := fun rows q =>
      P (done ++ [.frame i] ++ (List.range rows.length).map (.binding i)) q []
    have hstart : Q [] ((p.emitAll (d.frameShapes f)).mark (.frame i)) := by
      have hframe := h.frame hf hp
      rwa [← List.append_nil (done ++ [Mark.frame i])] at hframe
    refine foldl_keeps (P := Q) _ ?_ hstart
    rintro rows b q ⟨rest, hrows⟩ hq
    have hb : f.bindings[rows.length]? = some b := by
      rw [← Array.getElem?_toList, ← hrows]
      simp
    have hnext : (List.range (rows ++ [b]).length).map (Mark.binding i) =
        (List.range rows.length).map (.binding i) ++ [.binding i rows.length] := by
      rw [List.length_append, List.length_singleton, List.range_succ, List.map_append,
        List.map_singleton]
    have hrow := h.row hf hb hq
    obtain ⟨hframe, hindex⟩ := hl.row hf hb
    show P (done ++ [.frame i] ++ (List.range (rows ++ [b]).length).map (.binding i)) _ []
    rw [hnext, ← List.append_assoc, paintBinding_eq, hframe, hindex]
    exact h.run hl (fun t ht => fits_rowTasks hl hf hb ht) hrow

/-- The invariant holds of the whole drawing. -/
theorem paint (h : d.Keeps P) (hl : d.layout.Numbered) (hp : P [] d.start []) :
    P ((d.layout.levels.flatMap Level.frames).flatMap d.layout.frameMarks) d.paint [] := by
  let Q : List Nat → Painter α → Prop := fun ids q => P (ids.flatMap d.layout.frameMarks) q []
  refine foldl_keeps (P := Q) _ ?_ hp
  intro ids i q _ hq
  show P ((ids ++ [i]).flatMap d.layout.frameMarks) _ []
  rw [List.flatMap_append, List.flatMap_singleton]
  exact h.paintFrame hl hq i

end Keeps

end Drawing

end EnvDiagram

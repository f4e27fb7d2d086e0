import Mathlib.Logic.Relation
import EnvDiagram.Proofs.Layout.Walk

/-!
# The stages of a layout

Between two meetings a layout is in a stage: some frames have been placed, the last of them with
some of its rows, and some cells wait. What happens from one stage to the next is a single visit,
or less. So what holds of a layout can be carried along its stages one visit at a time, and what is
still to come can be read backwards from the end.

* `Layout.Stage.Step` — all that can happen next
* `Layout.Stage.steps_finished` — a layout goes through its stages to the end of its walk
* `Layout.Stage.Step.working` — the invariants of the ledger hold in between
* `Layout.Stage.Step.grows`, `Layout.Stage.Step.frame_kept` — values, frames and rows stay
-/

namespace EnvDiagram

variable {α : Type}

/-- The reference of a cell that waits. -/
def CellTask.reference (t : CellTask) : Reference := .cell t.array t.index

namespace Layout

/-- A layout in the making: the frames and values so far, the cells that wait, and the meetings
that there have been. -/
structure Stage (α : Type) where
  frames : Array (Frame α)
  arena : Arena α
  agenda : List CellTask
  log : List Meeting

namespace Stage

variable [Scalar α] {config : Config α} {heap : Heap} {tree : EnvTree} {st st' : Stage α}

/-- All that can happen next: a frame is opened, a row without a datum is passed over, a row or a
cell visits its datum, or a cell that holds the empty list is passed over. -/
inductive Step (config : Config α) (heap : Heap) (tree : EnvTree) : Stage α → Stage α → Prop
  | frame {frames : Array (Frame α)} {a : Arena α} {log : List Meeting} {f : Frame α}
      (extent : Bounds α) (hrows : f.bindings = #[]) :
      Step config heap tree ⟨frames, a, [], log⟩ ⟨frames.push f, { a with extent }, [], log⟩
  | blank {frames : Array (Frame α)} {a : Arena α} {log : List Meeting} {f : Frame α}
      {bs : Array (Binding α)} {b : Binding α} (hid : f.id = frames.size) (hd : b.datum = none)
      (ht : b.target = none) :
      Step config heap tree ⟨frames.push (f.withRows bs), a, [], log⟩
        ⟨frames.push (f.withRows (bs.push b)), a, [], log⟩
  | row {frames : Array (Frame α)} {a : Arena α} {log : List Meeting} {f : Frame α}
      {bs : Array (Binding α)} {b : Binding α} {d : Datum} (known : Array (Frame α)) {v : Visit α}
      (hid : f.id = frames.size) (hindex : b.index = bs.size) (hd : b.datum = some d)
      (hv : v = a.visit ⟨config, heap, tree, known⟩ (f.rowAnchor b) d) :
      Step config heap tree ⟨frames.push (f.withRows bs), a, [], log⟩
        ⟨frames.push (f.withRows (bs.push { b with target := some v.value })), v.arena, v.cells,
          log ++ [⟨.binding frames.size bs.size, d, v.value, a.values.size⟩]⟩
  | pass {frames : Array (Frame α)} {a : Arena α} {log : List Meeting} {task : CellTask}
      {rest : List CellTask} (hnull : task.datum = .null) :
      Step config heap tree ⟨frames, a, task :: rest, log⟩ ⟨frames, a, rest, log⟩
  | cell {frames : Array (Frame α)} {a : Arena α} {log : List Meeting} {task : CellTask}
      {rest : List CellTask} (known : Array (Frame α)) {v : Visit α} (hne : task.datum ≠ .null)
      (hv : v =
        a.visit ⟨config, heap, tree, known⟩ (a.cellAnchor task.array task.index) task.datum) :
      Step config heap tree ⟨frames, a, task :: rest, log⟩
        ⟨frames, v.arena.setContent task.array task.index v.value, v.cells ++ rest,
          log ++ [⟨task.reference, task.datum, v.value, a.values.size⟩]⟩

/-- Any number of steps. -/
abbrev Steps (config : Config α) (heap : Heap) (tree : EnvTree) : Stage α → Stage α → Prop :=
  Relation.ReflTransGen (Step config heap tree)

/-- The stage before any frame. -/
def start : Stage α := ⟨#[], .empty .empty, [], []⟩

/-- The stage when the layout of a snapshot is done. -/
def finished (config : Config α) (s : Snapshot) : Stage α :=
  ⟨(stackOf config s).frames, (stackOf config s).arena, [], walk config s⟩

/-! ## From the start to the end -/

theorem steps_run (known frames : Array (Frame α)) (a : Arena α) (agenda : List CellTask)
    (log : List Meeting) :
    let sc : Scope α := ⟨config, heap, tree, known⟩
    Steps config heap tree ⟨frames, a, agenda, log⟩
      ⟨frames, a.run sc agenda, [], log ++ a.runMeetings sc agenda⟩ := by
  intro sc
  fun_induction Arena.run sc a agenda generalizing log with
  | case1 a =>
    rw [Arena.runMeetings_nil, List.append_nil]
  | case2 a task rest hd ih =>
    rw [Arena.runMeetings_cons_of_null hd]
    exact .head (.pass hd) (ih log)
  | case3 a task rest hd v ih =>
    have hne : task.datum ≠ .null := hd
    rw [Arena.runMeetings_cons_of_ne_null hne, List.append_cons]
    exact .head (.cell known hne rfl) (ih _)

theorem steps_bindRow {known frames : Array (Frame α)} {log : List Meeting} {bound : Bound α}
    {b : Binding α} {f frame : Frame α} (hid : f.id = frames.size)
    (hanchor : f.rowAnchor b = frame.rowAnchor b) (hindex : b.index = bound.bindings.size)
    (ht : b.target = none) :
    let sc : Scope α := ⟨config, heap, tree, known⟩
    Steps config heap tree ⟨frames.push (f.withRows bound.bindings), bound.arena, [], log⟩
      ⟨frames.push (f.withRows (bindRow sc frame bound b).bindings),
        (bindRow sc frame bound b).arena, [], log ++ rowMeetings sc frame bound b⟩ := by
  intro sc
  cases hd : b.datum with
  | none =>
    rw [bindRow_of_none hd, rowMeetings, hd, List.append_nil]
    exact .single (.blank hid hd ht)
  | some d =>
    have hmeetings : rowMeetings sc frame bound b =
        bound.arena.placeMeetings sc (f.rowAnchor b) d := by
      rw [rowMeetings, hd, hanchor]
      rfl
    rw [bindRow_of_some hd, hmeetings, ← hanchor]
    have hr : (f.rowAnchor b).reference = .binding frames.size bound.bindings.size := by
      rw [← hid, ← hindex]
      rfl
    rw [Arena.placeMeetings, hr, List.append_cons]
    exact .head (.row known hid hindex hd rfl) (steps_run known _ _ _ _)

/-- The rows of a frame. -/
theorem steps_bindRows {known frames : Array (Frame α)} {a : Arena α} {log : List Meeting}
    {f frame : Frame α} (hid : f.id = frames.size)
    (hanchor : ∀ b : Binding α, f.rowAnchor b = frame.rowAnchor b) (rows : List (Binding α))
    (hrows : ∀ (i : Nat) (b : Binding α), rows[i]? = some b → b.index = i ∧ b.target = none) :
    let sc : Scope α := ⟨config, heap, tree, known⟩
    Steps config heap tree ⟨frames.push (f.withRows #[]), a, [], log⟩
      ⟨frames.push (f.withRows (rows.foldl (bindRow sc frame) ⟨a, #[]⟩).bindings),
        (rows.foldl (bindRow sc frame) ⟨a, #[]⟩).arena, [],
        log ++ foldNotes (bindRow sc frame) (rowMeetings sc frame) ⟨a, #[]⟩ rows⟩ := by
  intro sc
  let P : List (Binding α) → Bound α → List Meeting → Prop := fun done bound notes =>
    bound.bindings.size = done.length ∧
      Steps config heap tree ⟨frames.push (f.withRows #[]), a, [], log⟩
        ⟨frames.push (f.withRows bound.bindings), bound.arena, [], notes⟩
  refine (foldl_foldNotes (P := P) rows ?_ ⟨rfl, .refl⟩).2
  rintro done b bound notes ⟨rest, rfl⟩ ⟨hsize, hsteps⟩
  obtain ⟨hindex, ht⟩ := hrows done.length b (by simp)
  refine ⟨?_, hsteps.trans (steps_bindRow hid (hanchor b) (hindex.trans hsize.symm) ht)⟩
  rw [size_bindRow, hsize, List.length_append, List.length_singleton]

theorem steps_addFrame (config : Config α) (s : Snapshot) (tree : EnvTree) (y : α) (row : Row α)
    (nodeId : Nat) (log : List Meeting) :
    Steps config s.heap tree ⟨row.frames, row.arena, [], log⟩
      ⟨(addFrame config s tree y row nodeId).frames, (addFrame config s tree y row nodeId).arena,
        [], log ++ frameMeetings config s tree y row nodeId⟩ := by
  cases hnode : tree.nodes[nodeId]? with
  | none =>
    rw [addFrame_of_none hnode, frameMeetings, hnode, List.append_nil]
  | some node =>
    obtain ⟨hframes, harena, -, hnotes⟩ := addFrame_eq config s row hnode y
    rw [hframes, harena, hnotes]
    refine .head (.frame _ rfl) (steps_bindRows rfl (fun b => rfl) _ fun i b hb => ?_)
    rw [Array.getElem?_toList] at hb
    exact (row_place hb).2

theorem steps_addLevel (config : Config α) (s : Snapshot) (tree : EnvTree) (stack : Stack α)
    (nodes : List Nat) (log : List Meeting) :
    Steps config s.heap tree ⟨stack.frames, stack.arena, [], log⟩
      ⟨(addLevel config s tree stack nodes).frames, (addLevel config s tree stack nodes).arena, [],
        log ++ levelMeetings config s tree stack nodes⟩ := by
  let P : List Nat → Row α → List Meeting → Prop := fun _ row notes =>
    Steps config s.heap tree ⟨stack.frames, stack.arena, [], log⟩
      ⟨row.frames, row.arena, [], notes⟩
  rw [addLevel_eq_add, levelMeetings]
  refine foldl_foldNotes (P := P) nodes ?_ .refl
  exact fun done n row notes _ hrow => hrow.trans (steps_addFrame ..)

-- nothing below depends on how the tree is built
attribute [local irreducible] EnvTree.build

/-- The layout of a snapshot goes through its stages to the end. -/
theorem steps_finished (config : Config α) (s : Snapshot) :
    Steps config s.heap (EnvTree.build s config.framePolicy).1 start (finished config s) := by
  let P : List (List Nat) → Stack α → List Meeting → Prop := fun _ stack notes =>
    Steps config s.heap (EnvTree.build s config.framePolicy).1 start
      ⟨stack.frames, stack.arena, [], notes⟩
  refine foldl_foldNotes (P := P) _ ?_ (show P [] _ [] from .refl)
  exact fun done level stack notes _ hstack => hstack.trans (steps_addLevel ..)

/-! ## What a step keeps -/

/-- What the visit of a row does to the ledger. -/
theorem meets_row {frames known : Array (Frame α)} {a : Arena α} {f : Frame α}
    {bs : Array (Binding α)} {b : Binding α} {d : Datum} {v : Visit α} (hid : f.id = frames.size)
    (hindex : b.index = bs.size)
    (hv : v = a.visit ⟨config, heap, tree, known⟩ (f.rowAnchor b) d) :
    a.ledger.Meets heap tree (.binding frames.size bs.size) d v.arena.ledger v.value v.cells := by
  have hm := Arena.meets_visit ⟨config, heap, tree, known⟩ a (f.rowAnchor b) d
  have hr : (f.rowAnchor b).reference = .binding frames.size bs.size := by
    rw [← hid, ← hindex]
    rfl
  rw [hr] at hm
  rw [hv]
  exact hm

/-- What the visit of a cell does to the ledger. -/
theorem meets_cell {known : Array (Frame α)} {a : Arena α} {task : CellTask} {v : Visit α}
    (hv : v =
      a.visit ⟨config, heap, tree, known⟩ (a.cellAnchor task.array task.index) task.datum) :
    a.ledger.Meets heap tree task.reference task.datum v.arena.ledger v.value v.cells := by
  have hm := Arena.meets_visit ⟨config, heap, tree, known⟩ a
    (a.cellAnchor task.array task.index) task.datum
  rw [Arena.reference_cellAnchor] at hm
  rw [hv]
  exact hm

/-- The invariants of the ledger at a stage. -/
def Working (heap : Heap) (tree : EnvTree) (st : Stage α) : Prop :=
  Ledger.Working heap tree (rowTarget st.frames) (IsRowDatum st.frames) st.log st.arena.ledger
    st.agenda

theorem working_start (heap : Heap) (tree : EnvTree) : (start : Stage α).Working heap tree :=
  Ledger.working_nil fun _ _ => rfl

theorem Step.working (h : Step config heap tree st st') (hw : st.Working heap tree) :
    st'.Working heap tree := by
  cases h with
  | @frame frames a log f extent hrows =>
    rw [Working, rowTarget_push_of_empty frames hrows]
    exact hw.mono fun d => IsRowDatum.pushFrame f
  | @blank frames a log f bs b hid hd ht =>
    rw [Working, rowTarget_pushRow_of_none frames f bs ht]
    exact hw.mono fun d => IsRowDatum.pushRow b
  | @row frames a log f bs b d known v hid hindex hd hv =>
    have hroot : IsRowDatum
        (frames.push (f.withRows (bs.push { b with target := some v.value }))) d :=
      ⟨_, Array.mem_push_self, _, Array.mem_push_self, hd⟩
    have hnext := (hw.mono fun d => IsRowDatum.pushRow _).meetRow (rowTarget_next ..) hroot
      (meets_row hid hindex hv)
    rw [List.append_nil, Arena.size_ledger] at hnext
    rw [Working, rowTarget_pushRow]
    exact hnext
  | pass hnull => exact hw.skip hnull
  | @cell frames a log task rest known v hne hv =>
    have hnext := hw.meetCell hne (meets_cell hv)
    rw [← Arena.ledger_setContent, Arena.size_ledger] at hnext
    exact hnext

theorem Step.grows (h : Step config heap tree st st') :
    st.arena.ledger.Grows st'.arena.ledger := by
  cases h with
  | frame => exact .refl _
  | blank => exact .refl _
  | row known hid hindex hd hv => exact (meets_row hid hindex hv).grows
  | pass => exact .refl _
  | cell known hne hv =>
    rw [Arena.ledger_setContent]
    exact (meets_cell hv).grows.trans (Ledger.grows_fill ..)

/-- Whether a frame is another one with some more rows. -/
def ExtendsRows (f g : Frame α) : Prop :=
  ∃ bs, g = f.withRows bs ∧ ∀ (i : Nat) (b : Binding α), f.bindings[i]? = some b →
    bs[i]? = some b

omit [Scalar α] in
theorem ExtendsRows.refl (f : Frame α) : ExtendsRows f f := ⟨f.bindings, rfl, fun _ _ => id⟩

omit [Scalar α] in
theorem ExtendsRows.trans {f g h : Frame α} (hfg : ExtendsRows f g) (hgh : ExtendsRows g h) :
    ExtendsRows f h := by
  obtain ⟨bs, rfl, hbs⟩ := hfg
  obtain ⟨bs', rfl, hbs'⟩ := hgh
  exact ⟨bs', rfl, fun i b hb => hbs' i b (hbs i b hb)⟩

omit [Scalar α] in
theorem exists_extendsRows_push {frames : Array (Frame α)} {f g : Frame α} (hfg : ExtendsRows f g)
    {i : Nat} {x : Frame α} (hx : (frames.push f)[i]? = some x) :
    ∃ y, (frames.push g)[i]? = some y ∧ ExtendsRows x y := by
  rw [Array.getElem?_push] at hx ⊢
  split at hx
  · rename_i hi
    cases hx
    exact ⟨g, if_pos hi, hfg⟩
  · rename_i hi
    exact ⟨x, (if_neg hi).trans hx, .refl x⟩

/-- Frames stay with the rows that they have. -/
theorem Step.frame_kept (h : Step config heap tree st st') {i : Nat} {f : Frame α}
    (hf : st.frames[i]? = some f) : ∃ g, st'.frames[i]? = some g ∧ ExtendsRows f g := by
  have hpush : ∀ (f : Frame α) (bs : Array (Binding α)) (b : Binding α),
      ExtendsRows (f.withRows bs) (f.withRows (bs.push b)) := by
    refine fun f bs b => ⟨bs.push b, rfl, fun i c hc => ?_⟩
    rw [Frame.bindings_withRows] at hc
    obtain ⟨hlt, hval⟩ := Array.getElem?_eq_some_iff.mp hc
    rw [Array.getElem?_push_lt hlt, hval]
  cases h with
  | frame extent hrows =>
    obtain ⟨hlt, hval⟩ := Array.getElem?_eq_some_iff.mp hf
    exact ⟨f, by rw [Array.getElem?_push_lt hlt, hval], .refl f⟩
  | blank => exact exists_extendsRows_push (hpush ..) hf
  | row => exact exists_extendsRows_push (hpush ..) hf
  | pass => exact ⟨f, hf, .refl f⟩
  | cell => exact ⟨f, hf, .refl f⟩

/-! ## What all steps keep -/

theorem Steps.working (h : Steps config heap tree st st') (hw : st.Working heap tree) :
    st'.Working heap tree := by
  induction h with
  | refl => exact hw
  | tail _ hstep ih => exact hstep.working ih

theorem Steps.grows (h : Steps config heap tree st st') :
    st.arena.ledger.Grows st'.arena.ledger := by
  induction h with
  | refl => exact .refl _
  | tail _ hstep ih => exact ih.trans hstep.grows

theorem Steps.frame_kept (h : Steps config heap tree st st') {i : Nat} {f : Frame α}
    (hf : st.frames[i]? = some f) : ∃ g, st'.frames[i]? = some g ∧ ExtendsRows f g := by
  induction h with
  | refl => exact ⟨f, hf, .refl f⟩
  | tail _ hstep ih =>
    obtain ⟨g, hg, hfg⟩ := ih
    obtain ⟨g', hg', hgg'⟩ := hstep.frame_kept hg
    exact ⟨g', hg', hfg.trans hgg'⟩

end Stage

end Layout

end EnvDiagram

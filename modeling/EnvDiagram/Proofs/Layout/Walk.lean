import EnvDiagram.Proofs.Layout.Agenda
import EnvDiagram.Proofs.Layout.Labels
import EnvDiagram.Proofs.Layout.Steps
import EnvDiagram.Proofs.EnvTree.Numbering
import EnvDiagram.Proofs.Steps

/-!
# The walk of a layout

Laying out a snapshot is a long sequence of meetings: the rows of the frames one by one, and
after every row the cells that wait on the agenda. The walk is that sequence. It is read off
the very functions that lay out, and the invariants of the ledger are carried along it.

* `Layout.walk` — the meetings of a layout, in order
* `Layout.Built` — the frames and the arena agree with the walk so far
* `Layout.ofSnapshot_laid` — so they do when the layout is done, and every node has its frame
-/

namespace EnvDiagram

variable {α : Type}

/-! ## Placing -/

namespace Arena

variable [Scalar α]

/-- The meetings of an agenda that is worked off. -/
def runMeetings (sc : Scope α) (a : Arena α) : List CellTask → List Meeting
  | [] => []
  | task :: rest =>
    match task.datum with
    | .null => a.runMeetings sc rest
    | d =>
      let v := a.visit sc (a.cellAnchor task.array task.index) d
      ⟨.cell task.array task.index, d, v.value, a.values.size⟩ ::
        (v.arena.setContent task.array task.index v.value).runMeetings sc (v.cells ++ rest)
termination_by agenda => (unplaced sc.heap a.cache, agenda.length)
decreasing_by
  · exact Prod.Lex.right _ (Nat.lt_succ_self _)
  · simp only [Prod.lex_def, cache_setContent, List.length_cons, List.length_append]
    rcases visit_progress sc a (a.cellAnchor task.array task.index) d with h | ⟨h, hc⟩
    · exact Or.inl h
    · right
      simp [h, hc]

/-- The meetings of a datum and of everything that it leads to. -/
def placeMeetings (sc : Scope α) (a : Arena α) (anchor : Anchor α) (d : Datum) : List Meeting :=
  let v := a.visit sc anchor d
  ⟨anchor.reference, d, v.value, a.values.size⟩ :: v.arena.runMeetings sc v.cells

variable {sc : Scope α} {a : Arena α} {agenda rest : List CellTask} {task : CellTask}
  {log : List Meeting} {rows : Nat → Nat → Option Nat} {roots : Datum → Prop}

@[simp]
theorem runMeetings_nil (sc : Scope α) (a : Arena α) : a.runMeetings sc [] = [] := by
  rw [runMeetings]

theorem runMeetings_cons_of_null (h : task.datum = .null) :
    a.runMeetings sc (task :: rest) = a.runMeetings sc rest := by
  rw [runMeetings, h]

theorem runMeetings_cons_of_ne_null (h : task.datum ≠ .null) :
    a.runMeetings sc (task :: rest) =
      let v := a.visit sc (a.cellAnchor task.array task.index) task.datum
      ⟨.cell task.array task.index, task.datum, v.value, a.values.size⟩ ::
        (v.arena.setContent task.array task.index v.value).runMeetings sc (v.cells ++ rest) := by
  rw [runMeetings]
  cases hd : task.datum with
  | null => exact absurd hd h
  | primitive p => rfl
  | object id => rfl

theorem grows_run (sc : Scope α) (a : Arena α) (agenda : List CellTask) :
    a.ledger.Grows (a.run sc agenda).ledger := by
  refine run_keeps (P := fun b _ => a.ledger.Grows b.ledger) id ?_ (.refl _)
  intro b task rest hb v
  have hmeets := (meets_visit sc b (b.cellAnchor task.array task.index) task.datum).grows
  have hfill := Ledger.grows_fill v.arena.ledger task.array task.index v.value
  rw [← ledger_setContent] at hfill
  exact hb.trans (hmeets.trans hfill)

/-- The invariants hold along the agenda until nothing waits any more. -/
theorem working_run (h : Ledger.Working sc.heap sc.tree rows roots log a.ledger agenda) :
    Ledger.Working sc.heap sc.tree rows roots (log ++ a.runMeetings sc agenda)
      (a.run sc agenda).ledger [] := by
  fun_induction run sc a agenda generalizing log with
  | case1 a => simpa using h
  | case2 a task rest hd ih =>
    rw [runMeetings_cons_of_null hd]
    exact ih (h.skip hd)
  | case3 a task rest hd v =>
    rename_i ih
    have hm := meets_visit sc a (a.cellAnchor task.array task.index) task.datum
    rw [reference_cellAnchor] at hm
    have hnext := h.meetCell hd hm
    rw [← ledger_setContent, size_ledger] at hnext
    have hrun := ih hnext
    rw [List.append_assoc] at hrun
    rw [runMeetings_cons_of_ne_null hd]
    exact hrun

/-- A row has its datum placed with everything that this leads to. -/
theorem working_place {anchor : Anchor α} {frame index : Nat} {d : Datum}
    (h : Ledger.Working sc.heap sc.tree rows roots log a.ledger [])
    (hr : anchor.reference = .binding frame index) (hrow : rows frame index = none) (hd : roots d) :
    Ledger.Working sc.heap sc.tree (Ledger.setRow rows frame index (a.place sc anchor d).2) roots
      (log ++ a.placeMeetings sc anchor d) (a.place sc anchor d).1.ledger [] := by
  have hm := meets_visit sc a anchor d
  rw [hr] at hm
  have hnext := h.meetRow hrow hd hm
  rw [List.append_nil, size_ledger] at hnext
  have hrun := working_run hnext
  rw [List.append_assoc] at hrun
  rw [placeMeetings, hr]
  exact hrun

theorem grows_place (sc : Scope α) (a : Arena α) (anchor : Anchor α) (d : Datum) :
    a.ledger.Grows (a.place sc anchor d).1.ledger :=
  (meets_visit sc a anchor d).grows.trans (grows_run ..)

/-- What is answered for a datum is its value. -/
theorem shows_place (anchor : Anchor α) (h : a.ledger.Coherent sc.heap sc.tree) (d : Datum) :
    (a.place sc anchor d).1.ledger.Shows sc.heap sc.tree d (a.place sc anchor d).2 :=
  ((meets_visit sc a anchor d).shows h).mono (grows_run ..)

end Arena

/-! ## The meetings of a layout -/

/-- A frame with the given rows in place of its own. -/
def Frame.withRows (f : Frame α) (bindings : Array (Binding α)) : Frame α := { f with bindings }

@[simp]
theorem Frame.id_withRows (f : Frame α) (bs : Array (Binding α)) : (f.withRows bs).id = f.id := rfl

@[simp]
theorem Frame.bindings_withRows (f : Frame α) (bs : Array (Binding α)) :
    (f.withRows bs).bindings = bs := rfl

namespace Layout

/-- The values of the rows. -/
def rowTarget (frames : Array (Frame α)) (frame index : Nat) : Option Nat :=
  (frames[frame]?).bind fun f => (f.bindings[index]?).bind Binding.target

/-- Whether a row holds a datum. -/
def IsRowDatum (frames : Array (Frame α)) (d : Datum) : Prop :=
  ∃ f ∈ frames, ∃ b ∈ f.bindings, b.datum = some d

theorem rowTarget_push (frames : Array (Frame α)) (f : Frame α) (i j : Nat) :
    rowTarget (frames.push f) i j =
      if i = frames.size then (f.bindings[j]?).bind Binding.target else rowTarget frames i j := by
  rw [rowTarget, Array.getElem?_push]
  split <;> rfl

section Meetings

variable [Scalar α]

/-- The meetings of a row. -/
def rowMeetings (sc : Scope α) (frame : Frame α) (bound : Bound α) (b : Binding α) :
    List Meeting :=
  match b.datum with
  | none => []
  | some d =>
    bound.arena.placeMeetings sc (.row frame.id b.index frame.node frame.bounds b.bounds) d

/-- The meetings of the rows of a frame. -/
def frameMeetings (config : Config α) (s : Snapshot) (tree : EnvTree) (y : α) (row : Row α)
    (nodeId : Nat) : List Meeting :=
  match tree.nodes[nodeId]? with
  | none => []
  | some node =>
    let frame := Frame.place config row.frames.size nodeId node (envsOf s node) ⟨row.x, y⟩
    let sc : Scope α := ⟨config, s.heap, tree, row.frames.push frame⟩
    foldNotes (bindRow sc frame) (rowMeetings sc frame)
      ⟨{ row.arena with extent := frame.bounds }, #[]⟩ frame.bindings.toList

/-- The meetings of the frames of a level. -/
def levelMeetings (config : Config α) (s : Snapshot) (tree : EnvTree) (stack : Stack α)
    (nodes : List Nat) : List Meeting :=
  foldNotes (addFrame config s tree stack.y) (frameMeetings config s tree stack.y)
    ⟨stack.frames, stack.arena, config.canvasPaddingX + config.levelPaddingX, none, []⟩ nodes

/-- The meetings of the layout of a snapshot, in order. -/
def walk (config : Config α) (s : Snapshot) : List Meeting :=
  let tree := (EnvTree.build s config.framePolicy).1
  foldNotes (addLevel config s tree) (levelMeetings config s tree)
    { frames := #[]
      arena := .empty .empty
      y := config.canvasPaddingY + config.levelPaddingY
      levels := [] }
    tree.levels

end Meetings

/-! ## What holds all along -/

variable {heap : Heap} {tree : EnvTree} {frames : Array (Frame α)} {a : Arena α}
  {log : List Meeting}

/-- What is laid out so far, and the meetings that have led to it. -/
structure Built (heap : Heap) (tree : EnvTree) (frames : Array (Frame α)) (a : Arena α)
    (log : List Meeting) : Prop where
  working : Ledger.Working heap tree (rowTarget frames) (IsRowDatum frames) log a.ledger []
  labelled : a.Labelled
  frame_id : ∀ {f : Nat} {frame : Frame α}, frames[f]? = some frame → frame.id = f
  row_label : ∀ {f i : Nat} {frame : Frame α} {b : Binding α}, frames[f]? = some frame →
    frame.bindings[i]? = some b → b.frame = f ∧ b.index = i
  row_target : ∀ {f i : Nat} {frame : Frame α} {b : Binding α}, frames[f]? = some frame →
    frame.bindings[i]? = some b → b.datum = none ∧ b.target = none ∨
      ∃ d v, b.datum = some d ∧ b.target = some v ∧ a.ledger.Shows heap tree d v

theorem Built.congr {a' : Arena α} (h : Built heap tree frames a log) (hv : a'.values = a.values)
    (hc : a'.cache = a.cache) : Built heap tree frames a' log := by
  have hledger : a'.ledger = a.ledger := by rw [Arena.ledger, Arena.ledger, hv, hc]
  refine ⟨hledger ▸ h.working, ⟨hv ▸ h.labelled.value⟩, h.frame_id, h.row_label, ?_⟩
  rw [hledger]
  exact h.row_target

theorem built_empty (heap : Heap) (tree : EnvTree) (extent : Bounds α) :
    Built heap tree #[] (.empty extent) [] where
  working := Ledger.working_nil fun frame index => rfl
  labelled := Arena.labelled_empty _
  frame_id := by simp
  row_label := by simp
  row_target := by simp

/-- A frame without rows has no targets. -/
theorem rowTarget_push_of_empty (frames : Array (Frame α)) {f : Frame α} (h : f.bindings = #[]) :
    rowTarget (frames.push f) = rowTarget frames := by
  funext i j
  rw [rowTarget_push]
  split
  · rename_i hi
    rw [rowTarget, hi, h, Array.getElem?_eq_none (Nat.le_refl _)]
    rfl
  · rfl

theorem IsRowDatum.pushFrame {d : Datum} (f : Frame α) (h : IsRowDatum frames d) :
    IsRowDatum (frames.push f) d := by
  obtain ⟨g, hg, hb⟩ := h
  exact ⟨g, Array.mem_push_of_mem _ hg, hb⟩

/-- A frame without rows brings nothing but itself. -/
theorem Built.pushFrame (h : Built heap tree frames a log) {frame : Frame α}
    (hid : frame.id = frames.size) (hrows : frame.bindings = #[]) (extent : Bounds α) :
    Built heap tree (frames.push frame) { a with extent } log where
  working := by
    rw [rowTarget_push_of_empty frames hrows]
    exact h.working.mono fun d => IsRowDatum.pushFrame frame
  labelled := ⟨h.labelled.value⟩
  frame_id := by
    intro f fr hf
    rw [Array.getElem?_push] at hf
    split at hf
    · rename_i hi
      cases hf
      rw [hid, hi]
    · exact h.frame_id hf
  row_label := by
    intro f i fr b hf hb
    rw [Array.getElem?_push] at hf
    split at hf
    · cases hf
      simp [hrows] at hb
    · exact h.row_label hf hb
  row_target := by
    intro f i fr b hf hb
    rw [Array.getElem?_push] at hf
    split at hf
    · cases hf
      simp [hrows] at hb
    · exact h.row_target hf hb

/-- One more row in the last frame. -/
theorem rowTarget_pushRow (frames : Array (Frame α)) (f : Frame α) (bs : Array (Binding α))
    (b : Binding α) :
    rowTarget (frames.push (f.withRows (bs.push b))) = fun i j =>
      if i = frames.size ∧ j = bs.size then b.target
      else rowTarget (frames.push (f.withRows bs)) i j := by
  funext i j
  rw [rowTarget_push, rowTarget_push]
  by_cases hi : i = frames.size
  · by_cases hj : j = bs.size
    · simp [hi, hj]
    · simp [hi, hj, Array.getElem?_push]
  · simp [hi]

/-- A row that is not there has no target. -/
theorem rowTarget_next (frames : Array (Frame α)) (f : Frame α) (bs : Array (Binding α)) :
    rowTarget (frames.push (f.withRows bs)) frames.size bs.size = none := by
  rw [rowTarget_push, if_pos rfl]
  simp

/-- A row without a target is as good as one that is not there. -/
theorem rowTarget_pushRow_of_none (frames : Array (Frame α)) (f : Frame α)
    (bs : Array (Binding α)) {b : Binding α} (h : b.target = none) :
    rowTarget (frames.push (f.withRows (bs.push b))) =
      rowTarget (frames.push (f.withRows bs)) := by
  rw [rowTarget_pushRow, h]
  funext i j
  split
  · rename_i hij
    rw [hij.1, hij.2, rowTarget_next]
  · rfl

theorem IsRowDatum.pushRow {f : Frame α} {bs : Array (Binding α)} {d : Datum} (b : Binding α)
    (h : IsRowDatum (frames.push (f.withRows bs)) d) :
    IsRowDatum (frames.push (f.withRows (bs.push b))) d := by
  obtain ⟨g, hg, c, hc, hd⟩ := h
  rcases Array.mem_push.mp hg with hg | hg
  · exact ⟨g, Array.mem_push_of_mem _ hg, c, hc, hd⟩
  · subst hg
    exact ⟨_, Array.mem_push_self, c, Array.mem_push_of_mem _ hc, hd⟩

/-- A row is one that was there already, or the new one. -/
theorem getElem?_pushRow {f fr : Frame α} {bs : Array (Binding α)} {b c : Binding α} {i j : Nat}
    (hfr : (frames.push (f.withRows (bs.push b)))[i]? = some fr) (hc : fr.bindings[j]? = some c) :
    i = frames.size ∧ j = bs.size ∧ c = b ∨
      ∃ fr', (frames.push (f.withRows bs))[i]? = some fr' ∧ fr'.bindings[j]? = some c := by
  rw [Array.getElem?_push] at hfr ⊢
  split at hfr
  · rename_i hi
    cases hfr
    rw [Frame.bindings_withRows, Array.getElem?_push] at hc
    split at hc
    · rename_i hj
      exact Or.inl ⟨hi, hj, by simpa using hc.symm⟩
    · rw [if_pos hi]
      exact Or.inr ⟨_, rfl, hc⟩
  · rename_i hi
    rw [if_neg hi]
    exact Or.inr ⟨fr, hfr, hc⟩

/-- A row is added to the last frame, once its datum is placed. -/
theorem Built.pushRow {f : Frame α} {bs : Array (Binding α)} {b : Binding α} {a' : Arena α}
    {log' : List Meeting} (h : Built heap tree (frames.push (f.withRows bs)) a log)
    (hlabel : b.frame = frames.size ∧ b.index = bs.size) (hg : a.ledger.Grows a'.ledger)
    (hl : a'.Labelled)
    (hw : Ledger.Working heap tree (rowTarget (frames.push (f.withRows (bs.push b))))
      (IsRowDatum (frames.push (f.withRows (bs.push b)))) log' a'.ledger [])
    (ht : b.datum = none ∧ b.target = none ∨
      ∃ d v, b.datum = some d ∧ b.target = some v ∧ a'.ledger.Shows heap tree d v) :
    Built heap tree (frames.push (f.withRows (bs.push b))) a' log' where
  working := hw
  labelled := hl
  frame_id := by
    intro i fr hfr
    rw [Array.getElem?_push] at hfr
    split at hfr
    · rename_i hi
      cases hfr
      have hlast : (frames.push (f.withRows bs))[i]? = some (f.withRows bs) := by
        rw [Array.getElem?_push, if_pos hi]
      have hid := h.frame_id hlast
      exact hid
    · rename_i hi
      exact h.frame_id (by rw [Array.getElem?_push, if_neg hi, hfr])
  row_label := by
    intro i j fr c hfr hc
    rcases getElem?_pushRow hfr hc with ⟨rfl, rfl, rfl⟩ | ⟨fr', hfr', hc'⟩
    · exact hlabel
    · exact h.row_label hfr' hc'
  row_target := by
    intro i j fr c hfr hc
    rcases getElem?_pushRow hfr hc with ⟨-, -, rfl⟩ | ⟨fr', hfr', hc'⟩
    · exact ht
    · -- the values of the other rows are still theirs
      refine (h.row_target hfr' hc').imp_right fun ⟨d, v, hd, hv, hs⟩ => ?_
      exact ⟨d, v, hd, hv, hs.mono hg⟩

variable [Scalar α] {sc : Scope α} {bound : Bound α} {b : Binding α} {f frame : Frame α}

/-- What comes of a row. -/
theorem Built.bindRow (hid : frame.id = frames.size) (hf : b.frame = frames.size)
    (hi : b.index = bound.bindings.size) (ht : b.target = none)
    (h : Built sc.heap sc.tree (frames.push (f.withRows bound.bindings)) bound.arena log) :
    Built sc.heap sc.tree
      (frames.push (f.withRows (Layout.bindRow sc frame bound b).bindings))
      (Layout.bindRow sc frame bound b).arena (log ++ rowMeetings sc frame bound b) := by
  cases hd : b.datum with
  | none =>
    rw [Layout.bindRow, rowMeetings, hd]
    rw [List.append_nil]
    refine h.pushRow ⟨hf, hi⟩ (.refl _) h.labelled ?_ (Or.inl ⟨hd, ht⟩)
    rw [rowTarget_pushRow_of_none frames f bound.bindings ht]
    exact h.working.mono fun d => IsRowDatum.pushRow b
  | some d =>
    set anchor : Anchor α := .row frame.id b.index frame.node frame.bounds b.bounds with hanchor
    have hr : anchor.reference = .binding frames.size bound.bindings.size := by
      rw [hanchor, Anchor.reference, hid, hi]
    set v := (bound.arena.place sc anchor d).2 with hv
    have hbind : Layout.bindRow sc frame bound b =
        ⟨(bound.arena.place sc anchor d).1, bound.bindings.push { b with target := some v }⟩ := by
      rw [Layout.bindRow, hd]
    have hnotes : rowMeetings sc frame bound b = bound.arena.placeMeetings sc anchor d := by
      rw [rowMeetings, hd]
    set frames' := frames.push (f.withRows (bound.bindings.push { b with target := some v }))
    have hroot : IsRowDatum frames' d := ⟨_, Array.mem_push_self, _, Array.mem_push_self, hd⟩
    have hwork := Arena.working_place (h.working.mono fun d => IsRowDatum.pushRow _) hr (rowTarget_next ..)
      hroot
    have hshows := Arena.shows_place anchor h.working.coherent d
    rw [hbind, hnotes]
    refine h.pushRow ⟨hf, hi⟩ (Arena.grows_place ..) (Arena.labelled_place h.labelled ..) ?_
      (Or.inr ⟨d, v, hd, rfl, hshows⟩)
    have hrows : rowTarget frames' = Ledger.setRow
        (rowTarget (frames.push (f.withRows bound.bindings))) frames.size bound.bindings.size v := by
      rw [rowTarget_pushRow]
      rfl
    rw [hrows]
    exact hwork

theorem size_bindRow (sc : Scope α) (frame : Frame α) (bound : Bound α) (b : Binding α) :
    (Layout.bindRow sc frame bound b).bindings.size = bound.bindings.size + 1 := by
  rw [Layout.bindRow]
  split <;> simp

/-- What comes of all rows of a frame. -/
theorem Built.bindRows (sc : Scope α) (hid : frame.id = frames.size) (rows : List (Binding α))
    (hrows : ∀ (i : Nat) (b : Binding α), rows[i]? = some b →
      b.frame = frames.size ∧ b.index = i ∧ b.target = none)
    (h : Built sc.heap sc.tree (frames.push (f.withRows #[])) a log) :
    Built sc.heap sc.tree
      (frames.push (f.withRows (rows.foldl (Layout.bindRow sc frame) ⟨a, #[]⟩).bindings))
      (rows.foldl (Layout.bindRow sc frame) ⟨a, #[]⟩).arena
      (log ++ foldNotes (Layout.bindRow sc frame) (rowMeetings sc frame) ⟨a, #[]⟩ rows) := by
  let P : List (Binding α) → Bound α → List Meeting → Prop := fun done bound log =>
    bound.bindings.size = done.length ∧
      Built sc.heap sc.tree (frames.push (f.withRows bound.bindings)) bound.arena log
  refine (foldl_foldNotes (P := P) rows ?_ ⟨rfl, h⟩).2
  rintro done b bound log ⟨rest, rfl⟩ ⟨hsize, hbuilt⟩
  obtain ⟨hf, hi, ht⟩ := hrows done.length b (by simp)
  refine ⟨?_, hbuilt.bindRow hid hf (hi.trans hsize.symm) ht⟩
  rw [size_bindRow, hsize, List.length_append, List.length_singleton]

/-! ## Frames and levels -/

/-- The rows of a new frame carry its number and their own, and have no values yet. -/
theorem row_place {config : Config α} {id nodeId i : Nat} {node : TreeNode}
    {envs : List Environment} {p : Point α}
    (h : (Frame.place config id nodeId node envs p).bindings[i]? = some b) :
    b.frame = id ∧ b.index = i ∧ b.target = none := by
  simp only [Frame.place, List.getElem?_toArray, List.getElem?_mapIdx] at h
  obtain ⟨v, hv, rfl⟩ := Option.map_eq_some_iff.mp h
  exact ⟨rfl, rfl, rfl⟩

/-- What is laid out so far, with the nodes that have got their frames and the numbers of
these frames. -/
structure Laid (heap : Heap) (tree : EnvTree) (nodes ids : List Nat) (frames : Array (Frame α))
    (a : Arena α) (log : List Meeting) : Prop where
  built : Built heap tree frames a log
  nodes : frames.toList.map Frame.node = nodes
  ids : ids = List.range frames.size

variable {config : Config α} {s : Snapshot} {nodes ids : List Nat}

/-- A node gets a frame with its rows. -/
theorem addFrame_eq (config : Config α) (s : Snapshot) (row : Row α) {nodeId : Nat}
    {node : TreeNode} (h : tree.nodes[nodeId]? = some node) (y : α) :
    let frame := Frame.place config row.frames.size nodeId node (envsOf s node) ⟨row.x, y⟩
    let sc : Scope α := ⟨config, s.heap, tree, row.frames.push frame⟩
    let start : Bound α := ⟨{ row.arena with extent := frame.bounds }, #[]⟩
    let bound := frame.bindings.toList.foldl (Layout.bindRow sc frame) start
    let totalWidth := bound.arena.extent.right - frame.bounds.x
    (Layout.addFrame config s tree y row nodeId).frames =
        row.frames.push ({ frame with totalWidth }.withRows bound.bindings) ∧
      (Layout.addFrame config s tree y row nodeId).arena = bound.arena ∧
      (Layout.addFrame config s tree y row nodeId).ids = row.ids ++ [row.frames.size] ∧
      frameMeetings config s tree y row nodeId =
        foldNotes (Layout.bindRow sc frame) (rowMeetings sc frame) start frame.bindings.toList := by
  refine ⟨?_, ?_, ?_, ?_⟩
  · simp only [Layout.addFrame, h, Array.foldl_toList]
    rfl
  all_goals simp only [Layout.addFrame, frameMeetings, h, Array.foldl_toList]

/-- What comes of a node. -/
theorem Laid.addFrame (config : Config α) {row : Row α} {nodeId : Nat}
    (hnode : nodeId < tree.nodes.size) (y : α)
    (h : Laid s.heap tree nodes (ids ++ row.ids) row.frames row.arena log) :
    Laid s.heap tree (nodes ++ [nodeId])
      (ids ++ (Layout.addFrame config s tree y row nodeId).ids)
      (Layout.addFrame config s tree y row nodeId).frames
      (Layout.addFrame config s tree y row nodeId).arena
      (log ++ frameMeetings config s tree y row nodeId) := by
  obtain ⟨hframes, harena, hids, hnotes⟩ :=
    addFrame_eq config s row (Array.getElem?_eq_getElem hnode) y
  rw [hframes, harena, hids, hnotes]
  refine ⟨?_, ?_, ?_⟩
  · refine Built.bindRows ⟨config, s.heap, tree, _⟩ rfl _ (fun i b hb => ?_)
      (h.built.pushFrame rfl rfl _)
    rw [Array.getElem?_toList] at hb
    exact row_place hb
  · rw [Array.toList_push, List.map_append, h.nodes]
    rfl
  · rw [Array.size_push, List.range_succ, ← List.append_assoc, h.ids]

/-- What comes of the nodes of a level. -/
theorem Laid.addLevel (config : Config α) {stack : Stack α} {level : List Nat}
    (hnodes : ∀ n ∈ level, n < tree.nodes.size)
    (h : Laid s.heap tree nodes (stack.levels.flatMap Level.frames) stack.frames stack.arena log) :
    Laid s.heap tree (nodes ++ level)
      ((Layout.addLevel config s tree stack level).levels.flatMap Level.frames)
      (Layout.addLevel config s tree stack level).frames
      (Layout.addLevel config s tree stack level).arena
      (log ++ levelMeetings config s tree stack level) := by
  let P : List Nat → Row α → List Meeting → Prop := fun done row log =>
    Laid s.heap tree (nodes ++ done) (stack.levels.flatMap Level.frames ++ row.ids) row.frames
      row.arena log
  let start : Row α :=
    ⟨stack.frames, stack.arena, config.canvasPaddingX + config.levelPaddingX, none, []⟩
  have hlevel : P level (level.foldl (Layout.addFrame config s tree stack.y) start)
      (log ++ foldNotes (Layout.addFrame config s tree stack.y)
        (frameMeetings config s tree stack.y) start level) := by
    refine foldl_foldNotes (P := P) level ?_ (by simpa [P, start] using h)
    rintro done n row log ⟨rest, rfl⟩ hrow
    have hnext := hrow.addFrame config (hnodes n (by simp)) stack.y
    rwa [List.append_assoc] at hnext
  rw [Layout.addLevel, levelMeetings]
  simpa [P] using hlevel

-- nothing below depends on how the tree is built
attribute [local irreducible] EnvTree.build

theorem stackOf_laid (config : Config α) (s : Snapshot) :
    Laid s.heap (EnvTree.build s config.framePolicy).1
      (EnvTree.build s config.framePolicy).1.levels.flatten
      ((stackOf config s).levels.flatMap Level.frames) (stackOf config s).frames
      (stackOf config s).arena (walk config s) := by
  let P : List (List Nat) → Stack α → List Meeting → Prop := fun done stack log =>
    Laid s.heap (EnvTree.build s config.framePolicy).1 done.flatten
      (stack.levels.flatMap Level.frames) stack.frames stack.arena log
  refine foldl_foldNotes (P := P) _ ?_ (show P [] _ [] from ⟨built_empty .., rfl, rfl⟩)
  intro done level stack log hprefix hstack
  have hnodes : ∀ n ∈ level, n < (EnvTree.build s config.framePolicy).1.nodes.size := by
    intro n hn
    refine EnvTree.mem_levels.mp (List.mem_flatten.mpr ⟨level, ?_, hn⟩)
    exact hprefix.subset (by simp)
  have hnext := hstack.addLevel config hnodes
  show Laid _ _ (done ++ [level]).flatten _ _ _ _
  rw [List.flatten_append, List.flatten_singleton]
  exact hnext

/-- The layout of a snapshot agrees with the meetings of its walk. The frames stand for the
nodes of the tree, level by level. -/
theorem ofSnapshot_laid (config : Config α) (s : Snapshot) :
    Laid s.heap (ofSnapshot config s).tree (ofSnapshot config s).tree.levels.flatten
      ((ofSnapshot config s).levels.flatMap Level.frames) (ofSnapshot config s).frames
      (ofSnapshot config s).arena (walk config s) := by
  obtain ⟨hbuilt, hnodes, hids⟩ := stackOf_laid config s
  rw [tree_ofSnapshot, levels_ofSnapshot, frames_ofSnapshot]
  exact ⟨hbuilt.congr (values_ofSnapshot ..) (cache_ofSnapshot ..), hnodes, hids⟩

end Layout

end EnvDiagram

import EnvDiagram.Proofs.Layout.Walk
import EnvDiagram.Scalar.Exact
import EnvDiagram.Scene

/-!
# Garbage on the heap

An object that no row of a frame leads to is never looked up, so a scene shows nothing of it.
A visit looks up one object, and the cells that it puts on the agenda lead nowhere that its
datum does not lead (`Arena.leadsAlike_cells`). So over two heaps that are alike wherever a datum
leads, the datum is placed in the same way (`Arena.place_withHeap`); and as frames keep their
data, it is enough that the heaps are alike from the rows of the finished layout on.

* `Heap.LeadsAlike` — a datum leads to the same objects on two heaps
* `Layout.DifferInGarbage` — two snapshots are the same but for objects that no row leads to
* `Layout.ofSnapshot_withHeap` — so they have the same layout
-/

namespace EnvDiagram

variable {α : Type}

/-! ## What a datum leads to -/

namespace Heap

/-- Whether a second heap has the same objects wherever a datum leads, and lacks the same. -/
def LeadsAlike (heap other : Heap) (d : Datum) : Prop :=
  ∀ id, heap.Reaches d id → other.find? id = heap.find? id

variable {heap other : Heap} {d : Datum} {array id : DatumId} {cells : List Datum}

/-- What a cell of an array leads to, the array leads to. -/
theorem Reaches.of_cell (hfind : heap.find? array = some (.array cells)) (hd : d ∈ cells)
    (h : heap.Reaches d id) : heap.Reaches (.object array) id := by
  induction h with
  | self heq => exact .cell (.self rfl) hfind (heq ▸ hd)
  | cell _ hnext hmem ih => exact .cell ih hnext hmem

theorem LeadsAlike.find? (h : heap.LeadsAlike other (.object id)) :
    other.find? id = heap.find? id :=
  h id (.self rfl)

theorem LeadsAlike.cell (h : heap.LeadsAlike other (.object array))
    (hfind : heap.find? array = some (.array cells)) (hd : d ∈ cells) :
    heap.LeadsAlike other d :=
  fun id hreach => h id (hreach.of_cell hfind hd)

end Heap

/-- The cells that follow a meeting hold nothing that its datum does not lead to. -/
theorem Ledger.Meets.leadsAlike {l l' : Ledger} {heap other : Heap} {tree : EnvTree}
    {r : Reference} {d : Datum} {v : Nat} {cells : List CellTask} {task : CellTask}
    (hm : l.Meets heap tree r d l' v cells) (h : heap.LeadsAlike other d) (ht : task ∈ cells) :
    heap.LeadsAlike other task.datum := by
  cases hm with
  | again => simp at ht
  | array _ hfind =>
    obtain ⟨-, hcell⟩ := mem_cellTasks.mp ht
    exact h.cell hfind (List.mem_of_getElem? hcell)
  | function => simp at ht
  | literal => simp at ht

/-! ## Placing -/

/-- The scope with another heap. -/
def Scope.withHeap (sc : Scope α) (heap : Heap) : Scope α := { sc with heap }

namespace Arena

variable [Scalar α] {sc : Scope α} {other : Heap} {a : Arena α} {anchor : Anchor α} {d : Datum}

theorem leadsAlike_cells (h : sc.heap.LeadsAlike other d) {task : CellTask}
    (ht : task ∈ (a.visit sc anchor d).cells) : sc.heap.LeadsAlike other task.datum :=
  (meets_visit sc a anchor d).leadsAlike h ht

theorem visit_withHeap (h : sc.heap.LeadsAlike other d) :
    a.visit (sc.withHeap other) anchor d = a.visit sc anchor d := by
  cases d with
  | primitive p => rfl
  | null => rfl
  | object id =>
    have hfind : (sc.withHeap other).heap.find? id = sc.heap.find? id := h.find?
    rw [visit, visit, hfind]
    cases a.cached id with
    | some v => rfl
    | none =>
      cases sc.heap.find? id with
      | none => rfl
      | some object => cases object <;> rfl

/-- The agenda is worked off in the same way while it holds only data that lead alike. -/
theorem run_withHeap {agenda : List CellTask}
    (h : ∀ task ∈ agenda, sc.heap.LeadsAlike other task.datum) :
    a.run (sc.withHeap other) agenda = a.run sc agenda := by
  fun_induction run sc a agenda with
  | case1 a => exact run_nil ..
  | case2 a task rest hd ih =>
    rw [run_cons_of_null _ _ _ hd]
    exact ih fun t ht => h t (List.mem_cons_of_mem _ ht)
  | case3 a task rest hd v ih =>
    have htask := h task List.mem_cons_self
    rw [run_cons_of_ne_null _ _ _ hd, visit_withHeap htask]
    refine ih fun t ht => ?_
    rcases List.mem_append.mp ht with ht | ht
    · exact leadsAlike_cells htask ht
    · exact h t (List.mem_cons_of_mem _ ht)

/-- A datum that leads alike on both heaps is placed in the same way. -/
theorem place_withHeap (h : sc.heap.LeadsAlike other d) :
    a.place (sc.withHeap other) anchor d = a.place sc anchor d := by
  unfold place
  rw [visit_withHeap h]
  exact Prod.ext (run_withHeap fun _ ht => leadsAlike_cells h ht) rfl

end Arena

/-! ## Frames, levels and layouts -/

/-- The snapshot with another heap. -/
def Snapshot.withHeap (s : Snapshot) (heap : Heap) : Snapshot := { s with heap }

namespace Layout

/-- Whether all rows of some frames lead to the same objects on two heaps. -/
def RowsLeadAlike (heap other : Heap) (frames : Array (Frame α)) : Prop :=
  ∀ d, IsRowDatum frames d → heap.LeadsAlike other d

variable {heap other : Heap} {frames : Array (Frame α)} {frame : Frame α}

theorem RowsLeadAlike.of_push (h : RowsLeadAlike heap other (frames.push frame)) :
    RowsLeadAlike heap other frames := by
  rintro d ⟨f, hf, hb⟩
  exact h d ⟨f, Array.mem_push_of_mem _ hf, hb⟩

theorem RowsLeadAlike.last (h : RowsLeadAlike heap other (frames.push frame)) {b : Binding α}
    (hb : b ∈ frame.bindings) {d : Datum} (hd : b.datum = some d) : heap.LeadsAlike other d :=
  h d ⟨frame, Array.mem_push_self, b, hb, hd⟩

variable [Scalar α] {config : Config α} {s : Snapshot}

/-- The rows of a frame are bound in the same way if those that come of it lead alike. -/
theorem bindFrame_withHeap (sc : Scope α) (a : Arena α) (frame : Frame α)
    (h : ∀ b ∈ (bindFrame sc a frame).bindings, ∀ d, b.datum = some d →
      sc.heap.LeadsAlike other d) :
    bindFrame (sc.withHeap other) a frame = bindFrame sc a frame := by
  let P : Bound α → Prop := fun bound =>
    ∀ b ∈ bound.bindings, ∀ d, b.datum = some d → sc.heap.LeadsAlike other d
  rw [bindFrame, ← Array.foldl_toList] at h ⊢
  rw [bindFrame, ← Array.foldl_toList]
  refine foldl_eq_of_last (P := P) ?back ?step _ h
  case back =>
    intro bound b hbound
    cases hd : b.datum with
    | none =>
      rw [bindRow_of_none hd] at hbound
      exact fun c hc => hbound c (Array.mem_push_of_mem _ hc)
    | some d =>
      rw [bindRow_of_some hd] at hbound
      exact fun c hc => hbound c (Array.mem_push_of_mem _ hc)
  case step =>
    intro bound b hbound
    cases hd : b.datum with
    | none => rw [bindRow_of_none hd, bindRow_of_none hd]
    | some d =>
      rw [bindRow_of_some hd] at hbound
      rw [bindRow_of_some hd, bindRow_of_some hd,
        Arena.place_withHeap (hbound _ Array.mem_push_self d hd)]

variable {tree : EnvTree} {y : α}

theorem RowsLeadAlike.of_addFrame {row : Row α} {nodeId : Nat}
    (h : RowsLeadAlike heap other (addFrame config s tree y row nodeId).frames) :
    RowsLeadAlike heap other row.frames := by
  cases hnode : tree.nodes[nodeId]? with
  | none => rwa [addFrame_of_none hnode] at h
  | some node =>
    rw [addFrame_of_some hnode] at h
    exact h.of_push

theorem addFrame_withHeap {row : Row α} {nodeId : Nat}
    (h : RowsLeadAlike s.heap other (addFrame config s tree y row nodeId).frames) :
    addFrame config (s.withHeap other) tree y row nodeId = addFrame config s tree y row nodeId := by
  cases hnode : tree.nodes[nodeId]? with
  | none => rw [addFrame_of_none hnode, addFrame_of_none hnode]
  | some node =>
    rw [addFrame_of_some hnode] at h
    rw [addFrame_of_some hnode, addFrame_of_some hnode]
    dsimp only at h ⊢
    -- the frame keeps its rows, with their data, and only gets the values
    exact congrArg _ (bindFrame_withHeap _ _ _ fun b hb d hd => h.last hb hd)

theorem RowsLeadAlike.of_addLevel {stack : Stack α} {nodes : List Nat}
    (h : RowsLeadAlike heap other (addLevel config s tree stack nodes).frames) :
    RowsLeadAlike heap other stack.frames :=
  of_foldl (P := fun row : Row α => RowsLeadAlike heap other row.frames)
    (fun _ _ hrow => hrow.of_addFrame) nodes h

theorem addLevel_withHeap {stack : Stack α} {nodes : List Nat}
    (h : RowsLeadAlike s.heap other (addLevel config s tree stack nodes).frames) :
    addLevel config (s.withHeap other) tree stack nodes = addLevel config s tree stack nodes := by
  rw [addLevel_eq_add, addLevel_eq_add]
  refine congrArg (stack.add config) ?_
  exact foldl_eq_of_last (P := fun row : Row α => RowsLeadAlike s.heap other row.frames)
    (fun _ _ hrow => hrow.of_addFrame) (fun _ _ hrow => addFrame_withHeap hrow) nodes h

theorem stackOf_withHeap (h : RowsLeadAlike s.heap other (stackOf config s).frames) :
    stackOf config (s.withHeap other) = stackOf config s :=
  foldl_eq_of_last (P := fun stack : Stack α => RowsLeadAlike s.heap other stack.frames)
    (fun _ _ hstack => hstack.of_addLevel) (fun _ _ hstack => addLevel_withHeap hstack) _ h

/-- A snapshot is laid out in the same way over a heap that is alike wherever its rows lead. -/
theorem ofSnapshot_withHeap
    (h : RowsLeadAlike s.heap other (ofSnapshot config s).frames) :
    ofSnapshot config (s.withHeap other) = ofSnapshot config s := by
  have hstack := stackOf_withHeap (frames_ofSnapshot config s ▸ h)
  rw [ofSnapshot_eq, ofSnapshot_eq, hstack]
  rfl

/-- Whether two snapshots differ at most in objects that no row of a layout leads to. -/
structure DifferInGarbage (l : Layout α) (s s' : Snapshot) : Prop where
  step : s'.step = s.step
  envs : s'.envs = s.envs
  current : s'.current = s.current
  /-- An object that a row leads to is on both heaps the same, or on none. -/
  object : ∀ frame ∈ l.frames, ∀ b ∈ frame.bindings, ∀ d, b.datum = some d →
    ∀ id, s.heap.Reaches d id → s'.heap.find? id = s.heap.find? id

end Layout

/-! ## Scenes -/

namespace Scene

/-- A scene shows nothing of the objects that no row leads to. -/
theorem redraw_of_differInGarbage [Scalar α] {sc : Scene α} {s s' : Snapshot}
    (h : (sc.load s).layout.DifferInGarbage s s') (printable : Bool) :
    sc.redraw s' printable = sc.redraw s printable := by
  obtain ⟨step, envs, heap, current⟩ := s'
  obtain ⟨rfl, rfl, rfl, hobject⟩ := h
  have hrows : Layout.RowsLeadAlike s.heap heap (Layout.ofSnapshot sc.config s).frames := by
    rintro d ⟨frame, hframe, b, hb, hd⟩
    exact hobject frame hframe b hb d hd
  have hlayout := Layout.ofSnapshot_withHeap hrows
  show (Scene.mk sc.config (.ofSnapshot sc.config (s.withHeap heap)) []).draw printable = _
  rw [hlayout]
  rfl

/-- A second array holds the first one, but no row leads to it; an object that both heaps lack is
led to. -/
theorem redraw_of_differInGarbage_holder :
    let envs : List Environment :=
      [⟨⟨0⟩, "global", none, [⟨"xs", some (.object ⟨1⟩), false⟩]⟩]
    let xs : HeapObject := .array [.object ⟨1⟩, .object ⟨2⟩]
    let s : Snapshot := ⟨0, envs, [(⟨1⟩, xs)], some ⟨0⟩⟩
    let s' : Snapshot := ⟨0, envs, [(⟨3⟩, .array [.object ⟨1⟩, .null]), (⟨1⟩, xs)], some ⟨0⟩⟩
    let sc : Scene Rat := .ofConfig .standard
    (sc.load s).layout.DifferInGarbage s s' ∧ sc.redraw s' false = sc.redraw s false := by
  intro envs xs s s' sc
  have hrows : (sc.load s).layout.frames.toList.flatMap (fun f => f.bindings.toList.map
      Binding.datum) = [some (.object ⟨1⟩)] := by cbv
  have hxs : s.heap.find? ⟨1⟩ = some (.array [.object ⟨1⟩, .object ⟨2⟩]) := rfl
  have hlacks : s.heap.find? ⟨2⟩ = none := rfl
  have hreach : ∀ id, s.heap.Reaches (.object ⟨1⟩) id → id = ⟨1⟩ ∨ id = ⟨2⟩ := by
    intro id h
    induction h with
    | self heq =>
      cases heq
      exact Or.inl rfl
    | cell _ hfind hmem ih =>
      rcases ih with rfl | rfl
      · rw [hxs] at hfind
        cases hfind
        simpa using hmem
      · rw [hlacks] at hfind
        cases hfind
  have hdiffer : (sc.load s).layout.DifferInGarbage s s' := by
    refine ⟨rfl, rfl, rfl, fun frame hframe b hb d hd id h => ?_⟩
    have hdatum : some d ∈ [some (Datum.object ⟨1⟩)] := by
      rw [← hrows, List.mem_flatMap]
      exact ⟨frame, Array.mem_toList_iff.mpr hframe, List.mem_map.mpr
        ⟨b, Array.mem_toList_iff.mpr hb, hd⟩⟩
    obtain rfl : d = .object ⟨1⟩ := by simpa using hdatum
    rcases hreach id h with rfl | rfl
    · rfl
    · rfl
  exact ⟨hdiffer, redraw_of_differInGarbage hdiffer false⟩

end Scene

end EnvDiagram

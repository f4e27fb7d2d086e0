import EnvDiagram.Proofs.Layout.Nested

/-!
# A layout with every lookup checked

Laying out looks up nodes of the tree, the environments of a node, frames, their rows,
values and cells. Here it is done again with nothing to fall back on: where one of them is
not there, or where more arrays would be opened inside each other than a bound allows, there
is no layout.

If the bound is the number of arrays of the heap there always is one, and it is the layout
that is made without the checks (`Layout.ofSnapshot?_eq`).

* `EnvTree.env?_isSome` — the environments of a node are in the snapshot
* `Layout.bindRow?_eq`, `Layout.addFrame?_eq`, `Layout.addLevel?_eq` — rows, frames, levels
-/

namespace EnvDiagram

variable {α : Type}

/-! ## The environments of a node -/

/-- The environments of a node, one and those folded into it, are in the snapshot. -/
theorem EnvTree.env?_isSome {s : Snapshot} {policy : FramePolicy} {node : TreeNode} {e : EnvId}
    (hnode : node ∈ (build s policy).1.nodes) (he : e ∈ node.merged ++ node.env.toList) :
    (s.env? e).isSome := by
  -- an identity in the tree is that of a position, so of an environment
  have hknown : ∀ {i : Nat}, (Nesting.ofSnapshot s).1.id? i = some e → (s.env? e).isSome := by
    intro i hid
    have hi : i < (Nesting.ofSnapshot s).1.size := by
      obtain ⟨env, henv, -⟩ := Option.map_eq_some_iff.mp hid
      exact (Array.getElem?_eq_some_iff.mp henv).1
    obtain ⟨env, hmem, rfl⟩ := (Nesting.exists_id?_iff s e).mp ⟨i, hi, hid⟩
    rw [Snapshot.env?, List.find?_isSome]
    exact ⟨env, hmem, by simp⟩
  rw [build_fst] at hnode
  have hlist := Array.mem_toList_iff.mpr hnode
  rw [nodes_ofFolding, List.mem_map] at hlist
  obtain ⟨⟨level, place⟩, -, rfl⟩ := hlist
  cases place with
  | none =>
    simp only [nodeOf, List.nil_append, Option.mem_toList] at he
    obtain ⟨r, -, hid⟩ := Option.bind_eq_some_iff.mp he
    exact hknown hid
  | some i =>
    simp only [nodeOf, List.mem_append, List.mem_filterMap, Option.mem_toList] at he
    rcases he with ⟨j, -, hid⟩ | hid
    · exact hknown hid
    · exact hknown hid

namespace Layout

/-- `envsOf`, with the environments looked up. -/
def envsOf? (s : Snapshot) (node : TreeNode) : Option (List Environment) :=
  (node.merged ++ node.env.toList).mapM s.env?

theorem envsOf?_eq {s : Snapshot} {policy : FramePolicy} {node : TreeNode}
    (hnode : node ∈ (EnvTree.build s policy).1.nodes) : envsOf? s node = some (envsOf s node) :=
  mapM_eq_some_filterMap fun _ he => EnvTree.env?_isSome hnode he

variable [Scalar α]

/-! ## Laying out with every lookup checked -/

/-- `bindRow`, with the row looked up in its frame, and at most so many arrays opened inside
each other. -/
def bindRow? (depth : Nat) (sc : Scope α) (frame : Frame α) (bound : Bound α) (b : Binding α) :
    Option (Bound α) := do
  let placed ← sc.frames[frame.id]?
  let row ← placed.bindings[b.index]?
  match row.datum with
  | none => some ⟨bound.arena, bound.bindings.push row⟩
  | some d =>
    let anchor := .row frame.id b.index placed.node placed.bounds row.bounds
    let (arena, v) ← bound.arena.place? sc depth anchor d
    some ⟨arena, bound.bindings.push { row with target := some v }⟩

/-- `addFrame`, with the node and its environments looked up. -/
def addFrame? (depth : Nat) (config : Config α) (s : Snapshot) (tree : EnvTree) (y : α)
    (row : Row α) (nodeId : Nat) : Option (Row α) := do
  let node ← tree.nodes[nodeId]?
  let envs ← envsOf? s node
  let id := row.frames.size
  let frame := Frame.place config id nodeId node envs ⟨row.x, y⟩
  let sc : Scope α := ⟨config, s.heap, tree, row.frames.push frame⟩
  let bound ← frame.bindings.toList.foldlM (bindRow? depth sc frame)
    ⟨{ row.arena with extent := frame.bounds }, #[]⟩
  let extent := bound.arena.extent
  let totalWidth := extent.right - frame.bounds.x
  some
    { frames := row.frames.push { frame with totalWidth, bindings := bound.bindings }
      arena := bound.arena
      x := row.x + (totalWidth + config.frameMarginX)
      bounds := some (row.bounds.elim extent fun b => b.union extent)
      ids := row.ids ++ [id] }

/-- `addLevel` -/
def addLevel? (depth : Nat) (config : Config α) (s : Snapshot) (tree : EnvTree)
    (stack : Stack α) (nodes : List Nat) : Option (Stack α) := do
  let startX := config.canvasPaddingX + config.levelPaddingX
  let y := stack.y
  let start : Row α := ⟨stack.frames, stack.arena, startX, none, []⟩
  let row ← nodes.foldlM (addFrame? depth config s tree y) start
  let area := row.bounds.getD ⟨startX, y, Scalar.zero, Scalar.zero⟩
  let height := area.bottom - y
  some
    { frames := row.frames
      arena := row.arena
      y := y + (height + config.frameMarginY)
      levels := stack.levels ++
        [⟨stack.levels.length, row.ids, ⟨startX, y, area.right - startX, height⟩⟩] }

/-- `ofSnapshot` -/
def ofSnapshot? (depth : Nat) (config : Config α) (s : Snapshot) : Option (Layout α) := do
  let (tree, defects) ← EnvTree.build? s config.framePolicy
  let start : Stack α :=
    { frames := #[]
      arena := .empty .empty
      y := config.canvasPaddingY + config.levelPaddingY
      levels := [] }
  let stack ← tree.levels.foldlM (addLevel? depth config s tree) start
  some
    { step := some s.step
      tree
      frames := stack.frames
      values := stack.arena.values
      cache := stack.arena.cache
      levels := stack.levels
      defects := defects ++ stack.arena.defects }

variable {config : Config α} {s : Snapshot} {tree : EnvTree} {sc : Scope α} {bound : Bound α}
  {b : Binding α} {f frame : Frame α} {frames : Array (Frame α)} {a : Arena α} {heap : Heap}
  {log : List Meeting} {nodes ids : List Nat} {depth : Nat}

omit [Scalar α] in
/-- What is laid out so far speaks only of values and frames that are there. -/
theorem Built.fits (h : Built heap tree frames a log) : a.ledger.Fits frames.size where
  cached_lt := h.working.coherent.cached_lt
  frame_lt := by
    intro v frame index x hx hmem
    rw [h.working.logged.references hx, List.mem_map] at hmem
    obtain ⟨m, hm, hr⟩ := hmem
    have hlinks := h.working.logged.links_iff.mpr ⟨m, (List.mem_filter.mp hm).1, hr, rfl⟩
    have hrow : rowTarget frames frame index = some m.value := hlinks
    obtain ⟨fr, hfr, -⟩ := Option.bind_eq_some_iff.mp hrow
    exact (Array.getElem?_eq_some_iff.mp hfr).1

theorem bindRow?_eq (hdepth : sc.heap.arrays.length ≤ depth)
    (hframes : sc.frames = frames.push frame) (hid : frame.id = frames.size)
    (hrow : frame.bindings[b.index]? = some b)
    (h : Built sc.heap sc.tree (frames.push (f.withRows bound.bindings)) bound.arena log) :
    bindRow? depth sc frame bound b = some (bindRow sc frame bound b) := by
  have hplaced : sc.frames[frame.id]? = some frame := by
    rw [hframes, hid, Array.getElem?_push, if_pos rfl]
  have hfits : bound.arena.ledger.Fits sc.frames.size := by
    rw [hframes, Array.size_push, ← Array.size_push (f.withRows bound.bindings)]
    exact h.fits
  rw [bindRow?, bindRow, hplaced]
  simp only [hrow, Option.bind_eq_bind, Option.bind_some]
  cases hd : b.datum with
  | none => rfl
  | some d =>
    set anchor : Anchor α := .row frame.id b.index frame.node frame.bounds b.bounds with hanchor
    have hr : ∀ fr index, anchor.reference = .binding fr index → fr < sc.frames.size := by
      intro fr index hr
      simp only [hanchor, Anchor.reference, Reference.binding.injEq] at hr
      rw [← hr.1, hid, hframes, Array.size_push]
      exact Nat.lt_succ_self _
    have hplace : bound.arena.place? sc depth anchor d =
        some (bound.arena.place sc anchor d) :=
      Arena.place?_eq hfits hr ((Arena.unplacedArrays_le _ _).trans hdepth)
    simp only [hplace, Option.bind_some]

theorem bindRows?_eq (hdepth : sc.heap.arrays.length ≤ depth)
    (hframes : sc.frames = frames.push frame) (hid : frame.id = frames.size)
    (hrows : ∀ (i : Nat) (b : Binding α), frame.bindings[i]? = some b →
      b.frame = frames.size ∧ b.index = i ∧ b.target = none)
    (h : Built sc.heap sc.tree (frames.push (f.withRows #[])) a log) :
    frame.bindings.toList.foldlM (bindRow? depth sc frame) ⟨a, #[]⟩ =
      some (frame.bindings.toList.foldl (bindRow sc frame) ⟨a, #[]⟩) := by
  let P : List (Binding α) → Bound α → Prop := fun done bound =>
    bound.bindings.size = done.length ∧
      ∃ log, Built sc.heap sc.tree (frames.push (f.withRows bound.bindings)) bound.arena log
  refine (foldlM_eq_some_foldl (P := P) _ ?_ ⟨rfl, log, h⟩).1
  rintro done b bound ⟨rest, hrest⟩ ⟨hsize, log, hbuilt⟩
  have hb : frame.bindings[done.length]? = some b := by
    rw [← Array.getElem?_toList, ← hrest]
    simp
  obtain ⟨hf, hi, ht⟩ := hrows done.length b hb
  have hrow : frame.bindings[b.index]? = some b := by rw [hi, hb]
  refine ⟨bindRow?_eq hdepth hframes hid hrow hbuilt, ?_, _,
    hbuilt.bindRow hid hf (hi.trans hsize.symm) ht⟩
  rw [size_bindRow, hsize, List.length_append, List.length_singleton]

theorem addFrame?_eq (hdepth : s.heap.arrays.length ≤ depth) {row : Row α} {nodeId : Nat} (y : α)
    (hnode : nodeId < (EnvTree.build s config.framePolicy).1.nodes.size)
    (h : Laid s.heap (EnvTree.build s config.framePolicy).1 nodes (ids ++ row.ids) row.frames
      row.arena log) :
    addFrame? depth config s (EnvTree.build s config.framePolicy).1 y row nodeId =
      some (addFrame config s (EnvTree.build s config.framePolicy).1 y row nodeId) := by
  have hlookup := Array.getElem?_eq_getElem hnode
  set node := (EnvTree.build s config.framePolicy).1.nodes[nodeId]
  have henvs := envsOf?_eq (Array.mem_of_getElem? hlookup)
  set frame := Frame.place config row.frames.size nodeId node (envsOf s node) ⟨row.x, y⟩ with hframe
  set sc : Scope α :=
    ⟨config, s.heap, (EnvTree.build s config.framePolicy).1, row.frames.push frame⟩ with hsc
  have hbuilt : Built sc.heap sc.tree (row.frames.push (frame.withRows #[]))
      { row.arena with extent := frame.bounds } log := h.built.pushFrame rfl rfl _
  have hrows : frame.bindings.toList.foldlM (bindRow? depth sc frame)
      ⟨{ row.arena with extent := frame.bounds }, #[]⟩ =
        some (frame.bindings.toList.foldl (bindRow sc frame)
          ⟨{ row.arena with extent := frame.bounds }, #[]⟩) :=
    bindRows?_eq hdepth rfl rfl (fun i b hb => row_place hb) hbuilt
  simp only [addFrame?, addFrame, hlookup, henvs, ← hframe, ← hsc, hrows, Array.foldl_toList,
    Option.bind_eq_bind, Option.bind_some]
  cases row.bounds with
  | none => rfl
  | some b => rfl

theorem addLevel?_eq (hdepth : s.heap.arrays.length ≤ depth) {stack : Stack α} {level : List Nat}
    (hnodes : ∀ n ∈ level, n < (EnvTree.build s config.framePolicy).1.nodes.size)
    (h : Laid s.heap (EnvTree.build s config.framePolicy).1 nodes
      (stack.levels.flatMap Level.frames) stack.frames stack.arena log) :
    addLevel? depth config s (EnvTree.build s config.framePolicy).1 stack level =
      some (addLevel config s (EnvTree.build s config.framePolicy).1 stack level) := by
  let P : List Nat → Row α → Prop := fun done row =>
    ∃ log, Laid s.heap (EnvTree.build s config.framePolicy).1 (nodes ++ done)
      (stack.levels.flatMap Level.frames ++ row.ids) row.frames row.arena log
  have hfold := (foldlM_eq_some_foldl
    (f := addFrame? depth config s (EnvTree.build s config.framePolicy).1 stack.y)
    (g := addFrame config s (EnvTree.build s config.framePolicy).1 stack.y)
    (P := P) (s := ⟨stack.frames, stack.arena, config.canvasPaddingX + config.levelPaddingX, none, []⟩)
    level ?_ ?_).1
  · simp only [addLevel?, addLevel, hfold, Option.bind_eq_bind, Option.bind_some]
  · rintro done n row hinit ⟨log, hrow⟩
    have hn := hnodes n (hinit.subset (by simp))
    have hnext := hrow.addFrame config hn stack.y
    rw [List.append_assoc] at hnext
    exact ⟨addFrame?_eq hdepth stack.y hn hrow, _, hnext⟩
  · exact ⟨log, by simpa using h⟩

/-- Laying out a snapshot looks up nothing that is not there, and opens no more arrays inside
each other than the heap has. -/
theorem ofSnapshot?_eq (config : Config α) (hdepth : s.heap.arrays.length ≤ depth) :
    ofSnapshot? depth config s = some (ofSnapshot config s) := by
  let P : List (List Nat) → Stack α → Prop := fun done stack =>
    ∃ log, Laid s.heap (EnvTree.build s config.framePolicy).1 done.flatten
      (stack.levels.flatMap Level.frames) stack.frames stack.arena log
  have hfold := (foldlM_eq_some_foldl
    (f := addLevel? depth config s (EnvTree.build s config.framePolicy).1)
    (g := addLevel config s (EnvTree.build s config.framePolicy).1) (P := P)
    (s := ⟨#[], .empty .empty, config.canvasPaddingY + config.levelPaddingY, []⟩)
    (EnvTree.build s config.framePolicy).1.levels ?_ ⟨[], built_empty .., rfl, rfl⟩).1
  · simp only [ofSnapshot?, EnvTree.build?_eq, hfold, Option.bind_eq_bind, Option.bind_some]
    rw [ofSnapshot_eq, stackOf]
  · rintro done level stack hinit ⟨log, hstack⟩
    have hnodes : ∀ n ∈ level, n < (EnvTree.build s config.framePolicy).1.nodes.size := by
      intro n hn
      refine EnvTree.mem_levels.mp (List.mem_flatten.mpr ⟨level, ?_, hn⟩)
      exact hinit.subset (by simp)
    have hnext := hstack.addLevel config hnodes
    rw [← List.flatten_concat] at hnext
    exact ⟨addLevel?_eq hdepth hnodes hstack, _, hnext⟩

end Layout

end EnvDiagram

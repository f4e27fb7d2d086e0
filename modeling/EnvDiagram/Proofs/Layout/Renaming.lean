import EnvDiagram.Proofs.EnvTree.Renaming
import EnvDiagram.Proofs.Layout.Steps

/-!
# The layout of a renamed snapshot

Frames and values are known by their numbers, and positions are computed from texts and lengths.
So a renamed snapshot is laid out in the same way, step by step: the same value is visited from
the same anchor, found in the cache or not, and put at the same place (`visit_rename`,
`run_rename`). What differs are the identities that frames, values and defects carry
(`Layout.ofSnapshot_rename`).
-/

namespace EnvDiagram

variable {α : Type}

/-! ## Renamed parts of a layout -/

def Binding.rename (ρ : Renaming) (b : Binding α) : Binding α :=
  { b with datum := b.datum.map (Datum.rename ρ) }

def Frame.rename (ρ : Renaming) (f : Frame α) : Frame α :=
  { f with env := f.env.map ρ.env, bindings := f.bindings.map (Binding.rename ρ) }

def Value.rename (ρ : Renaming) (v : Value α) : Value α := { v with datum := v.datum.map ρ.datum }

def Arena.rename (ρ : Renaming) (a : Arena α) : Arena α :=
  { a with
    values := a.values.map (Value.rename ρ)
    cache := a.cache.map (Prod.map ρ.datum id)
    defects := a.defects.map (Defect.rename ρ) }

def Scope.rename (ρ : Renaming) (sc : Scope α) : Scope α :=
  { sc with
    heap := sc.heap.rename ρ
    tree := sc.tree.rename ρ
    frames := sc.frames.map (Frame.rename ρ) }

def CellTask.rename (ρ : Renaming) (task : CellTask) : CellTask :=
  { task with datum := task.datum.rename ρ }

def Visit.rename (ρ : Renaming) (v : Visit α) : Visit α :=
  { v with arena := v.arena.rename ρ, cells := v.cells.map (CellTask.rename ρ) }

/-- A layout with new identities throughout. -/
def Layout.rename (ρ : Renaming) (l : Layout α) : Layout α :=
  { l with
    tree := l.tree.rename ρ
    frames := l.frames.map (Frame.rename ρ)
    values := l.values.map (Value.rename ρ)
    cache := l.cache.map (Prod.map ρ.datum id)
    defects := l.defects.map (Defect.rename ρ) }

attribute [ext] Arena Visit

variable (ρ : Renaming)

/-! ## Frames -/

theorem overlay_rename (envs : List Environment) :
    overlay (envs.map (Environment.rename ρ)) = (overlay envs).map (Variable.rename ρ) := by
  have hone : ∀ rows v, overlayOne (rows.map (Variable.rename ρ)) (v.rename ρ) =
      (overlayOne rows v).map (Variable.rename ρ) := by
    intro rows v
    have hany : (rows.map (Variable.rename ρ)).any (·.name = (v.rename ρ).name) =
        rows.any (·.name = v.name) := List.any_map
    rw [overlayOne, hany, overlayOne]
    split
    · rw [List.map_map, List.map_map]
      congr 1
      funext row
      exact (apply_ite (Variable.rename ρ) (row.name = v.name) v row).symm
    · rw [List.map_append]
      rfl
  have hvars : (envs.map (Environment.rename ρ)).flatMap Environment.vars =
      (envs.flatMap Environment.vars).map (Variable.rename ρ) := by
    rw [List.flatMap_map, List.map_flatMap]
    rfl
  rw [overlay, hvars]
  exact foldl_map_comm (List.map (Variable.rename ρ)) hone _ []

theorem rowText_rename (config : Config α) (v : Variable) :
    rowText config (v.rename ρ).value = rowText config v.value := by
  obtain ⟨name, value, constant⟩ := v
  rcases value with _ | _ | _ | _ <;> rfl

namespace Frame

variable [Scalar α] (config : Config α)

theorem labelText_rename (isGlobal onlyDeclares : Bool) (envs : List Environment) :
    labelText config isGlobal onlyDeclares (envs.map (Environment.rename ρ)) =
      labelText config isGlobal onlyDeclares envs := by
  rw [labelText, List.getLast?_map, Option.map_map]
  rfl

/-- A node is framed in the same way whatever its environments are called. -/
theorem place_rename (id nodeId : Nat) (node : TreeNode) (envs : List Environment)
    (p : Point α) :
    place config id nodeId (node.rename ρ) (envs.map (Environment.rename ρ)) p =
      (place config id nodeId node envs p).rename ρ := by
  have hwidth : ∀ v : Variable, rowWidth config (v.rename ρ) = rowWidth config v := by
    intro v
    rw [rowWidth, rowText_rename]
    rfl
  have hrows : ∀ slots : List Variable,
      (slots.map (Variable.rename ρ)).mapIdx (row config id p) =
        (slots.mapIdx (row config id p)).map (Binding.rename ρ) :=
    mapIdx_map_comm fun _ _ => rfl
  unfold place
  simp only [overlay_rename, labelText_rename, List.foldl_map, hwidth, hrows, List.length_map]
  simp only [rename, List.map_toArray]
  rfl

end Frame

/-! ## Values -/

namespace Arena

theorem cached_rename (a : Arena α) (id : DatumId) :
    (a.rename ρ).cached (ρ.datum id) = a.cached id :=
  (lookup_map_prod ρ.datum.injective _ a.cache id).trans Option.map_id_apply

/-- A change of a value that does not ask for its identity. -/
theorem modify_rename {change change' : Value α → Value α} (a : Arena α) (v : Nat)
    (extent : Bounds α) (h : ∀ value, change' (value.rename ρ) = (change value).rename ρ) :
    { a.rename ρ with values := (a.rename ρ).values.modify v change', extent } =
      ({ a with values := a.values.modify v change, extent } : Arena α).rename ρ := by
  have hvalues := modify_map_comm h a.values v
  simp only [rename, hvalues]

theorem addReference_rename (a : Arena α) (v : Nat) (r : Reference) :
    (a.rename ρ).addReference v r = (a.addReference v r).rename ρ :=
  modify_rename ρ a v a.extent fun _ => rfl

theorem addDefect_rename (a : Arena α) (d : Defect) :
    (a.rename ρ).addDefect (d.rename ρ) = (a.addDefect d).rename ρ := by
  refine Arena.ext rfl rfl ?_ rfl
  show a.defects.map (Defect.rename ρ) ++ [d.rename ρ] = (a.defects ++ [d]).map (Defect.rename ρ)
  rw [List.map_append, List.map_singleton]

theorem setContent_rename (a : Arena α) (array index content : Nat) :
    (a.rename ρ).setContent array index content = (a.setContent array index content).rename ρ := by
  refine modify_rename ρ a array a.extent fun value => ?_
  unfold Value.setContent
  cases h : value.kind <;> simp [Value.rename, h]

theorem values_rename (a : Arena α) (v : Nat) :
    (a.rename ρ).values[v]? = (a.values[v]?).map (Value.rename ρ) := Array.getElem?_map

theorem size_values_rename (a : Arena α) : (a.rename ρ).values.size = a.values.size :=
  Array.size_map

theorem cellAnchor_rename (a : Arena α) (array index : Nat) :
    (a.rename ρ).cellAnchor array index = a.cellAnchor array index := by
  have hcell : (a.rename ρ).cell? array index = a.cell? array index := by
    rw [cell?, values_rename, Option.bind_map]
    rfl
  rw [cellAnchor, hcell, values_rename, cellAnchor]
  cases a.values[array]? with
  | none => rfl
  | some value => cases a.cell? array index <;> rfl

theorem isRowOf_rename (sc : Scope α) (node : Nat) :
    (sc.rename ρ).isRowOf node = sc.isRowOf node := by
  funext r
  cases r with
  | binding frame index =>
    show ((sc.frames.map (Frame.rename ρ))[frame]?).any _ = _
    rw [Array.getElem?_map, Option.any_map]
    rfl
  | cell => rfl

theorem cellTasks_rename (array : Nat) (cells : List Datum) :
    cellTasks array (cells.map (Datum.rename ρ)) =
      (cellTasks array cells).map (CellTask.rename ρ) := by
  refine mapIdx_map_comm ?_ cells
  intro index datum
  rfl

section Visit

variable [Scalar α] (sc : Scope α)

theorem push_rename (a : Arena α) (datum : Option DatumId) (kind : ValueKind α) (bounds : Bounds α)
    (r : Reference) : (a.rename ρ).push (datum.map ρ.datum) kind bounds r =
      (a.push datum kind bounds r).rename ρ := by
  refine Arena.ext ?_ ?_ rfl rfl
  · show (a.values.map (Value.rename ρ)).push _ = (a.values.push _).map (Value.rename ρ)
    rw [Array.map_push, size_values_rename]
    rfl
  · cases datum with
    | none => rfl
    | some id =>
      show (_, (a.rename ρ).values.size) :: _ = _
      rw [size_values_rename]
      rfl

/-- A function is moved or not whatever the objects are called. -/
theorem reanchor_rename (a : Arena α) (v : Nat) (anchor : Anchor α) :
    (a.rename ρ).reanchor (sc.rename ρ) v anchor = (a.reanchor sc v anchor).rename ρ := by
  unfold reanchor
  rw [values_rename]
  cases anchor with
  | cell => cases a.values[v]? <;> rfl
  | stray => cases a.values[v]? <;> rfl
  | row frame index node frameBounds rowBounds =>
    cases a.values[v]? with
    | none => rfl
    | some value =>
      obtain ⟨id, datum, kind, bounds, references⟩ := value
      cases kind with
      | literal => rfl
      | array => rfl
      | function f =>
        show (if node = f.enclosing ∧
          references.any ((sc.rename ρ).isRowOf f.enclosing) = false then _ else _) = _
        rw [isRowOf_rename, apply_ite (rename ρ)]
        exact if_congr Iff.rfl (modify_rename ρ a v _ fun _ => rfl) rfl

theorem visitText_rename (a : Arena α) (anchor : Anchor α) (text : String) (placeholder : Bool) :
    (a.rename ρ).visitText (sc.rename ρ) anchor text placeholder =
      (a.visitText sc anchor text placeholder).rename ρ :=
  Visit.ext (push_rename ρ a none _ _ _) (size_values_rename ρ a) rfl

theorem visitArray_rename (a : Arena α) (anchor : Anchor α) (id : DatumId) (cells : List Datum) :
    (a.rename ρ).visitArray (sc.rename ρ) anchor (ρ.datum id) (cells.map (Datum.rename ρ)) =
      (a.visitArray sc anchor id cells).rename ρ := by
  have htasks := cellTasks_rename ρ a.values.size cells
  unfold visitArray
  rw [size_values_rename, List.length_map]
  exact Visit.ext (push_rename ρ a (some id) _ _ _) rfl htasks

theorem visitClosure_rename (a : Arena α) (anchor : Anchor α) (id : DatumId) (c : Closure) :
    (a.rename ρ).visitClosure (sc.rename ρ) anchor (ρ.datum id) (c.rename ρ) =
      (a.visitClosure sc anchor id c).rename ρ := by
  unfold visitClosure
  rw [show (sc.rename ρ).tree.resolve (c.rename ρ).env = _ from
    EnvTree.resolve_rename ρ sc.tree c.env]
  cases sc.tree.resolve c.env with
  | none =>
    show ((a.rename ρ).addDefect ((Defect.malformedClosure id c.env).rename ρ)).visitText
      _ _ _ _ = _
    rw [addDefect_rename]
    exact visitText_rename ρ sc _ anchor c.signature false
  | some node => exact Visit.ext (push_rename ρ a (some id) _ _ _) (size_values_rename ρ a) rfl

/-- One datum seen from an anchor. -/
theorem visit_rename (a : Arena α) (anchor : Anchor α) (d : Datum) :
    (a.rename ρ).visit (sc.rename ρ) anchor (d.rename ρ) = (a.visit sc anchor d).rename ρ := by
  cases d with
  | primitive p => exact visitText_rename ρ sc a anchor p.display false
  | null => exact visitText_rename ρ sc a anchor "null" false
  | object id =>
    unfold visit Datum.rename
    simp only [cached_rename]
    cases a.cached id with
    | some v =>
      refine Visit.ext ?_ rfl rfl
      show ((a.rename ρ).reanchor (sc.rename ρ) v anchor).addReference v _ = _
      rw [reanchor_rename, addReference_rename]
      rfl
    | none =>
      rw [show (sc.rename ρ).heap.find? (ρ.datum id) = _ from sc.heap.find?_rename ρ id]
      cases sc.heap.find? id with
      | none =>
        show ((a.rename ρ).addDefect ((Defect.unresolvedDatum id).rename ρ)).visitText _ _ _ _ = _
        rw [addDefect_rename]
        exact visitText_rename ρ sc _ anchor sc.config.unknownText true
      | some object =>
        cases object with
        | array cells => exact visitArray_rename ρ sc a anchor id cells
        | closure c => exact visitClosure_rename ρ sc a anchor id c

/-- Working off an agenda fills the same cells with the same values. -/
theorem run_rename (a : Arena α) (agenda : List CellTask) :
    (a.rename ρ).run (sc.rename ρ) (agenda.map (CellTask.rename ρ)) =
      (a.run sc agenda).rename ρ := by
  fun_induction run sc a agenda with
  | case1 a => rw [List.map_nil, run_nil]
  | case2 a task rest hd ih =>
    have hd' : (task.rename ρ).datum = .null := by rw [CellTask.rename, hd]; rfl
    rw [List.map_cons, run_cons_of_null _ _ _ hd']
    exact ih
  | case3 a task rest hd v ih =>
    have hd' : (task.rename ρ).datum ≠ .null := by
      rw [CellTask.rename]
      cases h : task.datum with
      | null => exact absurd h hd
      | primitive => simp [Datum.rename]
      | object => simp [Datum.rename]
    have hvisit : (a.rename ρ).visit (sc.rename ρ)
        ((a.rename ρ).cellAnchor (task.rename ρ).array (task.rename ρ).index)
        (task.rename ρ).datum = v.rename ρ := by
      rw [cellAnchor_rename]
      exact visit_rename ρ sc a _ task.datum
    rw [List.map_append, ← setContent_rename] at ih
    rw [List.map_cons, run_cons_of_ne_null _ _ _ hd', hvisit]
    exact ih

theorem place_rename (a : Arena α) (anchor : Anchor α) (d : Datum) :
    (a.rename ρ).place (sc.rename ρ) anchor (d.rename ρ) =
      ((a.place sc anchor d).1.rename ρ, (a.place sc anchor d).2) := by
  unfold place
  rw [visit_rename]
  exact Prod.ext (run_rename ρ sc _ _) rfl

end Visit

end Arena

/-! ## Frames, levels and layouts -/

namespace Layout

def Bound.rename (ρ : Renaming) (bound : Bound α) : Bound α :=
  ⟨bound.arena.rename ρ, bound.bindings.map (Binding.rename ρ)⟩

def Row.rename (ρ : Renaming) (row : Row α) : Row α :=
  { row with frames := row.frames.map (Frame.rename ρ), arena := row.arena.rename ρ }

def Stack.rename (ρ : Renaming) (stack : Stack α) : Stack α :=
  { stack with frames := stack.frames.map (Frame.rename ρ), arena := stack.arena.rename ρ }

attribute [ext] Bound Row Stack Layout

variable [Scalar α] (config : Config α) (s : Snapshot)

theorem bindRow_rename (sc : Scope α) (frame : Frame α) (bound : Bound α) (b : Binding α) :
    bindRow (sc.rename ρ) (frame.rename ρ) (bound.rename ρ) (b.rename ρ) =
      (bindRow sc frame bound b).rename ρ := by
  cases hd : b.datum with
  | none =>
    have hd' : (b.rename ρ).datum = none := by rw [Binding.rename, hd]; rfl
    rw [bindRow_of_none hd, bindRow_of_none hd']
    exact Bound.ext rfl (push_map_comm _ bound.bindings b)
  | some d =>
    have hd' : (b.rename ρ).datum = some (d.rename ρ) := by rw [Binding.rename, hd]; rfl
    have hplace : (bound.rename ρ).arena.place (sc.rename ρ)
        ((frame.rename ρ).rowAnchor (b.rename ρ)) (d.rename ρ) = _ :=
      Arena.place_rename ρ sc bound.arena (frame.rowAnchor b) d
    rw [bindRow_of_some hd, bindRow_of_some hd', hplace]
    exact Bound.ext rfl (push_map_comm _ bound.bindings { b with target := some _ })

theorem envsOf_rename (node : TreeNode) :
    envsOf (s.rename ρ) (node.rename ρ) = (envsOf s node).map (Environment.rename ρ) := by
  have hids : (node.rename ρ).merged ++ (node.rename ρ).env.toList =
      (node.merged ++ node.env.toList).map ρ.env := by
    rw [List.map_append, ← Option.toList_map]
    rfl
  rw [envsOf, hids, List.filterMap_map, envsOf, List.map_filterMap]
  congr 1
  funext id
  exact s.env?_rename ρ id

theorem bindFrame_rename (sc : Scope α) (a : Arena α) (frame : Frame α) :
    bindFrame (sc.rename ρ) (a.rename ρ) (frame.rename ρ) = (bindFrame sc a frame).rename ρ := by
  have hstart : (⟨{ a.rename ρ with extent := frame.bounds }, #[]⟩ : Bound α) =
      Bound.rename ρ ⟨{ a with extent := frame.bounds }, #[]⟩ := Bound.ext rfl Array.map_empty.symm
  rw [bindFrame, ← Array.foldl_toList, bindFrame, ← Array.foldl_toList]
  show (frame.bindings.map (Binding.rename ρ)).toList.foldl
    (bindRow (sc.rename ρ) (frame.rename ρ)) ⟨{ a.rename ρ with extent := frame.bounds }, #[]⟩ = _
  rw [Array.toList_map, hstart]
  exact foldl_map_comm (Bound.rename ρ) (bindRow_rename ρ sc frame) _ _

theorem Row.add_rename (row : Row α) (frame : Frame α) (bound : Bound α) :
    (row.rename ρ).add config (frame.rename ρ) (bound.rename ρ) =
      (row.add config frame bound).rename ρ := by
  have hsize : (row.rename ρ).frames.size = row.frames.size := Array.size_map
  have hpush := push_map_comm (Frame.rename ρ) row.frames
    { frame with
      totalWidth := bound.arena.extent.right - frame.bounds.x
      bindings := bound.bindings }
  refine Row.ext hpush rfl rfl rfl ?_
  show _ ++ [(row.rename ρ).frames.size] = _
  rw [hsize]
  rfl

theorem addFrame_rename (tree : EnvTree) (y : α) (row : Row α) (nodeId : Nat) :
    addFrame config (s.rename ρ) (tree.rename ρ) y (row.rename ρ) nodeId =
      (addFrame config s tree y row nodeId).rename ρ := by
  have hnode := tree.nodes_rename ρ nodeId
  cases h : tree.nodes[nodeId]? with
  | none =>
    rw [h] at hnode
    rw [addFrame_of_none h, addFrame_of_none hnode]
  | some node =>
    rw [h, Option.map_some] at hnode
    have hsize : (row.rename ρ).frames.size = row.frames.size := Array.size_map
    rw [addFrame_of_some h, addFrame_of_some hnode, hsize, envsOf_rename, Frame.place_rename]
    dsimp only
    set frame := Frame.place config row.frames.size nodeId node (envsOf s node) ⟨row.x, y⟩
    have hbind := bindFrame_rename ρ ⟨config, s.heap, tree, row.frames.push frame⟩ row.arena frame
    rw [← Row.add_rename, ← hbind, Scope.rename, ← push_map_comm]
    rfl

theorem addLevel_rename (tree : EnvTree) (stack : Stack α) (nodes : List Nat) :
    addLevel config (s.rename ρ) (tree.rename ρ) (stack.rename ρ) nodes =
      (addLevel config s tree stack nodes).rename ρ := by
  have hrow : nodes.foldl (addFrame config (s.rename ρ) (tree.rename ρ) stack.y)
      ((stack.openRow config).rename ρ) =
        (nodes.foldl (addFrame config s tree stack.y) (stack.openRow config)).rename ρ :=
    List.foldl_hom (Row.rename ρ) (addFrame_rename ρ config s tree stack.y)
  rw [addLevel_eq_add, addLevel_eq_add]
  show (stack.rename ρ).add config (nodes.foldl (addFrame config (s.rename ρ) (tree.rename ρ)
    stack.y) ((stack.openRow config).rename ρ)) = _
  rw [hrow]
  rfl

theorem stackOf_rename : stackOf config (s.rename ρ) = (stackOf config s).rename ρ := by
  have hempty : Arena.empty Bounds.empty = (Arena.empty (.empty : Bounds α)).rename ρ :=
    Arena.ext Array.map_empty.symm rfl rfl rfl
  have hstart : (⟨#[], .empty .empty, config.canvasPaddingY + config.levelPaddingY, []⟩ : Stack α) =
      Stack.rename ρ ⟨#[], .empty .empty, config.canvasPaddingY + config.levelPaddingY, []⟩ :=
    Stack.ext Array.map_empty.symm hempty rfl rfl
  rw [stackOf, EnvTree.build_rename, stackOf]
  dsimp only
  rw [EnvTree.levels_rename]
  conv_lhs => rw [hstart]
  exact List.foldl_hom (Stack.rename ρ) (addLevel_rename ρ config s _)

/-- A renamed snapshot is laid out in the same way. -/
theorem ofSnapshot_rename : ofSnapshot config (s.rename ρ) = (ofSnapshot config s).rename ρ := by
  rw [ofSnapshot_eq, ofSnapshot_eq, stackOf_rename, EnvTree.build_rename]
  refine Layout.ext rfl rfl rfl rfl rfl rfl ?_
  exact List.map_append.symm

end Layout

end EnvDiagram

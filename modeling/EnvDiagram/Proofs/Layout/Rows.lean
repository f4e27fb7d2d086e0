import EnvDiagram.Proofs.Layout.Steps
import EnvDiagram.Proofs.Steps

/-!
# The rows of frames

A frame is made of the environments of its node, outermost first. In each row stands the variable
of its name that comes last in them. Placing the values of the rows gives them targets and the
frame its total width; nothing else of the frame changes.

* `mem_overlay` — what stands in the rows
* `Layout.stackOf_keeps` — what every further frame keeps
* `Layout.exists_place_ofSnapshot` — where the frames of a layout come from
-/

namespace EnvDiagram

variable {α : Type}

/-! ## Which variables have rows -/

theorem mem_overlayOne {rows : List Variable} {v w : Variable} :
    w ∈ overlayOne rows v ↔ w = v ∨ w ∈ rows ∧ w.name ≠ v.name := by
  unfold overlayOne
  split
  · rename_i hany
    obtain ⟨old, hold, hname⟩ := List.any_eq_true.mp hany
    rw [List.mem_map]
    constructor
    · rintro ⟨row, hrow, rfl⟩
      split
      · exact Or.inl rfl
      · rename_i hne
        exact Or.inr ⟨hrow, hne⟩
    · rintro (rfl | ⟨hw, hne⟩)
      · exact ⟨old, hold, if_pos (by simpa using hname)⟩
      · exact ⟨w, hw, if_neg hne⟩
  · rename_i hany
    rw [List.mem_append, List.mem_singleton]
    constructor
    · rintro (hw | rfl)
      · exact Or.inr ⟨hw, fun hname => hany (List.any_eq_true.mpr ⟨w, hw, by simpa using hname⟩)⟩
      · exact Or.inl rfl
    · rintro (rfl | ⟨hw, -⟩)
      · exact Or.inr rfl
      · exact Or.inl hw

/-- A variable keeps its row as long as no later one has its name. -/
theorem mem_foldl_overlayOne {vars : List Variable} {v : Variable} :
    v ∈ vars.foldl overlayOne [] ↔
      ∃ before after, vars = before ++ v :: after ∧ ∀ w ∈ after, w.name ≠ v.name := by
  induction vars using List.reverseRecOn with
  | nil => simp
  | append_singleton vars u ih =>
    rw [List.foldl_concat, mem_overlayOne, ih]
    constructor
    · rintro (rfl | ⟨⟨before, after, rfl, hlast⟩, hne⟩)
      · exact ⟨vars, [], rfl, fun w hw => absurd hw List.not_mem_nil⟩
      · refine ⟨before, after ++ [u], by simp, fun w hw => ?_⟩
        rcases List.mem_append.mp hw with hw | hw
        · exact hlast w hw
        · rw [List.mem_singleton.mp hw]
          exact hne.symm
    · rintro ⟨before, after, heq, hlast⟩
      rcases List.eq_nil_or_concat after with rfl | ⟨after, x, rfl⟩
      · exact Or.inl (List.append_inj_right' heq rfl |> List.singleton_inj.mp).symm
      · rw [List.concat_eq_append, ← List.cons_append, ← List.append_assoc] at heq
        obtain ⟨rfl, hu⟩ := List.append_inj' heq rfl
        obtain rfl := List.singleton_inj.mp hu
        refine Or.inr ⟨⟨before, after, rfl, fun w hw => hlast w (by simp [hw])⟩, ?_⟩
        exact (hlast u (by simp)).symm

/-- In the rows stand the variables whose names do not come again further in. -/
theorem mem_overlay {envs : List Environment} {v : Variable} :
    v ∈ overlay envs ↔
      ∃ before after, envs.flatMap Environment.vars = before ++ v :: after ∧
        ∀ w ∈ after, w.name ≠ v.name :=
  mem_foldl_overlayOne

/-- Every name has a row, in which it stands itself or a later variable of that name. -/
theorem exists_mem_foldl_overlayOne {vars : List Variable} {v : Variable} (h : v ∈ vars) :
    ∃ w ∈ vars.foldl overlayOne [], w.name = v.name := by
  induction vars using List.reverseRecOn with
  | nil => cases h
  | append_singleton vars u ih =>
    rw [List.foldl_concat]
    by_cases hname : v.name = u.name
    · exact ⟨u, mem_overlayOne.mpr (Or.inl rfl), hname.symm⟩
    · have hv : v ∈ vars := by
        rcases List.mem_append.mp h with hv | hv
        · exact hv
        · exact absurd (congrArg Variable.name (List.mem_singleton.mp hv)) hname
      obtain ⟨w, hw, hwname⟩ := ih hv
      exact ⟨w, mem_overlayOne.mpr (Or.inr ⟨hw, hwname ▸ hname⟩), hwname⟩

/-! ## Frames before and after their values are placed -/

/-- A row without its value. -/
def Binding.unbound (b : Binding α) : Binding α := { b with target := none }

/-- What a row shows: a name, its value, and whether it is constant. -/
def Binding.entry (b : Binding α) : Variable := ⟨b.name, b.datum, b.constant⟩

/-- A frame without the values of its rows. -/
def Frame.unbound (f : Frame α) : Frame α :=
  { f with totalWidth := f.bounds.width, bindings := f.bindings.map Binding.unbound }

namespace Layout

variable [Scalar α] {config : Config α} {s : Snapshot}

theorem unbound_bindRow (sc : Scope α) (frame : Frame α) (bound : Bound α) (b : Binding α) :
    (bindRow sc frame bound b).bindings.map Binding.unbound =
      (bound.bindings.push b).map Binding.unbound := by
  cases hd : b.datum with
  | none => rw [bindRow_of_none hd]
  | some d =>
    rw [bindRow_of_some hd, Array.map_push, Array.map_push]
    rfl

/-- The rows of a frame are the same with their values as without them. -/
theorem unbound_bindFrame (sc : Scope α) (a : Arena α) (frame : Frame α) :
    (bindFrame sc a frame).bindings.map Binding.unbound =
      frame.bindings.map Binding.unbound := by
  let P : List (Binding α) → Bound α → Prop := fun done bound =>
    bound.bindings.map Binding.unbound = done.toArray.map Binding.unbound
  have hrows : P frame.bindings.toList (bindFrame sc a frame) := by
    unfold bindFrame
    rw [← Array.foldl_toList]
    refine foldl_keeps (P := P) _ (fun done b bound _ hdone => ?_) rfl
    show Array.map _ _ = _
    rw [unbound_bindRow, Array.map_push, hdone, ← Array.map_push, List.push_toArray]
  exact hrows

/-- A frame with the values of its rows is otherwise the frame without them. -/
theorem unbound_bound (sc : Scope α) (a : Arena α) (frame : Frame α) (totalWidth : α) :
    Frame.unbound { frame with totalWidth, bindings := (bindFrame sc a frame).bindings } =
      frame.unbound := by
  rw [Frame.unbound, unbound_bindFrame]
  rfl

theorem unbound_place (config : Config α) (id nodeId : Nat) (node : TreeNode)
    (envs : List Environment) (p : Point α) :
    (Frame.place config id nodeId node envs p).unbound =
      Frame.place config id nodeId node envs p := by
  rw [Frame.unbound, Frame.place]
  congr 1
  apply Array.ext_getElem?
  intro i
  simp only [Array.getElem?_map, List.getElem?_toArray, List.getElem?_mapIdx, Option.map_map]
  rfl

/-- A row of a frame is that of a variable of its environments. -/
theorem exists_row_of_place {id nodeId : Nat} {node : TreeNode} {envs : List Environment}
    {p : Point α} {f : Frame α} {b : Binding α}
    (h : f.unbound = Frame.place config id nodeId node envs p) (hb : b ∈ f.bindings) :
    ∃ index, ∃ v ∈ overlay envs, b.unbound = Frame.row config id p index v := by
  have hrows : f.bindings.map Binding.unbound =
      ((overlay envs).mapIdx (Frame.row config id p)).toArray := congrArg Frame.bindings h
  have hmem : b.unbound ∈ f.bindings.map Binding.unbound := Array.mem_map_of_mem hb
  rw [hrows, List.mem_toArray, List.mem_mapIdx] at hmem
  obtain ⟨index, hlt, hrow⟩ := hmem
  exact ⟨index, _, List.getElem_mem hlt, hrow.symm⟩

/-- A row shows the variable that it is made for. -/
theorem entries_of_place {id nodeId : Nat} {node : TreeNode} {envs : List Environment}
    {p : Point α} {f : Frame α} (h : f.unbound = Frame.place config id nodeId node envs p) :
    f.bindings.toList.map Binding.entry = overlay envs := by
  have hrows : f.bindings.map Binding.unbound =
      ((overlay envs).mapIdx (Frame.row config id p)).toArray := congrArg Frame.bindings h
  calc f.bindings.toList.map Binding.entry
      = (f.bindings.map Binding.unbound).toList.map Binding.entry := by
        rw [Array.toList_map, List.map_map]
        rfl
    _ = ((overlay envs).mapIdx (Frame.row config id p)).map Binding.entry := by rw [hrows]
    _ = overlay envs := by
        apply List.ext_getElem?
        intro i
        rw [List.getElem?_map, List.getElem?_mapIdx, Option.map_map]
        exact Option.map_id'

/-- A row knows its number. -/
theorem index_of_place {id nodeId : Nat} {node : TreeNode} {envs : List Environment}
    {p : Point α} {f : Frame α} {i : Nat} {b : Binding α}
    (h : f.unbound = Frame.place config id nodeId node envs p) (hb : f.bindings[i]? = some b) :
    b.index = i := by
  have hrow : (f.bindings.map Binding.unbound)[i]? = _ :=
    congrArg (·[i]?) (congrArg Frame.bindings h)
  rw [Array.getElem?_map, hb, Option.map_some, Frame.place, List.getElem?_toArray,
    List.getElem?_mapIdx] at hrow
  obtain ⟨v, -, hv⟩ := Option.map_eq_some_iff.mp hrow.symm
  exact congrArg Binding.index hv.symm

/-! ## Frame by frame -/

-- nothing below depends on how the tree is built
attribute [local irreducible] EnvTree.build

/-- What every further frame keeps holds when all are laid out. -/
theorem stackOf_keeps {P : Array (Frame α) → Arena α → Prop}
    (hadd : ∀ {frames a nodeId node} (p : Point α) (totalWidth : α),
      (EnvTree.build s config.framePolicy).1.nodes[nodeId]? = some node → P frames a →
      let frame := Frame.place config frames.size nodeId node (envsOf s node) p
      let sc : Scope α :=
        ⟨config, s.heap, (EnvTree.build s config.framePolicy).1, frames.push frame⟩
      let bound := bindFrame sc a frame
      P (frames.push { frame with totalWidth, bindings := bound.bindings }) bound.arena)
    (h : P #[] (.empty .empty)) : P (stackOf config s).frames (stackOf config s).arena := by
  let Q : List (List Nat) → Stack α → Prop := fun _ stack => P stack.frames stack.arena
  refine foldl_keeps (P := Q) _ (fun _ level stack _ hstack => ?_) h
  let R : List Nat → Row α → Prop := fun _ row => P row.frames row.arena
  refine foldl_keeps (P := R) level (fun _ nodeId row _ hrow => ?_) hstack
  show P _ _
  cases hnode : (EnvTree.build s config.framePolicy).1.nodes[nodeId]? with
  | none =>
    rw [addFrame_of_none hnode]
    exact hrow
  | some node =>
    rw [addFrame_of_some hnode]
    exact hadd ⟨row.x, stack.y⟩ _ hnode hrow

/-- A frame of a layout is that of a node, made of the node's environments. -/
theorem exists_place_ofSnapshot {i : Nat} {f : Frame α}
    (h : (ofSnapshot config s).frames[i]? = some f) :
    ∃ (node : TreeNode) (p : Point α),
      (EnvTree.build s config.framePolicy).1.nodes[f.node]? = some node ∧
        f.unbound = Frame.place config i f.node node (envsOf s node) p := by
  let P : Array (Frame α) → Arena α → Prop := fun frames _ => ∀ i f, frames[i]? = some f →
    ∃ (node : TreeNode) (p : Point α),
      (EnvTree.build s config.framePolicy).1.nodes[f.node]? = some node ∧
        f.unbound = Frame.place config i f.node node (envsOf s node) p
  rw [frames_ofSnapshot] at h
  refine stackOf_keeps (P := P) ?_ (fun i f hf => by simp at hf) i f h
  intro frames a nodeId node p totalWidth hnode hframes frame sc bound i f hf
  rw [Array.getElem?_push] at hf
  split at hf
  · rename_i hi
    cases hf
    refine ⟨node, p, hnode, ?_⟩
    rw [hi]
    exact (unbound_bound ..).trans (unbound_place ..)
  · exact hframes i f hf

end Layout

end EnvDiagram

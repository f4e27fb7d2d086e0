import EnvDiagram.Proofs.Layout.References
import EnvDiagram.Proofs.Layout.Stages

/-!
# The tour of a layout

A tour goes through the rows of a layout and follows what leads to a value. The cells of a value
are met right after the first reference to it, before anything that waited. The tour knows nothing
of the heap, of identities or of caches: it tells the first reference to a value from the further
ones by the number of the value, as values are numbered in the order in which they are met. The
walk that made the layout is its tour.

* `Layout.Tour` — from the references that wait to those that are met, in order
* `Layout.Tour.unique` — a layout has one tour
* `Layout.tour_ofSnapshot` — the walk of a layout is its tour
-/

namespace EnvDiagram

variable {α : Type}

namespace Layout

/-- The rows of frames, as references. -/
def rowReferences (frames : Array (Frame α)) : List Reference :=
  frames.toList.flatMap fun f => (List.range f.bindings.size).map (.binding f.id)

/-- The cells of a value, as references. -/
def cellReferences (l : Layout α) (v : Nat) : List Reference :=
  match (l.values[v]?).bind Value.cells? with
  | none => []
  | some cells => (List.range cells.size).map (.cell v)

/-- The tour from where `n` values have been met and some references wait: the references that are
met, in order, and the number of values in the end. A reference that leads nowhere is passed over.
One that leads to a value that has not been met leads to the next one. -/
inductive Tour (l : Layout α) : Nat → List Reference → List Reference → Nat → Prop
  | done {n : Nat} : Tour l n [] [] n
  | empty {n m : Nat} {r : Reference} {waiting met : List Reference} :
      l.target? r = none → Tour l n waiting met m → Tour l n (r :: waiting) met m
  | again {n m v : Nat} {r : Reference} {waiting met : List Reference} :
      l.target? r = some v → v < n → Tour l n waiting met m → Tour l n (r :: waiting) (r :: met) m
  | first {n m : Nat} {r : Reference} {waiting met : List Reference} :
      l.target? r = some n → Tour l (n + 1) (l.cellReferences n ++ waiting) met m →
        Tour l n (r :: waiting) (r :: met) m

variable {l : Layout α} {n m v : Nat} {waiting met : List Reference}

/-- What is met and how many values there are in the end depends on the layout alone. -/
theorem Tour.unique (h : l.Tour n waiting met m) {met' : List Reference} {m' : Nat}
    (h' : l.Tour n waiting met' m') : met' = met ∧ m' = m := by
  induction h generalizing met' m' with
  | done =>
    cases h'
    exact ⟨rfl, rfl⟩
  | empty hnone _ ih =>
    cases h' with
    | empty _ hrest => exact ih hrest
    | again hsome => simp [hnone] at hsome
    | first hsome => simp [hnone] at hsome
  | again hv hlt _ ih =>
    cases h' with
    | empty hnone => simp [hv] at hnone
    | again _ _ hrest => exact (ih hrest).imp_left (congrArg _)
    | first hfirst =>
      obtain rfl := Option.some.inj (hv.symm.trans hfirst)
      exact absurd hlt (lt_irrefl _)
  | first hfirst _ ih =>
    cases h' with
    | empty hnone => simp [hfirst] at hnone
    | again hv hlt =>
      obtain rfl := Option.some.inj (hv.symm.trans hfirst)
      exact absurd hlt (lt_irrefl _)
    | first _ hrest => exact (ih hrest).imp_left (congrArg _)

theorem rowReferences_push (frames : Array (Frame α)) (f : Frame α) :
    rowReferences (frames.push f) =
      rowReferences frames ++ (List.range f.bindings.size).map (.binding f.id) := by
  rw [rowReferences, Array.toList_push, List.flatMap_append, List.flatMap_singleton]
  rfl

theorem rowReferences_pushRow {frames : Array (Frame α)} {f : Frame α} (hid : f.id = frames.size)
    (bs : Array (Binding α)) (b : Binding α) :
    rowReferences (frames.push (f.withRows (bs.push b))) =
      rowReferences (frames.push (f.withRows bs)) ++ [.binding frames.size bs.size] := by
  rw [rowReferences_push, rowReferences_push, Frame.bindings_withRows, Frame.bindings_withRows,
    Frame.id_withRows, Frame.id_withRows, Array.size_push, List.range_succ, List.map_append,
    ← List.append_assoc, List.map_singleton, hid]

theorem cellReferences_of_array {x : Value α} {cells : Array (Cell α)} (hx : l.values[v]? = some x)
    (hk : x.kind = .array cells) :
    l.cellReferences v = (List.range cells.size).map (.cell v) := by
  rw [cellReferences, hx, Option.bind_some, cells?_eq_some_iff.mpr hk]

theorem cellReferences_of_not_array {x : Value α} (hx : l.values[v]? = some x)
    (hk : ∀ cells, x.kind ≠ .array cells) : l.cellReferences v = [] := by
  rw [cellReferences, hx, Option.bind_some]
  cases hcells : x.cells? with
  | none => rfl
  | some cells => exact absurd (cells?_eq_some_iff.mp hcells) (hk cells)

theorem map_reference_cellTasks (array : Nat) (data : List Datum) :
    (cellTasks array data).map CellTask.reference =
      (List.range data.length).map (.cell array) := by
  apply List.ext_getElem?
  intro j
  rw [cellTasks, List.getElem?_map, List.getElem?_mapIdx, List.getElem?_map]
  by_cases hj : j < data.length
  · simp [hj, CellTask.reference]
  · simp [hj]

/-! ## A meeting is a step of the tour -/

section Meets

variable {heap : Heap} {tree : EnvTree} {a a' : Ledger} {r : Reference} {d : Datum}
  {cells : List CellTask}

/-- The cells that a new value brings along are its cells in the end. -/
theorem cellReferences_of_meets (hl : l.ledger.Coherent heap tree)
    (hm : a.Meets heap tree r d a' a.size cells) (hnew : a'.size = a.size + 1)
    (hgrows : a'.Grows l.ledger) : l.cellReferences a.size = cells.map CellTask.reference := by
  generalize hv : a.size = v at hm
  have hvalue : ∀ {datum form}, a'.entries[v]? = some ⟨datum, form, [r]⟩ →
      ∃ x, l.values[v]? = some x ∧ x.datum = datum ∧ x.entry.Represents heap tree ∧
        (x.entry.form = .literal ↔ form = .literal) := by
    intro datum form hentry
    obtain ⟨y, hy, hdatum, hform, -⟩ := hgrows.entry hentry
    have hrep := hl.represents hy
    rw [ledger_entries] at hy
    obtain ⟨x, hx, rfl⟩ := Option.map_eq_some_iff.mp hy
    exact ⟨x, hx, hdatum, hrep, hform⟩
  cases hm with
  | again =>
    rw [Ledger.size_note] at hnew
    exact absurd hnew (Nat.ne_add_one _)
  | @array id data hc hfind =>
    obtain ⟨x, hx, hdatum, hrep, -⟩ := hvalue (by rw [Ledger.entries_add, if_pos rfl])
    obtain ⟨contents, hform, hlength⟩ := hrep.form_of_array hdatum hfind
    obtain ⟨xcells, hk, rfl⟩ := kind_of_array hform
    rw [cellReferences_of_array hx hk, map_reference_cellTasks, ← hlength, List.length_map,
      Array.length_toList]
  | @function id c node hc hfind hres =>
    obtain ⟨x, hx, hdatum, hrep, -⟩ := hvalue (by rw [Ledger.entries_add, if_pos rfl])
    obtain ⟨node', hform, -⟩ := hrep.form_of_closure hdatum hfind
    obtain ⟨f, hk, -⟩ := kind_of_function hform
    exact cellReferences_of_not_array hx fun xcells hk' => by rw [hk] at hk'; cases hk'
  | literal hd =>
    obtain ⟨x, hx, -, -, hform⟩ := hvalue (by rw [Ledger.entries_add, if_pos rfl])
    refine cellReferences_of_not_array hx fun xcells hk => ?_
    have hlit := hform.mpr rfl
    rw [Value.entry, hk] at hlit
    cases hlit

/-- The tour goes on with a meeting. -/
theorem Tour.meets (hl : l.ledger.Coherent heap tree) (ha : a.Coherent heap tree)
    (hm : a.Meets heap tree r d a' v cells) (hgrows : a'.Grows l.ledger)
    (ht : l.target? r = some v)
    (h : l.Tour a'.size (cells.map CellTask.reference ++ waiting) met m) :
    l.Tour a.size (r :: waiting) (r :: met) m := by
  have hnew : v = a.size → a'.size = a.size + 1 → l.Tour a.size (r :: waiting) (r :: met) m := by
    rintro rfl hsize
    refine .first ht ?_
    rw [cellReferences_of_meets hl hm hsize hgrows, ← hsize]
    exact h
  cases hm with
  | again hc =>
    rw [Ledger.size_note] at h
    exact .again ht (ha.cached_lt hc) h
  | array => exact hnew rfl (Ledger.size_add ..)
  | function => exact hnew rfl (Ledger.size_add ..)
  | literal => exact hnew rfl (Ledger.size_add ..)

end Meets

/-! ## The walk is the tour -/

variable [Scalar α] {config : Config α} {s : Snapshot}

-- nothing below depends on how the tree is built
attribute [local irreducible] EnvTree.build

theorem ledger_ofSnapshot (config : Config α) (s : Snapshot) :
    (ofSnapshot config s).ledger = (stackOf config s).arena.ledger := by
  rw [ledger, values_ofSnapshot, cache_ofSnapshot]
  rfl

theorem coherent_ofSnapshot (config : Config α) (s : Snapshot) :
    (ofSnapshot config s).ledger.Coherent s.heap (EnvTree.build s config.framePolicy).1 := by
  rw [← tree_ofSnapshot]
  exact (working_ofSnapshot config s).coherent

theorem target?_of_mem_walk {x : Meeting} (hx : x ∈ walk config s) :
    (ofSnapshot config s).target? x.reference = some x.value :=
  (logged_ofSnapshot config s).links_iff.mpr ⟨x, hx, rfl, rfl⟩

open Stage

/-- A row that is done keeps its target. -/
theorem target?_of_steps {st : Stage α}
    (h : Steps config s.heap (EnvTree.build s config.framePolicy).1 st (finished config s))
    {i j : Nat} {f : Frame α} {b : Binding α} (hf : st.frames[i]? = some f)
    (hb : f.bindings[j]? = some b) : (ofSnapshot config s).target? (.binding i j) = b.target := by
  obtain ⟨g, hg, bs, rfl, hbs⟩ := h.frame_kept hf
  have hframe : (ofSnapshot config s).frames[i]? = some (f.withRows bs) := by
    rw [frames_ofSnapshot]
    exact hg
  rw [target?, rowTarget, hframe, Option.bind_some, Frame.bindings_withRows, hbs j b hb,
    Option.bind_some]

/-- A cell that holds the empty list leads nowhere in the end. -/
theorem target?_of_null {st : Stage α} {task : CellTask}
    (h : Steps config s.heap (EnvTree.build s config.framePolicy).1 st (finished config s))
    (hwaits : st.arena.ledger.Waits s.heap task) (hnull : task.datum = .null) :
    (ofSnapshot config s).target? task.reference = none := by
  obtain ⟨x, id, data, hx, hdatum, hfind, hcell⟩ := hwaits.cell
  obtain ⟨y, hy, hydatum, -⟩ := h.grows.entry hx
  rw [show (finished config s).arena.ledger = _ from (ledger_ofSnapshot config s).symm] at hy
  have hwork := working_ofSnapshot config s
  rw [← target?_ledger]
  rcases hwork.filled.cell hy (hydatum.trans hdatum) hfind hcell with ⟨hnone, -⟩ | ⟨hne, -⟩
  · exact hnone
  · exact absurd hnull hne

/-- From every stage on the meetings to come are what the tour meets, starting with the cells that
wait and followed by the rows that are not done. -/
theorem tour_of_steps {st : Stage α}
    (h : Steps config s.heap (EnvTree.build s config.framePolicy).1 st (finished config s))
    (hw : st.Working s.heap (EnvTree.build s config.framePolicy).1) :
    ∃ (log : List Meeting) (rows : List Reference), walk config s = st.log ++ log ∧
      rowReferences (ofSnapshot config s).frames = rowReferences st.frames ++ rows ∧
      (ofSnapshot config s).Tour st.arena.values.size
        (st.agenda.map CellTask.reference ++ rows) (log.map Meeting.reference)
        (ofSnapshot config s).values.size := by
  have hcoherent := coherent_ofSnapshot config s
  induction h using Relation.ReflTransGen.head_induction_on with
  | refl =>
    refine ⟨[], [], (List.append_nil _).symm, ?_, ?_⟩
    · rw [frames_ofSnapshot, List.append_nil]
      rfl
    · rw [values_ofSnapshot]
      exact .done
  | @head st st' hstep hrest ih =>
    obtain ⟨log, rows, hlog, hrows, htour⟩ := ih (hstep.working hw)
    have hgrows := Steps.grows hrest
    rw [show (finished config s).arena.ledger = _ from (ledger_ofSnapshot config s).symm] at hgrows
    cases hstep with
    | frame extent hempty =>
      refine ⟨log, rows, hlog, ?_, htour⟩
      rw [hrows, rowReferences_push, hempty]
      simp
    | @blank frames a done f bs b hid hd ht =>
      refine ⟨log, .binding frames.size bs.size :: rows, hlog, ?_, .empty ?_ htour⟩
      · rw [hrows, rowReferences_pushRow hid, ← List.append_cons]
      · rw [target?_of_steps hrest Array.getElem?_push_size Array.getElem?_push_size, ht]
    | @row frames a done f bs b d known v hid hindex hd hv =>
      rw [List.append_assoc] at hlog
      have hmem : ⟨.binding frames.size bs.size, d, v.value, a.values.size⟩ ∈ walk config s := by
        rw [hlog]
        simp
      refine ⟨_ :: log, .binding frames.size bs.size :: rows, hlog, ?_, ?_⟩
      · rw [hrows, rowReferences_pushRow hid, ← List.append_cons]
      · rw [← Arena.size_ledger] at htour ⊢
        exact htour.meets hcoherent hw.coherent (meets_row hid hindex hv) hgrows
          (target?_of_mem_walk hmem)
    | pass hnull =>
      refine ⟨log, rows, hlog, hrows, .empty ?_ htour⟩
      exact target?_of_null (.head (.pass hnull) hrest)
        (hw.pending.waits _ List.mem_cons_self) hnull
    | @cell frames a done task rest known v hne hv =>
      rw [List.append_assoc] at hlog
      have hmem : ⟨task.reference, task.datum, v.value, a.values.size⟩ ∈ walk config s := by
        rw [hlog]
        simp
      refine ⟨_ :: log, rows, hlog, hrows, ?_⟩
      rw [List.map_append, List.append_assoc, ← Arena.size_ledger, Arena.ledger_setContent,
        Ledger.size_fill] at htour
      rw [Arena.ledger_setContent] at hgrows
      rw [← Arena.size_ledger]
      exact htour.meets hcoherent hw.coherent (meets_cell hv)
        ((Ledger.grows_fill ..).trans hgrows) (target?_of_mem_walk hmem)

/-- The walk of a layout is its tour: from the first row on it meets what leads to values, and the
cells of every value right after the first reference to it. -/
theorem tour_ofSnapshot (config : Config α) (s : Snapshot) :
    (ofSnapshot config s).Tour 0 (rowReferences (ofSnapshot config s).frames)
      ((walk config s).map Meeting.reference) (ofSnapshot config s).values.size := by
  obtain ⟨log, rows, hlog, hrows, htour⟩ :=
    tour_of_steps (steps_finished config s) (working_start ..)
  rw [hlog, hrows]
  exact htour

end Layout

end EnvDiagram

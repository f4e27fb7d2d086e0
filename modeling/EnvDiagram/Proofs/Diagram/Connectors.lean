import EnvDiagram.Proofs.Diagram.Complete
import EnvDiagram.Proofs.Layout.Frames

/-!
# The arrows of a diagram

The drawing emits the arrow of a reference when it is done with the value that the reference
leads to, and the arrow of a function with the function. In the end there is just one arrow
for every reference to a value that is no literal, and one for every function.

* `Layout.Arrow` — the arrows that a layout calls for
* `Diagram.Connects` — a diagram has these arrows, each once, and no others
* `Scene.connects_redraw` — the diagram of a snapshot is such a diagram
-/

namespace EnvDiagram

open scoped List

-- a layout is known by its lemmas here, not by how it is computed
attribute [local irreducible] Layout.ofSnapshot

variable {α : Type}

/-- The ends of the arrow of an outline. -/
def Outline.arrow? : Outline → Option (ArrowSource × ArrowTarget)
  | .connector source target => some (source, target)
  | _ => none

/-- The ends of the arrows of a diagram, in order. -/
def Diagram.arrows (d : Diagram α) : List (ArrowSource × ArrowTarget) :=
  d.connectors.map fun c => (c.source, c.target)

/-- The arrows that a layout calls for: one for every row and every cell that leads to a value
other than a literal, and one from every function to the frame of its environment. -/
inductive Layout.Arrow (s : Snapshot) (l : Layout α) : ArrowSource → ArrowTarget → Prop
  | reference {r : Reference} {v : Nat} {x : Value α} : l.target? r = some v →
      l.values[v]? = some x → x.isLiteral = false → Arrow s l (.reference r) (.value v)
  | function {v f : Nat} {x : Value α} {id : DatumId} {c : Closure} : l.values[v]? = some x →
      x.datum = some id → s.heap.find? id = some (.closure c) → l.frameOfEnv c.env = some f →
      Arrow s l (.function v) (.frame f)

/-- Whether a diagram has the arrows that a layout calls for, each once, and no others. -/
structure Diagram.Connects (s : Snapshot) (l : Layout α) (d : Diagram α) : Prop where
  nodup : d.arrows.Nodup
  mem_iff : ∀ {source : ArrowSource} {target : ArrowTarget},
    (source, target) ∈ d.arrows ↔ l.Arrow s source target
  /-- Every function has its arrow. -/
  function : ∀ {v : Nat} {x : Value α} {f : FunctionGlyph α}, l.values[v]? = some x →
    x.kind = .function f → ∃ frame, (.function v, .frame frame) ∈ d.arrows
  incoming : ∀ {v : Nat} {x : Value α}, l.values[v]? = some x →
    d.incoming v = if x.isLiteral then 0 else x.references.length

/-! ## Lists of distinct parts -/

/-- Elements that know their places have different numbers. -/
theorem map_eq_range {β : Type} {xs : List β} {k : β → Nat}
    (h : ∀ (i : Nat) (x : β), xs[i]? = some x → k x = i) : xs.map k = List.range xs.length := by
  apply List.ext_getElem
  · simp
  · intro i hi hi'
    have hlt : i < xs.length := by simpa using hi
    rw [List.getElem_map, List.getElem_range]
    exact h i _ (List.getElem?_eq_getElem hlt)

/-- Lists are distinct together if each is, and a key tells them apart. -/
theorem nodup_flatMap_of_key {β γ κ : Type} {xs : List β} {f : β → List γ} (k : β → κ)
    (key : γ → κ) (hk : (xs.map k).Nodup) (hf : ∀ x ∈ xs, (f x).Nodup)
    (hkey : ∀ x ∈ xs, ∀ y ∈ f x, key y = k x) : (xs.flatMap f).Nodup := by
  rw [List.nodup_flatMap]
  refine ⟨hf, ?_⟩
  have hpair := List.pairwise_map.mp hk
  refine hpair.imp_of_mem fun {a b} ha hb hne => ?_
  intro y hya hyb
  exact hne ((hkey a ha y hya).symm.trans (hkey b hb y hyb))

/-! ## The arrows of the parts of a layout -/

theorem Diagram.arrows_eq (d : Diagram α) : d.arrows = d.outlines.filterMap Outline.arrow? := by
  rw [arrows, connectors, outlines, List.map_filterMap, List.filterMap_map]
  refine List.filterMap_congr fun s _ => ?_
  cases hk : s.kind <;> simp [connector?, hk, ShapeKind.outline, Outline.arrow?]

theorem Outline.mem_arrows {os : List Outline} {source : ArrowSource} {target : ArrowTarget} :
    (source, target) ∈ os.filterMap arrow? ↔ .connector source target ∈ os := by
  rw [List.mem_filterMap]
  constructor
  · rintro ⟨o, ho, harrow⟩
    cases o <;> simp_all [arrow?]
  · intro h
    exact ⟨_, h, rfl⟩

namespace Layout

variable {l : Layout α} {source : ArrowSource} {target : ArrowTarget} {r : Reference} {v t : Nat}

theorem mem_arrowOutlines {o : Outline} : o ∈ l.arrowOutlines r t ↔
    (∃ x, l.values[t]? = some x ∧ x.isLiteral = false) ∧ o = .connector (.reference r) (.value t) := by
  rw [arrowOutlines]
  cases l.values[t]? with
  | none => simp
  | some x => cases hx : x.isLiteral <;> simp [hx]

theorem mem_cellOutlines {c : Cell α} : .connector source target ∈ l.cellOutlines c ↔
    ∃ t, c.content = some t ∧
      .connector source target ∈ l.arrowOutlines (.cell c.array c.index) t := by
  rw [cellOutlines]
  cases c.content <;> simp

theorem mem_rowOutlines {b : Binding α} : .connector source target ∈ l.rowOutlines b ↔
    ∃ t, b.target = some t ∧
      .connector source target ∈ l.arrowOutlines (.binding b.frame b.index) t := by
  rw [rowOutlines]
  cases b.target <;> simp

theorem arrows_frameOutlines (f : Frame α) : (l.frameOutlines f).filterMap Outline.arrow? =
    f.bindings.toList.flatMap fun b => (l.rowOutlines b).filterMap Outline.arrow? := by
  rw [frameOutlines, List.filterMap_append, List.filterMap_flatMap]
  rfl

variable [Scalar α] {config : Config α} {s : Snapshot}

/-- The arrows of the rows are those of the references from frames. -/
theorem mem_frames_outlines :
    .connector source target ∈ (ofSnapshot config s).frames.toList.flatMap
        (ofSnapshot config s).frameOutlines ↔
      ∃ i j t, source = .reference (.binding i j) ∧
        (ofSnapshot config s).target? (.binding i j) = some t ∧
        .connector source target ∈ (ofSnapshot config s).arrowOutlines (.binding i j) t := by
  have hbuilt := (ofSnapshot_laid config s).built
  simp only [List.mem_flatMap, Array.mem_toList_iff, frameOutlines, List.mem_append]
  constructor
  · rintro ⟨f, hf, hin | ⟨b, hb, hin⟩⟩
    · simp at hin
    · obtain ⟨i, hi⟩ := Array.getElem?_of_mem hf
      obtain ⟨j, hj⟩ := Array.getElem?_of_mem hb
      obtain ⟨t, ht, harrow⟩ := mem_rowOutlines.mp hin
      obtain ⟨hframe, hindex⟩ := hbuilt.row_label hi hj
      rw [hframe, hindex] at harrow
      refine ⟨i, j, t, ?_, ?_, harrow⟩
      · exact (Outline.connector.inj (mem_arrowOutlines.mp harrow).2).1
      · exact target?_binding_iff.mpr ⟨f, b, hi, hj, ht⟩
  · rintro ⟨i, j, t, -, ht, harrow⟩
    obtain ⟨f, b, hi, hj, hb⟩ := target?_binding_iff.mp ht
    obtain ⟨hframe, hindex⟩ := hbuilt.row_label hi hj
    refine ⟨f, Array.mem_of_getElem? hi, Or.inr ⟨b, Array.mem_of_getElem? hj, ?_⟩⟩
    refine mem_rowOutlines.mpr ⟨t, hb, ?_⟩
    rwa [hframe, hindex]

omit [Scalar α] in
theorem target?_cell_of_value {x : Value α} {i : Nat} (hx : l.values[v]? = some x) :
    l.target? (.cell v i) = some t ↔
      ∃ cells c, x.kind = .array cells ∧ cells[i]? = some c ∧ c.content = some t := by
  rw [target?_cell_iff]
  simp [hx]

/-- The arrows of the cells of an array are those of the references from it. -/
theorem mem_arrayOutlines {x : Value α} {cells : Array (Cell α)}
    (hx : (ofSnapshot config s).values[v]? = some x) (hk : x.kind = .array cells) :
    .connector source target ∈ cells.toList.flatMap (ofSnapshot config s).cellOutlines ↔
      ∃ i t, source = .reference (.cell v i) ∧
        (ofSnapshot config s).target? (.cell v i) = some t ∧
        .connector source target ∈ (ofSnapshot config s).arrowOutlines (.cell v i) t := by
  have hlabel := (ofSnapshot_laid config s).built.labelled.value hx
  simp only [List.mem_flatMap, Array.mem_toList_iff]
  constructor
  · rintro ⟨c, hc, hin⟩
    obtain ⟨i, hi⟩ := Array.getElem?_of_mem hc
    obtain ⟨t, ht, harrow⟩ := mem_cellOutlines.mp hin
    obtain ⟨harray, hindex⟩ := hlabel.cell hk hi
    rw [harray, hindex] at harrow
    refine ⟨i, t, ?_, ?_, harrow⟩
    · exact (Outline.connector.inj (mem_arrowOutlines.mp harrow).2).1
    · exact (target?_cell_of_value hx).mpr ⟨cells, c, hk, hi, ht⟩
  · rintro ⟨i, t, -, ht, harrow⟩
    obtain ⟨cells', c, hk', hi, hc⟩ := (target?_cell_of_value hx).mp ht
    rw [hk] at hk'
    cases hk'
    obtain ⟨harray, hindex⟩ := hlabel.cell hk hi
    refine ⟨c, Array.mem_of_getElem? hi, mem_cellOutlines.mpr ⟨t, hc, ?_⟩⟩
    rwa [harray, hindex]

/-- The arrow of a function leads to the frame of the node that it closes over. -/
theorem mem_closureOutlines {f : FunctionGlyph α} :
    .connector source target ∈ (ofSnapshot config s).closureOutlines v f ↔
      ∃ frame, (ofSnapshot config s).frameOf f.enclosing = some frame ∧
        source = .function v ∧ target = .frame frame := by
  rw [closureOutlines]
  cases hof : (ofSnapshot config s).frameOf f.enclosing with
  | none => simp
  | some frame =>
    obtain ⟨fr, hfr, -⟩ := frameOf_eq_some_iff.mp hof
    simp [hfr, id_of_frame hfr]

/-- The arrows of a value are those from its cells, and that of the function to its frame. -/
theorem mem_valueOutlines : .connector source target ∈ (ofSnapshot config s).valueOutlines v ↔
    (∃ i t, source = .reference (.cell v i) ∧
        (ofSnapshot config s).target? (.cell v i) = some t ∧
        .connector source target ∈ (ofSnapshot config s).arrowOutlines (.cell v i) t) ∨
      ∃ x f frame, (ofSnapshot config s).values[v]? = some x ∧ x.kind = .function f ∧
        (ofSnapshot config s).frameOf f.enclosing = some frame ∧
        source = .function v ∧ target = .frame frame := by
  cases hx : (ofSnapshot config s).values[v]? with
  | none => simp [valueOutlines, target?_cell_iff, hx]
  | some x =>
    have hval : (ofSnapshot config s).valueOutlines v =
        (ofSnapshot config s).kindOutlines v x.kind := by
      rw [valueOutlines, hx]
    rw [hval]
    cases hk : x.kind with
    | literal text placeholder => simp [kindOutlines, target?_cell_of_value hx, hk]
    | array cells =>
      rw [kindOutlines, mem_arrayOutlines hx hk]
      simp [hk]
    | function f =>
      rw [kindOutlines, List.mem_append, mem_closureOutlines]
      simp [target?_cell_of_value hx, hk]

/-- The arrows that a layout calls for are those that its frames and values contribute. -/
theorem mem_outlines_iff_arrow : .connector source target ∈
      (ofSnapshot config s).frames.toList.flatMap (ofSnapshot config s).frameOutlines ++
        (List.range (ofSnapshot config s).values.size).flatMap (ofSnapshot config s).valueOutlines ↔
    (ofSnapshot config s).Arrow s source target := by
  rw [List.mem_append, mem_frames_outlines, List.mem_flatMap]
  simp only [mem_valueOutlines, List.mem_range]
  constructor
  · rintro (⟨i, j, t, rfl, ht, harrow⟩ | ⟨v, -, ⟨i, t, rfl, ht, harrow⟩ |
      ⟨x, f, frame, hx, hk, hframe, rfl, rfl⟩⟩)
    · obtain ⟨⟨x, hx, hlit⟩, heq⟩ := mem_arrowOutlines.mp harrow
      cases heq
      exact .reference ht hx hlit
    · obtain ⟨⟨x, hx, hlit⟩, heq⟩ := mem_arrowOutlines.mp harrow
      cases heq
      exact .reference ht hx hlit
    · obtain ⟨id, c, hd, hfind, hres⟩ := closure_of_function hx hk
      exact .function hx hd hfind (by rw [frameOfEnv, hres, Option.bind_some, hframe])
  · intro h
    cases h with
    | @reference r v x ht hx hlit =>
      have harrow := (mem_arrowOutlines (r := r)).mpr ⟨⟨x, hx, hlit⟩, rfl⟩
      cases r with
      | binding i j => exact Or.inl ⟨i, j, v, rfl, ht, harrow⟩
      | cell array i =>
        refine Or.inr ⟨array, ?_, Or.inl ⟨i, v, rfl, ht, harrow⟩⟩
        obtain ⟨y, -, -, hy, -⟩ := target?_cell_iff.mp ht
        exact (Array.getElem?_eq_some_iff.mp hy).1
    | @function v frame x id c hx hd hfind hframe =>
      obtain ⟨node, hres, hof⟩ := Option.bind_eq_some_iff.mp hframe
      have hc : (ofSnapshot config s).cached id = some v := cached_ofSnapshot_iff.mpr ⟨x, hx, hd⟩
      -- the function of a closure knows the node that its environment resolves to
      obtain ⟨y, f, hy, hk, hres'⟩ := (faithful_ofSnapshot config s).function hc hfind
      rw [hx] at hy
      cases hy
      rw [hres] at hres'
      cases hres'
      exact Or.inr ⟨v, (Array.getElem?_eq_some_iff.mp hx).1,
        Or.inr ⟨x, f, frame, hx, hk, hof, rfl, rfl⟩⟩

/-! ## No arrow is emitted twice -/

omit [Scalar α] in
theorem nodup_arrowOutlines (l : Layout α) (r : Reference) (t : Nat) :
    ((l.arrowOutlines r t).filterMap Outline.arrow?).Nodup := by
  rw [arrowOutlines]
  split
  · exact List.nodup_nil
  · split
    · exact List.nodup_nil
    · exact List.nodup_singleton _

omit [Scalar α] in
theorem nodup_rowOutlines (l : Layout α) (b : Binding α) :
    ((l.rowOutlines b).filterMap Outline.arrow?).Nodup := by
  rw [rowOutlines, List.filterMap_cons_none rfl]
  split
  · exact List.nodup_nil
  · exact nodup_arrowOutlines ..

omit [Scalar α] in
theorem nodup_cellOutlines (l : Layout α) (c : Cell α) :
    ((l.cellOutlines c).filterMap Outline.arrow?).Nodup := by
  rw [cellOutlines, List.filterMap_cons_none rfl]
  split
  · exact List.nodup_nil
  · exact nodup_arrowOutlines ..

/-- The numbers of the frame and the row, or of the value and the cell, that an arrow comes
from. -/
def sourceKey : ArrowSource × ArrowTarget → Nat × Nat
  | (.reference (.binding frame index), _) => (frame, index)
  | (.reference (.cell array index), _) => (array, index)
  | (.function v, _) => (v, 0)

theorem nodup_frames_arrows : (((ofSnapshot config s).frames.toList.flatMap
    (ofSnapshot config s).frameOutlines).filterMap Outline.arrow?).Nodup := by
  have hbuilt := (ofSnapshot_laid config s).built
  rw [List.filterMap_flatMap]
  -- an arrow from a row of a frame carries the numbers of both
  have hkey : ∀ f ∈ (ofSnapshot config s).frames, ∀ b ∈ f.bindings,
      ∀ a ∈ ((ofSnapshot config s).rowOutlines b).filterMap Outline.arrow?,
        sourceKey a = (f.id, b.index) := by
    rintro f hf b hb ⟨source, target⟩ ha
    obtain ⟨t, -, harrow⟩ := mem_rowOutlines.mp (Outline.mem_arrows.mp ha)
    cases (mem_arrowOutlines.mp harrow).2
    obtain ⟨i, hi⟩ := Array.getElem?_of_mem hf
    obtain ⟨j, hj⟩ := Array.getElem?_of_mem hb
    rw [sourceKey, (hbuilt.row_label hi hj).1, hbuilt.frame_id hi]
  refine nodup_flatMap_of_key Frame.id (fun a => (sourceKey a).1) ?_ ?_ ?_
  · rw [map_eq_range]
    · exact List.nodup_range
    · intro i f hf
      exact hbuilt.frame_id (by rwa [Array.getElem?_toList] at hf)
  · intro f hf
    rw [arrows_frameOutlines]
    have hf' := Array.mem_toList_iff.mp hf
    obtain ⟨i, hi⟩ := Array.getElem?_of_mem hf'
    refine nodup_flatMap_of_key Binding.index (fun a => (sourceKey a).2) ?_ ?_ ?_
    · rw [map_eq_range]
      · exact List.nodup_range
      · intro j b hb
        exact (hbuilt.row_label hi (by rwa [Array.getElem?_toList] at hb)).2
    · exact fun b _ => nodup_rowOutlines _ b
    · intro b hb a ha
      rw [hkey f hf' b (Array.mem_toList_iff.mp hb) a ha]
  · intro f hf a ha
    rw [arrows_frameOutlines, List.mem_flatMap] at ha
    obtain ⟨b, hb, ha⟩ := ha
    rw [hkey f (Array.mem_toList_iff.mp hf) b (Array.mem_toList_iff.mp hb) a ha]

theorem nodup_valueOutlines (v : Nat) :
    (((ofSnapshot config s).valueOutlines v).filterMap Outline.arrow?).Nodup := by
  rw [valueOutlines]
  cases hx : (ofSnapshot config s).values[v]? with
  | none => exact List.nodup_nil
  | some x =>
    show (((ofSnapshot config s).kindOutlines v x.kind).filterMap Outline.arrow?).Nodup
    cases hk : x.kind with
    | literal text placeholder => exact List.nodup_nil
    | array cells =>
      have hlabel := (ofSnapshot_laid config s).built.labelled.value hx
      rw [kindOutlines, List.filterMap_flatMap]
      refine nodup_flatMap_of_key Cell.index (fun a => (sourceKey a).2) ?_ ?_ ?_
      · rw [map_eq_range]
        · exact List.nodup_range
        · intro j c hc
          exact (hlabel.cell hk (by rwa [Array.getElem?_toList] at hc)).2
      · exact fun c _ => nodup_cellOutlines _ c
      · rintro c hc ⟨source, target⟩ ha
        obtain ⟨t, -, harrow⟩ := mem_cellOutlines.mp (Outline.mem_arrows.mp ha)
        cases (mem_arrowOutlines.mp harrow).2
        rfl
    | function f =>
      rw [kindOutlines, List.filterMap_append, closureOutlines]
      split
      · exact List.nodup_nil
      · exact List.nodup_singleton _

theorem nodup_values_arrows (n : Nat) : (((List.range n).flatMap
    (ofSnapshot config s).valueOutlines).filterMap Outline.arrow?).Nodup := by
  rw [List.filterMap_flatMap]
  refine nodup_flatMap_of_key id (fun a => (sourceKey a).1) ?_ ?_ ?_
  · rw [List.map_id]
    exact List.nodup_range
  · exact fun v _ => nodup_valueOutlines v
  · rintro v - ⟨source, target⟩ ha
    rcases mem_valueOutlines.mp (Outline.mem_arrows.mp ha) with
      ⟨i, t, rfl, -⟩ | ⟨x, f, frame, -, -, -, rfl, -⟩
    · rfl
    · rfl

theorem nodup_arrows : (((ofSnapshot config s).frames.toList.flatMap
      (ofSnapshot config s).frameOutlines ++ (List.range (ofSnapshot config s).values.size).flatMap
        (ofSnapshot config s).valueOutlines).filterMap Outline.arrow?).Nodup := by
  rw [List.filterMap_append, List.nodup_append']
  refine ⟨nodup_frames_arrows, nodup_values_arrows _, ?_⟩
  rintro ⟨source, target⟩ hf hv
  obtain ⟨i, j, t, rfl, -⟩ := mem_frames_outlines.mp (Outline.mem_arrows.mp hf)
  obtain ⟨v, -, hv⟩ := List.mem_flatMap.mp (Outline.mem_arrows.mp hv)
  rcases mem_valueOutlines.mp hv with ⟨i', t', heq, -⟩ | ⟨x, f, frame, -, -, -, heq, -⟩
  · simp at heq
  · simp at heq

end Layout

/-! ## The diagram of a snapshot -/

variable [Scalar α]

theorem Scene.arrows_redraw (sc : Scene α) (s : Snapshot) (printable : Bool) :
    let l := (sc.load s).layout
    (sc.redraw s printable).1.arrows ~ (l.frames.toList.flatMap l.frameOutlines ++
      (List.range l.values.size).flatMap l.valueOutlines).filterMap Outline.arrow? := by
  rw [Diagram.arrows_eq]
  exact (sc.outlines_redraw s printable).filterMap _

theorem Scene.mem_arrows_redraw {sc : Scene α} {s : Snapshot} {printable : Bool}
    {source : ArrowSource} {target : ArrowTarget} :
    (source, target) ∈ (sc.redraw s printable).1.arrows ↔
      (sc.load s).layout.Arrow s source target := by
  rw [(sc.arrows_redraw s printable).mem_iff, Outline.mem_arrows]
  exact Layout.mem_outlines_iff_arrow

theorem Scene.exists_connector {sc : Scene α} {s : Snapshot} (printable : Bool)
    {source : ArrowSource} {target : ArrowTarget}
    (h : (sc.load s).layout.Arrow s source target) :
    ∃ c ∈ (sc.redraw s printable).1.connectors, c.source = source ∧ c.target = target := by
  obtain ⟨c, hc, hends⟩ := List.mem_map.mp (mem_arrows_redraw.mpr h)
  exact ⟨c, hc, Prod.mk.inj hends⟩

/-- As many arrows lead to a value that is no literal as it lists references. -/
theorem Scene.incoming_redraw {sc : Scene α} {s : Snapshot} {printable : Bool} {v : Nat}
    {x : Value α} (hx : (sc.load s).layout.values[v]? = some x) :
    (sc.redraw s printable).1.incoming v = if x.isLiteral then 0 else x.references.length := by
  set diagram := (sc.redraw s printable).1 with hdiagram
  have hcount : diagram.incoming v = (diagram.arrows.filter (·.2 = .value v)).length := by
    rw [Diagram.incoming, Diagram.arrows, ← List.countP_eq_length_filter, List.countP_map]
    rfl
  rw [hcount]
  have hback := Layout.backReferences_ofSnapshot sc.config s
  by_cases hlit : x.isLiteral = true
  · rw [if_pos hlit, List.length_eq_zero_iff, List.filter_eq_nil_iff]
    rintro ⟨source, target⟩ ha ht
    obtain rfl : target = .value v := by simpa using ht
    rw [hdiagram, mem_arrows_redraw] at ha
    cases ha with
    | reference _ hy hylit =>
      rw [hx] at hy
      cases hy
      simp [hlit] at hylit
  · rw [if_neg hlit]
    -- the arrows to the value and the references to it are the same, and each comes once
    have hperm : (diagram.arrows.filter (·.2 = .value v)).map Prod.fst ~
        x.references.map ArrowSource.reference := by
      refine (List.perm_ext_iff_of_nodup ?_ ?_).mpr fun source => ?_
      · refine List.Nodup.map_on ?_ (((sc.arrows_redraw s printable).nodup_iff.mpr
          Layout.nodup_arrows).filter _)
        rintro ⟨source, target⟩ ha ⟨source', target'⟩ ha' rfl
        have ht : target = .value v := by simpa using (List.mem_filter.mp ha).2
        have ht' : target' = .value v := by simpa using (List.mem_filter.mp ha').2
        rw [ht, ht']
      · exact (hback.nodup hx).map fun r r' h => ArrowSource.reference.inj h
      · simp only [List.mem_map, List.mem_filter, Prod.exists, decide_eq_true_eq]
        constructor
        · rintro ⟨_, _, ⟨ha, rfl⟩, rfl⟩
          cases mem_arrows_redraw.mp ha with
          | reference ht _ _ => exact ⟨_, (hback.mem_iff hx).mpr ht, rfl⟩
        · rintro ⟨r, hr, rfl⟩
          have hlit' : x.isLiteral = false := by simpa using hlit
          exact ⟨_, _, ⟨mem_arrows_redraw.mpr (.reference ((hback.mem_iff hx).mp hr) hx hlit'),
            rfl⟩, rfl⟩
    rw [← List.length_map (f := Prod.fst), hperm.length_eq, List.length_map]

/-- The diagram of a snapshot has the arrows that its layout calls for, each once. -/
theorem Scene.connects_redraw (sc : Scene α) (s : Snapshot) (printable : Bool) :
    (sc.redraw s printable).1.Connects s (sc.redraw s printable).2.layout where
  nodup := (sc.arrows_redraw s printable).nodup_iff.mpr Layout.nodup_arrows
  mem_iff := mem_arrows_redraw
  function := by
    intro v x f hx hk
    have hform : x.entry.form = .function f.enclosing := by rw [Value.entry, hk]; rfl
    obtain ⟨id, c, hd, hfind, hres⟩ := ((Layout.working_ofSnapshot sc.config s).coherent.represents
      (Layout.entry_of_value hx)).exists_closure hform
    have henv : ∃ e ∈ s.envs, e.id = c.env := by
      rw [← EnvTree.resolve_isSome_iff sc.config.framePolicy, ← Layout.tree_ofSnapshot,
        hres]
      rfl
    obtain ⟨frame, hframe⟩ := Option.isSome_iff_exists.mp
      ((Layout.frameOfEnv_isSome_iff sc.config).mpr henv)
    exact ⟨frame, mem_arrows_redraw.mpr (.function hx hd hfind hframe)⟩
  incoming := incoming_redraw

end EnvDiagram

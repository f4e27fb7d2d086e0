import EnvDiagram.Hover
import EnvDiagram.Proofs.Diagram.Functions
import EnvDiagram.Proofs.Diagram.Tasks
import EnvDiagram.Proofs.Layout.Tour
import EnvDiagram.Scalar.Exact

/-!
# The order of a drawing

Laying out and drawing are two walks. One tells a first visit by the identities of objects that it
has cached, the other by the values that it has marked. Both take the same tour through the layout,
so a value is marked when all values with smaller numbers are and no others
(`Drawing.InOrder.drawn`). At every moment all values marked have been painted, apart from arrays
without cells and perhaps the last one: an array whose first cell comes next.

* `Layout.Numbering` — the tour of a layout, told by the values that it leads to
* `Drawing.InOrder` — the values marked and painted so far
* `Drawing.InOrder.value`, `Drawing.InOrder.cell` — what the steps of a drawing do to them
* `Diagram.FollowsOrder` — the shapes and the functions of a diagram are in the order of the values
-/

namespace EnvDiagram

-- a layout is known by its lemmas here, not by how it is computed
attribute [local irreducible] Layout.ofSnapshot

variable {α : Type} {l : Layout α} {n m v w : Nat} {due : List Nat}

/-! ## The numbers of the values -/

namespace Layout

/-- The tour from where `n` values have been met and references to some values are due: a value
that is met for the first time is the next one, and the values in its cells are due before the
others. In the end `m` values have been met. -/
inductive Numbering (l : Layout α) : Nat → List Nat → Nat → Prop
  | done {n : Nat} : Numbering l n [] n
  | again {n m v : Nat} {due : List Nat} :
      v < n → Numbering l n due m → Numbering l n (v :: due) m
  | first {n m : Nat} {due : List Nat} :
      Numbering l (n + 1) (l.contents n ++ due) m → Numbering l n (n :: due) m

theorem Numbering.le (h : l.Numbering n due m) : n ≤ m := by
  induction h with
  | done => exact Nat.le_refl _
  | again _ _ ih => exact ih
  | first _ ih => exact (Nat.le_succ _).trans ih

theorem Numbering.cons_cases (h : l.Numbering n (v :: due) m) :
    v < n ∧ l.Numbering n due m ∨ v = n ∧ l.Numbering (n + 1) (l.contents n ++ due) m := by
  cases h with
  | again hlt h => exact Or.inl ⟨hlt, h⟩
  | first h => exact Or.inr ⟨rfl, h⟩

theorem filterMap_cellReferences (l : Layout α) (v : Nat) :
    (l.cellReferences v).filterMap l.target? = l.contents v := by
  rw [cellReferences, contents]
  cases hcells : (l.values[v]?).bind Value.cells? with
  | none => rfl
  | some cells =>
    have htarget : l.target? ∘ Reference.cell v = fun i => (cells[i]?).bind Cell.content := by
      funext i
      rw [Function.comp_apply, target?, hcells, Option.bind_some]
    show List.filterMap l.target? ((List.range cells.size).map (Reference.cell v)) = _
    rw [List.filterMap_map, htarget, ← List.filterMap_filterMap, filterMap_range_getElem?]

theorem Tour.numbering {waiting met : List Reference} (h : l.Tour n waiting met m) :
    l.Numbering n (waiting.filterMap l.target?) m := by
  induction h with
  | done => exact .done
  | empty hnone _ ih =>
    rw [List.filterMap_cons_none hnone]
    exact ih
  | again hv hlt _ ih =>
    rw [List.filterMap_cons_some hv]
    exact .again hlt ih
  | first hfirst _ ih =>
    rw [List.filterMap_append, filterMap_cellReferences] at ih
    rw [List.filterMap_cons_some hfirst]
    exact .first ih

end Layout

/-! ## Which values the shapes belong to -/

/-- The value that a shape belongs to: that of a literal, of a cell or of a circle. -/
def Outline.owner? : Outline → Option Nat
  | .text (.literal v) => some v
  | .rect (.cell v _) => some v
  | .circle v => some v
  | _ => none

/-- The function that a circle belongs to. -/
def Outline.circle? : Outline → Option Nat
  | .circle v => some v
  | _ => none

/-- The values that the shapes of a diagram belong to, in order. -/
def Diagram.owners (d : Diagram α) : List (Option Nat) := d.outlines.map Outline.owner?

/-- Whether the first shape of every value comes before that of any value with a larger number. -/
def Ascends (owners : List (Option Nat)) : Prop :=
  ∀ v w : Nat, v < w → some v ∈ owners → some w ∈ owners →
    owners.idxOf (some v) < owners.idxOf (some w)

/-- Further shapes do no harm if those of values without a shape belong to the largest value. -/
theorem Ascends.append {owners new : List (Option Nat)} (h : Ascends owners)
    (hnew : ∀ w, some w ∈ new → some w ∉ owners → ∀ v, some v ∈ owners ++ new → v ≤ w) :
    Ascends (owners ++ new) := by
  intro v w hlt hv hw
  have hv' : some v ∈ owners := by
    by_contra hnot
    exact absurd hlt
      (Nat.not_lt.mpr (hnew v ((List.mem_append.mp hv).resolve_left hnot) hnot w hw))
  rw [List.idxOf_append_of_mem hv']
  by_cases hw' : some w ∈ owners
  · rw [List.idxOf_append_of_mem hw']
    exact h v w hlt hv' hw'
  · rw [List.idxOf_append_of_notMem hw']
    exact Nat.lt_add_right _ (List.idxOf_lt_length_of_mem hv')

/-- The values that the shapes painted so far belong to, in order. -/
def Painter.owners (p : Painter α) : List (Option Nat) := p.outlines.map Outline.owner?

/-- The functions that the circles painted so far belong to, in order. -/
def Painter.circles (p : Painter α) : List Nat := p.outlines.filterMap Outline.circle?

theorem Outline.owner?_of_circle? {o : Outline} (h : o.circle? = some v) : o.owner? = some v := by
  cases o <;> simp_all [circle?, owner?]

/-- The shapes of a function belong to it. -/
theorem Outline.owner?_kindOutlines_function {f : FunctionGlyph α} {o : Outline}
    (ho : o ∈ l.kindOutlines n (.function f)) (hv : o.owner? = some v) : v = n := by
  rw [Layout.kindOutlines, List.mem_append, List.mem_append] at ho
  rcases ho with (ho | ho) | ho
  · rw [List.eq_of_mem_replicate ho] at hv
    exact (Option.some.inj hv).symm
  · rw [List.mem_singleton.mp ho] at hv
    cases hv
  · unfold Layout.closureOutlines at ho
    split at ho
    · cases ho
    · rw [List.mem_singleton.mp ho] at hv
      cases hv

theorem mem_owners_of_mem_circles {p : Painter α} (h : v ∈ p.circles) : some v ∈ p.owners := by
  obtain ⟨o, ho, hv⟩ := List.mem_filterMap.mp h
  exact List.mem_map.mpr ⟨o, ho, Outline.owner?_of_circle? hv⟩

/-- Whether a value is an array without cells, which is not painted. -/
def Layout.IsEmptyArray (l : Layout α) (v : Nat) : Prop :=
  ∃ x, l.values[v]? = some x ∧ x.kind = .array #[]

/-! ## What has been painted so far -/

/-- The row that is marked, as a reference. -/
def Mark.row? : Mark → Option Reference
  | .binding i j => some (.binding i j)
  | _ => none

namespace Drawing

/-- The first `n` values are marked. They have been painted in order, apart from arrays without
cells and perhaps the last one, whose first cell comes next. -/
structure InOrder (d : Drawing α) (p : Painter α) (agenda : List (DrawTask α)) (n : Nat) :
    Prop where
  drawn : p.drawn = (List.range n).reverse
  painted : ∀ v < n, some v ∈ p.owners ∨ d.layout.IsEmptyArray v ∨
    v + 1 = n ∧ ∃ bounds c rest, agenda = .cell bounds c :: rest ∧ c.array = v
  lt_of_owner : ∀ v, some v ∈ p.owners → v < n
  ascends : Ascends p.owners
  circles : p.circles.Pairwise (· ≤ ·)
  cell_lt : ∀ bounds c, .cell bounds c ∈ agenda → c.array < n

variable {d : Drawing α} {p p' : Painter α} {agenda agenda' rest : List (DrawTask α)}

theorem InOrder.mem_drawn (h : d.InOrder p agenda n) : v ∈ p.drawn ↔ v < n := by
  rw [h.drawn, List.mem_reverse, List.mem_range]

/-- Further shapes belong to values that have shapes already, or to the last one. -/
theorem InOrder.paint (h : d.InOrder p agenda n) {n' : Nat} {new : List Outline} (hle : n ≤ n')
    (hdrawn : p'.drawn = (List.range n').reverse) (houtlines : p'.outlines = p.outlines ++ new)
    (hnew : ∀ o ∈ new, ∀ u, o.owner? = some u → some u ∈ p.owners ∨ u + 1 = n')
    (hcircle : ∀ o ∈ new, ∀ u, o.circle? = some u → u + 1 = n')
    (hpainted : ∀ v < n', some v ∈ p.owners ∨ some v ∈ new.map Outline.owner? ∨
      d.layout.IsEmptyArray v ∨
      v + 1 = n' ∧ ∃ bounds c rest, agenda' = .cell bounds c :: rest ∧ c.array = v)
    (hcell : ∀ bounds c, .cell bounds c ∈ agenda' → c.array < n') : d.InOrder p' agenda' n' := by
  have howners : p'.owners = p.owners ++ new.map Outline.owner? := by
    rw [Painter.owners, houtlines, List.map_append]
    rfl
  have hlast : ∀ u, some u ∈ new.map Outline.owner? → some u ∈ p.owners ∨ u + 1 = n' := by
    intro u hu
    obtain ⟨o, ho, hou⟩ := List.mem_map.mp hu
    exact hnew o ho u hou
  have hlt : ∀ v, some v ∈ p'.owners → v < n' := by
    intro v hv
    rw [howners, List.mem_append] at hv
    rcases hv.imp_right (hlast v) with hv | hv | hv
    · exact (h.lt_of_owner v hv).trans_le hle
    · exact (h.lt_of_owner v hv).trans_le hle
    · exact Nat.lt_of_succ_le hv.le
  refine ⟨hdrawn, fun v hv => ?_, hlt, ?_, ?_, hcell⟩
  · rw [howners, List.mem_append, or_assoc]
    exact hpainted v hv
  · rw [howners] at hlt ⊢
    refine h.ascends.append fun w hw hnot v hv => ?_
    have hlargest := (hlast w hw).resolve_left hnot
    exact Nat.le_of_lt_add_one (by rw [hlargest]; exact hlt v hv)
  · have hcircles : p'.circles = p.circles ++ new.filterMap Outline.circle? := by
      rw [Painter.circles, houtlines, List.filterMap_append]
      rfl
    have hlargest : ∀ u ∈ new.filterMap Outline.circle?, u + 1 = n' := by
      intro u hu
      obtain ⟨o, ho, hou⟩ := List.mem_filterMap.mp hu
      exact hcircle o ho u hou
    rw [hcircles, List.pairwise_append]
    refine ⟨h.circles, ?_, fun v hv u hu => ?_⟩
    · refine List.pairwise_of_forall_mem_list fun u hu u' hu' => Nat.le_of_eq ?_
      exact Nat.succ.inj ((hlargest u hu).trans (hlargest u' hu').symm)
    · have hv' := (h.lt_of_owner v (mem_owners_of_mem_circles hv)).trans_le hle
      exact Nat.le_of_lt_add_one (by rw [hlargest u hu]; exact hv')

/-- Shapes that belong to no value. -/
theorem InOrder.paintPlain (h : d.InOrder p agenda n) {new : List Outline}
    (hdrawn : p'.drawn = p.drawn) (houtlines : p'.outlines = p.outlines ++ new)
    (hplain : ∀ o ∈ new, o.owner? = none)
    (hhead : ∀ bounds c rest, agenda ≠ .cell bounds c :: rest)
    (hcells : ∀ bounds c, .cell bounds c ∈ agenda' → .cell bounds c ∈ agenda) :
    d.InOrder p' agenda' n := by
  refine h.paint (Nat.le_refl n) (hdrawn.trans h.drawn) houtlines ?_ ?_ ?_ ?_
  · intro o ho u hu
    rw [hplain o ho] at hu
    cases hu
  · intro o ho u hu
    have howner := Outline.owner?_of_circle? hu
    rw [hplain o ho] at howner
    cases howner
  · intro v hv
    rcases h.painted v hv with hpainted | hempty | ⟨-, bounds, c, rest, hagenda, -⟩
    · exact Or.inl hpainted
    · exact Or.inr (Or.inr (Or.inl hempty))
    · exact absurd hagenda (hhead bounds c rest)
  · exact fun bounds c hc => h.cell_lt bounds c (hcells bounds c hc)

/-! ## Steps -/

theorem InOrder.skip (h : d.InOrder p (.value v :: rest) n) : d.InOrder p rest n :=
  h.paintPlain rfl (List.append_nil _).symm (by simp) (by simp)
    fun _ _ hc => List.mem_cons_of_mem _ hc

/-- The next value is marked. What is painted belongs to it, and leaves it out only if the value is
an array whose cells follow. -/
theorem InOrder.paintNext (h : d.InOrder p (.value n :: rest) n) (hdrawn : p'.drawn = n :: p.drawn)
    (new : List Outline) {tasks : List (DrawTask α)} (houtlines : p'.outlines = p.outlines ++ new)
    (hown : ∀ o ∈ new, ∀ u, o.owner? = some u → u = n)
    (hself : some n ∈ new.map Outline.owner? ∨ d.layout.IsEmptyArray n ∨
      ∃ bounds c more, tasks = .cell bounds c :: more ∧ c.array = n)
    (hcells : ∀ bounds c, .cell bounds c ∈ tasks → c.array = n) :
    d.InOrder p' (tasks ++ rest) (n + 1) := by
  refine h.paint (Nat.le_succ n) ?_ houtlines ?_ ?_ ?_ ?_
  · rw [hdrawn, h.drawn, List.range_succ, List.reverse_append]
    rfl
  · exact fun o ho u hu => Or.inr (congrArg _ (hown o ho u hu))
  · exact fun o ho u hu => congrArg _ (hown o ho u (Outline.owner?_of_circle? hu))
  · intro v hv
    rcases Nat.lt_succ_iff_lt_or_eq.mp hv with hv | rfl
    · rcases h.painted v hv with hpainted | hempty | ⟨-, bounds, c, more, hagenda, -⟩
      · exact Or.inl hpainted
      · exact Or.inr (Or.inr (Or.inl hempty))
      · cases hagenda
    · refine Or.inr (hself.imp_right (Or.imp_right ?_))
      rintro ⟨bounds, c, more, rfl, hc⟩
      exact ⟨rfl, bounds, c, more ++ rest, rfl, hc⟩
  · intro bounds c hc
    rcases List.mem_append.mp hc with hc | hc
    · exact Nat.lt_succ_of_le (hcells bounds c hc).le
    · exact Nat.lt_succ_of_lt (h.cell_lt bounds c (List.mem_cons_of_mem _ hc))

variable [Scalar α] {x : Value α} {bounds : Bounds α} {c : Cell α}

/-- The next value is marked, and painted unless it is an array. -/
theorem InOrder.value (hl : d.layout.Numbered) (h : d.InOrder p (.value n :: rest) n)
    (hx : d.layout.values[n]? = some x) :
    d.InOrder (d.paintValue p n x).1 ((d.paintValue p n x).2 ++ rest) (n + 1) := by
  have hdrawn := drawn_paintValue d p n x
  cases hk : x.kind with
  | literal text placeholder =>
    have hvalue : d.paintValue p n x =
        ((p.mark (.value n)).emit (d.literalShape n x.bounds text placeholder), []) := by
      simp only [paintValue, hk]
    rw [hvalue] at hdrawn ⊢
    refine h.paintNext hdrawn [.text (.literal n)] ?_ ?_ ?_ ?_
    · rw [Painter.outlines_emit]
      rfl
    · simp [Outline.owner?]
    · simp [Outline.owner?]
    · simp
  | array cells =>
    have hvalue : d.paintValue p n x =
        (p.mark (.value n), cells.toList.map (.cell x.bounds)) := by
      simp only [paintValue, hk]
    have harray : ∀ c ∈ cells, c.array = n := by
      intro c hc
      obtain ⟨i, hi⟩ := Array.getElem?_of_mem hc
      exact (hl.cell hx hk hi).1
    rw [hvalue] at hdrawn ⊢
    refine h.paintNext hdrawn [] (List.append_nil _).symm (by simp) (Or.inr ?_) ?_
    · cases hcells : cells.toList with
      | nil => exact Or.inl ⟨x, hx, by rw [hk, ← Array.toList_eq_nil_iff.mp hcells]⟩
      | cons c more =>
        refine Or.inr ⟨x.bounds, c, more.map (.cell x.bounds), rfl, harray c ?_⟩
        rw [← Array.mem_toList_iff, hcells]
        exact List.mem_cons_self
    · intro bounds c hc
      obtain ⟨c', hc', heq⟩ := List.mem_map.mp hc
      cases heq
      exact harray c (Array.mem_toList_iff.mp hc')
  | function f =>
    have hvalue : d.paintValue p n x = (d.paintFunction (p.mark (.value n)) n f, []) := by
      simp only [paintValue, hk]
    rw [hvalue] at hdrawn ⊢
    refine h.paintNext hdrawn (d.layout.kindOutlines n (.function f)) ?_ ?_ ?_ ?_
    · rw [outlines_paintFunction]
      rfl
    · exact fun o ho u => Outline.owner?_kindOutlines_function ho
    · exact Or.inl (List.mem_map.mpr ⟨.circle n, by simp [Layout.kindOutlines], rfl⟩)
    · simp

/-- A cell is painted of an array that has been painted before, or of the last value. -/
theorem InOrder.cell (h : d.InOrder p (.cell bounds c :: rest) n)
    (hfits : DrawTask.Fits d.layout (.cell bounds c)) :
    d.InOrder (d.paintCell p bounds c).1 ((d.paintCell p bounds c).2 ++ rest) n := by
  have howner : some c.array ∈ p.owners ∨ c.array + 1 = n := by
    rcases h.painted c.array (h.cell_lt bounds c List.mem_cons_self) with
      hpainted | ⟨x, hx, hk⟩ | ⟨hlast, -⟩
    · exact Or.inl hpainted
    · -- an array without cells has no such cell
      obtain ⟨y, cells, hy, hky, hc, -⟩ := hfits
      obtain rfl := Option.some.inj (hx.symm.trans hy)
      cases hk.symm.trans hky
      simp at hc
    · exact Or.inr hlast
  obtain ⟨new, houtlines, hnew⟩ : ∃ new, (d.paintCell p bounds c).1.outlines =
      p.outlines ++ .rect (.cell c.array c.index) :: new ∧ ∀ o ∈ new, o = .line := by
    unfold paintCell
    cases c.content with
    | none => exact ⟨[.line], by simp [cellShape, nullShape, ShapeKind.outline], by simp⟩
    | some target => exact ⟨[], by simp [cellShape, ShapeKind.outline], by simp⟩
  refine h.paint (Nat.le_refl n) ((drawn_paintCell ..).trans h.drawn) houtlines ?_ ?_ ?_ ?_
  · intro o ho u hu
    rcases List.mem_cons.mp ho with rfl | ho
    · rwa [← Option.some.inj hu]
    · rw [hnew o ho] at hu
      cases hu
  · intro o ho u hu
    rcases List.mem_cons.mp ho with rfl | ho
    · cases hu
    · rw [hnew o ho] at hu
      cases hu
  · intro v hv
    rcases h.painted v hv with hpainted | hempty | ⟨-, bounds', c', rest', hagenda, rfl⟩
    · exact Or.inl hpainted
    · exact Or.inr (Or.inr (Or.inl hempty))
    · cases hagenda
      exact Or.inr (Or.inl List.mem_cons_self)
  · intro bounds' c' hc
    refine h.cell_lt bounds' c' (List.mem_cons_of_mem _ ((List.mem_append.mp hc).resolve_left ?_))
    unfold paintCell
    split <;> simp

theorem InOrder.arrow {source : Reference} {start : Point α} {loop : Option (Bounds α)}
    {target : Nat} (h : d.InOrder p (.arrow source start loop target :: rest) n) :
    d.InOrder (d.paintArrow p source start loop target) rest n := by
  refine h.paintPlain (drawn_paintArrow ..) (outlines_paintArrow ..) ?_ (by simp)
    fun _ _ hc => List.mem_cons_of_mem _ hc
  intro o ho
  unfold Layout.arrowOutlines at ho
  split at ho
  · cases ho
  · split at ho
    · cases ho
    · rw [List.mem_singleton.mp ho]
      rfl

/-! ## The whole drawing -/

theorem brings_value (hx : d.layout.values[v]? = some x) :
    (d.paintValue p v x).2.filterMap DrawTask.brings = d.layout.contents v := by
  rw [brings_paintValue, Layout.contents, hx]
  rfl

theorem brings_rowTasks (b : Binding α) :
    (rowTasks b).filterMap DrawTask.brings = b.target.toList := by
  unfold rowTasks
  cases b.target <;> simp [DrawTask.brings]

/-- Along the drawing the values are marked in the order of their numbers, given that the values
that rows and cells lead to are due in this order. -/
theorem keeps_inOrder (hl : d.layout.Numbered) :
    d.Keeps fun done p agenda => ∀ later : List Nat,
      d.layout.Numbering 0 ((done.filterMap Mark.row?).filterMap d.layout.target? ++ later)
        d.layout.values.size →
      ∃ n, d.InOrder p agenda n ∧
        d.layout.Numbering n (agenda.filterMap DrawTask.brings ++ later) d.layout.values.size where
  skip := by
    intro done p v rest hv h later hlater
    obtain ⟨n, hp, hnumbering⟩ := h later hlater
    refine ⟨n, hp.skip, ?_⟩
    rcases hnumbering.cons_cases with ⟨-, hrest⟩ | ⟨rfl, hrest⟩
    · exact hrest
    · -- the next value would be marked or missing
      rcases fresh?_eq_none.mp hv with hdrawn | hsize
      · exact absurd (hp.mem_drawn.mp hdrawn) (Nat.lt_irrefl v)
      · exact absurd hrest.le (Nat.not_le.mpr (Nat.lt_succ_of_le hsize))
  value := by
    intro done p v x rest hv h later hlater
    obtain ⟨n, hp, hnumbering⟩ := h later hlater
    obtain ⟨hdrawn, hx⟩ := fresh?_eq_some.mp hv
    rcases hnumbering.cons_cases with ⟨hlt, -⟩ | ⟨rfl, hrest⟩
    · exact absurd (hp.mem_drawn.mpr hlt) hdrawn
    · refine ⟨v + 1, hp.value hl hx, ?_⟩
      rw [List.filterMap_append, brings_value hx, List.append_assoc]
      exact hrest
  cell := by
    intro done p bounds c rest hfits h later hlater
    obtain ⟨n, hp, hnumbering⟩ := h later hlater
    refine ⟨n, hp.cell hfits, ?_⟩
    have hbrings : (DrawTask.cell bounds c :: rest).filterMap DrawTask.brings =
        c.content.toList ++ rest.filterMap DrawTask.brings := by
      cases hc : c.content <;> simp [DrawTask.brings, hc]
    rw [hbrings] at hnumbering
    rw [List.filterMap_append, brings_paintCell]
    exact hnumbering
  arrow := by
    intro done p source start loop target rest _ h later hlater
    obtain ⟨n, hp, hnumbering⟩ := h later hlater
    exact ⟨n, hp.arrow, hnumbering⟩
  frame := by
    intro done p i f _ h later hlater
    rw [List.filterMap_append, show [Mark.frame i].filterMap Mark.row? = [] from rfl,
      List.append_nil] at hlater
    obtain ⟨n, hp, hnumbering⟩ := h later hlater
    have houtlines : ((p.emitAll (d.frameShapes f)).mark (.frame i)).outlines =
        p.outlines ++ [.text (.label f.id), .rect (.frame f.id)] := by
      simp [frameShapes, ShapeKind.outline]
    have hdrawn : ((p.emitAll (d.frameShapes f)).mark (.frame i)).drawn = p.drawn := by
      rw [Painter.drawn, Painter.marks_mark, Painter.marks_emitAll]
      rfl
    exact ⟨n, hp.paintPlain hdrawn houtlines (by simp [Outline.owner?]) (by simp) (by simp),
      hnumbering⟩
  row := by
    intro done p i j f b hf hb h later hlater
    have htarget : ([Mark.binding i j].filterMap Mark.row?).filterMap d.layout.target? =
        b.target.toList := by
      show [Reference.binding i j].filterMap d.layout.target? = _
      rw [List.filterMap_cons, Layout.target?, Layout.rowTarget, hf, Option.bind_some, hb,
        Option.bind_some]
      cases b.target <;> rfl
    rw [List.filterMap_append, List.filterMap_append, htarget, List.append_assoc] at hlater
    obtain ⟨n, hp, hnumbering⟩ := h _ hlater
    have houtlines : ((p.emit (d.keyShape b)).mark (.binding i j)).outlines =
        p.outlines ++ [.text (.key b.frame b.index)] := by
      simp [keyShape, ShapeKind.outline]
    refine ⟨n, hp.paintPlain rfl houtlines (by simp [Outline.owner?]) (by simp) ?_, ?_⟩
    · intro bounds c hc
      unfold rowTasks at hc
      split at hc <;> simp at hc
    · rw [brings_rowTasks]
      exact hnumbering

omit [Scalar α] in
/-- The rows that are marked with some frames. -/
theorem filterMap_frameMarks (hl : l.Numbered) (ids : List Nat) :
    (ids.flatMap l.frameMarks).filterMap Mark.row? =
      (ids.filterMap (l.frames[·]?)).flatMap fun f =>
        (List.range f.bindings.size).map (.binding f.id) := by
  induction ids with
  | nil => rfl
  | cons i rest ih =>
    rw [List.flatMap_cons, List.filterMap_append, ih, Layout.frameMarks]
    cases hf : l.frames[i]? with
    | none =>
      rw [List.filterMap_cons_none hf]
      rfl
    | some f =>
      have hrows : Mark.row? ∘ Mark.binding i = some ∘ Reference.binding i := rfl
      rw [List.filterMap_cons_some hf, List.flatMap_cons, hl.frame hf,
        List.filterMap_cons_none rfl, List.filterMap_map, hrows, List.filterMap_eq_map]

/-- When the drawing of a snapshot is done, all values are marked and painted in order. -/
theorem inOrder_paint {config : Config α} {s : Snapshot} (hlayout : d.layout = .ofSnapshot config s) :
    d.InOrder d.paint [] d.layout.values.size := by
  have hl : d.layout.Numbered := hlayout ▸ Layout.numbered_ofSnapshot config s
  have hstart : d.InOrder d.start [] 0 := by
    refine ⟨rfl, by simp, ?_, ?_, ?_, by simp⟩ <;>
      simp [Painter.owners, Painter.outlines, Painter.circles, start, Ascends]
  have hrows : ((d.layout.levels.flatMap Level.frames).flatMap d.layout.frameMarks).filterMap
      Mark.row? = Layout.rowReferences d.layout.frames := by
    rw [filterMap_frameMarks hl, hlayout, Layout.frames_of_levels]
    rfl
  have htour := (Layout.tour_ofSnapshot config s).numbering
  rw [← hlayout, ← hrows, ← List.append_nil (List.filterMap _ _)] at htour
  obtain ⟨n, hp, hnumbering⟩ := (keeps_inOrder hl).paint hl
    (fun later hlater => ⟨0, hstart, hlater⟩) [] htour
  cases hnumbering
  exact hp

end Drawing

/-! ## Hovering -/

/-- In an ascending list the next one is the first larger one. -/
theorem getElem?_idxOf?_succ {fs : List Nat} (hfs : fs.Pairwise (· < ·)) (hv : v ∈ fs) :
    ((fs.idxOf? v).bind fun i => fs[i + 1]?) = fs.find? (v < ·) := by
  induction fs with
  | nil => cases hv
  | cons f rest ih =>
    obtain ⟨hlt, hrest⟩ := List.pairwise_cons.mp hfs
    by_cases hf : f = v
    · subst hf
      rw [List.idxOf?_cons, if_pos (beq_self_eq_true f), List.find?_cons_of_neg (by simp)]
      cases rest with
      | nil => rfl
      | cons g more =>
        rw [List.find?_cons_of_pos (by simpa using hlt g List.mem_cons_self)]
        rfl
    · have hmem : v ∈ rest := (List.mem_cons.mp hv).resolve_left (Ne.symm hf)
      have hnot : ¬ v < f := Nat.not_lt.mpr (hlt v hmem).le
      rw [List.idxOf?_cons, if_neg (by simpa using hf), List.find?_cons_of_neg (by simpa using hnot),
        ← ih hrest hmem]
      cases rest.idxOf? v <;> rfl

/-- Hovering goes on to the first function with a larger number. -/
theorem Hover.next?_eq_find? {h : Hover} {fs : List Nat} (hfs : fs.Pairwise (· < ·))
    (hh : ∀ v, h.hovered = some v → v ∈ fs) :
    h.next? fs = fs.find? fun w => h.hovered.all (· < w) := by
  rw [next?]
  cases hv : h.hovered with
  | none => cases fs <;> rfl
  | some v => exact getElem?_idxOf?_succ hfs (hh v hv)

/-! ## The diagram -/

/-- Whether a value is a function. -/
def Layout.isFunction (l : Layout α) (v : Nat) : Bool := ((l.values[v]?).bind Value.glyph?).isSome

theorem Layout.mem_filter_isFunction :
    v ∈ (List.range l.values.size).filter l.isFunction ↔ ∃ f, l.glyph? v = .ok (some f) := by
  rw [List.mem_filter, List.mem_range, isFunction, Option.isSome_iff_exists]
  constructor
  · rintro ⟨-, f, hf⟩
    exact ⟨f, glyph?_eq_ok.mpr (Option.bind_eq_some_iff.mp hf)⟩
  · rintro ⟨f, hf⟩
    obtain ⟨x, hx, hglyph⟩ := glyph?_eq_ok.mp hf
    exact ⟨(Array.getElem?_eq_some_iff.mp hx).1, f, Option.bind_eq_some_iff.mpr ⟨x, hx, hglyph⟩⟩

/-- Whether a diagram follows the order of the values of a layout. -/
structure Diagram.FollowsOrder (l : Layout α) (d : Diagram α) : Prop where
  /-- The first shape of a value comes before that of any value with a larger number. -/
  ascends : Ascends d.owners
  /-- Shapes belong to values, and all values have shapes apart from arrays without cells. -/
  known : ∀ v, some v ∈ d.owners → v < l.values.size
  painted : ∀ v < l.values.size, some v ∈ d.owners ∨ l.IsEmptyArray v
  /-- The functions are all functions of the layout, in ascending order. -/
  functions : d.functions = (List.range l.values.size).filter l.isFunction
  sorted : d.functions.Pairwise (· < ·)
  /-- Hovering goes through them in this order. -/
  next : ∀ h : Hover, (∀ v, h.hovered = some v → v ∈ d.functions) →
    h.next? d.functions = d.functions.find? fun w => h.hovered.all (· < w)

theorem Diagram.filterMap_circleOwner? (d : Diagram α) :
    d.shapes.toList.filterMap circleOwner? = d.outlines.filterMap Outline.circle? := by
  rw [outlines, List.filterMap_map]
  refine List.filterMap_congr fun shape _ => ?_
  obtain ⟨key, kind⟩ := shape
  cases kind <;> rfl

/-- The functions come in the order of their circles. -/
theorem Diagram.functions_sublist (d : Diagram α) :
    d.functions.Sublist (d.outlines.filterMap Outline.circle?) := by
  rw [← filterMap_circleOwner?, functions]
  refine foldl_keeps (P := fun done (found : List Nat) => found.Sublist done) _ ?_ (.refl [])
  intro done w found _ hfound
  show (if w ∈ found then found else found ++ [w]).Sublist (done ++ [w])
  split
  · exact hfound.trans (List.sublist_append_left done [w])
  · exact hfound.append (.refl [w])

/-- If the circles ascend, so do the functions. -/
theorem Diagram.sorted_functions {d : Diagram α}
    (h : (d.outlines.filterMap Outline.circle?).Pairwise (· ≤ ·)) :
    d.functions.Pairwise (· < ·) :=
  (h.sublist d.functions_sublist).imp₂ (fun _ _ hle hne => Nat.lt_of_le_of_ne hle hne)
    d.nodup_functions

/-- In the diagram of a snapshot the shapes come in the order in which the values were placed, as
far as the first shape of each value goes, and hovering goes through the functions in that order. -/
theorem Scene.followsOrder_redraw [Scalar α] (sc : Scene α) (s : Snapshot) (printable : Bool) :
    (sc.redraw s printable).1.FollowsOrder (sc.load s).layout := by
  have hp := Drawing.inOrder_paint (d := sc.drawing s printable) (s := s) rfl
  have hdiagram : (sc.redraw s printable).1 =
      (sc.drawing s printable).diagram (sc.drawing s printable).paint := by rw [redraw_eq]
  have hmem : ∀ v, v ∈ (sc.redraw s printable).1.functions ↔
      v ∈ (List.range (sc.load s).layout.values.size).filter (sc.load s).layout.isFunction :=
    fun v => Scene.mem_functions_redraw.trans Layout.mem_filter_isFunction.symm
  have hsorted : (sc.redraw s printable).1.functions.Pairwise (· < ·) :=
    Diagram.sorted_functions (hdiagram ▸ hp.circles)
  refine ⟨?_, ?_, ?_, ?_, hsorted, fun h => Hover.next?_eq_find? hsorted⟩
  · rw [hdiagram]
    exact hp.ascends
  · rw [hdiagram]
    exact hp.lt_of_owner
  · rw [hdiagram]
    intro v hv
    refine (hp.painted v hv).imp_right fun hempty => hempty.resolve_right ?_
    rintro ⟨-, bounds, c, rest, hnil, -⟩
    cases hnil
  · refine List.Perm.eq_of_pairwise' (r := (· < ·)) hsorted ?_ ?_
    · exact List.pairwise_lt_range.filter _
    · exact (List.perm_ext_iff_of_nodup (Diagram.nodup_functions _)
        (List.nodup_range.filter _)).mpr hmem

/-- An array that holds itself and a function; the last of its cells come after the function. -/
example :
    let s : Snapshot :=
      ⟨0, [⟨⟨0⟩, "global", none, [⟨"x", some (.object ⟨1⟩), false⟩,
        ⟨"f", some (.object ⟨2⟩), false⟩]⟩],
        [(⟨1⟩, .array [.object ⟨2⟩, .object ⟨1⟩, .null]), (⟨2⟩, .closure ⟨"f", [], "", ⟨0⟩⟩)],
        some ⟨0⟩⟩
    (((Scene.ofConfig (Config.standard : Config Rat)).redraw s false).1.owners.filterMap id) =
      [0, 1, 1, 1, 1, 0, 0] := by
  cbv

end EnvDiagram

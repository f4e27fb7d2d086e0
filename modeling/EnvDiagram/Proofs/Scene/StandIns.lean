import EnvDiagram.Proofs.Diagram.Connectors
import EnvDiagram.Proofs.Layout.Anchors
import EnvDiagram.Proofs.Layout.Literals
import EnvDiagram.Proofs.Layout.Tour

/-!
# What stands in for data that cannot be drawn

An object may be missing from the heap, and a closure may be over an environment that is not in the
snapshot. Such data are not drawn as values of their own, and are not kept by identity either: a
text stands in for them wherever they are referred to, and each time a defect is noted. So the
defects that are met while laying out are those of the references that the tour meets, in order.

* `Snapshot.standIn?` — the data that cannot be drawn, with their defects and texts
* `Layout.Stage.Noted` — what is known of the meetings so far
* `Layout.Degrades` — every such reference has a text and a defect of its own
* `Scene.degrades_load` — that is so in the layout of a snapshot and in its diagrams
-/

namespace EnvDiagram

variable {α : Type}

/-- What stands in for a datum that cannot be drawn. -/
structure StandIn where
  defect : Defect
  text : String
  placeholder : Bool

/-- What stands in for a datum: for a missing object a placeholder, and for a closure over an
environment that is not in the snapshot its signature. All other data are drawn. -/
def Snapshot.standIn? (s : Snapshot) (config : Config α) : Datum → Option StandIn
  | .object id =>
    match s.heap.find? id with
    | none => some ⟨.unresolvedDatum id, config.unknownText, true⟩
    | some (.array _) => none
    | some (.closure c) =>
      if ∃ env ∈ s.envs, env.id = c.env then none
      else some ⟨.malformedClosure id c.env, c.signature, false⟩
  | _ => none

/-- The datum that a row or a cell holds. -/
def Reference.datum? (heap : Heap) (frames : Array (Frame α)) (values : Array (Value α)) :
    Reference → Option Datum
  | .binding i j => ((frames[i]?).bind fun f => f.bindings[j]?).bind Binding.datum
  | .cell v i => ((values[v]?).bind Value.datum).bind fun id =>
    match heap.find? id with
    | some (.array data) => data[i]?
    | _ => none

/-- The width that a text has at an anchor. -/
def Anchor.room [Scalar α] (config : Config α) : Anchor α → α
  | .row _ _ _ _ b => config.textMaxWidth - b.width
  | .cell _ _ b _ _ => b.width - Scalar.twice config.textMargin
  | .stray _ _ => (Bounds.empty : Bounds α).width - Scalar.twice config.textMargin

theorem Anchor.placeText_fst [Scalar α] (config : Config α) (anchor : Anchor α) (text : String) :
    (anchor.placeText config text).1 = Text.fit config (anchor.room config) text := by
  cases anchor <;> rfl

/-- An object that has a value is not stood in for. -/
theorem Snapshot.not_drawable_of_standIn? {s : Snapshot} {config : Config α} {id : DatumId}
    {x : StandIn} (h : s.standIn? config (.object id) = some x) : ¬ s.Drawable id := by
  rintro (⟨cells, hfind⟩ | ⟨c, hfind, henv⟩)
  · simp [standIn?, hfind] at h
  · simp only [standIn?, hfind, if_pos henv] at h
    cases h

-- nothing below depends on how the tree is built
attribute [local irreducible] EnvTree.build

/-! ## Visits -/

namespace Arena

variable [Scalar α] {config : Config α} {s : Snapshot} {known : Array (Frame α)} {a : Arena α}
  {anchor : Anchor α} {d : Datum}

/-- A datum that cannot be drawn has its defect noted and its text placed. -/
theorem visit_of_standIn {x : StandIn}
    (hc : a.ledger.Coherent s.heap (EnvTree.build s config.framePolicy).1)
    (h : s.standIn? config d = some x) :
    let sc : Scope α := ⟨config, s.heap, (EnvTree.build s config.framePolicy).1, known⟩
    a.visit sc anchor d = (a.addDefect x.defect).visitText sc anchor x.text x.placeholder := by
  intro sc
  cases d with
  | primitive p => cases h
  | null => cases h
  | object id =>
    have hcached : a.cached id = none := by
      by_contra hne
      obtain ⟨v, hv⟩ := Option.ne_none_iff_exists'.mp hne
      have hdraw := hc.drawable hv
      rw [← Layout.tree_ofSnapshot, Layout.drawable_iff] at hdraw
      exact Snapshot.not_drawable_of_standIn? h hdraw
    cases hfind : s.heap.find? id with
    | none =>
      simp only [Snapshot.standIn?, hfind, Option.some.injEq] at h
      subst h
      simp only [visit, hcached, sc, hfind]
    | some object =>
      cases object with
      | array cells => simp [Snapshot.standIn?, hfind] at h
      | closure c =>
        simp only [Snapshot.standIn?, hfind] at h
        split at h
        · cases h
        · rename_i henv
          obtain rfl := Option.some.inj h
          have hresolve : (EnvTree.build s config.framePolicy).1.resolve c.env = none := by
            rw [← Option.not_isSome_iff_eq_none, EnvTree.resolve_isSome_iff]
            exact henv
          simp only [visit, hcached, sc, hfind, visitClosure, hresolve]

/-- No defect is noted for a datum that is drawn. -/
theorem defects_visit_of_none (h : s.standIn? config d = none) :
    let sc : Scope α := ⟨config, s.heap, (EnvTree.build s config.framePolicy).1, known⟩
    (a.visit sc anchor d).arena.defects = a.defects := by
  intro sc
  cases d with
  | primitive p => rfl
  | null => rfl
  | object id =>
    cases hcached : a.cached id with
    | some v =>
      rw [visit_of_cached hcached]
      exact defects_reanchor sc a v anchor
    | none =>
      cases hfind : s.heap.find? id with
      | none => simp [Snapshot.standIn?, hfind] at h
      | some object =>
        cases object with
        | array cells =>
          simp only [visit, hcached, sc, hfind]
          rfl
        | closure c =>
          simp only [Snapshot.standIn?, hfind, ite_eq_left_iff, reduceCtorEq, imp_false,
            not_not] at h
          rw [← EnvTree.resolve_isSome_iff config.framePolicy] at h
          obtain ⟨node, hnode⟩ := Option.isSome_iff_exists.mp h
          simp only [visit, hcached, sc, hfind, visitClosure, hnode]
          rfl

/-- A visit notes the defect of its datum, if there is one. -/
theorem defects_visit (hc : a.ledger.Coherent s.heap (EnvTree.build s config.framePolicy).1) :
    let sc : Scope α := ⟨config, s.heap, (EnvTree.build s config.framePolicy).1, known⟩
    (a.visit sc anchor d).arena.defects =
      a.defects ++ ((s.standIn? config d).map StandIn.defect).toList := by
  intro sc
  cases h : s.standIn? config d with
  | none =>
    rw [defects_visit_of_none h]
    exact (List.append_nil _).symm
  | some x =>
    rw [visit_of_standIn hc h]
    rfl

omit [Scalar α] in
theorem anchor?_congr {b : Arena α} (h : b.values = a.values) (frames : Array (Frame α))
    (r : Reference) : b.anchor? frames r = a.anchor? frames r := by
  cases r with
  | binding i j => rfl
  | cell v i => rw [anchor?, anchor?, cell?, cell?, cellAnchor_eq, cellAnchor_eq, h]

end Arena

/-! ## Meetings -/

namespace Layout

namespace Stage

variable [Scalar α] {config : Config α} {s : Snapshot} {heap : Heap} {tree : EnvTree}
  {st st' : Stage α} {m : Meeting} {r : Reference}

/-- What is known of a meeting at a later stage: its reference holds its datum, and if that cannot
be drawn its value is the text that stands in for it, cut to the room at the reference. -/
structure Knows (config : Config α) (s : Snapshot) (st : Stage α) (m : Meeting) : Prop where
  held : m.reference.datum? s.heap st.frames st.arena.values = some m.datum
  standIn : ∀ x, s.standIn? config m.datum = some x → ∃ anchor y,
    st.arena.anchor? st.frames m.reference = some anchor ∧
      st.arena.values[m.value]? = some y ∧
      y.kind = .literal (Text.fit config (anchor.room config) x.text) x.placeholder

/-- What is known of the meetings so far: their defects have been noted in order, and each is known.
The cells that wait are there. -/
structure Noted (config : Config α) (s : Snapshot) (st : Stage α) : Prop where
  defects : st.arena.defects =
    st.log.filterMap fun m => (s.standIn? config m.datum).map StandIn.defect
  meeting : ∀ m ∈ st.log, st.Knows config s m
  cell : ∀ task ∈ st.agenda, st.arena.cellAnchor task.array task.index ≠
    .stray task.array task.index

/-! ### What a step keeps -/

theorem Step.keepsCells (h : Step config heap tree st st') : st.arena.KeepsCells st'.arena := by
  cases h with
  | frame => exact fun _ _ _ => rfl
  | blank => exact fun _ _ _ => rfl
  | row known hid hindex hd hv =>
    rw [hv]
    exact Arena.keepsCells_visit ⟨config, heap, tree, known⟩ _ _ _
  | pass => exact fun _ _ _ => rfl
  | cell known hne hv =>
    intro array index hcell
    rw [Arena.cellAnchor_setContent, hv]
    exact Arena.keepsCells_visit ⟨config, heap, tree, known⟩ _ _ _ array index hcell

theorem Step.keepsLiterals (h : Step config heap tree st st') :
    st.arena.KeepsLiterals st'.arena := by
  cases h with
  | frame => exact Arena.keepsLiterals_of_values_eq rfl
  | blank => exact Arena.keepsLiterals_of_values_eq rfl
  | row known hid hindex hd hv =>
    rw [hv]
    exact Arena.keepsLiterals_visit ..
  | pass => exact Arena.keepsLiterals_of_values_eq rfl
  | cell known hne hv =>
    rw [hv]
    exact (Arena.keepsLiterals_visit ..).trans (Arena.keepsLiterals_setContent ..)

/-- Rows and cells stay where they are. -/
theorem Step.anchor?_kept (h : Step config heap tree st st') {anchor : Anchor α}
    (hr : st.arena.anchor? st.frames r = some anchor) :
    st'.arena.anchor? st'.frames r = some anchor := by
  cases r with
  | binding i j =>
    obtain ⟨f, hf, hrow⟩ := Option.bind_eq_some_iff.mp hr
    obtain ⟨b, hb, rfl⟩ := Option.map_eq_some_iff.mp hrow
    obtain ⟨g, hg, bs, rfl, hbs⟩ := h.frame_kept hf
    rw [Arena.anchor?, hg, Option.bind_some, Frame.bindings_withRows, hbs j b hb]
    rfl
  | cell v i => exact h.keepsCells.anchor? hr

/-- Rows and cells hold what they have held. -/
theorem Step.datum?_kept (h : Step config heap tree st st') {d : Datum}
    (hr : r.datum? heap st.frames st.arena.values = some d) :
    r.datum? heap st'.frames st'.arena.values = some d := by
  cases r with
  | binding i j =>
    obtain ⟨b, hrow, hd⟩ := Option.bind_eq_some_iff.mp hr
    obtain ⟨f, hf, hb⟩ := Option.bind_eq_some_iff.mp hrow
    obtain ⟨g, hg, bs, rfl, hbs⟩ := h.frame_kept hf
    rw [Reference.datum?, hg, Option.bind_some, Frame.bindings_withRows, hbs j b hb,
      Option.bind_some, hd]
  | cell v i =>
    obtain ⟨id, hid, hd⟩ := Option.bind_eq_some_iff.mp hr
    obtain ⟨x, hx, hdatum⟩ := Option.bind_eq_some_iff.mp hid
    have hentry : st.arena.ledger.entries[v]? = some x.entry := by
      rw [Arena.ledger_entries, hx]
      rfl
    obtain ⟨y, hy, hydatum, -⟩ := h.grows.entry hentry
    rw [Arena.ledger_entries] at hy
    obtain ⟨x', hx', rfl⟩ := Option.map_eq_some_iff.mp hy
    rw [Reference.datum?, hx', Option.bind_some, show x'.datum = some id from
      hydatum.trans hdatum]
    exact hd

theorem Step.knows (h : Step config s.heap tree st st') (hm : st.Knows config s m) :
    st'.Knows config s m := by
  refine ⟨h.datum?_kept hm.held, fun x hx => ?_⟩
  obtain ⟨anchor, y, hanchor, hy, hkind⟩ := hm.standIn x hx
  obtain ⟨y', hy', hkind', -⟩ := h.keepsLiterals.value hy (by rw [Value.isLiteral, hkind])
  exact ⟨anchor, y', h.anchor?_kept hanchor, hy', hkind'.trans hkind⟩

/-! ### What a meeting adds -/

/-- The text that stands in for a datum is placed for the anchor of the visit. -/
theorem value_of_standIn {known : Array (Frame α)} {a : Arena α} {anchor : Anchor α} {d : Datum}
    {v : Visit α} (hc : a.ledger.Coherent s.heap (EnvTree.build s config.framePolicy).1)
    (hv : v = a.visit ⟨config, s.heap, (EnvTree.build s config.framePolicy).1, known⟩ anchor d)
    {x : StandIn} (hx : s.standIn? config d = some x) :
    ∃ y, v.arena.values[v.value]? = some y ∧
      y.kind = .literal (Text.fit config (anchor.room config) x.text) x.placeholder := by
  rw [hv, Arena.visit_of_standIn hc hx]
  refine ⟨_, Arena.value_visitText .., ?_⟩
  show ValueKind.literal (anchor.placeText config x.text).1 x.placeholder = _
  rw [Anchor.placeText_fst]

/-- The meetings so far and one more. -/
theorem Noted.concat (hn : st.Noted config s)
    (hstep : Step config s.heap (EnvTree.build s config.framePolicy).1 st st') {m : Meeting}
    (hlog : st'.log = st.log ++ [m])
    (hdefects : st'.arena.defects =
      st.arena.defects ++ ((s.standIn? config m.datum).map StandIn.defect).toList)
    (hm : st'.Knows config s m)
    (hcell : ∀ task ∈ st'.agenda, st'.arena.cellAnchor task.array task.index ≠
      .stray task.array task.index) : st'.Noted config s where
  defects := by
    rw [hlog, List.filterMap_append, hdefects, hn.defects]
    congr 1
  meeting := by
    intro m' hm'
    rw [hlog] at hm'
    rcases List.mem_append.mp hm' with hin | hin
    · exact hstep.knows (hn.meeting m' hin)
    · rw [List.mem_singleton.mp hin]
      exact hm
  cell := hcell

/-- A step without a meeting. -/
theorem Noted.same (hn : st.Noted config s)
    (hstep : Step config s.heap (EnvTree.build s config.framePolicy).1 st st')
    (hlog : st'.log = st.log) (hdefects : st'.arena.defects = st.arena.defects)
    (hcell : ∀ task ∈ st'.agenda, st'.arena.cellAnchor task.array task.index ≠
      .stray task.array task.index) : st'.Noted config s where
  defects := by rw [hlog, hdefects, hn.defects]
  meeting := fun m hm => hstep.knows (hn.meeting m (hlog ▸ hm))
  cell := hcell

theorem Step.noted
    (hstep : Step config s.heap (EnvTree.build s config.framePolicy).1 st st')
    (hw : st.Working s.heap (EnvTree.build s config.framePolicy).1) (hn : st.Noted config s) :
    st'.Noted config s := by
  have h := hstep
  cases h with
  | frame => exact hn.same hstep rfl rfl (by simp)
  | blank => exact hn.same hstep rfl rfl (by simp)
  | @row frames a log f bs b d known v hid hindex hd hv =>
    refine hn.concat hstep rfl ?_ ⟨?_, fun x hx => ?_⟩ ?_
    · rw [hv]
      exact Arena.defects_visit hw.coherent
    · rw [Reference.datum?, Array.getElem?_push_size, Option.bind_some, Frame.bindings_withRows,
        Array.getElem?_push_size, Option.bind_some, hd]
    · obtain ⟨y, hy, hkind⟩ := value_of_standIn hw.coherent hv hx
      refine ⟨f.rowAnchor b, y, ?_, hy, hkind⟩
      rw [Arena.anchor?, Array.getElem?_push_size, Option.bind_some, Frame.bindings_withRows,
        Array.getElem?_push_size, Frame.rowAnchor, hid, hindex]
      rfl
    · intro task ht
      rw [hv] at ht ⊢
      exact Arena.cellAnchor_of_mem_cells ht
  | pass hnull =>
    exact hn.same hstep rfl rfl fun t ht => hn.cell t (List.mem_cons_of_mem _ ht)
  | @cell frames a log task rest known v hne hv =>
    have hcell := hn.cell task List.mem_cons_self
    have hanchor : a.anchor? frames task.reference =
        some (a.cellAnchor task.array task.index) :=
      Arena.anchor?_cell_eq_some_iff.mpr ⟨rfl, hcell⟩
    refine hn.concat hstep rfl ?_ ⟨?_, fun x hx => ?_⟩ ?_
    · rw [hv]
      exact Arena.defects_visit hw.coherent
    · obtain ⟨x, id, data, hx, hdatum, hfind, hd⟩ :=
        (hw.pending.waits task List.mem_cons_self).cell
      rw [Arena.ledger_entries] at hx
      obtain ⟨y, hy, rfl⟩ := Option.map_eq_some_iff.mp hx
      refine hstep.datum?_kept (r := task.reference) ?_
      rw [CellTask.reference, Reference.datum?, hy, Option.bind_some,
        show y.datum = some id from hdatum, Option.bind_some, hfind]
      exact hd
    · obtain ⟨y, hy, hkind⟩ := value_of_standIn hw.coherent hv hx
      obtain ⟨y', hy', hkind', -⟩ := (Arena.keepsLiterals_setContent v.arena task.array task.index
        v.value).value hy (by rw [Value.isLiteral, hkind])
      exact ⟨_, y', hstep.anchor?_kept hanchor, hy', hkind'.trans hkind⟩
    · intro t ht
      rcases List.mem_append.mp ht with ht | ht
      · rw [Arena.cellAnchor_setContent]
        rw [hv] at ht ⊢
        exact Arena.cellAnchor_of_mem_cells ht
      · have hold := hn.cell t (List.mem_cons_of_mem _ ht)
        rw [hstep.keepsCells _ _ hold]
        exact hold

theorem Steps.noted {st : Stage α}
    (h : Steps config s.heap (EnvTree.build s config.framePolicy).1 start st) :
    st.Noted config s := by
  induction h with
  | refl => exact ⟨rfl, by simp [start], by simp [start]⟩
  | tail hsteps hstep ih => exact hstep.noted (Steps.working hsteps (working_start ..)) ih

theorem noted_finished (config : Config α) (s : Snapshot) : (finished config s).Noted config s :=
  Steps.noted (steps_finished config s)

end Stage

/-! ## The layout of a snapshot -/

/-- The defect of the datum that a reference holds. -/
def defectAt? (config : Config α) (s : Snapshot) (l : Layout α) (r : Reference) : Option Defect :=
  ((r.datum? s.heap l.frames l.values).bind (s.standIn? config)).map StandIn.defect

/-- Whether data that cannot be drawn degrade where they are referred to. -/
structure Degrades [Scalar α] (config : Config α) (s : Snapshot) (l : Layout α) : Prop where
  /-- Every row and cell that holds such a datum has a text of its own, cut to its room. -/
  text : ∀ {r : Reference} {d : Datum} {x : StandIn},
    r.datum? s.heap l.frames l.values = some d → s.standIn? config d = some x →
      ∃ v y anchor, l.target? r = some v ∧ l.values[v]? = some y ∧
        l.arena.anchor? l.frames r = some anchor ∧
        y.kind = .literal (Text.fit config (anchor.room config) x.text) x.placeholder ∧
        y.references = [r]
  /-- Such a datum has no value that is found again. -/
  uncached : ∀ {id : DatumId} {x : StandIn}, s.standIn? config (.object id) = some x →
    l.cached id = none
  /-- The defects are those of the tree and one for every such row and cell, in the order of the
  tour, which meets every reference that leads to a value once. -/
  defects : ∃ met, l.Tour 0 (rowReferences l.frames) met l.values.size ∧ met.Nodup ∧
    (∀ r, r ∈ met ↔ (l.target? r).isSome) ∧
    l.defects = (EnvTree.build s config.framePolicy).2 ++ met.filterMap (l.defectAt? config s)

section

-- a layout is known by its lemmas here, not by how it is computed
attribute [local irreducible] Layout.ofSnapshot

variable [Scalar α] {config : Config α} {s : Snapshot} {r : Reference} {d : Datum} {m : Meeting}

theorem datum?_of_mem_walk (hm : m ∈ walk config s) :
    m.reference.datum? s.heap (ofSnapshot config s).frames (ofSnapshot config s).values =
      some m.datum := by
  rw [frames_ofSnapshot, values_ofSnapshot]
  exact ((Stage.noted_finished config s).meeting m hm).held

/-- What holds a datum other than the empty list leads to a value. -/
theorem exists_target_of_datum?
    (hr : r.datum? s.heap (ofSnapshot config s).frames (ofSnapshot config s).values = some d)
    (hd : d ≠ .null) : ∃ v, (ofSnapshot config s).target? r = some v := by
  cases r with
  | binding i j =>
    obtain ⟨b, hrow, hdatum⟩ := Option.bind_eq_some_iff.mp hr
    obtain ⟨f, hf, hb⟩ := Option.bind_eq_some_iff.mp hrow
    rcases row_ofSnapshot (Array.mem_of_getElem? hf) (Array.mem_of_getElem? hb) with
      ⟨hnone, -⟩ | ⟨-, v, -, hv, -⟩
    · rw [hdatum] at hnone
      cases hnone
    · exact ⟨v, target?_binding_iff.mpr ⟨f, b, hf, hb, hv⟩⟩
  | cell v i =>
    obtain ⟨id, hid, hcell⟩ := Option.bind_eq_some_iff.mp hr
    obtain ⟨x, hx, hdatum⟩ := Option.bind_eq_some_iff.mp hid
    split at hcell
    · rename_i data hfind
      have hcached := cached_ofSnapshot_iff.mpr ⟨x, hx, hdatum⟩
      obtain ⟨y, cells, hy, hk, hsize, hcells⟩ := array_ofSnapshot hcached hfind
      have hlt : i < cells.size := hsize ▸ (List.getElem?_eq_some_iff.mp hcell).1
      have hc := Array.getElem?_eq_getElem hlt
      obtain ⟨-, -, hcontent⟩ := hcells i _ d hc hcell
      rcases hcontent with ⟨hnull, -⟩ | ⟨-, w, hw, -⟩
      · exact absurd hnull hd
      · exact ⟨w, target?_cell_iff.mpr ⟨y, cells, _, hy, hk, hc, hw⟩⟩
    · cases hcell

theorem degrades_ofSnapshot (config : Config α) (s : Snapshot) :
    (ofSnapshot config s).Degrades config s where
  text := by
    intro r d x hr hx
    obtain ⟨v, hv⟩ := exists_target_of_datum? hr (by rintro rfl; cases hx)
    obtain ⟨m, hm, rfl, rfl⟩ := (logged_ofSnapshot config s).links_iff.mp hv
    obtain rfl := Option.some.inj ((datum?_of_mem_walk hm).symm.trans hr)
    obtain ⟨anchor, y, hanchor, hy, hkind⟩ :=
      ((Stage.noted_finished config s).meeting m hm).standIn x hx
    have hvalue : (ofSnapshot config s).values[m.value]? = some y := by
      rw [values_ofSnapshot]
      exact hy
    have hback := backReferences_ofSnapshot config s
    refine ⟨m.value, y, anchor, hv, hvalue, ?_, hkind, ?_⟩
    · rw [frames_ofSnapshot, ← hanchor]
      exact Arena.anchor?_congr (values_ofSnapshot config s) ..
    · obtain ⟨r', hrefs⟩ := List.length_eq_one_iff.mp
        (hback.literal hvalue (by rw [Value.isLiteral, hkind]))
      have hmem := (hback.mem_iff hvalue).mpr hv
      rw [hrefs, List.mem_singleton] at hmem
      rw [hrefs, hmem]
  uncached := by
    intro id x hx
    by_contra hne
    have hsome := Option.isSome_iff_ne_none.mpr hne
    exact Snapshot.not_drawable_of_standIn? hx
      ((faithful_ofSnapshot config s).cached_isSome.mp hsome).2
  defects := by
    have hlog := logged_ofSnapshot config s
    refine ⟨_, tour_ofSnapshot config s, hlog.nodup, fun r => ?_, ?_⟩
    · rw [List.mem_map, Option.isSome_iff_exists]
      constructor
      · rintro ⟨m, hm, rfl⟩
        exact ⟨m.value, target?_of_mem_walk hm⟩
      · rintro ⟨v, hv⟩
        obtain ⟨m, hm, hr, -⟩ := hlog.links_iff.mp hv
        exact ⟨m, hm, hr⟩
    · have hnoted := (Stage.noted_finished config s).defects
      have hdefects : (ofSnapshot config s).defects = (EnvTree.build s config.framePolicy).2 ++
          (stackOf config s).arena.defects := by rw [ofSnapshot_eq]
      rw [hdefects, show (stackOf config s).arena.defects = _ from hnoted, List.filterMap_map]
      refine congrArg _ (List.filterMap_congr fun m hm => ?_)
      rw [Function.comp_apply, defectAt?, datum?_of_mem_walk hm, Option.bind_some]

end

end Layout

/-- Data that cannot be drawn degrade where they are referred to, each with a text and a defect of
its own, and no arrow of a diagram starts there or leads to such a text. -/
theorem Scene.degrades_load [Scalar α] (sc : Scene α) (s : Snapshot) :
    let l := (sc.load s).layout
    l.Degrades sc.config s ∧
      ∀ (printable : Bool) (r : Reference) (d : Datum) (x : StandIn) (v : Nat),
        r.datum? s.heap l.frames l.values = some d → s.standIn? sc.config d = some x →
        l.target? r = some v →
          ∀ c ∈ (sc.redraw s printable).1.connectors,
            c.source ≠ .reference r ∧ c.target ≠ .value v := by
  intro l
  have hdegrades : l.Degrades sc.config s := Layout.degrades_ofSnapshot sc.config s
  refine ⟨hdegrades, fun printable r d x v hr hx hv c hc => ?_⟩
  have harrow : l.Arrow s c.source c.target :=
    mem_arrows_redraw.mp (List.mem_map.mpr ⟨c, hc, rfl⟩)
  obtain ⟨v', y, anchor, hv', hy, -, hkind, -⟩ := hdegrades.text hr hx
  obtain rfl := Option.some.inj (hv.symm.trans hv')
  have hliteral : y.isLiteral = true := by rw [Value.isLiteral, hkind]
  -- an arrow to the text would lead to something other than a literal
  have hnot : ∀ z, l.values[v]? = some z → z.isLiteral ≠ false := by
    intro z hz hfalse
    obtain rfl := Option.some.inj (hy.symm.trans hz)
    rw [hliteral] at hfalse
    cases hfalse
  constructor
  · intro hsource
    rw [hsource] at harrow
    generalize c.target = target at harrow
    cases harrow with
    | reference ht hz hfalse =>
      obtain rfl := Option.some.inj (hv.symm.trans ht)
      exact hnot _ hz hfalse
  · intro htarget
    rw [htarget] at harrow
    generalize c.source = source at harrow
    cases harrow with
    | reference ht hz hfalse => exact hnot _ hz hfalse

/-- A missing object and a closure over an unknown environment, each in a cell and in a row. -/
example :
    let s : Snapshot :=
      ⟨0, [⟨⟨0⟩, "global", none, [⟨"x", some (.object ⟨1⟩), false⟩,
        ⟨"y", some (.object ⟨2⟩), false⟩, ⟨"z", some (.object ⟨9⟩), false⟩]⟩],
        [(⟨1⟩, .array [.object ⟨9⟩, .null, .object ⟨2⟩]), (⟨2⟩, .closure ⟨"f", [], "", ⟨5⟩⟩)],
        some ⟨0⟩⟩
    ((Scene.ofConfig (Config.standard : Config Rat)).load s).layout.defects =
      [.unresolvedDatum ⟨9⟩, .malformedClosure ⟨2⟩ ⟨5⟩, .malformedClosure ⟨2⟩ ⟨5⟩,
        .unresolvedDatum ⟨9⟩] := by
  cbv

end EnvDiagram

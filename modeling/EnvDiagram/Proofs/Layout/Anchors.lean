import EnvDiagram.Proofs.Layout.Coherence
import EnvDiagram.Proofs.Layout.Rows
import EnvDiagram.Scalar.Exact
import EnvDiagram.Scene

/-!
# Values stay with their anchors

An array is placed by its first reference and stays. A function stays as well until a row of the
frame that it closes over refers to it; the first such row is where it belongs from then on. So
one reference says where a value lies, whatever the order in which the references were met
(`Value.AtAnchor`). What is placed later leaves that reference where it is: the cells of arrays
and the rows of frames do not move.

* `Arena.anchor?` — the anchor of a reference that there is
* `Value.preferred?_of_moves`, `Value.AtAnchor.reanchor` — a function goes along with its references
* `Arena.settled_visit`, `Arena.settled_place` — values stay with their anchors
* `Scene.settled_load` — so they do in the layout of a snapshot
-/

namespace EnvDiagram

variable {α : Type}

/-- Whether an anchor is a row of a frame of the given node. -/
def Anchor.isRowOf (node : Nat) : Anchor α → Bool
  | .row _ _ n _ _ => n = node
  | _ => false

/-- The anchor of a reference among some frames and values, if there is such a row or cell. -/
def Arena.anchor? (a : Arena α) (frames : Array (Frame α)) : Reference → Option (Anchor α)
  | .binding frame index => (frames[frame]?).bind fun f => (f.bindings[index]?).map fun b =>
    .row frame index f.node f.bounds b.bounds
  | .cell array index => (a.cell? array index).map fun _ => a.cellAnchor array index

namespace Value

/-- The reference that says where a value lies: for a function the first row in the frame of the
node that it closes over, and otherwise the first reference of all. -/
def preferred? (x : Value α) (anchorOf : Reference → Option (Anchor α)) : Option Reference :=
  match x.kind with
  | .function f =>
    (x.references.find? fun r => (anchorOf r).any (·.isRowOf f.enclosing)).or x.references.head?
  | _ => x.references.head?

variable [Scalar α]

/-- Whether a value lies where an anchor puts it: a function with its middle, an array with its
corner and its cells side by side. A literal lies wherever it was put. -/
def LiesAt (config : Config α) (x : Value α) (anchor : Anchor α) : Prop :=
  match x.kind with
  | .literal .. => True
  | .array cells =>
    ⟨x.bounds.x, x.bounds.y⟩ = anchor.arrayOrigin config ∧
      ∀ (i : Nat) (c : Cell α), cells[i]? = some c →
        c.bounds.x = x.bounds.x + (i : α) * config.cellWidth ∧ c.bounds.y = x.bounds.y
  | .function f => f.center = anchor.functionCenter config ∧ x.bounds = f.bounds

/-- Whether all references to a value are there, and it lies where the preferred one puts it. -/
structure AtAnchor (config : Config α) (anchorOf : Reference → Option (Anchor α)) (x : Value α) :
    Prop where
  known : ∀ r ∈ x.references, (anchorOf r).isSome
  lies : ∃ r anchor, x.preferred? anchorOf = some r ∧ anchorOf r = some anchor ∧
    x.LiesAt config anchor

end Value

/-! ## Anchors of references -/

namespace Arena

variable {a b : Arena α} {frames : Array (Frame α)} {anchor : Anchor α} {r : Reference}
  {array index : Nat}

/-- The cells that there are have anchors. -/
theorem isSome_cell?_iff :
    (a.cell? array index).isSome ↔ a.cellAnchor array index ≠ .stray array index := by
  rw [cellAnchor]
  cases hvalue : a.values[array]? with
  | none => simp [cell?, hvalue]
  | some value => cases hcell : a.cell? array index <;> simp

theorem anchor?_cell_eq_some_iff : a.anchor? frames (.cell array index) = some anchor ↔
    a.cellAnchor array index = anchor ∧ a.cellAnchor array index ≠ .stray array index := by
  rw [← isSome_cell?_iff, anchor?]
  cases a.cell? array index <;> simp

/-- Whether all cells of an arena are there in another one, in their places. -/
def KeepsCells (a b : Arena α) : Prop := ∀ array index : Nat,
  a.cellAnchor array index ≠ .stray array index →
    b.cellAnchor array index = a.cellAnchor array index

theorem KeepsCells.anchor? (h : a.KeepsCells b) (hr : a.anchor? frames r = some anchor) :
    b.anchor? frames r = some anchor := by
  cases r with
  | binding frame index => exact hr
  | cell array index =>
    obtain ⟨rfl, hcell⟩ := anchor?_cell_eq_some_iff.mp hr
    have hkeep := h array index hcell
    exact anchor?_cell_eq_some_iff.mpr ⟨hkeep, hkeep ▸ hcell⟩

theorem anchor?_push (f : Frame α) (hr : a.anchor? frames r = some anchor) :
    a.anchor? (frames.push f) r = some anchor := by
  cases r with
  | binding frame index =>
    obtain ⟨f', hf', hrow⟩ := Option.bind_eq_some_iff.mp hr
    obtain ⟨hlt, hval⟩ := Array.getElem?_eq_some_iff.mp hf'
    rw [anchor?, Array.getElem?_push_lt hlt, hval]
    exact hrow
  | cell array index => exact hr

theorem anchor?_rowAnchor {f : Frame α} {row : Binding α} (hf : frames[f.id]? = some f)
    (hrow : f.bindings[row.index]? = some row) :
    a.anchor? frames (f.rowAnchor row).reference = some (f.rowAnchor row) := by
  show a.anchor? frames (.binding f.id row.index) = _
  rw [anchor?, hf, Option.bind_some, hrow]
  rfl

theorem map_rowAnchor_unbound (f : Frame α) (frame index : Nat) :
    ((f.unbound.bindings[index]?).map fun b =>
      Anchor.row frame index f.unbound.node f.unbound.bounds b.bounds) =
      (f.bindings[index]?).map fun b => .row frame index f.node f.bounds b.bounds := by
  rw [Frame.unbound, Array.getElem?_map, Option.map_map]
  rfl

/-- The values of the rows of a frame do not matter for the anchors. -/
theorem anchor?_push_of_unbound {f g : Frame α} (h : g.unbound = f.unbound) :
    a.anchor? (frames.push g) r = a.anchor? (frames.push f) r := by
  cases r with
  | cell array index => rfl
  | binding frame index =>
    rw [anchor?, anchor?, Array.getElem?_push, Array.getElem?_push]
    split
    · rw [Option.bind_some, Option.bind_some, ← map_rowAnchor_unbound g, ← map_rowAnchor_unbound f,
        h]
    · rfl

theorem keepsCells_setContent (a : Arena α) (array index content : Nat) :
    a.KeepsCells (a.setContent array index content) :=
  fun array' index' _ => cellAnchor_setContent a array index content array' index'

theorem keepsCells_visit [Scalar α] (sc : Scope α) (a : Arena α) (anchor : Anchor α) (d : Datum) :
    a.KeepsCells (a.visit sc anchor d).arena :=
  fun _ _ hcell => cellAnchor_visit sc anchor d hcell

end Arena

/-! ## Values and their anchors -/

namespace Value

variable {anchorOf anchorOf' : Reference → Option (Anchor α)} {x : Value α} {anchor : Anchor α}
  {r : Reference} {f : FunctionGlyph α}

/-- With a further reference another one is preferred only if that is the first row in the frame
that a function closes over. -/
theorem preferred?_addReference_of_not_first (hne : x.references ≠ [])
    (h : ∀ f, x.kind = .function f → (anchorOf r).any (·.isRowOf f.enclosing) = true →
      x.references.any (fun r => (anchorOf r).any (·.isRowOf f.enclosing)) = true) :
    (x.addReference r).preferred? anchorOf = x.preferred? anchorOf := by
  obtain ⟨id, datum, kind, bounds, references⟩ := x
  have hhead : (references ++ [r]).head? = references.head? := List.head?_append_of_ne_nil _ hne
  cases kind with
  | literal text placeholder => exact hhead
  | array cells => exact hhead
  | function f =>
    show (List.find? _ (references ++ [r])).or (references ++ [r]).head? = (List.find? _ _).or _
    rw [hhead, List.find?_append]
    cases hrow : (anchorOf r).any (·.isRowOf f.enclosing) with
    | false => rw [List.find?_singleton, if_neg (by simp [hrow]), Option.or_none]
    | true =>
      have hsome : (references.find? fun r => (anchorOf r).any (·.isRowOf f.enclosing)).isSome := by
        rw [List.find?_isSome, ← List.any_eq_true]
        exact h f rfl hrow
      rw [Option.or_of_isSome hsome]

theorem preferred?_addReference_of_first (hkind : x.kind = .function f)
    (hfirst : x.references.any (fun r => (anchorOf r).any (·.isRowOf f.enclosing)) = false)
    (hr : (anchorOf r).any (·.isRowOf f.enclosing) = true) :
    (x.addReference r).preferred? anchorOf = some r := by
  have hnone : x.references.find? (fun r => (anchorOf r).any (·.isRowOf f.enclosing)) = none := by
    rw [List.find?_eq_none]
    intro r' hr'
    rw [List.any_eq_false] at hfirst
    exact hfirst r' hr'
  rw [preferred?, show (x.addReference r).kind = _ from hkind]
  show (List.find? _ (x.references ++ [r])).or _ = _
  rw [List.find?_append, hnone, Option.none_or, List.find?_singleton, if_pos hr, Option.some_or]

theorem preferred?_congr (h : ∀ r ∈ x.references, anchorOf' r = anchorOf r) :
    x.preferred? anchorOf' = x.preferred? anchorOf := by
  unfold preferred?
  split
  · rw [List.find?_congr fun r hr => by rw [h r hr]]
  · rfl

variable [Scalar α] {config : Config α}

theorem AtAnchor.mono (h : x.AtAnchor config anchorOf)
    (hkeep : ∀ r anchor, anchorOf r = some anchor → anchorOf' r = some anchor) :
    x.AtAnchor config anchorOf' := by
  have hsame : ∀ r ∈ x.references, anchorOf' r = anchorOf r := by
    intro r hr
    obtain ⟨anchor, hanchor⟩ := Option.isSome_iff_exists.mp (h.known r hr)
    rw [hanchor, hkeep r anchor hanchor]
  obtain ⟨r, anchor, hpreferred, hanchor, hlies⟩ := h.lies
  refine ⟨fun r hr => ?_, r, anchor, ?_, hkeep r anchor hanchor, hlies⟩
  · rw [hsame r hr]
    exact h.known r hr
  · rw [preferred?_congr hsame, hpreferred]

omit [Scalar α] in
/-- A value that has just been placed has one reference. -/
theorem preferred?_of_singleton (hrefs : x.references = [r])
    (anchorOf : Reference → Option (Anchor α)) : x.preferred? anchorOf = some r := by
  unfold preferred?
  split
  · rw [hrefs, List.find?_singleton]
    split <;> rfl
  · rw [hrefs]
    rfl

theorem AtAnchor.of_singleton (hrefs : x.references = [r]) (hr : anchorOf r = some anchor)
    (hlies : x.LiesAt config anchor) : x.AtAnchor config anchorOf := by
  refine ⟨fun r' hr' => ?_, r, anchor, preferred?_of_singleton hrefs anchorOf, hr, hlies⟩
  rw [hrefs, List.mem_singleton] at hr'
  rw [hr', hr]
  rfl

theorem AtAnchor.setContent (h : x.AtAnchor config anchorOf) (index content : Nat) :
    (x.setContent index content).AtAnchor config anchorOf := by
  obtain ⟨id, datum, kind, bounds, references⟩ := x
  cases kind with
  | literal text placeholder => exact h
  | function f => exact h
  | array cells =>
    obtain ⟨r, anchor, hpreferred, hr, horigin, hcells⟩ := h.lies
    refine ⟨h.known, r, anchor, hpreferred, hr, horigin, fun i c hc => ?_⟩
    rw [Array.getElem?_modify] at hc
    split at hc
    · obtain ⟨c', hc', rfl⟩ := Option.map_eq_some_iff.mp hc
      exact hcells i c' hc'
    · exact hcells i c hc

theorem AtAnchor.known_addReference (h : x.AtAnchor config anchorOf)
    (hr : anchorOf r = some anchor) : ∀ q ∈ x.references ++ [r], (anchorOf q).isSome := by
  intro q hq
  rcases List.mem_append.mp hq with hq | hq
  · exact h.known q hq
  · rw [List.mem_singleton.mp hq, hr]
    rfl

/-- A value that is reached again from an anchor: a function may move there. -/
def reanchor (sc : Scope α) (anchor : Anchor α) (x : Value α) : Value α :=
  match x.kind with
  | .function f =>
    if anchor.isRowOf f.enclosing ∧ x.references.any (sc.isRowOf f.enclosing) = false then
      x.moveTo (anchor.functionCenter sc.config)
    else x
  | _ => x

/-- Whether a value moves when it is reached again: only a function does, from the first row in the
frame of the node that it closes over. -/
def Moves (sc : Scope α) (anchor : Anchor α) (x : Value α) : Prop :=
  ∃ f, x.kind = .function f ∧ anchor.isRowOf f.enclosing = true ∧
    x.references.any (sc.isRowOf f.enclosing) = false

variable {sc : Scope α}

theorem reanchor_of_moves (h : x.Moves sc anchor) :
    x.reanchor sc anchor = x.moveTo (anchor.functionCenter sc.config) := by
  obtain ⟨f, hkind, hmoves⟩ := h
  rw [reanchor, hkind]
  exact if_pos hmoves

theorem reanchor_of_not_moves (h : ¬ x.Moves sc anchor) : x.reanchor sc anchor = x := by
  rw [reanchor]
  cases hkind : x.kind with
  | literal text placeholder => rfl
  | array cells => rfl
  | function f => exact if_neg fun hmoves => h ⟨f, hkind, hmoves⟩

omit [Scalar α] in
theorem any_isRowOf (hrows : ∀ node, ∀ r ∈ x.references,
    sc.isRowOf node r = (anchorOf r).any (·.isRowOf node)) (node : Nat) :
    x.references.any (sc.isRowOf node) =
      x.references.any fun r => (anchorOf r).any (·.isRowOf node) := by
  rw [Bool.eq_iff_iff, List.any_eq_true, List.any_eq_true]
  exact exists_congr fun r => and_congr_right fun hr => by rw [hrows node r hr]

/-- A value that moves prefers the reference that it is reached by. -/
theorem preferred?_of_moves (hmoves : x.Moves sc anchor)
    (hrows : ∀ node, ∀ r ∈ x.references, sc.isRowOf node r = (anchorOf r).any (·.isRowOf node))
    (hr : anchorOf r = some anchor) :
    ((x.reanchor sc anchor).addReference r).preferred? anchorOf = some r := by
  rw [reanchor_of_moves hmoves]
  obtain ⟨f, hkind, hrow, hfirst⟩ := hmoves
  rw [any_isRowOf hrows] at hfirst
  have hmoved : x.moveTo (anchor.functionCenter sc.config) =
      let f := { f with center := anchor.functionCenter sc.config }
      { x with kind := .function f, bounds := f.bounds } := by rw [moveTo, hkind]
  rw [hmoved]
  refine preferred?_addReference_of_first rfl hfirst ?_
  rw [hr, Option.any_some]
  exact hrow

/-- A value that stays prefers the same reference as before. -/
theorem preferred?_of_not_moves (hmoves : ¬ x.Moves sc anchor)
    (hrows : ∀ node, ∀ r ∈ x.references, sc.isRowOf node r = (anchorOf r).any (·.isRowOf node))
    (hr : anchorOf r = some anchor) (hne : x.references ≠ []) :
    ((x.reanchor sc anchor).addReference r).preferred? anchorOf = x.preferred? anchorOf := by
  rw [reanchor_of_not_moves hmoves]
  refine preferred?_addReference_of_not_first hne fun f hkind hrow => ?_
  rw [hr, Option.any_some] at hrow
  rw [← any_isRowOf hrows]
  by_contra hfirst
  exact hmoves ⟨f, hkind, hrow, by simpa using hfirst⟩

theorem AtAnchor.references_ne_nil (h : x.AtAnchor config anchorOf) : x.references ≠ [] := by
  obtain ⟨r, anchor, hpreferred, -, -⟩ := h.lies
  intro hnil
  rw [preferred?, hnil] at hpreferred
  split at hpreferred <;> cases hpreferred

/-- A value that is reached again lies where the reference puts it that is preferred then. -/
theorem AtAnchor.reanchor (h : x.AtAnchor sc.config anchorOf)
    (hrows : ∀ node, ∀ r ∈ x.references,
      sc.isRowOf node r = (anchorOf r).any (·.isRowOf node))
    (hr : anchorOf r = some anchor) :
    ((x.reanchor sc anchor).addReference r).AtAnchor sc.config anchorOf := by
  by_cases hmoves : x.Moves sc anchor
  · have hpreferred := preferred?_of_moves hmoves hrows hr
    rw [reanchor_of_moves hmoves] at hpreferred ⊢
    obtain ⟨f, hkind, -⟩ := hmoves
    have hmoved : x.moveTo (anchor.functionCenter sc.config) =
        let f := { f with center := anchor.functionCenter sc.config }
        { x with kind := .function f, bounds := f.bounds } := by rw [moveTo, hkind]
    rw [hmoved] at hpreferred ⊢
    exact ⟨h.known_addReference hr, r, anchor, hpreferred, hr, rfl, rfl⟩
  · have hpreferred := preferred?_of_not_moves hmoves hrows hr h.references_ne_nil
    rw [reanchor_of_not_moves hmoves] at hpreferred ⊢
    obtain ⟨r', anchor', hold, hr', hlies⟩ := h.lies
    exact ⟨h.known_addReference hr, r', anchor', hpreferred.trans hold, hr', hlies⟩

end Value

/-! ## Placing values -/

namespace Arena

variable [Scalar α] {a b : Arena α} {sc : Scope α} {config : Config α} {frames : Array (Frame α)}
  {anchor : Anchor α} {r : Reference} {v : Nat}

/-- Whether the values of an arena lie where their references put them. -/
structure Settled (config : Config α) (frames : Array (Frame α)) (a : Arena α) : Prop where
  value : ∀ {v : Nat} {x : Value α}, a.values[v]? = some x → x.AtAnchor config (a.anchor? frames)

omit [Scalar α] in
theorem isRowOf_eq (hr : (a.anchor? sc.frames r).isSome) (node : Nat) :
    sc.isRowOf node r = (a.anchor? sc.frames r).any (·.isRowOf node) := by
  obtain ⟨anchor, hanchor⟩ := Option.isSome_iff_exists.mp hr
  rw [hanchor]
  cases r with
  | binding frame index =>
    obtain ⟨f, hf, hrow⟩ := Option.bind_eq_some_iff.mp hanchor
    obtain ⟨b, -, rfl⟩ := Option.map_eq_some_iff.mp hrow
    rw [Scope.isRowOf, hf]
    rfl
  | cell array index =>
    obtain ⟨rfl, -⟩ := anchor?_cell_eq_some_iff.mp hanchor
    rw [cellAnchor]
    split <;> rfl

theorem modify_congr {β : Type} {xs : Array β} {f g : β → β}
    (h : ∀ x, xs[v]? = some x → f x = g x) : xs.modify v f = xs.modify v g := by
  refine Array.ext_getElem? fun w => ?_
  rw [Array.getElem?_modify, Array.getElem?_modify]
  split
  · rename_i hvw
    subst hvw
    exact Option.map_congr h
  · rfl

theorem modify_eq_self {β : Type} {xs : Array β} {f : β → β} (h : ∀ x, xs[v]? = some x → f x = x) :
    xs.modify v f = xs := by
  rw [modify_congr (g := id) h]
  refine Array.ext_getElem? fun w => ?_
  rw [Array.getElem?_modify, Option.map_id, id, ite_self]

theorem reanchor_of_moves {x : Value α} (hx : a.values[v]? = some x) (h : x.Moves sc anchor) :
    a.reanchor sc v anchor =
      { a with
        values := a.values.modify v fun _ => x.reanchor sc anchor
        extent := a.extent.union (x.reanchor sc anchor).bounds } := by
  rw [Value.reanchor_of_moves h]
  obtain ⟨f, hkind, hrow, hfirst⟩ := h
  cases anchor with
  | cell array index cellBounds isLast height => cases hrow
  | stray array index => cases hrow
  | row frame index node frameBounds rowBounds =>
    have hmoves : node = f.enclosing ∧ x.references.any (sc.isRowOf f.enclosing) = false :=
      ⟨of_decide_eq_true hrow, hfirst⟩
    simp only [reanchor, hx, hkind, if_pos hmoves]

theorem reanchor_of_not_moves (h : ∀ x, a.values[v]? = some x → ¬ x.Moves sc anchor) :
    a.reanchor sc v anchor = a := by
  unfold reanchor
  split
  · rename_i frame index node frameBounds rowBounds x hx
    split
    · rename_i f hkind
      refine if_neg fun hmoves => h x hx ⟨f, hkind, ?_⟩
      exact ⟨decide_eq_true hmoves.1, hmoves.2⟩
    · rfl
  · rfl

/-- Of the values only the one that is reached again may change. -/
theorem values_reanchor (sc : Scope α) (a : Arena α) (v : Nat) (anchor : Anchor α) :
    (a.reanchor sc v anchor).values = a.values.modify v (Value.reanchor sc anchor) := by
  by_cases hmoves : ∃ x, a.values[v]? = some x ∧ x.Moves sc anchor
  · obtain ⟨x, hx, hx'⟩ := hmoves
    rw [reanchor_of_moves hx hx']
    show a.values.modify v (fun _ => x.reanchor sc anchor) = _
    refine modify_congr fun y hy => ?_
    rw [Option.some.inj (hx.symm.trans hy)]
  · have hstays : ∀ x, a.values[v]? = some x → ¬ x.Moves sc anchor :=
      fun x hx hx' => hmoves ⟨x, hx, hx'⟩
    rw [reanchor_of_not_moves hstays]
    exact (modify_eq_self fun x hx => Value.reanchor_of_not_moves (hstays x hx)).symm

theorem values_visitText (hb : b.values = a.values) (sc : Scope α) (anchor : Anchor α)
    (text : String) (placeholder : Bool) :
    (b.visitText sc anchor text placeholder).arena.values = a.values.push
      ⟨b.values.size, none, .literal (anchor.placeText sc.config text).1 placeholder,
        (anchor.placeText sc.config text).2, [anchor.reference]⟩ := by
  rw [← hb]
  rfl

theorem values_again (sc : Scope α) (a : Arena α) (v : Nat) (anchor : Anchor α) :
    ((a.reanchor sc v anchor).addReference v anchor.reference).values =
      a.values.modify v fun x => (x.reanchor sc anchor).addReference anchor.reference := by
  have hadd : ((a.reanchor sc v anchor).addReference v anchor.reference).values =
      (a.reanchor sc v anchor).values.modify v fun x => x.addReference anchor.reference := rfl
  rw [hadd, values_reanchor]
  refine Array.ext_getElem? fun w => ?_
  simp only [Array.getElem?_modify]
  split
  · rw [Option.map_map]
    rfl
  · rfl

theorem Settled.modify (h : a.Settled config frames) {change : Value α → Value α}
    (hb : b.values = a.values.modify v change) (hkeeps : a.KeepsCells b)
    (hchange : ∀ x, a.values[v]? = some x → x.AtAnchor config (a.anchor? frames) →
      (change x).AtAnchor config (a.anchor? frames)) : b.Settled config frames := by
  refine ⟨fun {w x} hx => ?_⟩
  have hold : x.AtAnchor config (a.anchor? frames) := by
    rw [hb, Array.getElem?_modify] at hx
    split at hx
    · rename_i hvw
      subst hvw
      obtain ⟨y, hy, rfl⟩ := Option.map_eq_some_iff.mp hx
      exact hchange y hy (h.value hy)
    · exact h.value hx
  exact hold.mono fun r anchor => hkeeps.anchor?

theorem Settled.push (h : a.Settled config frames) {x : Value α}
    (hb : b.values = a.values.push x) (hkeeps : a.KeepsCells b) (hrefs : x.references = [r])
    (hr : a.anchor? frames r = some anchor) (hlies : x.LiesAt config anchor) :
    b.Settled config frames := by
  refine ⟨fun {w y} hy => ?_⟩
  rw [hb, Array.getElem?_push] at hy
  split at hy
  · cases hy
    exact .of_singleton hrefs (hkeeps.anchor? hr) hlies
  · exact (h.value hy).mono fun r anchor => hkeeps.anchor?

/-- The values settle among further frames, and among frames whose rows have got their values. -/
theorem Settled.pushFrame (h : a.Settled config frames) (f : Frame α) :
    a.Settled config (frames.push f) :=
  ⟨fun hx => (h.value hx).mono fun _ _ => anchor?_push f⟩

theorem Settled.of_unbound {f g : Frame α} (h : a.Settled config (frames.push f))
    (hfg : g.unbound = f.unbound) : a.Settled config (frames.push g) :=
  ⟨fun hx => (h.value hx).mono fun _ _ hr => (anchor?_push_of_unbound hfg).trans hr⟩

/-- What is visited from an anchor is placed there, or stays unless the anchor is preferred. -/
theorem settled_visit (h : a.Settled sc.config sc.frames)
    (hr : a.anchor? sc.frames anchor.reference = some anchor) (d : Datum) :
    (a.visit sc anchor d).arena.Settled sc.config sc.frames := by
  have hkeeps := keepsCells_visit sc a anchor d
  rcases visit_cases sc a anchor d with ⟨v, heq⟩ | ⟨b, text, placeholder, hvalues, -, heq⟩ |
    ⟨id, cells, heq⟩ | ⟨id, c, node, heq⟩
  · rw [heq] at hkeeps ⊢
    have hvalues := values_again sc a v anchor
    exact h.modify hvalues hkeeps fun x _ hx =>
      hx.reanchor (fun node r hmem => isRowOf_eq (hx.known r hmem) node) hr
  · rw [heq] at hkeeps ⊢
    exact h.push (values_visitText hvalues sc anchor text placeholder) hkeeps rfl hr trivial
  · rw [heq] at hkeeps ⊢
    refine h.push rfl hkeeps rfl hr ⟨rfl, fun i c hc => ?_⟩
    simp only [Cell.row, List.getElem?_toArray, List.getElem?_map] at hc
    obtain ⟨j, hj, rfl⟩ := Option.map_eq_some_iff.mp hc
    obtain ⟨-, rfl⟩ := List.getElem?_eq_some_iff.mp hj
    rw [List.getElem_range]
    exact ⟨rfl, rfl⟩
  · rw [heq] at hkeeps ⊢
    exact h.push rfl hkeeps rfl hr ⟨rfl, rfl⟩

/-- A cell that is filled stays where it is, and so does all that has anchors. -/
theorem settled_setContent (h : a.Settled config frames) (array index content : Nat) :
    (a.setContent array index content).Settled config frames := by
  have hvalues : (a.setContent array index content).values =
      a.values.modify array fun x => x.setContent index content := rfl
  exact h.modify hvalues (keepsCells_setContent a array index content) fun _ _ hx =>
    hx.setContent index content

/-- The cells that a visit brings along are there. -/
theorem cellAnchor_of_mem_cells {d : Datum} {task : CellTask}
    (h : task ∈ (a.visit sc anchor d).cells) :
    (a.visit sc anchor d).arena.cellAnchor task.array task.index ≠
      .stray task.array task.index := by
  rcases visit_cases sc a anchor d with ⟨v, heq⟩ | ⟨b, text, placeholder, -, -, heq⟩ |
    ⟨id, cells, heq⟩ | ⟨id, c, node, heq⟩
  · rw [heq] at h
    cases h
  · rw [heq] at h
    cases h
  · rw [heq] at h ⊢
    obtain ⟨harray, hdatum⟩ := Ledger.mem_cellTasks.mp h
    rw [harray, cellAnchor_visitArray sc a anchor id (List.getElem?_eq_some_iff.mp hdatum).1]
    exact fun hstray => by cases hstray
  · rw [heq] at h
    cases h

/-- What a datum leads to is placed at cells that are there. -/
theorem settled_place (h : a.Settled sc.config sc.frames)
    (hr : a.anchor? sc.frames anchor.reference = some anchor) (d : Datum) :
    (a.place sc anchor d).1.Settled sc.config sc.frames := by
  let P : Arena α → List CellTask → Prop := fun a agenda =>
    a.Settled sc.config sc.frames ∧ ∀ task ∈ agenda,
      a.cellAnchor task.array task.index ≠ .stray task.array task.index
  refine (run_keeps (P := P) (fun h => ⟨h.1, fun t ht => h.2 t (List.mem_cons_of_mem _ ht)⟩) ?_
    ⟨settled_visit h hr d, fun task => cellAnchor_of_mem_cells⟩).1
  intro b task rest hb v
  obtain ⟨hsettled, hcells⟩ := hb
  have hcell := hcells task List.mem_cons_self
  have hanchor : b.anchor? sc.frames (b.cellAnchor task.array task.index).reference =
      some (b.cellAnchor task.array task.index) := by
    rw [reference_cellAnchor]
    exact anchor?_cell_eq_some_iff.mpr ⟨rfl, hcell⟩
  refine ⟨settled_setContent (settled_visit hsettled hanchor task.datum) .., fun t ht => ?_⟩
  rw [cellAnchor_setContent]
  rcases List.mem_append.mp ht with ht | ht
  · exact cellAnchor_of_mem_cells ht
  · have hold := hcells t (List.mem_cons_of_mem _ ht)
    rw [cellAnchor_visit sc _ task.datum hold]
    exact hold

end Arena

/-! ## Rows and frames -/

namespace Layout

variable [Scalar α] {config : Config α} {s : Snapshot}

theorem settled_bindFrame {sc : Scope α} {a : Arena α} {frame : Frame α}
    (h : a.Settled sc.config sc.frames) (hframe : sc.frames[frame.id]? = some frame)
    (hrows : ∀ b ∈ frame.bindings, frame.bindings[b.index]? = some b) :
    (bindFrame sc a frame).arena.Settled sc.config sc.frames := by
  let P : List (Binding α) → Bound α → Prop := fun _ bound =>
    bound.arena.Settled sc.config sc.frames
  unfold bindFrame
  rw [← Array.foldl_toList]
  refine foldl_keeps (P := P) _ (fun done b bound hdone hbound => ?_) ⟨h.value⟩
  have hb : b ∈ frame.bindings := by
    rw [← Array.mem_toList_iff]
    exact hdone.subset (List.mem_append_right done List.mem_cons_self)
  show (bindRow sc frame bound b).arena.Settled _ _
  cases hd : b.datum with
  | none =>
    rw [bindRow_of_none hd]
    exact hbound
  | some d =>
    rw [bindRow_of_some hd]
    exact Arena.settled_place hbound (Arena.anchor?_rowAnchor hframe (hrows b hb)) d

theorem getElem?_bindings_place {id nodeId : Nat} {node : TreeNode} {envs : List Environment}
    {p : Point α} {b : Binding α} (h : b ∈ (Frame.place config id nodeId node envs p).bindings) :
    (Frame.place config id nodeId node envs p).bindings[b.index]? = some b := by
  obtain ⟨i, hi⟩ := Array.getElem?_of_mem h
  have hindex : b.index = i := by
    rw [Frame.place, List.getElem?_toArray, List.getElem?_mapIdx] at hi
    obtain ⟨v, -, rfl⟩ := Option.map_eq_some_iff.mp hi
    rfl
  rw [hindex, hi]

-- nothing below depends on how the tree is built
attribute [local irreducible] EnvTree.build

/-- The values of a layout lie where its frames and values put them. -/
theorem settled_ofSnapshot (config : Config α) (s : Snapshot) :
    (ofSnapshot config s).arena.Settled config (ofSnapshot config s).frames := by
  let P : Array (Frame α) → Arena α → Prop := fun frames a => a.Settled config frames
  have hstack : P (stackOf config s).frames (stackOf config s).arena := by
    refine stackOf_keeps ?_ ⟨fun hx => ?_⟩
    · intro frames a nodeId node p totalWidth _ hframes frame sc bound
      have hbound : bound.arena.Settled sc.config sc.frames :=
        settled_bindFrame (hframes.pushFrame frame) Array.getElem?_push_size
          fun b => getElem?_bindings_place
      exact hbound.of_unbound (unbound_bound sc a frame totalWidth)
    · simp [Arena.empty] at hx
  rw [frames_ofSnapshot]
  exact ⟨fun hx => hstack.value (values_ofSnapshot config s ▸ hx)⟩

end Layout

/-- In the layout of a snapshot every value lies where its preferred reference puts it. -/
theorem Scene.settled_load [Scalar α] (sc : Scene α) (s : Snapshot) :
    (sc.load s).layout.arena.Settled sc.config (sc.load s).layout.frames :=
  Layout.settled_ofSnapshot sc.config s

/-- A function that is met in the global frame moves to the row of the frame that it closes over. -/
example :
    let s : Snapshot :=
      ⟨0, [⟨⟨0⟩, "global", none, [⟨"g", some (.object ⟨7⟩), false⟩]⟩,
        ⟨⟨1⟩, "f", some ⟨0⟩, [⟨"x", some .null, false⟩, ⟨"g", some (.object ⟨7⟩), false⟩]⟩],
        [(⟨7⟩, .closure ⟨"g", [], "", ⟨1⟩⟩)], some ⟨1⟩⟩
    let l := ((Scene.ofConfig (Config.standard : Config Rat)).load s).layout
    (l.values[0]?).map (fun x => (x.references, x.preferred? (l.arena.anchor? l.frames))) =
      some ([.binding 0 0, .binding 1 1], some (.binding 1 1)) := by
  cbv

end EnvDiagram

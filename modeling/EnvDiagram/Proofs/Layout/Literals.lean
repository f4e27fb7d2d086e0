import EnvDiagram.Proofs.Layout.Rows

/-!
# Literals stay as they are placed

A literal is placed for the one reference that brings it. What is placed afterwards adds values,
notes references, fills cells and moves functions, but it leaves all literals as they are. So the
text of a row is found in the finished layout where it was put, right after the key of the row.

* `Arena.KeepsLiterals` — the literals of one arena are those of another
* `Arena.keepsLiterals_place` — placing a datum keeps the literals
* `Layout.showsText_ofSnapshot` — the texts in the rows of a layout
-/

namespace EnvDiagram

variable {α : Type}

/-- Whether a datum is no object, so that it is shown by a text. -/
def Datum.IsText (d : Datum) : Prop := ∀ id, d ≠ .object id

/-! ## What keeps literals -/

namespace Arena

/-- Whether the literals of an arena are there in another one, in their places. -/
structure KeepsLiterals (a b : Arena α) : Prop where
  value : ∀ {v : Nat} {x : Value α}, a.values[v]? = some x → x.isLiteral = true →
    ∃ y, b.values[v]? = some y ∧ y.kind = x.kind ∧ y.bounds = x.bounds

variable {a b c : Arena α}

theorem keepsLiterals_of_values_eq (h : b.values = a.values) : a.KeepsLiterals b :=
  ⟨fun {_ x} hx _ => ⟨x, h ▸ hx, rfl, rfl⟩⟩

theorem KeepsLiterals.trans (h : a.KeepsLiterals b) (h' : b.KeepsLiterals c) :
    a.KeepsLiterals c := by
  refine ⟨fun {v x} hx hlit => ?_⟩
  obtain ⟨y, hy, hkind, hbounds⟩ := h.value hx hlit
  have hlit' : y.isLiteral = true := by
    rw [Value.isLiteral, hkind]
    exact hlit
  obtain ⟨z, hz, hkind', hbounds'⟩ := h'.value hy hlit'
  exact ⟨z, hz, hkind'.trans hkind, hbounds'.trans hbounds⟩

theorem keepsLiterals_modify {v : Nat} (change : Value α → Value α)
    (hb : b.values = a.values.modify v change)
    (h : ∀ x, a.values[v]? = some x → x.isLiteral = true →
      (change x).kind = x.kind ∧ (change x).bounds = x.bounds) : a.KeepsLiterals b := by
  refine ⟨fun {w x} hx hlit => ?_⟩
  rw [hb, Array.getElem?_modify]
  by_cases hvw : v = w
  · subst hvw
    rw [if_pos rfl, hx]
    exact ⟨change x, rfl, h x hx hlit⟩
  · rw [if_neg hvw]
    exact ⟨x, hx, rfl, rfl⟩

theorem keepsLiterals_addReference (a : Arena α) (v : Nat) (r : Reference) :
    a.KeepsLiterals (a.addReference v r) :=
  keepsLiterals_modify (fun value => value.addReference r) rfl fun _ _ _ => ⟨rfl, rfl⟩

theorem keepsLiterals_setContent (a : Arena α) (array index content : Nat) :
    a.KeepsLiterals (a.setContent array index content) := by
  refine keepsLiterals_modify (fun value => value.setContent index content) rfl fun x _ hlit => ?_
  unfold Value.setContent
  split
  · rename_i cells hkind
    rw [Value.isLiteral, hkind] at hlit
    cases hlit
  · exact ⟨rfl, rfl⟩

variable [Scalar α] {sc : Scope α}

theorem keepsLiterals_push (a : Arena α) (datum : Option DatumId) (kind : ValueKind α)
    (bounds : Bounds α) (r : Reference) : a.KeepsLiterals (a.push datum kind bounds r) := by
  refine ⟨fun {v x} hx _ => ⟨x, ?_, rfl, rfl⟩⟩
  obtain ⟨hlt, hval⟩ := Array.getElem?_eq_some_iff.mp hx
  show (a.values.push _)[v]? = some x
  rw [Array.getElem?_push_lt hlt, hval]

theorem keepsLiterals_reanchor (sc : Scope α) (a : Arena α) (v : Nat) (anchor : Anchor α) :
    a.KeepsLiterals (a.reanchor sc v anchor) := by
  rcases reanchor_cases sc a v anchor with heq | ⟨value, f, hvalue, hkind, heq⟩
  · rw [heq]
    exact keepsLiterals_of_values_eq rfl
  · -- only a function moves
    rw [heq]
    refine keepsLiterals_modify (fun _ => value.moveTo (anchor.functionCenter sc.config)) rfl
      fun x hx hlit => ?_
    rw [hvalue] at hx
    cases hx
    rw [Value.isLiteral, hkind] at hlit
    cases hlit

theorem keepsLiterals_visit (sc : Scope α) (a : Arena α) (anchor : Anchor α) (d : Datum) :
    a.KeepsLiterals (a.visit sc anchor d).arena := by
  rcases visit_cases sc a anchor d with ⟨v, heq⟩ | ⟨b, text, placeholder, hvalues, -, heq⟩ |
    ⟨id, cells, heq⟩ | ⟨id, c, node, heq⟩
  · rw [heq]
    exact (keepsLiterals_reanchor ..).trans (keepsLiterals_addReference ..)
  · rw [heq]
    exact (keepsLiterals_of_values_eq hvalues).trans (keepsLiterals_push ..)
  · rw [heq]
    exact keepsLiterals_push ..
  · rw [heq]
    exact keepsLiterals_push ..

theorem keepsLiterals_run (sc : Scope α) (a : Arena α) (agenda : List CellTask) :
    a.KeepsLiterals (a.run sc agenda) := by
  refine run_keeps (P := fun b _ => a.KeepsLiterals b) id ?_ (keepsLiterals_of_values_eq rfl)
  intro b task rest hb v
  exact hb.trans ((keepsLiterals_visit ..).trans (keepsLiterals_setContent ..))

theorem keepsLiterals_place (sc : Scope α) (a : Arena α) (anchor : Anchor α) (d : Datum) :
    a.KeepsLiterals (a.place sc anchor d).1 :=
  (keepsLiterals_visit ..).trans (keepsLiterals_run ..)

/-- What is shown by a text adds that text and nothing else. -/
theorem place_of_isText {d : Datum} (hd : d.IsText) (a : Arena α) (anchor : Anchor α) :
    a.place sc anchor d =
      ((a.visitText sc anchor (rowText sc.config (some d)) false).arena, a.values.size) := by
  cases d with
  | primitive p => exact Prod.ext (run_nil ..) rfl
  | null => exact Prod.ext (run_nil ..) rfl
  | object id => exact absurd rfl (hd id)

theorem value_visitText (sc : Scope α) (a : Arena α) (anchor : Anchor α) (text : String)
    (placeholder : Bool) :
    (a.visitText sc anchor text placeholder).arena.values[a.values.size]? =
      some ⟨a.values.size, none, .literal (anchor.placeText sc.config text).1 placeholder,
        (anchor.placeText sc.config text).2, [anchor.reference]⟩ :=
  Array.getElem?_push_size

end Arena

/-! ## The texts of the rows -/

/-- The text of a row that comes after its key, cut to the place that is left there. -/
def Binding.textAfterKey [Scalar α] (config : Config α) (b : Binding α) : String :=
  Text.fit config (config.textMaxWidth - b.bounds.width) (rowText config b.datum)

/-- Whether a row whose datum is shown by a text has that text right after its key. -/
def Binding.ShowsText [Scalar α] (config : Config α) (values : Array (Value α)) (b : Binding α) :
    Prop :=
  ∀ d, b.datum = some d → d.IsText → ∃ (v : Nat) (x : Value α),
    b.target = some v ∧ values[v]? = some x ∧
    x.kind = .literal (b.textAfterKey config) false ∧ x.bounds.x = b.bounds.right ∧
      x.bounds.width = Text.width config (b.textAfterKey config)

variable [Scalar α] {config : Config α} {s : Snapshot}

theorem Binding.ShowsText.mono {a a' : Arena α} {b : Binding α} (h : b.ShowsText config a.values)
    (hkeeps : a.KeepsLiterals a') : b.ShowsText config a'.values := by
  intro d hd htext
  obtain ⟨v, x, hv, hx, hkind, hleft, hwidth⟩ := h d hd htext
  obtain ⟨y, hy, hkind', hbounds⟩ := hkeeps.value hx (by rw [Value.isLiteral, hkind])
  exact ⟨v, y, hv, hy, hkind'.trans hkind, hbounds ▸ hleft, hbounds ▸ hwidth⟩

namespace Layout

theorem keepsLiterals_bindRow (sc : Scope α) (frame : Frame α) (bound : Bound α) (b : Binding α) :
    bound.arena.KeepsLiterals (bindRow sc frame bound b).arena := by
  cases hd : b.datum with
  | none =>
    rw [bindRow_of_none hd]
    exact Arena.keepsLiterals_of_values_eq rfl
  | some d =>
    rw [bindRow_of_some hd]
    exact Arena.keepsLiterals_place ..

/-- The row that is added last shows its text. -/
theorem showsText_bindRow (sc : Scope α) (frame : Frame α) (bound : Bound α) (b : Binding α) :
    ∃ b', (bindRow sc frame bound b).bindings = bound.bindings.push b' ∧
      b'.ShowsText sc.config (bindRow sc frame bound b).arena.values := by
  cases hd : b.datum with
  | none =>
    refine ⟨b, by rw [bindRow_of_none hd], fun d hd' => ?_⟩
    rw [hd] at hd'
    cases hd'
  | some d =>
    refine ⟨_, by rw [bindRow_of_some hd], fun d' hd' htext => ?_⟩
    obtain rfl : d = d' := Option.some.inj (hd.symm.trans hd')
    rw [bindRow_of_some hd, Arena.place_of_isText htext]
    have hvalue := Arena.value_visitText sc bound.arena (frame.rowAnchor b)
      (rowText sc.config (some d)) false
    refine ⟨_, _, rfl, hvalue, ?_⟩
    rw [Binding.textAfterKey, hd]
    exact ⟨rfl, rfl, rfl⟩

/-- The rows of a frame show their texts once their values are placed. -/
theorem showsText_bindFrame (sc : Scope α) (a : Arena α) (frame : Frame α) :
    a.KeepsLiterals (bindFrame sc a frame).arena ∧
      ∀ b ∈ (bindFrame sc a frame).bindings,
        b.ShowsText sc.config (bindFrame sc a frame).arena.values := by
  let P : List (Binding α) → Bound α → Prop := fun _ bound =>
    a.KeepsLiterals bound.arena ∧ ∀ b ∈ bound.bindings, b.ShowsText sc.config bound.arena.values
  have hrows : P frame.bindings.toList (bindFrame sc a frame) := by
    unfold bindFrame
    rw [← Array.foldl_toList]
    refine foldl_keeps (P := P) _ (fun _ b bound _ hbound => ?_)
      ⟨Arena.keepsLiterals_of_values_eq rfl, fun b hb => absurd hb (Array.not_mem_empty b)⟩
    have hkeeps := keepsLiterals_bindRow sc frame bound b
    obtain ⟨b', hpush, hshows⟩ := showsText_bindRow sc frame bound b
    refine ⟨hbound.1.trans hkeeps, fun row hrow => ?_⟩
    rw [hpush] at hrow
    rcases Array.mem_push.mp hrow with hrow | rfl
    · exact (hbound.2 row hrow).mono hkeeps
    · exact hshows
  exact hrows

/-- In the layout of a snapshot every row shows its text. -/
theorem showsText_ofSnapshot {f : Frame α} {b : Binding α}
    (hf : f ∈ (ofSnapshot config s).frames) (hb : b ∈ f.bindings) :
    b.ShowsText config (ofSnapshot config s).values := by
  let P : Array (Frame α) → Arena α → Prop := fun frames a =>
    ∀ f ∈ frames, ∀ b ∈ f.bindings, b.ShowsText config a.values
  rw [frames_ofSnapshot] at hf
  rw [values_ofSnapshot]
  refine stackOf_keeps (P := P) ?_ (fun f hf => absurd hf (Array.not_mem_empty f)) f hf b hb
  intro frames a nodeId node p totalWidth _ hframes frame sc bound f hf b hb
  obtain ⟨hkeeps, hshows⟩ := showsText_bindFrame sc a frame
  rcases Array.mem_push.mp hf with hf | rfl
  · exact (hframes f hf b hb).mono hkeeps
  · exact hshows b hb

end Layout

end EnvDiagram

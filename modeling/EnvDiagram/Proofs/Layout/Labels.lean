import Mathlib
import EnvDiagram.Proofs.Layout.Steps

/-!
# Values and cells know their numbers

A value carries its own number, and a cell the number of its array and its own within it.
Values are added at the end and changed in place, never moved, so the numbers stay right.

* `Arena.Labelled` — all values of an arena carry the right numbers
* `Arena.labelled_run`, `Arena.labelled_place` — placing keeps them right
-/

namespace EnvDiagram

variable {α : Type}

/-- A value that carries the given number, with cells that carry it and their own. -/
structure Value.LabelledAs (x : Value α) (v : Nat) : Prop where
  id : x.id = v
  cell : ∀ {cells : Array (Cell α)} {i : Nat} {c : Cell α}, x.kind = .array cells →
    cells[i]? = some c → c.array = v ∧ c.index = i

theorem Value.LabelledAs.addReference {x : Value α} {v : Nat} (h : x.LabelledAs v) (r : Reference) :
    (x.addReference r).LabelledAs v :=
  ⟨h.id, h.cell⟩

theorem Value.LabelledAs.setContent {x : Value α} {v : Nat} (h : x.LabelledAs v)
    (index content : Nat) : (x.setContent index content).LabelledAs v := by
  unfold Value.setContent
  split
  · rename_i cells hkind
    refine ⟨h.id, fun {cells' i c} hcells hc => ?_⟩
    cases hcells
    rw [Array.getElem?_modify] at hc
    split at hc
    · obtain ⟨c', hc', rfl⟩ := Option.map_eq_some_iff.mp hc
      obtain ⟨harray, hindex⟩ := h.cell hkind hc'
      exact ⟨harray, hindex⟩
    · exact h.cell hkind hc
  · exact h

namespace Arena

/-- The values carry their numbers. -/
structure Labelled (a : Arena α) : Prop where
  value : ∀ {v : Nat} {x : Value α}, a.values[v]? = some x → x.LabelledAs v

variable {a : Arena α} {sc : Scope α}

theorem labelled_modify (h : a.Labelled) {v : Nat} {f : Value α → Value α} {b : Arena α}
    (hb : b.values = a.values.modify v f)
    (hf : ∀ x, a.values[v]? = some x → (f x).LabelledAs v) : b.Labelled := by
  refine ⟨fun {w x} hx => ?_⟩
  rw [hb, Array.getElem?_modify] at hx
  split at hx
  · rename_i hvw
    subst hvw
    obtain ⟨y, hy, rfl⟩ := Option.map_eq_some_iff.mp hx
    exact hf y hy
  · exact h.value hx

theorem labelled_addReference (h : a.Labelled) (v : Nat) (r : Reference) :
    (a.addReference v r).Labelled :=
  labelled_modify h rfl fun _ hx => (h.value hx).addReference r

theorem labelled_setContent (h : a.Labelled) (array index content : Nat) :
    (a.setContent array index content).Labelled :=
  labelled_modify h rfl fun _ hx => (h.value hx).setContent index content

theorem labelled_empty (extent : Bounds α) : (empty extent).Labelled :=
  ⟨fun {v x} hx => by simp [empty] at hx⟩

variable [Scalar α]

theorem labelled_push (h : a.Labelled) (datum : Option DatumId) {kind : ValueKind α}
    (bounds : Bounds α) (r : Reference)
    (hkind : ∀ {cells : Array (Cell α)} {i : Nat} {c : Cell α}, kind = .array cells →
      cells[i]? = some c → c.array = a.values.size ∧ c.index = i) :
    (a.push datum kind bounds r).Labelled := by
  refine ⟨fun {v x} hx => ?_⟩
  have hx' : (a.values.push ⟨a.values.size, datum, kind, bounds, [r]⟩)[v]? = some x := hx
  rw [Array.getElem?_push] at hx'
  split at hx'
  · rename_i hv
    cases hx'
    rw [hv]
    exact ⟨rfl, hkind⟩
  · exact h.value hx'

theorem labelled_reanchor (h : a.Labelled) (v : Nat) (anchor : Anchor α) :
    (a.reanchor sc v anchor).Labelled := by
  rcases reanchor_cases sc a v anchor with heq | ⟨value, f, hvalue, hkind, heq⟩
  · rw [heq]
    exact h
  · rw [heq]
    refine labelled_modify (v := v)
      (f := fun _ => value.moveTo (anchor.functionCenter sc.config)) h rfl fun _ _ => ?_
    rw [Value.moveTo, hkind]
    exact ⟨(h.value hvalue).id, by simp⟩

theorem labelled_visitText (h : a.Labelled) (anchor : Anchor α) (text : String)
    (placeholder : Bool) : (a.visitText sc anchor text placeholder).arena.Labelled :=
  labelled_push h _ _ _ (by simp)

theorem labelled_visitArray (h : a.Labelled) (anchor : Anchor α) (id : DatumId)
    (cells : List Datum) : (a.visitArray sc anchor id cells).arena.Labelled := by
  refine labelled_push h _ _ _ fun {cells' i c} hcells hc => ?_
  cases hcells
  simp only [Cell.row, List.getElem?_toArray, List.getElem?_map] at hc
  obtain ⟨j, hj, rfl⟩ := Option.map_eq_some_iff.mp hc
  obtain ⟨hlt, hij⟩ := List.getElem?_eq_some_iff.mp hj
  rw [List.getElem_range] at hij
  exact ⟨rfl, hij.symm⟩

theorem labelled_visit (h : a.Labelled) (anchor : Anchor α) (d : Datum) :
    (a.visit sc anchor d).arena.Labelled := by
  rcases visit_cases sc a anchor d with ⟨v, heq⟩ | ⟨b, text, placeholder, hvalues, -, heq⟩ |
    ⟨id, cells, heq⟩ | ⟨id, c, node, heq⟩
  · rw [heq]
    exact labelled_addReference (labelled_reanchor h ..) ..
  · rw [heq]
    have hb : b.Labelled := ⟨fun hx => h.value (hvalues ▸ hx)⟩
    exact labelled_visitText hb ..
  · rw [heq]
    exact labelled_visitArray h ..
  · rw [heq]
    exact labelled_push h _ _ _ (by simp)

theorem labelled_run (h : a.Labelled) (agenda : List CellTask) : (a.run sc agenda).Labelled :=
  run_keeps (P := fun b _ => b.Labelled) id
    (fun hb => labelled_setContent (labelled_visit hb _ _) _ _ _) h

theorem labelled_place (h : a.Labelled) (anchor : Anchor α) (d : Datum) :
    (a.place sc anchor d).1.Labelled :=
  labelled_run (labelled_visit h anchor d) _

end Arena

end EnvDiagram

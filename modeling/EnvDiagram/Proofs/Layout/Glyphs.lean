import EnvDiagram.Proofs.Layout.Anchors
import EnvDiagram.Proofs.Layout.Stages

/-!
# Functions show closures

A function is made for a closure when it is placed, and all that may happen to it later is that it
is moved. So at every stage of a layout the texts and the circles of a function are those of some
closure, and only its middle may be another one than it was placed at.

* `Value.ShowsClosure` — a value that is a function shows a closure
* `Layout.exists_closure` — all functions of a layout do
-/

namespace EnvDiagram

variable {α : Type} {config : Config α} {x : Value α} {a b : Arena α}

namespace Value

/-- Whether a value, if it is a function, shows a closure. -/
def ShowsClosure (config : Config α) (x : Value α) : Prop :=
  ∀ f, x.kind = .function f → ∃ c : Closure, f = .ofClosure config c f.enclosing f.center

theorem showsClosure_of_isArray {cells : Array (Cell α)} (h : x.kind = .array cells) :
    x.ShowsClosure config := by
  intro f hf
  rw [h] at hf
  cases hf

theorem ShowsClosure.setContent (h : x.ShowsClosure config) (index content : Nat) :
    (x.setContent index content).ShowsClosure config := by
  unfold Value.setContent
  split
  · exact showsClosure_of_isArray rfl
  · exact h

theorem ShowsClosure.moveTo [Scalar α] (h : x.ShowsClosure config) (center : Point α) :
    (x.moveTo center).ShowsClosure config := by
  unfold Value.moveTo
  split
  · rename_i f hf
    obtain ⟨c, hc⟩ := h f hf
    intro g hg
    cases hg
    refine ⟨c, ?_⟩
    rw [hc]
    rfl
  · exact h

theorem ShowsClosure.reanchor [Scalar α] {sc : Scope α} (h : x.ShowsClosure config)
    (anchor : Anchor α) : (x.reanchor sc anchor).ShowsClosure config := by
  by_cases hmoves : x.Moves sc anchor
  · rw [reanchor_of_moves hmoves]
    exact h.moveTo _
  · rw [reanchor_of_not_moves hmoves]
    exact h

end Value

namespace Arena

/-- Whether the functions of an arena show closures. -/
structure ShowsClosures (config : Config α) (a : Arena α) : Prop where
  value : ∀ {v : Nat} {x : Value α}, a.values[v]? = some x → x.ShowsClosure config

theorem ShowsClosures.push (h : a.ShowsClosures config) (hb : b.values = a.values.push x)
    (hx : x.ShowsClosure config) : b.ShowsClosures config := by
  refine ⟨fun {w y} hy => ?_⟩
  rw [hb, Array.getElem?_push] at hy
  split at hy
  · cases hy
    exact hx
  · exact h.value hy

theorem ShowsClosures.modify (h : a.ShowsClosures config) {v : Nat} (change : Value α → Value α)
    (hb : b.values = a.values.modify v change)
    (hchange : ∀ x, x.ShowsClosure config → (change x).ShowsClosure config) :
    b.ShowsClosures config := by
  refine ⟨fun {w y} hy => ?_⟩
  rw [hb, Array.getElem?_modify] at hy
  split at hy
  · obtain ⟨x, hx, rfl⟩ := Option.map_eq_some_iff.mp hy
    exact hchange x (h.value hx)
  · exact h.value hy

theorem ShowsClosures.setContent (h : a.ShowsClosures config) (array index content : Nat) :
    (a.setContent array index content).ShowsClosures config :=
  h.modify (fun x => x.setContent index content) rfl fun _ hx => hx.setContent index content

variable [Scalar α]

theorem ShowsClosures.visit (sc : Scope α) (h : a.ShowsClosures sc.config) (anchor : Anchor α)
    (d : Datum) : (a.visit sc anchor d).arena.ShowsClosures sc.config := by
  rcases visit_cases sc a anchor d with ⟨v, heq⟩ | ⟨b, text, placeholder, hvalues, -, heq⟩ |
    ⟨id, cells, heq⟩ | ⟨id, c, node, heq⟩
  · rw [heq]
    exact h.modify _ (values_again sc a v anchor) fun _ hx => hx.reanchor anchor
  · rw [heq]
    refine h.push (values_visitText hvalues sc anchor text placeholder) fun f hf => ?_
    cases hf
  · rw [heq]
    exact h.push rfl (Value.showsClosure_of_isArray rfl)
  · rw [heq]
    refine h.push rfl fun f hf => ⟨c, ?_⟩
    cases hf
    rfl

end Arena

namespace Layout

namespace Stage

variable [Scalar α] {heap : Heap} {tree : EnvTree} {st st' : Stage α}

theorem Step.showsClosures (h : Step config heap tree st st')
    (hst : st.arena.ShowsClosures config) : st'.arena.ShowsClosures config := by
  cases h with
  | frame => exact ⟨hst.value⟩
  | blank => exact hst
  | @row frames a log f bs b d known v hid hindex hd hv =>
    rw [hv]
    exact Arena.ShowsClosures.visit ⟨config, heap, tree, known⟩ hst _ d
  | pass => exact hst
  | @cell frames a log task rest known v hne hv =>
    rw [hv]
    exact (Arena.ShowsClosures.visit ⟨config, heap, tree, known⟩ hst _ _).setContent ..

theorem Steps.showsClosures (h : Steps config heap tree st st')
    (hst : st.arena.ShowsClosures config) : st'.arena.ShowsClosures config := by
  induction h with
  | refl => exact hst
  | tail _ hstep ih => exact hstep.showsClosures ih

end Stage

/-- A function of a layout shows a closure. -/
theorem exists_closure [Scalar α] {s : Snapshot} {v : Nat} {f : FunctionGlyph α}
    (hx : (ofSnapshot config s).values[v]? = some x) (hf : x.kind = .function f) :
    ∃ c : Closure, f = .ofClosure config c f.enclosing f.center := by
  have hstart : (Stage.start : Stage α).arena.ShowsClosures config :=
    ⟨fun {v x} hx => by simp [Stage.start, Arena.empty] at hx⟩
  rw [values_ofSnapshot] at hx
  exact ((Stage.steps_finished config s).showsClosures hstart).value hx f hf

end Layout

end EnvDiagram

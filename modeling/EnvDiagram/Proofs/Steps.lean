import Mathlib.Data.List.Infix

/-!
# One step after the other

The tree, the layout and the drawing all go through lists step by step. What is known in
between depends on what has been done before, so the invariants here speak of the part of the
list that is done.

* `foldl_keeps` — what every step keeps is kept to the end
* `foldNotes`, `foldl_foldNotes` — steps that leave notes
* `foldl_map_comm`, `mapIdx_map_comm`, `modify_map_comm` — steps that a map commutes with
* `foldl_eq_of_last` — steps that agree as far as the last state allows
* `mapM_eq_some_map`, `filterM_eq_some_filter`, `foldlM_eq_some_foldl` — steps that could fail
  and never do
-/

namespace EnvDiagram

variable {β γ σ β' γ' σ' : Type}

/-- What every step keeps holds after the last one; a step may know what has been done before
it. -/
theorem foldl_keeps {step : σ → β → σ} {P : List β → σ → Prop} (bs : List β)
    (hstep : ∀ done b s, done ++ [b] <+: bs → P done s → P (done ++ [b]) (step s b)) {s : σ}
    (h : P [] s) : P bs (bs.foldl step s) := by
  have hrest : ∀ (rest done : List β) (s : σ), done ++ rest = bs → P done s →
      P bs (rest.foldl step s) := by
    intro rest
    induction rest with
    | nil =>
      intro done s hbs h
      rw [List.append_nil] at hbs
      exact hbs ▸ h
    | cons b rest ih =>
      intro done s hbs h
      rw [List.append_cons] at hbs
      exact ih (done ++ [b]) (step s b) hbs (hstep done b s ⟨rest, hbs⟩ h)
  exact hrest bs [] s (List.nil_append _) h

/-! ## Steps that leave notes -/

/-- What the steps of a fold note, in order. -/
def foldNotes (step : σ → β → σ) (note : σ → β → List γ) : σ → List β → List γ
  | _, [] => []
  | s, b :: rest => note s b ++ foldNotes step note (step s b) rest

theorem foldNotes_concat (step : σ → β → σ) (note : σ → β → List γ) (s : σ) (bs : List β) (b : β) :
    foldNotes step note s (bs ++ [b]) = foldNotes step note s bs ++ note (bs.foldl step s) b := by
  induction bs generalizing s with
  | nil => simp [foldNotes]
  | cons c rest ih =>
    rw [List.cons_append, foldNotes, ih, foldNotes, List.append_assoc, List.foldl_cons]

/-- What every step keeps together with its notes holds after the last one. -/
theorem foldl_foldNotes {step : σ → β → σ} {note : σ → β → List γ}
    {P : List β → σ → List γ → Prop} (bs : List β)
    (hstep : ∀ done b s log, done ++ [b] <+: bs → P done s log →
      P (done ++ [b]) (step s b) (log ++ note s b))
    {s : σ} {log : List γ} (h : P [] s log) :
    P bs (bs.foldl step s) (log ++ foldNotes step note s bs) := by
  let Q : List β → σ → Prop := fun done t =>
    t = done.foldl step s ∧ P done t (log ++ foldNotes step note s done)
  refine (foldl_keeps (P := Q) bs ?_ ⟨rfl, by rwa [foldNotes, List.append_nil]⟩).2
  rintro done b t hinit ⟨rfl, ht⟩
  refine ⟨(List.foldl_concat ..).symm, ?_⟩
  rw [foldNotes_concat, ← List.append_assoc]
  exact hstep done b _ _ hinit ht

/-! ## Steps that a map commutes with -/

/-- If each step on mapped states and elements is the step before the map, so are all. -/
theorem foldl_map_comm {step : σ → β → σ} {step' : σ' → β' → σ'} {f : β → β'} (g : σ → σ')
    (h : ∀ s b, step' (g s) (f b) = g (step s b)) (bs : List β) (s : σ) :
    (bs.map f).foldl step' (g s) = g (bs.foldl step s) := by
  rw [List.foldl_map]
  exact List.foldl_hom g h

theorem mapIdx_map_comm {m : Nat → β → γ} {m' : Nat → β' → γ'} {f : β → β'} {g : γ → γ'}
    (h : ∀ i b, m' i (f b) = g (m i b)) (bs : List β) :
    (bs.map f).mapIdx m' = (bs.mapIdx m).map g := by
  apply List.ext_getElem?
  intro i
  rw [List.getElem?_mapIdx, List.getElem?_map, List.getElem?_map, List.getElem?_mapIdx,
    Option.map_map, Option.map_map]
  congr 1
  funext b
  exact h i b

theorem push_map_comm (g : β → γ) (bs : Array β) (b : β) :
    (bs.map g).push (g b) = (bs.push b).map g := Array.map_push.symm

theorem modify_map_comm {m : β → β} {m' : γ → γ} {g : β → γ} (h : ∀ b, m' (g b) = g (m b))
    (bs : Array β) (i : Nat) : (bs.map g).modify i m' = (bs.modify i m).map g := by
  apply Array.ext_getElem?
  intro j
  rw [Array.getElem?_modify, Array.getElem?_map, Array.getElem?_map, Array.getElem?_modify]
  split
  · rw [Option.map_map, Option.map_map]
    congr 1
    funext b
    exact h b
  · rfl

/-! ## Steps that agree -/

/-- What no step can bring about held before the steps. -/
theorem of_foldl {step : σ → β → σ} {P : σ → Prop} (hback : ∀ s b, P (step s b) → P s)
    (bs : List β) {s : σ} (h : P (bs.foldl step s)) : P s := by
  induction bs generalizing s with
  | nil => exact h
  | cons b rest ih => exact hback s b (ih h)

/-- Steps agree if each does under a condition on its outcome that can only be lost: it is
enough to know it of the last state. -/
theorem foldl_eq_of_last {step step' : σ → β → σ} {P : σ → Prop}
    (hback : ∀ s b, P (step s b) → P s) (hstep : ∀ s b, P (step s b) → step' s b = step s b)
    (bs : List β) {s : σ} (h : P (bs.foldl step s)) : bs.foldl step' s = bs.foldl step s := by
  induction bs generalizing s with
  | nil => rfl
  | cons b rest ih =>
    have hfirst : P (step s b) := of_foldl hback rest h
    rw [List.foldl_cons, List.foldl_cons, hstep s b hfirst]
    exact ih h

/-! ## Steps that may fail -/

/-- Steps none of which fails answer what the steps answer that cannot fail. -/
theorem mapM_eq_some_map {f : β → Option γ} {g : β → γ} {bs : List β}
    (h : ∀ b ∈ bs, f b = some (g b)) : bs.mapM f = some (bs.map g) := by
  induction bs with
  | nil => rfl
  | cons b rest ih =>
    have hrest := ih fun c hc => h c (List.mem_cons_of_mem _ hc)
    rw [List.mapM_cons, h b List.mem_cons_self, hrest]
    rfl

/-- What may be missing may as well be left out if nothing is missing. -/
theorem mapM_eq_some_filterMap {f : β → Option γ} {bs : List β} (h : ∀ b ∈ bs, (f b).isSome) :
    bs.mapM f = some (bs.filterMap f) := by
  induction bs with
  | nil => rfl
  | cons b rest ih =>
    obtain ⟨c, hc⟩ := Option.isSome_iff_exists.mp (h b List.mem_cons_self)
    have hrest := ih fun d hd => h d (List.mem_cons_of_mem _ hd)
    rw [List.mapM_cons, hc, hrest, List.filterMap_cons_some hc]
    rfl

/-- A selection by a test that never fails. -/
theorem filterM_eq_some_filter {f : β → Option Bool} {g : β → Bool} {bs : List β}
    (h : ∀ b ∈ bs, f b = some (g b)) : bs.filterM f = some (bs.filter g) := by
  -- the selection is gathered in reverse
  have haux : ∀ found : List β,
      bs.filterAuxM f found = some ((bs.filter g).reverse ++ found) := by
    induction bs with
    | nil => intro found; rfl
    | cons b rest ih =>
      intro found
      have hrest := ih fun c hc => h c (List.mem_cons_of_mem _ hc)
      rw [List.filterAuxM, h b List.mem_cons_self]
      cases hb : g b with
      | false =>
        rw [List.filter_cons_of_neg (by simp [hb])]
        exact hrest found
      | true =>
        rw [List.filter_cons_of_pos hb, List.reverse_cons, List.append_assoc]
        exact hrest (b :: found)
  rw [List.filterM, haux [], List.append_nil]
  show some ((bs.filter g).reverse.reverse) = _
  rw [List.reverse_reverse]

/-- A fold whose steps do not fail from the states that are reached. -/
theorem foldlM_eq_some_foldl {f : σ → β → Option σ} {g : σ → β → σ} {P : List β → σ → Prop}
    (bs : List β) (hstep : ∀ done b s, done ++ [b] <+: bs → P done s →
      f s b = some (g s b) ∧ P (done ++ [b]) (g s b)) {s : σ} (h : P [] s) :
    bs.foldlM f s = some (bs.foldl g s) ∧ P bs (bs.foldl g s) := by
  let Q : List β → σ → Prop := fun done t => done.foldlM f s = some t ∧ P done t
  refine foldl_keeps (P := Q) bs ?_ ⟨rfl, h⟩
  rintro done b t hinit ⟨hdone, ht⟩
  obtain ⟨hf, hnext⟩ := hstep done b t hinit ht
  refine ⟨?_, hnext⟩
  rw [List.foldlM_append, hdone]
  show [b].foldlM f t = _
  rw [List.foldlM_cons, hf]
  rfl

end EnvDiagram

import EnvDiagram.Proofs.Layout.Ledger

/-!
# Ledgers that agree with the heap

A meeting either finds the value of an object again or adds one value. Values and cached
objects stay, references are only added at the end (`Meets.grows`), the cells stay as they
are (`Meets.content?`), and the cache goes on knowing the values of objects and no others
(`Coherent.meets`). What a meeting answers is the value of its datum (`Meets.shows`).
-/

namespace EnvDiagram

namespace Ledger

variable {heap : Heap} {tree : EnvTree} {l l' : Ledger} {r : Reference} {d : Datum} {v w : Nat}
  {id : DatumId} {x : Entry} {cells : List CellTask}

/-! ## Looking things up after a change -/

@[simp]
theorem size_add (l : Ledger) (datum : Option DatumId) (form : Form) (r : Reference) :
    (l.add datum form r).size = l.size + 1 := by
  simp [add, size]

@[simp]
theorem size_note (l : Ledger) (v : Nat) (r : Reference) : (l.note v r).size = l.size := by
  simp [note, size]

@[simp]
theorem size_fill (l : Ledger) (array index content : Nat) :
    (l.fill array index content).size = l.size := by
  simp [fill, size]

theorem lt_size_of_entry (h : l.entries[v]? = some x) : v < l.size :=
  (List.getElem?_eq_some_iff.mp h).1

theorem entries_size (l : Ledger) : l.entries[l.size]? = none :=
  List.getElem?_eq_none (Nat.le_refl _)

theorem entries_add (l : Ledger) (datum : Option DatumId) (form : Form) (r : Reference) (v : Nat) :
    (l.add datum form r).entries[v]? =
      if v = l.size then some ⟨datum, form, [r]⟩ else l.entries[v]? := by
  have happ : (l.add datum form r).entries = l.entries ++ [⟨datum, form, [r]⟩] := rfl
  rw [happ]
  rcases Nat.lt_trichotomy v l.size with h | h | h
  · rw [if_neg (by omega), List.getElem?_append_left h]
  · rw [if_pos h, h]
    exact List.getElem?_concat_length
  · rw [if_neg (by omega), List.getElem?_eq_none (l := l.entries) (Nat.le_of_lt h)]
    apply List.getElem?_eq_none
    rw [List.length_append]
    exact Nat.succ_le_of_lt h

theorem entries_note (l : Ledger) (v : Nat) (r : Reference) (w : Nat) :
    (l.note v r).entries[w]? =
      (l.entries[w]?).map fun x => if v = w then x.addReference r else x := by
  simp [note, List.getElem?_modify]

theorem entries_fill (l : Ledger) (array index content w : Nat) :
    (l.fill array index content).entries[w]? =
      (l.entries[w]?).map fun x => if array = w then x.setContent index content else x := by
  simp [fill, List.getElem?_modify]

theorem cached_add (l : Ledger) (id : DatumId) (form : Form) (r : Reference) (e : DatumId) :
    (l.add (some id) form r).cached e = if e = id then some l.size else l.cached e := by
  simp only [cached, add, List.lookup_cons]
  by_cases h : e = id
  · simp [h]
  · have hb : (e == id) = false := by simpa using h
    simp [h, hb]

theorem cached_add_none (l : Ledger) (form : Form) (r : Reference) (e : DatumId) :
    (l.add none form r).cached e = l.cached e := rfl

theorem content?_add (l : Ledger) (datum : Option DatumId) {form : Form} (r : Reference)
    (h : ∀ c ∈ Entry.contents ⟨datum, form, [r]⟩, c = none) (array index : Nat) :
    (l.add datum form r).content? array index = l.content? array index := by
  rw [content?, content?, entries_add]
  split
  · rename_i hv
    rw [hv, entries_size]
    simp only [Option.bind_some, Option.bind_none]
    cases hc : (Entry.contents ⟨datum, form, [r]⟩)[index]? with
    | none => rfl
    | some c => rw [h c (List.mem_of_getElem? hc)]; rfl
  · rfl

theorem content?_note (l : Ledger) (v : Nat) (r : Reference) (array index : Nat) :
    (l.note v r).content? array index = l.content? array index := by
  rw [content?, content?, entries_note]
  cases l.entries[array]? with
  | none => rfl
  | some x => simp only [Option.map_some, Option.bind_some]; split <;> rfl

theorem content?_fill (l : Ledger) {array index content : Nat} (hx : l.entries[array]? = some x)
    (hi : index < x.contents.length) (array' index' : Nat) :
    (l.fill array index content).content? array' index' =
      if array' = array ∧ index' = index then some content else l.content? array' index' := by
  rw [content?, content?, entries_fill]
  by_cases ha : array' = array
  · subst ha
    rw [hx]
    simp only [Option.map_some, Option.bind_some, if_true, Entry.contents_setContent, true_and,
      List.getElem?_set]
    by_cases hii : index = index'
    · subst hii
      simp [hi]
    · simp [hii, Ne.symm hii]
  · have hne : ¬array = array' := fun h => ha h.symm
    simp only [ha, hne, if_false, false_and]
    cases l.entries[array']? <;> rfl

/-- A meeting leaves the cells as they are; those of a new array are empty. -/
theorem Meets.content? (h : l.Meets heap tree r d l' v cells) (array index : Nat) :
    l'.content? array index = l.content? array index := by
  cases h with
  | again => exact content?_note ..
  | array => exact content?_add _ _ _ (by simp [Entry.contents]) _ _
  | function => exact content?_add _ _ _ (by simp [Entry.contents]) _ _
  | literal => exact content?_add _ _ _ (by simp [Entry.contents]) _ _

theorem mem_cellTasks {array : Nat} {data : List Datum} {t : CellTask} :
    t ∈ cellTasks array data ↔ t.array = array ∧ data[t.index]? = some t.datum := by
  rw [cellTasks, List.mem_mapIdx]
  constructor
  · rintro ⟨i, hi, rfl⟩
    exact ⟨rfl, List.getElem?_eq_getElem hi⟩
  · rintro ⟨rfl, h⟩
    obtain ⟨hi, heq⟩ := List.getElem?_eq_some_iff.mp h
    exact ⟨t.index, hi, by rw [heq]⟩

/-! ## Growing -/

/-- One ledger comes of another: values and cached objects stay, and references are only
added at the end. -/
structure Grows (l l' : Ledger) : Prop where
  cached : ∀ {id : DatumId} {v : Nat}, l.cached id = some v → l'.cached id = some v
  entry : ∀ {v : Nat} {x : Entry}, l.entries[v]? = some x → ∃ x', l'.entries[v]? = some x' ∧
    x'.datum = x.datum ∧ (x'.form = .literal ↔ x.form = .literal) ∧ x.references <+: x'.references

theorem Grows.refl (l : Ledger) : l.Grows l :=
  ⟨id, fun hx => ⟨_, hx, rfl, Iff.rfl, List.prefix_refl _⟩⟩

theorem Grows.trans {l₁ l₂ l₃ : Ledger} (h : l₁.Grows l₂) (h' : l₂.Grows l₃) : l₁.Grows l₃ := by
  refine ⟨fun hc => h'.cached (h.cached hc), fun hx => ?_⟩
  obtain ⟨y, hy, hyd, hyf, hyr⟩ := h.entry hx
  obtain ⟨z, hz, hzd, hzf, hzr⟩ := h'.entry hy
  exact ⟨z, hz, hzd.trans hyd, hzf.trans hyf, hyr.trans hzr⟩

theorem grows_add {datum : Option DatumId} {form : Form}
    (h : ∀ id, datum = some id → l.cached id = none) : l.Grows (l.add datum form r) := by
  refine ⟨fun {e v} hc => ?_, fun {v x} hx => ⟨x, ?_, rfl, Iff.rfl, List.prefix_refl _⟩⟩
  · cases datum with
    | none => exact hc
    | some id =>
      rw [cached_add, if_neg]
      · exact hc
      · rintro rfl
        rw [h e rfl] at hc
        simp at hc
  · rw [entries_add, if_neg (Nat.ne_of_lt (lt_size_of_entry hx))]
    exact hx

theorem grows_note (l : Ledger) (v : Nat) (r : Reference) : l.Grows (l.note v r) := by
  refine ⟨id, fun {w x} hx => ⟨_, by rw [entries_note, hx]; rfl, ?_⟩⟩
  split
  · exact ⟨rfl, Iff.rfl, List.prefix_append _ _⟩
  · exact ⟨rfl, Iff.rfl, List.prefix_refl _⟩

theorem grows_fill (l : Ledger) (array index content : Nat) :
    l.Grows (l.fill array index content) := by
  refine ⟨id, fun {w x} hx => ⟨_, by rw [entries_fill, hx]; rfl, ?_⟩⟩
  split
  · refine ⟨Entry.datum_setContent .., Entry.form_setContent_eq_literal, ?_⟩
    rw [Entry.references_setContent]
  · exact ⟨rfl, Iff.rfl, List.prefix_refl _⟩

theorem Meets.grows (h : l.Meets heap tree r d l' v cells) : l.Grows l' := by
  cases h with
  | again => exact grows_note ..
  | array hc => exact grows_add (by rintro _ ⟨⟩; exact hc)
  | function hc => exact grows_add (by rintro _ ⟨⟩; exact hc)
  | literal => exact grows_add (by simp)

/-! ## The value of a datum -/

/-- What the value of a datum is: the one value of an object that is drawn, and a literal of
its own for anything else. -/
inductive Shows (heap : Heap) (tree : EnvTree) (l : Ledger) : Datum → Nat → Prop
  | object {id : DatumId} {v : Nat} : heap.Drawable tree id → l.cached id = some v →
      Shows heap tree l (.object id) v
  | literal {d : Datum} {v : Nat} {x : Entry} : (∀ id, d = .object id → ¬ heap.Drawable tree id) →
      l.entries[v]? = some x → x.datum = none → x.form = .literal → Shows heap tree l d v

theorem Shows.mono (hg : l.Grows l') (h : l.Shows heap tree d v) : l'.Shows heap tree d v := by
  cases h with
  | object hd hc => exact .object hd (hg.cached hc)
  | literal hd hx hdat hform =>
    obtain ⟨x', hx', hdat', hform', -⟩ := hg.entry hx
    exact .literal hd hx' (hdat'.trans hdat) (hform'.mpr hform)

/-! ## Values and objects -/

/-- The cache knows the values of objects, and every value is what its object is. -/
structure Coherent (heap : Heap) (tree : EnvTree) (l : Ledger) : Prop where
  cached_iff : ∀ {id : DatumId} {v : Nat},
    l.cached id = some v ↔ ∃ x, l.entries[v]? = some x ∧ x.datum = some id
  represents : ∀ {v : Nat} {x : Entry}, l.entries[v]? = some x → x.Represents heap tree

theorem Coherent.cached_lt (h : l.Coherent heap tree) (hc : l.cached id = some v) : v < l.size := by
  obtain ⟨x, hx, -⟩ := h.cached_iff.mp hc
  exact lt_size_of_entry hx

theorem Coherent.drawable (h : l.Coherent heap tree) (hc : l.cached id = some v) :
    heap.Drawable tree id := by
  obtain ⟨x, hx, hd⟩ := h.cached_iff.mp hc
  cases h.represents hx with
  | literal => simp at hd
  | array hf hlen =>
    cases hd
    exact Or.inl ⟨_, hf⟩
  | function hf hres =>
    cases hd
    exact Or.inr ⟨_, _, hf, hres⟩

theorem Coherent.add (h : l.Coherent heap tree) {form : Form} (hc : l.cached id = none)
    (hx : Entry.Represents heap tree ⟨some id, form, [r]⟩) :
    (l.add (some id) form r).Coherent heap tree where
  cached_iff := by
    intro e v
    rw [cached_add, entries_add]
    by_cases hv : v = l.size
    · -- no other object has the new value
      subst hv
      simp only [if_true, Option.some.injEq]
      constructor
      · intro he
        split at he
        · rename_i heq
          exact ⟨_, rfl, by rw [heq]⟩
        · exact absurd (h.cached_lt he) (lt_irrefl _)
      · rintro ⟨x, rfl, he⟩
        have hid : id = e := by simpa using he
        rw [if_pos hid.symm]
    · rw [if_neg hv, ← h.cached_iff]
      by_cases he : e = id
      · subst he
        rw [if_pos rfl, hc]
        simp [Ne.symm hv]
      · rw [if_neg he]
  represents := by
    intro v x hv
    rw [entries_add] at hv
    split at hv
    · cases hv
      exact hx
    · exact h.represents hv

theorem Coherent.addLiteral (h : l.Coherent heap tree) (r : Reference) :
    (l.add none .literal r).Coherent heap tree where
  cached_iff := by
    intro e v
    rw [cached_add_none, h.cached_iff, entries_add]
    by_cases hv : v = l.size
    · subst hv
      rw [entries_size]
      simp
    · rw [if_neg hv]
  represents := by
    intro v x hv
    rw [entries_add] at hv
    split at hv
    · cases hv
      exact .literal
    · exact h.represents hv

theorem Coherent.note (h : l.Coherent heap tree) (v : Nat) (r : Reference) :
    (l.note v r).Coherent heap tree where
  cached_iff := by
    intro e w
    show l.cached e = some w ↔ _
    rw [h.cached_iff, entries_note]
    cases l.entries[w]? with
    | none => simp
    | some x => by_cases hv : v = w <;> simp [hv]
  represents := by
    intro w x hw
    rw [entries_note] at hw
    obtain ⟨y, hy, rfl⟩ := Option.map_eq_some_iff.mp hw
    split
    · exact (h.represents hy).addReference r
    · exact h.represents hy

theorem Coherent.meets (h : l.Coherent heap tree) (hm : l.Meets heap tree r d l' v cells) :
    l'.Coherent heap tree := by
  cases hm with
  | again => exact h.note ..
  | array hc hf => exact h.add hc (.array hf (by simp))
  | function hc hf hres => exact h.add hc (.function hf hres)
  | literal => exact h.addLiteral r

theorem Coherent.fill (h : l.Coherent heap tree) (array index content : Nat) :
    (l.fill array index content).Coherent heap tree where
  cached_iff := by
    intro e w
    show l.cached e = some w ↔ _
    rw [h.cached_iff, entries_fill]
    cases l.entries[w]? with
    | none => simp
    | some x => by_cases hv : array = w <;> simp [hv]
  represents := by
    intro w x hw
    rw [entries_fill] at hw
    obtain ⟨y, hy, rfl⟩ := Option.map_eq_some_iff.mp hw
    split
    · exact (h.represents hy).setContent ..
    · exact h.represents hy

/-- What a meeting answers is the value of the datum. -/
theorem Meets.shows (h : l.Coherent heap tree) (hm : l.Meets heap tree r d l' v cells) :
    l'.Shows heap tree d v := by
  have h' := h.meets hm
  cases hm with
  | again hc => exact .object (h.drawable hc) hc
  | array hc hf => exact .object (Or.inl ⟨_, hf⟩) (by rw [cached_add, if_pos rfl])
  | function hc hf hres => exact .object (Or.inr ⟨_, _, hf, hres⟩) (by rw [cached_add, if_pos rfl])
  | literal hd => exact .literal hd (by rw [entries_add, if_pos rfl]) rfl rfl

end Ledger

end EnvDiagram

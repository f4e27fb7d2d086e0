import EnvDiagram.Proofs.Layout.Coherence

/-!
# While an agenda is worked off

An array enters the arena with empty cells, and its cells wait on the agenda until they are
filled. So at every moment a cell is filled, or waits, or holds the empty list
(`Ledger.Filled`); nothing else of a ledger is ever half done. The invariants:

* `Ledger.Filled`, `Ledger.Pending` — the cells, and the tasks that wait for them
* `Ledger.Logged` — the references to a value are those of the meetings that answered it
* `Ledger.Rooted` — every object placed is reachable

Each has one lemma for a meeting and one for filling a cell. `Ledger.Working` puts them
together; `Working.meetRow`, `Working.meetCell` and `Working.skip` are its steps.
-/

namespace EnvDiagram

/-- A reference that was followed, the datum it leads to, and the value that this datum has. -/
structure Meeting where
  reference : Reference
  datum : Datum
  value : Nat
  /-- The number of values there were before. -/
  known : Nat

/-- Whether the value was added by the meeting. -/
def Meeting.isNew (m : Meeting) : Bool := m.value = m.known

namespace Ledger

variable {heap : Heap} {tree : EnvTree} {l l' : Ledger} {r : Reference} {d : Datum} {v w : Nat}
  {id : DatumId} {x : Entry} {cells agenda rest : List CellTask} {task : CellTask}
  {log : List Meeting} {rows : Nat → Nat → Option Nat} {roots : Datum → Prop}

/-! ## Cells -/

/-- Every cell of an array is filled with the value of its datum, or empty because its datum
is the empty list or still waits. -/
structure Filled (heap : Heap) (tree : EnvTree) (l : Ledger) (agenda : List CellTask) : Prop where
  cell : ∀ {v : Nat} {x : Entry} {id : DatumId} {data : List Datum} {i : Nat} {e : Datum},
    l.entries[v]? = some x → x.datum = some id → heap.find? id = some (.array data) →
    data[i]? = some e →
    l.content? v i = none ∧ (e = .null ∨ ⟨v, i, e⟩ ∈ agenda) ∨
      e ≠ .null ∧ ∃ w, l.content? v i = some w ∧ l.Shows heap tree e w

/-- A task that waits for an empty cell of an array, and that brings its datum. -/
structure Waits (heap : Heap) (l : Ledger) (t : CellTask) : Prop where
  empty : l.content? t.array t.index = none
  cell : ∃ x id data, l.entries[t.array]? = some x ∧ x.datum = some id ∧
    heap.find? id = some (.array data) ∧ data[t.index]? = some t.datum

/-- The tasks of an agenda wait for cells, each for one of its own. -/
structure Pending (heap : Heap) (l : Ledger) (agenda : List CellTask) : Prop where
  nodup : (agenda.map fun t => (t.array, t.index)).Nodup
  waits : ∀ t ∈ agenda, l.Waits heap t

theorem Waits.lt_size (h : l.Waits heap task) : task.array < l.size := by
  obtain ⟨x, -, -, hx, -⟩ := h.cell
  exact lt_size_of_entry hx

/-- The cell that a task waits for is one of the array. -/
theorem Waits.index_lt (hc : l.Coherent heap tree) (h : l.Waits heap task) :
    ∃ x, l.entries[task.array]? = some x ∧ task.index < x.contents.length := by
  obtain ⟨x, id, data, hx, hd, hf, ht⟩ := h.cell
  refine ⟨x, hx, ?_⟩
  rw [(hc.represents hx).length_contents hd hf]
  exact (List.getElem?_eq_some_iff.mp ht).1

theorem Waits.mono (hg : l.Grows l') (hcontent : l'.content? task.array task.index = none)
    (h : l.Waits heap task) : l'.Waits heap task := by
  obtain ⟨x, id, data, hx, hd, hf, ht⟩ := h.cell
  obtain ⟨x', hx', hd', -⟩ := hg.entry hx
  exact ⟨hcontent, x', id, data, hx', hd'.trans hd, hf, ht⟩

/-- The cells of an array are met once each. -/
theorem nodup_cellTasks (array : Nat) (data : List Datum) :
    ((cellTasks array data).map fun t => (t.array, t.index)).Nodup := by
  have hmap : (cellTasks array data).map (fun t => (t.array, t.index)) =
      (List.range data.length).map (Prod.mk array) := by
    apply List.ext_getElem?
    intro j
    rw [cellTasks, List.getElem?_map, List.getElem?_mapIdx, List.getElem?_map]
    by_cases hj : j < data.length
    · simp [hj]
    · simp [hj]
  rw [hmap]
  exact List.nodup_range.map fun a b hab => (Prod.mk.inj hab).2

/-- After adding a value there are the entries that were there and the new one. -/
theorem add_entry_cases {datum : Option DatumId} {form : Form} {u : Nat} {x' : Entry}
    (h : (l.add datum form r).entries[u]? = some x') :
    l.entries[u]? = some x' ∧ u ≠ l.size ∨ u = l.size ∧ x' = ⟨datum, form, [r]⟩ := by
  rw [entries_add] at h
  split at h
  · rename_i hu
    exact Or.inr ⟨hu, by simpa using h.symm⟩
  · rename_i hu
    exact Or.inl ⟨h, hu⟩

/-- After a meeting there are the entries that were there, the one answered with the
reference added, and perhaps a new one, whose cells are to follow. -/
theorem Meets.entry_cases (hm : l.Meets heap tree r d l' v cells) {u : Nat} {x' : Entry}
    (hx' : l'.entries[u]? = some x') :
    (∃ x, l.entries[u]? = some x ∧ x'.datum = x.datum ∧ x'.form = x.form ∧
        x'.references = (if u = v then x.references ++ [r] else x.references) ∧
        (u = v → ∃ id, l.cached id = some v)) ∨
      u = l.size ∧ u = v ∧ x'.references = [r] ∧
        ∀ id data, x'.datum = some id → heap.find? id = some (.array data) →
          cells = cellTasks u data := by
  -- an old entry is not the new one, so it stays as it is
  have hold : l.entries[u]? = some x' ∧ u ≠ l.size → v = l.size →
      ∃ x, l.entries[u]? = some x ∧ x'.datum = x.datum ∧ x'.form = x.form ∧
        x'.references = (if u = v then x.references ++ [r] else x.references) ∧
        (u = v → ∃ id, l.cached id = some v) := by
    rintro ⟨h, hu⟩ rfl
    exact ⟨x', h, rfl, rfl, by rw [if_neg hu], fun h => absurd h hu⟩
  cases hm with
  | @again id _ hc =>
    rw [entries_note] at hx'
    obtain ⟨x, hx, rfl⟩ := Option.map_eq_some_iff.mp hx'
    refine Or.inl ⟨x, hx, ?_⟩
    by_cases hu : v = u
    · subst hu
      exact ⟨by simp, by simp, by simp, fun _ => ⟨id, hc⟩⟩
    · rw [if_neg hu, if_neg (Ne.symm hu)]
      exact ⟨rfl, rfl, rfl, fun h => absurd h.symm hu⟩
  | array hc hf =>
    rcases add_entry_cases hx' with h | ⟨hu, rfl⟩
    · exact Or.inl (hold h rfl)
    · refine Or.inr ⟨hu, hu, rfl, fun id data hid hdata => ?_⟩
      cases hid
      rw [hf] at hdata
      cases hdata
      rw [hu]
  | function hc hf hres =>
    rcases add_entry_cases hx' with h | ⟨hu, rfl⟩
    · exact Or.inl (hold h rfl)
    · refine Or.inr ⟨hu, hu, rfl, fun id data hid hdata => ?_⟩
      cases hid
      rw [hf] at hdata
      simp at hdata
  | literal hd =>
    rcases add_entry_cases hx' with h | ⟨hu, rfl⟩
    · exact Or.inl (hold h rfl)
    · exact Or.inr ⟨hu, hu, rfl, fun id data hid => by simp at hid⟩

theorem Filled.meets (h : l.Filled heap tree agenda) (hm : l.Meets heap tree r d l' v cells) :
    l'.Filled heap tree (cells ++ agenda) := by
  refine ⟨fun {u x' id data i e} hx' hd' hf he => ?_⟩
  rcases hm.entry_cases hx' with ⟨x, hx, hdat, -⟩ | ⟨hu, -, -, htasks⟩
  · rw [hm.content?]
    rcases h.cell hx (hdat ▸ hd') hf he with ⟨hnone, hwait⟩ | ⟨hne, w, hw, hshows⟩
    · refine Or.inl ⟨hnone, hwait.imp_right fun hin => ?_⟩
      exact List.mem_append_right _ hin
    · exact Or.inr ⟨hne, w, hw, hshows.mono hm.grows⟩
  · refine Or.inl ⟨?_, Or.inr (List.mem_append_left _ ?_)⟩
    · rw [hm.content?, content?, hu, entries_size]
      rfl
    · rw [htasks id data hd' hf]
      exact mem_cellTasks.mpr ⟨rfl, he⟩

theorem Pending.meets (h : l.Pending heap agenda) (hm : l.Meets heap tree r d l' v cells) :
    l'.Pending heap (cells ++ agenda) := by
  have hold : ∀ t ∈ agenda, l'.Waits heap t := fun t ht =>
    (h.waits t ht).mono hm.grows (by rw [hm.content?]; exact (h.waits t ht).empty)
  cases hm with
  | again => exact ⟨h.nodup, hold⟩
  | function => exact ⟨h.nodup, hold⟩
  | literal => exact ⟨h.nodup, hold⟩
  | @array id data hc hf =>
    refine ⟨?_, fun t ht => ?_⟩
    · rw [List.map_append, List.nodup_append]
      refine ⟨?_, h.nodup, ?_⟩
      · exact nodup_cellTasks l.size data
      · intro a ha b hb hab
        obtain ⟨t, ht, rfl⟩ := List.mem_map.mp ha
        obtain ⟨t', ht', rfl⟩ := List.mem_map.mp hb
        -- the new cells are those of the new array, the others wait in older ones
        have hlt := (h.waits t' ht').lt_size
        have heq : t.array = t'.array := congrArg Prod.fst hab
        rw [← heq, (mem_cellTasks.mp ht).1] at hlt
        exact lt_irrefl _ hlt
    · rcases List.mem_append.mp ht with hin | hin
      · obtain ⟨harr, hdat⟩ := mem_cellTasks.mp hin
        refine ⟨?_, ⟨some id, .array (data.map fun _ => none), [r]⟩, id, data, ?_, rfl, hf, hdat⟩
        · rw [content?_add _ _ _ (by simp [Entry.contents]), content?, harr, entries_size]
          rfl
        · rw [entries_add, if_pos harr]
      · exact hold t hin

/-- The cell of the first task is filled. -/
theorem Filled.fill (hc : l.Coherent heap tree) (hp : l.Pending heap (task :: rest))
    (h : l.Filled heap tree (task :: rest)) (hne : task.datum ≠ .null)
    (hs : l.Shows heap tree task.datum w) :
    (l.fill task.array task.index w).Filled heap tree rest := by
  obtain ⟨y, hy, hi⟩ := (hp.waits task List.mem_cons_self).index_lt hc
  have hg := grows_fill l task.array task.index w
  refine ⟨fun {u x' id data i e} hx' hd' hf he => ?_⟩
  rw [entries_fill] at hx'
  obtain ⟨x, hx, rfl⟩ := Option.map_eq_some_iff.mp hx'
  have hd : x.datum = some id := by
    split at hd'
    · simpa using hd'
    · exact hd'
  rw [content?_fill l hy hi]
  by_cases hcell : u = task.array ∧ i = task.index
  · obtain ⟨rfl, rfl⟩ := hcell
    obtain ⟨z, id', data', hz, hzd, hzf, hzt⟩ := (hp.waits task List.mem_cons_self).cell
    rw [hx] at hz
    cases hz
    rw [hd] at hzd
    cases hzd
    rw [hf] at hzf
    cases hzf
    rw [he] at hzt
    cases hzt
    rw [if_pos ⟨rfl, rfl⟩]
    exact Or.inr ⟨hne, w, rfl, hs.mono hg⟩
  · rw [if_neg hcell]
    rcases h.cell hx hd hf he with ⟨hnone, hwait⟩ | ⟨hne', w', hw', hs'⟩
    · refine Or.inl ⟨hnone, hwait.imp_right fun hin => ?_⟩
      rcases List.mem_cons.mp hin with heq | hin
      · exact absurd ⟨congrArg CellTask.array heq, congrArg CellTask.index heq⟩ hcell
      · exact hin
    · exact Or.inr ⟨hne', w', hw', hs'.mono hg⟩

theorem Pending.fill (hc : l.Coherent heap tree) (hp : l.Pending heap (task :: rest)) (w : Nat) :
    (l.fill task.array task.index w).Pending heap rest := by
  obtain ⟨y, hy, hi⟩ := (hp.waits task List.mem_cons_self).index_lt hc
  obtain ⟨hnot, hnd⟩ := List.nodup_cons.mp hp.nodup
  refine ⟨hnd, fun t ht => ?_⟩
  refine (hp.waits t (List.mem_cons_of_mem _ ht)).mono (grows_fill ..) ?_
  rw [content?_fill l hy hi, if_neg]
  · exact (hp.waits t (List.mem_cons_of_mem _ ht)).empty
  · rintro ⟨ha, hi'⟩
    exact hnot (List.mem_map.mpr ⟨t, ht, by rw [ha, hi']⟩)

theorem Filled.mono (h : l.Filled heap tree agenda) (hsub : agenda ⊆ rest) :
    l.Filled heap tree rest :=
  ⟨fun hx hd hf he => (h.cell hx hd hf he).imp_left fun ⟨hnone, hw⟩ => ⟨hnone, hw.imp_right (hsub ·)⟩⟩

theorem Pending.perm (hp : l.Pending heap agenda) (hperm : agenda.Perm rest) :
    l.Pending heap rest :=
  ⟨(hperm.map _).nodup_iff.mp hp.nodup, fun t ht => hp.waits t (hperm.mem_iff.mpr ht)⟩

theorem Pending.tail (hp : l.Pending heap (task :: rest)) : l.Pending heap rest :=
  ⟨(List.nodup_cons.mp hp.nodup).2, fun t ht => hp.waits t (List.mem_cons_of_mem _ ht)⟩

/-! ## References -/

/-- The references to every value are those of the meetings that answered it, in order. No
reference is met twice, and what it links to is what its meeting answered. -/
structure Logged (links : Reference → Option Nat) (log : List Meeting) (l : Ledger) : Prop where
  references : ∀ {v : Nat} {x : Entry}, l.entries[v]? = some x →
    x.references = (log.filter (·.value = v)).map Meeting.reference
  nodup : (log.map Meeting.reference).Nodup
  links_iff : ∀ {r : Reference} {v : Nat},
    links r = some v ↔ ∃ m ∈ log, m.reference = r ∧ m.value = v
  value_lt : ∀ m ∈ log, m.value < l.size
  nonempty : ∀ {v : Nat} {x : Entry}, l.entries[v]? = some x → x.references ≠ []
  literal : ∀ {v : Nat} {x : Entry}, l.entries[v]? = some x → x.form = .literal →
    x.references.length = 1
  /-- One meeting added the value, and its reference comes first. -/
  placed : ∀ {v : Nat} {x : Entry}, l.entries[v]? = some x →
    ∃ m, (log.filter fun m => m.value = v ∧ m.isNew) = [m] ∧
      x.references.head? = some m.reference
  /-- A value that was placed by a cell came after the array of the cell. -/
  first : ∀ {v array index : Nat} {x : Entry}, l.entries[v]? = some x →
    x.references.head? = some (.cell array index) → array < v

theorem Meets.value_lt (hc : l.Coherent heap tree) (hm : l.Meets heap tree r d l' v cells) :
    v < l'.size := by
  cases hm with
  | again h => simpa using hc.cached_lt h
  | array => simp
  | function => simp
  | literal => simp

section Logged

variable {links : Reference → Option Nat}

/-- The next value is one that no meeting has answered. -/
theorem Logged.filter_eq_nil (h : l.Logged links log) {p : Meeting → Bool}
    (hp : ∀ m, p m → m.value = l.size) : log.filter p = [] := by
  rw [List.filter_eq_nil_iff]
  intro m hm hpm
  exact (h.value_lt m hm).ne (hp m hpm)

theorem Logged.reference_ne (h : l.Logged links log) (hr : links r = none) {m : Meeting}
    (hm : m ∈ log) : m.reference ≠ r := by
  intro heq
  have hlink := h.links_iff.mpr ⟨m, hm, heq, rfl⟩
  rw [hr] at hlink
  simp at hlink

/-- A further reference is not the first one. -/
theorem Logged.head?_references (h : l.Logged links log) {u : Nat} {x : Entry}
    (hx : l.entries[u]? = some x) {references : List Reference}
    (hrefs : references = if u = v then x.references ++ [r] else x.references) :
    references.head? = x.references.head? := by
  rw [hrefs]
  split
  · exact List.head?_append_of_ne_nil _ (h.nonempty hx)
  · rfl

theorem Logged.meets (hc : l.Coherent heap tree) (h : l.Logged links log) (hr : links r = none)
    (hcell : ∀ array index, r = .cell array index → array < l.size)
    (hm : l.Meets heap tree r d l' v cells) :
    l'.Logged (Function.update links r (some v)) (log ++ [⟨r, d, v, l.size⟩]) where
  references := by
    intro u x' hx'
    rw [List.filter_append, List.map_append]
    rcases hm.entry_cases hx' with ⟨x, hx, -, -, hrefs, -⟩ | ⟨hu, huv, hrefs, -⟩
    · rw [hrefs, h.references hx]
      by_cases huv : u = v
      · simp [huv]
      · simp [huv, Ne.symm huv]
    · rw [h.filter_eq_nil (by simp [hu]), hrefs]
      simp [huv]
  nodup := by
    rw [List.map_append, List.nodup_append]
    refine ⟨h.nodup, by simp, ?_⟩
    intro a ha b hb hab
    obtain ⟨m, hmem, rfl⟩ := List.mem_map.mp ha
    have hb' : b = r := by simpa using hb
    exact h.reference_ne hr hmem (hab.trans hb')
  links_iff := by
    intro r' u
    simp only [List.mem_append, List.mem_singleton, or_and_right, exists_or, exists_eq_left]
    by_cases hrr : r' = r
    · subst hrr
      rw [Function.update_self]
      constructor
      · rintro ⟨⟩
        exact Or.inr ⟨rfl, rfl⟩
      · rintro (⟨m, hin, hmr, -⟩ | ⟨-, rfl⟩)
        · exact absurd hmr (h.reference_ne hr hin)
        · rfl
    · rw [Function.update_of_ne hrr, h.links_iff]
      exact ⟨Or.inl, fun hor => hor.resolve_right fun hnew => hrr hnew.1.symm⟩
  value_lt := by
    intro m hmem
    rcases List.mem_append.mp hmem with hin | hin
    · exact Nat.lt_of_lt_of_le (h.value_lt m hin) (by cases hm <;> simp)
    · rw [List.mem_singleton.mp hin]
      exact hm.value_lt hc
  nonempty := by
    intro u x' hx'
    rcases hm.entry_cases hx' with ⟨x, hx, -, -, hrefs, -⟩ | ⟨-, -, hrefs, -⟩
    · rw [hrefs]
      split
      · simp
      · exact h.nonempty hx
    · rw [hrefs]
      simp
  literal := by
    intro u x' hx' hform
    rcases hm.entry_cases hx' with ⟨x, hx, -, hf, hrefs, hcached⟩ | ⟨-, -, hrefs, -⟩
    · rw [hrefs, if_neg]
      · exact h.literal hx (hf ▸ hform)
      · -- a literal has no identity, so it is not found again
        intro huv
        obtain ⟨id, hid⟩ := hcached huv
        obtain ⟨y, hy, hyd⟩ := hc.cached_iff.mp hid
        rw [← huv, hx] at hy
        cases hy
        exact (hc.represents hx).form_ne_literal hyd (hf ▸ hform)
    · rw [hrefs]
      rfl
  placed := by
    intro u x' hx'
    rw [List.filter_append]
    rcases hm.entry_cases hx' with ⟨x, hx, -, -, hrefs, -⟩ | ⟨hu, huv, hrefs, -⟩
    · obtain ⟨m, hfilter, hhead⟩ := h.placed hx
      refine ⟨m, ?_, (h.head?_references hx hrefs).trans hhead⟩
      -- the meeting answered an old value, or one other than this
      have hlt := lt_size_of_entry hx
      have hold : ¬(v = u ∧ v = l.size) := by omega
      simpa [Meeting.isNew, hold] using hfilter
    · refine ⟨⟨r, d, v, l.size⟩, ?_, by rw [hrefs]; rfl⟩
      rw [h.filter_eq_nil (by simp +contextual [hu])]
      simp [Meeting.isNew, ← huv, hu]
  first := by
    intro u array index x' hx' hhead
    rcases hm.entry_cases hx' with ⟨x, hx, -, -, hrefs, -⟩ | ⟨hu, -, hrefs, -⟩
    · rw [h.head?_references hx hrefs] at hhead
      exact h.first hx hhead
    · rw [hrefs] at hhead
      rw [hu]
      exact hcell array index (by simpa using hhead)

/-- Filling a cell changes no references. -/
theorem fill_entry_cases {array index content u : Nat} {x' : Entry}
    (hx' : (l.fill array index content).entries[u]? = some x') :
    ∃ x, l.entries[u]? = some x ∧ x'.references = x.references ∧
      (x'.form = .literal ↔ x.form = .literal) := by
  rw [entries_fill] at hx'
  obtain ⟨x, hx, rfl⟩ := Option.map_eq_some_iff.mp hx'
  refine ⟨x, hx, ?_⟩
  split
  · exact ⟨Entry.references_setContent .., Entry.form_setContent_eq_literal⟩
  · exact ⟨rfl, Iff.rfl⟩

theorem Logged.fill (h : l.Logged links log) (array index content : Nat) :
    (l.fill array index content).Logged links log where
  references := by
    intro u x' hx'
    obtain ⟨x, hx, hrefs, -⟩ := fill_entry_cases hx'
    rw [hrefs, h.references hx]
  nodup := h.nodup
  links_iff := h.links_iff
  value_lt := by
    rw [size_fill]
    exact h.value_lt
  nonempty := by
    intro u x' hx'
    obtain ⟨x, hx, hrefs, -⟩ := fill_entry_cases hx'
    rw [hrefs]
    exact h.nonempty hx
  literal := by
    intro u x' hx' hform'
    obtain ⟨x, hx, hrefs, hform⟩ := fill_entry_cases hx'
    rw [hrefs]
    exact h.literal hx (hform.mp hform')
  placed := by
    intro u x' hx'
    obtain ⟨x, hx, hrefs, -⟩ := fill_entry_cases hx'
    rw [hrefs]
    exact h.placed hx
  first := by
    intro u array index x' hx' hhead
    obtain ⟨x, hx, hrefs, -⟩ := fill_entry_cases hx'
    rw [hrefs] at hhead
    exact h.first hx hhead

end Logged

/-! ## Reachability -/

/-- Every object placed is reachable from one of the roots. -/
structure Rooted (heap : Heap) (roots : Datum → Prop) (l : Ledger) : Prop where
  reached : ∀ {id : DatumId} {v : Nat}, l.cached id = some v →
    ∃ root, roots root ∧ heap.Reaches root id

theorem Rooted.meets (h : l.Rooted heap roots)
    (hd : ∀ id, d = .object id → ∃ root, roots root ∧ heap.Reaches root id)
    (hm : l.Meets heap tree r d l' v cells) : l'.Rooted heap roots := by
  refine ⟨fun {e u} hu => ?_⟩
  cases hm with
  | again => exact h.reached hu
  | literal => exact h.reached hu
  | array =>
    rw [cached_add] at hu
    split at hu
    · rename_i he
      exact hd e (by rw [he])
    · exact h.reached hu
  | function =>
    rw [cached_add] at hu
    split at hu
    · rename_i he
      exact hd e (by rw [he])
    · exact h.reached hu

/-! ## Everything together -/

/-- What a reference links to; the values of the rows done so far are handed in. -/
def target? (rows : Nat → Nat → Option Nat) (l : Ledger) : Reference → Option Nat
  | .binding frame index => rows frame index
  | .cell array index => l.content? array index

/-- The rows with the value of one more. -/
def setRow (rows : Nat → Nat → Option Nat) (frame index v : Nat) : Nat → Nat → Option Nat :=
  fun f i => if f = frame ∧ i = index then some v else rows f i

/-- The invariants of a ledger and the agenda that waits for it. -/
structure Working (heap : Heap) (tree : EnvTree) (rows : Nat → Nat → Option Nat)
    (roots : Datum → Prop) (log : List Meeting) (l : Ledger) (agenda : List CellTask) : Prop where
  coherent : l.Coherent heap tree
  filled : l.Filled heap tree agenda
  pending : l.Pending heap agenda
  logged : l.Logged (l.target? rows) log
  rooted : l.Rooted heap roots

/-- Before the first meeting. -/
theorem working_nil (h : ∀ frame index, rows frame index = none) :
    Working heap tree rows roots [] ⟨[], []⟩ [] where
  coherent := ⟨by simp [cached], by simp⟩
  filled := ⟨by simp⟩
  pending := ⟨List.nodup_nil, by simp⟩
  logged := by
    refine ⟨by simp, List.nodup_nil, fun {r v} => ?_, by simp, by simp, by simp, by simp, by simp⟩
    cases r with
    | binding frame index => simp [target?, h]
    | cell array index => simp [target?, content?]
  rooted := ⟨by simp [cached]⟩

/-- More roots do no harm. -/
theorem Working.mono (h : Working heap tree rows roots log l agenda) {roots' : Datum → Prop}
    (hr : ∀ d, roots d → roots' d) : Working heap tree rows roots' log l agenda where
  coherent := h.coherent
  filled := h.filled
  pending := h.pending
  logged := h.logged
  rooted := by
    refine ⟨fun hc => ?_⟩
    obtain ⟨root, hroot, hreach⟩ := h.rooted.reached hc
    exact ⟨root, hr root hroot, hreach⟩

theorem Meets.target? (hm : l.Meets heap tree r d l' v cells) :
    l'.target? rows = l.target? rows := by
  funext r'
  cases r' with
  | binding frame index => rfl
  | cell array index => exact hm.content? array index

/-- What a row links to once it has its value. -/
theorem target?_setRow (rows : Nat → Nat → Option Nat) (l : Ledger) (frame index v : Nat) :
    l.target? (setRow rows frame index v) =
      Function.update (l.target? rows) (.binding frame index) (some v) := by
  funext r
  cases r with
  | binding f i =>
    by_cases hfi : f = frame ∧ i = index
    · obtain ⟨rfl, rfl⟩ := hfi
      rw [Function.update_self]
      simp [Ledger.target?, setRow]
    · rw [Function.update_of_ne (by simpa using hfi)]
      simp [Ledger.target?, setRow, hfi]
  | cell array i =>
    rw [Function.update_of_ne (by simp)]
    rfl

/-- What a cell links to once it is filled. -/
theorem target?_fill {array index : Nat} (hx : l.entries[array]? = some x)
    (hi : index < x.contents.length) (w : Nat) :
    (l.fill array index w).target? rows =
      Function.update (l.target? rows) (.cell array index) (some w) := by
  funext r
  cases r with
  | binding f i =>
    rw [Function.update_of_ne (by simp)]
    rfl
  | cell a i =>
    show (l.fill array index w).content? a i = _
    rw [content?_fill l hx hi]
    by_cases hcell : a = array ∧ i = index
    · obtain ⟨rfl, rfl⟩ := hcell
      simp
    · rw [if_neg hcell, Function.update_of_ne (by simpa using hcell)]
      rfl

/-- A row meets its datum. -/
theorem Working.meetRow {frame index : Nat}
    (h : Working heap tree rows roots log l agenda) (hrow : rows frame index = none)
    (hd : roots d) (hm : l.Meets heap tree (.binding frame index) d l' v cells) :
    Working heap tree (setRow rows frame index v) roots
      (log ++ [⟨.binding frame index, d, v, l.size⟩]) l'
      (cells ++ agenda) where
  coherent := h.coherent.meets hm
  filled := h.filled.meets hm
  pending := h.pending.meets hm
  logged := by
    -- the row links to nothing until now, so its reference is a new one
    have hempty : l.target? rows (.binding frame index) = none := hrow
    rw [target?_setRow, hm.target?]
    exact h.logged.meets h.coherent hempty (by simp) hm
  rooted := h.rooted.meets (fun id hid => ⟨d, hd, .self hid⟩) hm

/-- The first task of the agenda meets its datum and fills its cell. -/
theorem Working.meetCell (h : Working heap tree rows roots log l (task :: rest))
    (hne : task.datum ≠ .null)
    (hm : l.Meets heap tree (.cell task.array task.index) task.datum l' v cells) :
    Working heap tree rows roots (log ++ [⟨.cell task.array task.index, task.datum, v, l.size⟩])
      (l'.fill task.array task.index v) (cells ++ rest) := by
  have hwait := h.pending.waits task List.mem_cons_self
  have hc' := h.coherent.meets hm
  -- the task comes first again
  have hperm : (cells ++ task :: rest).Perm (task :: (cells ++ rest)) := List.perm_middle
  have hp' := (h.pending.meets hm).perm hperm
  have hf' := (h.filled.meets hm).mono hperm.subset
  obtain ⟨y, hy, hi⟩ := (hp'.waits task List.mem_cons_self).index_lt hc'
  refine ⟨hc'.fill .., hf'.fill hc' hp' hne (hm.shows h.coherent), hp'.fill hc' v, ?_, ?_⟩
  · have hempty : l.target? rows (.cell task.array task.index) = none := hwait.empty
    rw [target?_fill hy hi, hm.target?]
    refine (h.logged.meets h.coherent hempty ?_ hm).fill task.array task.index v
    intro array index heq
    cases heq
    exact hwait.lt_size
  · obtain ⟨x, oid, data, hx, hdat, hfind, hdatum⟩ := hwait.cell
    refine ⟨(h.rooted.meets (fun e he => ?_) hm).reached⟩
    -- what a cell holds is reached through its array
    obtain ⟨root, hroot, hreach⟩ := h.rooted.reached (h.coherent.cached_iff.mpr ⟨x, hx, hdat⟩)
    exact ⟨root, hroot, .cell hreach hfind (he ▸ List.mem_of_getElem? hdatum)⟩

/-- A cell that holds the empty list stays as it is. -/
theorem Working.skip (h : Working heap tree rows roots log l (task :: rest))
    (hnull : task.datum = .null) : Working heap tree rows roots log l rest where
  coherent := h.coherent
  filled := by
    refine ⟨fun {u x id data i e} hx hdat hfind he => ?_⟩
    refine (h.filled.cell hx hdat hfind he).imp_left fun ⟨hnone, hw⟩ => ⟨hnone, ?_⟩
    rcases hw with hw | hw
    · exact Or.inl hw
    · rcases List.mem_cons.mp hw with heq | hw
      · exact Or.inl ((congrArg CellTask.datum heq).trans hnull)
      · exact Or.inr hw
  pending := h.pending.tail
  logged := h.logged
  rooted := h.rooted

end Ledger

end EnvDiagram

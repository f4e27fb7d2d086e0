import EnvDiagram.Proofs.Viewer.Keys

/-!
# Going through the functions of a diagram

Each move takes the hover to the next function of a diagram. What follows the last function
depends on the mode. In the interactive mode the hover is put back to none and the round starts
again. In a printable diagram a function is left without any change, so the hover stays on the
last one for good.

* `Hover.ofOwner` — the hover on a function or on none
* `Hover.advance_ofOwner` — one move from there
* `Hover.turn`, `Hover.advanceBy_eq` — where any number of moves leads
* `Scene.advanceBy_redraw` — the moves in the diagram of a snapshot
-/

namespace EnvDiagram

-- a layout is known by its lemmas here, not by how it is computed
attribute [local irreducible] Layout.ofSnapshot

variable {α : Type}

namespace Hover

/-- The hover after a number of moves in the same diagram. -/
def advanceBy (d : Diagram α) (l : Layout α) (config : Config α) (h : Hover) :
    Nat → Except LookupError Hover
  | 0 => .ok h
  | k + 1 => (h.advanceBy d l config k).bind fun h => h.advance d l config

/-- The hover on a function, or on none. -/
def ofOwner (config : Config α) (printable : Bool) : Option Nat → Hover
  | .none => none
  | some v => enter ⟨⟨some v, .none⟩, ⟨some v, false, false⟩⟩ printable (config.palette printable)

/-- The function that comes so many places after none. -/
def stopAt (functions : List Nat) : Nat → Option Nat
  | 0 => .none
  | i + 1 => functions[i]?

/-- The place one move after a place, given how many functions there are. -/
def following (printable : Bool) (n i : Nat) : Nat :=
  if i < n then i + 1 else if printable then i else 0

/-- The place after a number of moves from none. -/
def turn (printable : Bool) (n k : Nat) : Nat :=
  if printable then min k n else k % (n + 1)

variable {config : Config α} {printable : Bool} {functions : List Nat} {l : Layout α}
  {d : Diagram α} {i n : Nat}

@[simp]
theorem hovered_ofOwner (config : Config α) (printable : Bool) (o : Option Nat) :
    (ofOwner config printable o).hovered = o := by
  cases o with
  | none => rfl
  | some v => cases printable <;> rfl

/-- In a printable diagram the overlays know the function and change nothing of it. -/
theorem ofOwner_printable (config : Config α) (o : Option Nat) :
    ofOwner config true o = ⟨⟨o, .none⟩, ⟨o, false, false⟩⟩ := by
  cases o <;> rfl

theorem ofOwner_eq_none_iff {o : Option Nat} : ofOwner config printable o = none ↔ o = .none := by
  constructor
  · intro h
    rw [← hovered_ofOwner config printable o, h, hovered_none]
  · rintro rfl
    rfl

theorem stopAt_eq_none_iff (h : i ≤ functions.length) : stopAt functions i = .none ↔ i = 0 := by
  cases i with
  | zero => exact iff_of_true rfl rfl
  | succ i => simpa [stopAt] using h

theorem stopAt_length (functions : List Nat) :
    stopAt functions functions.length = functions.getLast? := by
  cases functions with
  | nil => rfl
  | cons v rest => rw [List.getLast?_eq_getElem?]; rfl

/-! ## One move -/

/-- The next function is the one at the next place. -/
theorem next?_ofOwner (hnd : functions.Nodup) (hi : i ≤ functions.length) :
    (ofOwner config printable (stopAt functions i)).next? functions = functions[i]? := by
  unfold next?
  rw [hovered_ofOwner]
  cases i with
  | zero => exact List.head?_eq_getElem?
  | succ i =>
    have hlt : i < functions.length := hi
    have hpos : functions.idxOf? functions[i] = some i := by
      rw [List.idxOf?_eq_some_iff]
      exact ⟨hlt, rfl, fun j hj hsame => (hnd.getElem_inj_iff.mp hsame).not_lt hj⟩
    simp only [stopAt, List.getElem?_eq_getElem hlt, hpos, Option.bind_some]

/-- A move from a place takes the hover to the place that follows. -/
theorem advance_ofOwner (hnd : d.functions.Nodup)
    (hd : ∀ v ∈ d.functions, ∃ f, l.glyph? v = .ok (some f)) (hi : i ≤ d.functions.length) :
    (ofOwner config d.printable (stopAt d.functions i)).advance d l config =
      .ok (ofOwner config d.printable
        (stopAt d.functions (following d.printable d.functions.length i))) := by
  set h := ofOwner config d.printable (stopAt d.functions i) with hh
  have hleave : h.leave l d.printable = .ok (if d.printable then h else none) := by
    refine leave_eq_ok (fun v hv => ?_) d.printable
    rw [hh, hovered_ofOwner] at hv
    cases i with
    | zero => cases hv
    | succ i =>
      obtain ⟨f, hf⟩ := hd v (List.mem_of_getElem? hv)
      exact ⟨some f, hf⟩
  rw [advance, hleave, next?_ofOwner hnd hi]
  by_cases hlt : i < d.functions.length
  · -- the overlays are put over the next function, whatever is left of those before
    obtain ⟨f, hf⟩ := hd _ (List.getElem_mem hlt)
    rw [List.getElem?_eq_getElem hlt, following, if_pos hlt, stopAt, List.getElem?_eq_getElem hlt]
    simp only [Except.bind, hf, Except.map]
    cases hp : d.printable with
    | false => rfl
    | true =>
      rw [hh, hp, ofOwner_printable]
      rfl
  · rw [List.getElem?_eq_none (Nat.le_of_not_lt hlt), following, if_neg hlt]
    cases hp : d.printable with
    | false => rfl
    | true =>
      rw [hh, hp]
      rfl

/-! ## Any number of moves -/

theorem turn_of_le (printable : Bool) {k : Nat} (h : k ≤ n) : turn printable n k = k := by
  unfold turn
  split
  · exact Nat.min_eq_left h
  · exact Nat.mod_eq_of_lt (Nat.lt_succ_of_le h)

theorem turn_le (printable : Bool) (n k : Nat) : turn printable n k ≤ n := by
  unfold turn
  split
  · exact Nat.min_le_right k n
  · exact Nat.le_of_lt_succ (Nat.mod_lt k (Nat.succ_pos n))

theorem following_turn (printable : Bool) (n k : Nat) :
    following printable n (turn printable n k) = turn printable n (k + 1) := by
  unfold following turn
  cases printable with
  | true =>
    simp only [if_true]
    split <;> omega
  | false =>
    simp only [Bool.false_eq_true, if_false]
    rw [← Nat.mod_add_mod k (n + 1) 1]
    split
    · rename_i hlt
      exact (Nat.mod_eq_of_lt (Nat.succ_lt_succ hlt)).symm
    · rename_i hge
      have hlast : k % (n + 1) = n := by
        have hlt : k % (n + 1) < n + 1 := Nat.mod_lt k (Nat.succ_pos n)
        omega
      rw [hlast, Nat.mod_self]

/-- One move more than there are functions leads back to none, if it leads anywhere at all. -/
theorem turn_succ_eq_zero_iff : turn printable n (n + 1) = 0 ↔ printable = false ∨ n = 0 := by
  cases printable <;> simp [turn]

theorem turn_of_printable {k : Nat} (h : n ≤ k) : turn true n k = n := Nat.min_eq_right h

/-- Where any number of moves leads. -/
theorem advanceBy_eq (hnd : d.functions.Nodup)
    (hd : ∀ v ∈ d.functions, ∃ f, l.glyph? v = .ok (some f)) (k : Nat) :
    none.advanceBy d l config k = .ok (ofOwner config d.printable
      (stopAt d.functions (turn d.printable d.functions.length k))) := by
  induction k with
  | zero =>
    rw [turn_of_le _ (Nat.zero_le _)]
    rfl
  | succ k ih =>
    rw [advanceBy, ih, Except.bind, advance_ofOwner hnd hd (turn_le ..), following_turn]

end Hover

/-! ## The diagram of a snapshot -/

/-- Moving on in the diagram of a snapshot: the `k`-th move leads to the `k`-th function. After
one move more than there are functions the hover is on none again, unless the diagram is printable;
there it stays on the last function, however often it is moved. -/
theorem Scene.advanceBy_redraw [Scalar α] (sc : Scene α) (s : Snapshot) (printable : Bool) :
    let d := (sc.redraw s printable).1
    let l := (sc.redraw s printable).2.layout
    let n := d.functions.length
    (∀ k < n, ∃ h, Hover.none.advanceBy d l sc.config (k + 1) = .ok h ∧
        h.hovered = d.functions[k]?) ∧
      (Hover.none.advanceBy d l sc.config (n + 1) = .ok .none ↔ printable = false ∨ n = 0) ∧
      (printable = true → ∀ k ≥ n, ∃ h, Hover.none.advanceBy d l sc.config k = .ok h ∧
        h.hovered = d.functions.getLast?) := by
  intro d l n
  have hprintable : d.printable = printable := Viewer.printable_redraw sc s printable
  have hmoves : ∀ k, Hover.none.advanceBy d l sc.config k = _ :=
    Hover.advanceBy_eq d.nodup_functions fun v hv => mem_functions_redraw.mp hv
  rw [hprintable] at hmoves
  refine ⟨fun k hk => ⟨_, hmoves (k + 1), ?_⟩, ?_, ?_⟩
  · rw [Hover.hovered_ofOwner, Hover.turn_of_le printable hk, Hover.stopAt]
  · rw [hmoves, Except.ok.injEq, Hover.ofOwner_eq_none_iff,
      Hover.stopAt_eq_none_iff (Hover.turn_le ..), Hover.turn_succ_eq_zero_iff]
  · rintro rfl k hk
    refine ⟨_, hmoves k, ?_⟩
    rw [Hover.hovered_ofOwner, Hover.turn_of_printable hk, Hover.stopAt_length]

/-- Over two functions of a printable diagram: the second move leads to the last one, and so does
every further one. -/
theorem Scene.advanceBy_redraw_pair :
    let s : Snapshot :=
      ⟨0, [⟨⟨0⟩, "global", none,
          [⟨"f", some (.object ⟨1⟩), false⟩, ⟨"g", some (.object ⟨2⟩), false⟩]⟩],
        [(⟨1⟩, .closure ⟨"f", [], "1", ⟨0⟩⟩), (⟨2⟩, .closure ⟨"g", [], "2", ⟨0⟩⟩)], some ⟨0⟩⟩
    let sc : Scene Rat := .ofConfig .standard
    let d := (sc.redraw s true).1
    let l := (sc.redraw s true).2.layout
    1 < d.functions.length ∧ d.functions.length ≤ 5 ∧
      (∃ h, Hover.none.advanceBy d l sc.config 2 = .ok h ∧ h.hovered = some 1) ∧
      ∃ h, Hover.none.advanceBy d l sc.config 5 = .ok h ∧ h.hovered = some 1 := by
  intro s sc d l
  have hfunctions : d.functions = [0, 1] := by cbv
  have hlength : d.functions.length = 2 := by rw [hfunctions]; rfl
  obtain ⟨hvisits, -, hstays⟩ := advanceBy_redraw sc s true
  have hlt : 1 < d.functions.length := by rw [hlength]; decide
  have hle : d.functions.length ≤ 5 := by rw [hlength]; decide
  obtain ⟨h, hsecond, hlast⟩ := hvisits 1 hlt
  obtain ⟨h', hfifth, hlast'⟩ := hstays rfl 5 hle
  refine ⟨hlt, hle, ⟨h, hsecond, ?_⟩, h', hfifth, ?_⟩
  · rw [hlast]
    show d.functions[1]? = _
    rw [hfunctions]
    rfl
  · rw [hlast']
    show d.functions.getLast? = _
    rw [hfunctions]
    rfl

/-- One move more than there are functions does not lead back to none in a printable diagram. -/
theorem Scene.advanceBy_length_succ_ne :
    let s : Snapshot :=
      ⟨0, [⟨⟨0⟩, "global", none,
          [⟨"f", some (.object ⟨1⟩), false⟩, ⟨"g", some (.object ⟨2⟩), false⟩]⟩],
        [(⟨1⟩, .closure ⟨"f", [], "1", ⟨0⟩⟩), (⟨2⟩, .closure ⟨"g", [], "2", ⟨0⟩⟩)], some ⟨0⟩⟩
    let sc : Scene Rat := .ofConfig .standard
    let d := (sc.redraw s true).1
    let l := (sc.redraw s true).2.layout
    d.functions = [0, 1] ∧ Hover.none.advanceBy d l sc.config 3 ≠ .ok .none := by
  intro s sc d l
  have hfunctions : d.functions = [0, 1] := by cbv
  have hmoves : Hover.none.advanceBy d l sc.config 3 = _ :=
    Hover.advanceBy_eq d.nodup_functions (fun v hv => mem_functions_redraw.mp hv) 3
  refine ⟨hfunctions, ?_⟩
  rw [hmoves, hfunctions, show d.printable = true from rfl]
  decide

end EnvDiagram

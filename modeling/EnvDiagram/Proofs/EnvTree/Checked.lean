import EnvDiagram.Proofs.EnvTree.Numbering
import EnvDiagram.Proofs.Steps

/-!
# The tree built with every lookup checked

The definitions of the tree answer something wherever they are asked: a link is `none`
outside the members, and a walk stops when its bound is used up. Here is the same builder
with nothing to fall back on. A position that is looked up has to be there, a walk has to
end before its bound is used up, and a number is that of a place which has one. Where one
of these fails there is no tree.

None of them ever fails (`EnvTree.build?_eq`), so what the tree falls back on is never used.

* `Links.openCircles?_eq`, `Nesting.ofSnapshot?_eq` — the repaired links
* `Folding.ofNesting?_eq` — what is skipped and folded
* `EnvTree.ofFolding?_eq` — the numbered places
-/

namespace EnvDiagram

/-! ## Links -/

namespace Links

variable {l : Links} {i n start : Nat}

/-- The link of a member. -/
def parent? (l : Links) (i : Nat) : Option (Option Nat) := l.parents[i]?

/-- `climb`, a walk of no more than so many steps. -/
def climb? (l : Links) : Nat → Nat → Option Nat
  | 0, i => some i
  | n + 1, i => do
    match ← l.parent? i with
    | none => some i
    | some p => l.climb? n p

/-- `climb`, a walk that has to end. -/
def end? (l : Links) : Nat → Nat → Option Nat
  | 0, _ => none
  | n + 1, i => do
    match ← l.parent? i with
    | none => some i
    | some p => l.end? n p

/-- `nearest`, a search that has to find an ancestor or the end of the walk. -/
def nearest? (l : Links) (kept : Array Bool) : Nat → Nat → Option (Option Nat)
  | 0, _ => none
  | n + 1, i => do
    match ← l.parent? i with
    | none => some none
    | some p => if ← kept[p]? then some (some p) else l.nearest? kept n p

/-- `children` -/
def children? (l : Links) (p : Option Nat) : Option (List Nat) :=
  (List.range l.size).filterM fun i => (l.parent? i).map fun q => q = p

/-- `circleAfter`, a walk that has to end or to come back to its start. -/
def circleAfter? (l : Links) (start : Nat) : Nat → Nat → Option (List Nat)
  | 0, _ => none
  | n + 1, i => do
    match ← l.parent? i with
    | none => some []
    | some p =>
      if p = start then some []
      else
        let rest ← l.circleAfter? start n p
        some (p :: rest)

/-- `openFrom`, with the member that is detached looked up. -/
def openFrom? (cut : Links × List Nat) (start : Nat) : Option (Links × List Nat) := do
  let (l, detached) := cut
  let i ← l.climb? l.size start
  match ← l.parent? i with
  | none => some (l, detached)
  | some _ =>
    let circle ← l.circleAfter? i l.size i
    let least := circle.foldl min i
    let _ ← l.parent? least
    some (l.detach least, detached ++ [least])

/-- `openCircles` -/
def openCircles? (l : Links) : Option (Links × List Nat) :=
  (List.range l.size).foldlM openFrom? (l, [])

theorem parent?_eq (hi : i < l.size) : l.parent? i = some (l.parent i) := by
  have hlt : i < l.parents.size := hi
  simp [parent?, parent, Array.getD, hlt]

theorem climb?_eq (hc : l.Closed) (hi : i < l.size) (n : Nat) :
    l.climb? n i = some (l.climb n i) := by
  induction n generalizing i with
  | zero => rfl
  | succ n ih =>
    rw [climb?, climb, parent?_eq hi]
    cases hp : l.parent i with
    | none => rfl
    | some p => exact ih (hc i p hp)

theorem end?_eq (hc : l.Closed) (hi : i < l.size) (h : l.EndsWithin n i) :
    l.end? n i = some (l.climb n i) := by
  induction n generalizing i with
  | zero => exact absurd h (by simp [EndsWithin])
  | succ n ih =>
    rw [end?, climb, parent?_eq hi]
    cases hp : l.parent i with
    | none => rfl
    | some p => exact ih (hc i p hp) (h p hp)

theorem nearest?_eq {kept : Array Bool} (hkept : kept.size = l.size) (hc : l.Closed)
    (hi : i < l.size) (h : l.EndsWithin n i) :
    l.nearest? kept n i = some (l.nearest (fun p => kept.getD p false) n i) := by
  induction n generalizing i with
  | zero => exact absurd h (by simp [EndsWithin])
  | succ n ih =>
    rw [nearest?, nearest, parent?_eq hi]
    cases hp : l.parent i with
    | none => rfl
    | some p =>
      have hlt : p < kept.size := hkept ▸ hc i p hp
      have hlookup : kept[p]? = some (kept.getD p false) := by simp [Array.getD, hlt]
      show (kept[p]?).bind _ = some (if kept.getD p false = true then _ else _)
      rw [hlookup]
      show (if kept.getD p false = true then _ else _) = _
      cases kept.getD p false with
      | true => rfl
      | false => exact ih (hc i p hp) (h p hp)

theorem children?_eq (l : Links) (p : Option Nat) : l.children? p = some (l.children p) := by
  refine filterM_eq_some_filter fun i hi => ?_
  rw [parent?_eq (List.mem_range.mp hi)]
  rfl

/-- A walk that comes back to its start within so many steps. -/
theorem circleAfter?_eq (hc : l.Closed) (hi : i < l.size)
    (h : ∃ k, 0 < k ∧ k ≤ n ∧ l.climb k i = start) :
    l.circleAfter? start n i = some (l.circleAfter start n i) := by
  induction n generalizing i with
  | zero =>
    obtain ⟨k, hpos, hle, -⟩ := h
    omega
  | succ n ih =>
    rw [circleAfter?, circleAfter, parent?_eq hi]
    cases hp : l.parent i with
    | none => rfl
    | some p =>
      show (if p = start then _ else _) = some (if p = start then _ else _)
      by_cases hps : p = start
      · rw [if_pos hps, if_pos hps]
      · rw [if_neg hps, if_neg hps]
        obtain ⟨k, hpos, hle, hk⟩ := h
        -- the walk from the next member comes back one step sooner
        obtain ⟨j, rfl⟩ : ∃ j, k = j + 1 := ⟨k - 1, by omega⟩
        rw [climb_succ_of_some hp] at hk
        have hj : 0 < j := by
          rcases Nat.eq_zero_or_pos j with rfl | hj
          · exact absurd hk hps
          · exact hj
        rw [ih (hc i p hp) ⟨j, hj, by omega, hk⟩]
        rfl

theorem circleLeast_lt (hc : l.Closed) (hi : i < l.size) : l.circleLeast i < l.size := by
  obtain ⟨k, hk⟩ := exists_climb_circleLeast l i
  rw [← hk]
  exact climb_lt_size hc hi k

theorem openFrom?_eq {detached : List Nat} (hc : l.Closed) (hi : i < l.size) :
    openFrom? (l, detached) i = some (openFrom (l, detached) i) := by
  have hlt : l.climb l.size i < l.size := climb_lt_size hc hi _
  simp only [openFrom?, openFrom, climb?_eq hc hi, parent?_eq hlt, Option.bind_eq_bind,
    Option.bind_some]
  cases hp : l.parent (l.climb l.size i) with
  | none => rfl
  | some p =>
    have hcircle := circleAfter?_eq hc hlt (exists_return (by simp [hp]))
    simp only [hcircle, Option.bind_some]
    show (l.parent? (l.circleLeast (l.climb l.size i))).bind _ = _
    rw [parent?_eq (circleLeast_lt hc hlt)]
    rfl

/-- The members that are detached are members. -/
theorem openFrom_detached_lt (cut : Links × List Nat) (hc : cut.1.Closed) (hi : i < cut.1.size)
    (h : ∀ m ∈ cut.2, m < cut.1.size) : ∀ m ∈ (openFrom cut i).2, m < cut.1.size := by
  obtain ⟨l, detached⟩ := cut
  unfold openFrom
  simp only
  split
  · exact h
  · intro m hm
    rcases List.mem_append.mp hm with hm | hm
    · exact h m hm
    · rw [List.mem_singleton.mp hm]
      exact circleLeast_lt hc (climb_lt_size hc hi _)

theorem openCircles?_eq (hc : l.Closed) :
    l.openCircles? = some l.openCircles ∧ ∀ m ∈ l.openCircles.2, m < l.size := by
  let P : List Nat → Links × List Nat → Prop := fun _ cut =>
    cut.1.Sub l ∧ ∀ m ∈ cut.2, m < l.size
  have hfold : l.openCircles? = some l.openCircles ∧ P (List.range l.size) l.openCircles := by
    refine foldlM_eq_some_foldl (P := P) _ ?_ ⟨Sub.refl l, by simp⟩
    rintro done start ⟨l', detached⟩ hinit ⟨hsub, hdetached⟩
    have hstart : start < l'.size := by
      rw [hsub.size]
      exact List.mem_range.mp (hinit.subset (by simp))
    -- links are only taken away, so what is left is closed too
    have hc' : l'.Closed := hsub.closed hc
    refine ⟨openFrom?_eq hc' hstart, (openFrom_sub _ _).trans hsub, ?_⟩
    have hsize : l'.size = l.size := hsub.size
    have hlt := openFrom_detached_lt (l', detached) hc' hstart (hsize ▸ hdetached)
    rwa [show (l', detached).1.size = l.size from hsize] at hlt
  exact ⟨hfold.1, hfold.2.2⟩

end Links

/-! ## The repaired nesting -/

namespace Nesting

variable {envs : List Environment} {n : Nesting} {i : Nat}

/-- `chooseRoot` -/
def chooseRoot? (envs : List Environment) (chain : List EnvId) : Option (Option Nat) :=
  let first := envs.findIdx? fun env => env.parent.isNone
  match chain.getLast?.bind (position envs) with
  | none => some first
  | some i => do
    let env ← envs[i]?
    if env.parent.isNone then some (some i) else some first

/-- `ofSnapshot` -/
def ofSnapshot? (s : Snapshot) : Option (Nesting × List Defect) := do
  let envs := withoutDuplicates s.envs
  let root ← chooseRoot? envs s.scopeChain
  let linked := envs.mapIdx (link envs root)
  let (links, detached) ← Links.openCircles? ⟨(linked.map Prod.fst).toArray⟩
  let repeated := (duplicates [] s.envs).map .duplicateEnv
  let missing := if root.isNone then [.missingGlobal] else []
  let broken := linked.filterMap Prod.snd
  let circles ← detached.mapM fun i => (envs[i]?).map fun env => .parentCycle env.id
  some (⟨envs.toArray, root, links⟩, repeated ++ missing ++ broken ++ circles)

theorem chooseRoot?_eq (envs : List Environment) (chain : List EnvId) :
    chooseRoot? envs chain = some (chooseRoot envs chain) := by
  rw [chooseRoot?, chooseRoot]
  cases hp : chain.getLast?.bind (position envs) with
  | none => rfl
  | some i =>
    obtain ⟨id, -, hid⟩ := Option.bind_eq_some_iff.mp hp
    have hi : i < envs.length := position_lt hid
    simp only [List.getElem?_eq_getElem hi, Option.filter_some, isParentless, Option.any_some,
      Option.bind_eq_bind, Option.bind_some]
    split <;> rfl

theorem ofSnapshot?_eq (s : Snapshot) : ofSnapshot? s = some (ofSnapshot s) := by
  set envs := withoutDuplicates s.envs with henvs
  set root := chooseRoot envs s.scopeChain with hroot
  obtain ⟨hopen, hdetached⟩ := Links.openCircles?_eq (closed_rawLinks envs root)
  have hcircles : ∀ i ∈ (rawLinks envs root).openCircles.2,
      ((envs[i]?).map fun env => Defect.parentCycle env.id).isSome := by
    intro i hi
    have hlt : i < envs.length := size_rawLinks envs root ▸ hdetached i hi
    rw [List.getElem?_eq_getElem hlt]
    rfl
  have hopen' : Links.openCircles? ⟨((envs.mapIdx (link envs root)).map Prod.fst).toArray⟩ =
      some (rawLinks envs root).openCircles := hopen
  simp only [ofSnapshot?, ← henvs, chooseRoot?_eq, ← hroot, Option.bind_eq_bind, Option.bind_some,
    hopen', mapM_eq_some_filterMap hcircles]
  rfl

theorem id?_eq (hi : i < n.size) : ∃ env, n.envs[i]? = some env ∧ n.id? i = some env.id := by
  have hlt : i < n.envs.size := hi
  exact ⟨n.envs[i], by simp [hlt], by simp [id?, hlt]⟩

end Nesting

/-! ## Skipping and folding -/

namespace Folding

variable {f : Folding} {n : Nesting} {policy : FramePolicy} {i k : Nat}

/-- `keeps` -/
def keeps? (n : Nesting) (policy : FramePolicy) (i : Nat) : Option Bool := do
  let env ← n.envs[i]?
  some (n.isRoot i || !(policy.skipEmpty && env.vars.isEmpty))

/-- `foldTarget` -/
def foldTarget? (n : Nesting) (kept : Array Bool) (outer : Links) (i : Nat) :
    Option (Option Nat) := do
  let env ← n.envs[i]?
  if (← kept[i]?) && !n.isRoot i && env.onlyDeclares then
    let children ← outer.children? (some i)
    match ← children.filterM (kept[·]?) with
    | [child] => some (some child)
    | _ => some none
  else some none

/-- `ofNesting` -/
def ofNesting? (n : Nesting) (policy : FramePolicy) : Option Folding := do
  let kept ← (List.range n.size).mapM (keeps? n policy)
  let outer ← (List.range n.size).mapM (n.links.nearest? kept.toArray n.size)
  let folds ← (List.range n.size).mapM fun i =>
    if policy.foldDeclared then foldTarget? n kept.toArray ⟨outer.toArray⟩ i else some none
  some ⟨n, kept.toArray, ⟨outer.toArray⟩, ⟨folds.toArray⟩⟩

/-- `isNode` -/
def isNode? (f : Folding) (i : Nat) : Option Bool := do
  let kept ← f.kept[i]?
  let fold ← f.folds.parent? i
  some (kept && fold.isNone && !f.nesting.isRoot i)

/-- `foldedInto`, a walk that has to end. -/
def foldedInto? (f : Folding) : Nat → Nat → Option (List Nat)
  | 0, _ => none
  | n + 1, i => do
    match ← f.outer.parent? i with
    | none => some []
    | some p =>
      if (← f.folds.parent? p) = some i then
        let rest ← f.foldedInto? n p
        some (rest ++ [p])
      else some []

/-- `around` -/
def around? (f : Folding) (i : Nat) : Option (Option Nat) := do
  let merged ← f.foldedInto? f.size i
  f.outer.parent? (merged.headD i)

/-- `nodeLinks` -/
def nodeLinks? (f : Folding) : Option Links := do
  let links ← (List.range f.size).mapM f.around?
  some ⟨links.toArray⟩

/-- The position itself if it is kept, or else the nearest kept one around it. -/
def keeper? (f : Folding) (i : Nat) : Option (Option Nat) := do
  if ← f.kept[i]? then some (some i) else f.outer.parent? i

/-- `place` -/
def place? (f : Folding) (i : Nat) : Option (Option Nat) := do
  match ← f.keeper? i with
  | none => some none
  | some j =>
    if f.nesting.isRoot j then some none
    else
      let standIn ← f.folds.end? f.size j
      some (some standIn)

theorem keeps?_eq (hi : i < n.size) : keeps? n policy i = some (keeps n policy i) := by
  obtain ⟨env, henv, -⟩ := Nesting.id?_eq hi
  rw [keeps?, keeps, henv]
  rfl

theorem foldTarget?_eq {kept : Array Bool} {outer : Links} (hkept : kept.size = n.size)
    (houter : outer.size = n.size) (hi : i < n.size) :
    foldTarget? n kept outer i = some (foldTarget n (fun j => kept.getD j false) outer i) := by
  have hlookup : ∀ {j : Nat}, j < n.size → kept[j]? = some (kept.getD j false) := by
    intro j hj
    have hlt : j < kept.size := hkept ▸ hj
    simp [Array.getD, hlt]
  obtain ⟨env, henv, -⟩ := Nesting.id?_eq hi
  have honly : n.onlyDeclares i = env.onlyDeclares := by
    rw [Nesting.onlyDeclares, henv]
    rfl
  have hchildren : (outer.children (some i)).filterM (kept[·]?) =
      some ((outer.children (some i)).filter fun j => kept.getD j false) := by
    refine filterM_eq_some_filter fun j hj => hlookup ?_
    rw [← houter]
    exact (Links.mem_children.mp hj).1
  simp only [foldTarget?, foldTarget, henv, hlookup hi, honly, Links.children?_eq, hchildren,
    Option.bind_eq_bind, Option.bind_some]
  split
  · rcases (outer.children (some i)).filter fun j => kept.getD j false with _ | ⟨c, _ | ⟨c', rest⟩⟩
    all_goals rfl
  · rfl

/-- Every position finds what is around it. -/
theorem outer?_eq (h : n.WellFormed) {kept : Array Bool} (hkept : kept.size = n.size) :
    (List.range n.size).mapM (n.links.nearest? kept n.size) =
      some ((List.range n.size).map (n.links.nearest (fun i => kept.getD i false) n.size)) := by
  refine mapM_eq_some_map fun i hi => ?_
  have hi' : i < n.links.size := h.size_links.symm ▸ List.mem_range.mp hi
  have hend := Links.endsWithin_size h.forest h.closed hi'
  rw [h.size_links] at hend
  exact Links.nearest?_eq (hkept.trans h.size_links.symm) h.closed hi' hend

theorem folds?_eq (policy : FramePolicy) {kept : Array Bool} {outer : Links}
    (hkept : kept.size = n.size) (houter : outer.size = n.size) :
    ((List.range n.size).mapM fun i =>
      if policy.foldDeclared then foldTarget? n kept outer i else some none) =
      some ((List.range n.size).map fun i =>
        if policy.foldDeclared then foldTarget n (fun i => kept.getD i false) outer i else none) := by
  refine mapM_eq_some_map fun i hi => ?_
  split
  · exact foldTarget?_eq hkept houter (List.mem_range.mp hi)
  · rfl

theorem ofNesting?_eq (policy : FramePolicy) (h : n.WellFormed) :
    ofNesting? n policy = some (ofNesting n policy) := by
  have hkept : (List.range n.size).mapM (keeps? n policy) =
      some ((List.range n.size).map (keeps n policy)) :=
    mapM_eq_some_map fun i hi => keeps?_eq (List.mem_range.mp hi)
  set kept := ((List.range n.size).map (keeps n policy)).toArray with hkeptdef
  have hsize : kept.size = n.size := by simp [hkeptdef]
  have hcontract : n.links.contract (fun i => kept.getD i false) =
      ⟨((List.range n.size).map (n.links.nearest (fun i => kept.getD i false) n.size)).toArray⟩ := by
    rw [Links.contract, Links.ofFn, h.size_links]
  have houter : (n.links.contract fun i => kept.getD i false).size = n.size := by
    rw [Links.size_contract, h.size_links]
  simp only [ofNesting?, hkept, ← hkeptdef, outer?_eq h hsize, ← hcontract,
    folds?_eq policy hsize houter, Option.bind_eq_bind, Option.bind_some]
  rfl

theorem kept?_eq (h : f.WellFormed) (hi : i < f.size) : f.kept[i]? = some (f.isKept i) := by
  have hlt : i < f.kept.size := by rwa [h.size_kept]
  simp [isKept, Array.getD, hlt]

theorem isNode?_eq (h : f.WellFormed) (hi : i < f.size) : f.isNode? i = some (f.isNode i) := by
  rw [isNode?, kept?_eq h hi, Links.parent?_eq (by rwa [h.size_folds])]
  rfl

theorem foldedInto?_eq (h : f.WellFormed) (hi : i < f.size) {m : Nat}
    (hend : f.outer.EndsWithin m i) : f.foldedInto? m i = some (f.foldedInto m i) := by
  induction m generalizing i with
  | zero => exact absurd hend (by simp [Links.EndsWithin])
  | succ m ih =>
    rw [foldedInto?, foldedInto, Links.parent?_eq (by rwa [size_outer h])]
    cases hp : f.outer.parent i with
    | none => rfl
    | some p =>
      have hlt : p < f.size := (outer_spec h hp).2.2.1
      show (f.folds.parent? p).bind _ = _
      rw [Links.parent?_eq (by rwa [h.size_folds])]
      show (if f.folds.parent p = some i then _ else _) =
        some (if f.folds.parent p = some i then _ else _)
      split
      · rw [ih hlt (hend p hp)]
        rfl
      · rfl

theorem merged?_eq (h : f.WellFormed) (hi : i < f.size) :
    f.foldedInto? f.size i = some (f.merged i) :=
  foldedInto?_eq h hi (outer_endsWithin h hi)

theorem around?_eq (h : f.WellFormed) (hi : i < f.size) : f.around? i = some (f.around i) := by
  rw [around?, merged?_eq h hi]
  show f.outer.parent? ((f.merged i).headD i) = _
  have hlt : (f.merged i).headD i < f.size := by
    cases hm : f.merged i with
    | nil => exact hi
    | cons j rest => exact lt_size_of_mem_merged h hi (by rw [hm]; exact List.mem_cons_self)
  rw [Links.parent?_eq (by rwa [size_outer h])]
  rfl

theorem nodeLinks?_eq (h : f.WellFormed) : f.nodeLinks? = some f.nodeLinks := by
  have hmap : (List.range f.size).mapM f.around? = some ((List.range f.size).map f.around) :=
    mapM_eq_some_map fun i hi => around?_eq h (List.mem_range.mp hi)
  rw [nodeLinks?, hmap]
  rfl

theorem keeper?_eq (h : f.WellFormed) (hi : i < f.size) :
    f.keeper? i = some (if f.isKept i then some i else f.outer.parent i) := by
  rw [keeper?, kept?_eq h hi]
  show (if f.isKept i then _ else _) = _
  split
  · rfl
  · exact Links.parent?_eq (by rwa [size_outer h])

theorem place?_eq (h : f.WellFormed) (hi : i < f.size) : f.place? i = some (f.place i) := by
  rw [place?, place, keeper?_eq h hi]
  cases hj : (if f.isKept i then some i else f.outer.parent i) with
  | none => rfl
  | some j =>
    have hlt : j < f.size := by
      split at hj
      · cases hj
        exact hi
      · exact (outer_spec h hj).2.2.1
    have hstand : f.folds.end? f.size j = some (f.standIn j) :=
      Links.end?_eq (folds_closed h) (by rwa [h.size_folds]) (folds_endsWithin h hlt)
    show (if f.nesting.isRoot j = true then _ else _) =
      some (if f.nesting.isRoot j = true then _ else _)
    split
    · rfl
    · rw [hstand]
      rfl

end Folding

/-! ## The numbered places -/

namespace EnvTree

variable {f : Folding} {policy : FramePolicy} {i k level : Nat} {place : Option Nat}

/-- `childrenOf` -/
def childrenOf? (f : Folding) (links : Links) (place : Option Nat) : Option (List Nat) := do
  let children ← links.children? place
  children.filterM f.isNode?

/-- `rows`, which have to come to an end. -/
def rows? (children : Option Nat → Option (List Nat)) :
    Nat → List (Option Nat) → Option (List (List (Option Nat)))
  | 0, row => if row.isEmpty then some [] else none
  | n + 1, row =>
    if row.isEmpty then some []
    else do
      let next ← row.mapM children
      let rest ← rows? children n (next.flatten.map some)
      some (row :: rest)

/-- The numbers of the children of a place. -/
def childNumbers? (f : Folding) (links : Links) (order : List (Option Nat))
    (place : Option Nat) : Option (List Nat) := do
  let children ← childrenOf? f links place
  children.mapM fun c => order.idxOf? (some c)

/-- The global environment, if there is one. -/
def rootEnv? (n : Nesting) : Option (Option Environment) :=
  match n.root with
  | none => some none
  | some r => (n.envs[r]?).map some

/-- `nodeOf` -/
def nodeOf? (f : Folding) (links : Links) (order : List (Option Nat)) (level : Nat) :
    Option Nat → Option TreeNode
  | none => do
    let children ← childNumbers? f links order none
    let env ← rootEnv? f.nesting
    some
      { env := env.map Environment.id
        parent := none
        children
        level
        merged := []
        onlyDeclares := env.any Environment.onlyDeclares }
  | some i => do
    let children ← childNumbers? f links order (some i)
    let env ← f.nesting.envs[i]?
    let around ← links.parent? i
    let parent ← order.idxOf? around
    let merged ← f.foldedInto? f.size i
    let merged ← merged.mapM f.nesting.id?
    some
      { env := some env.id
        parent := some parent
        children
        level
        merged
        onlyDeclares := env.onlyDeclares }

/-- The identity of the environment at a position, and the node that stands for it. -/
def home? (f : Folding) (order : List (Option Nat)) (i : Nat) : Option (EnvId × Nat) := do
  let id ← f.nesting.id? i
  let place ← f.place? i
  let node ← order.idxOf? place
  some (id, node)

/-- `ofFolding` -/
def ofFolding? (f : Folding) : Option EnvTree := do
  let links ← f.nodeLinks?
  let rows ← rows? (childrenOf? f links) (f.size + 1) [none]
  let order := rows.flatten
  let nodes ← (levelled rows).mapM fun lp => nodeOf? f links order lp.1 lp.2
  let homes ← (List.range f.size).mapM (home? f order)
  some ⟨nodes.toArray, homes⟩

/-- `build` -/
def build? (s : Snapshot) (policy : FramePolicy) : Option (EnvTree × List Defect) := do
  let (nesting, defects) ← Nesting.ofSnapshot? s
  let folding ← Folding.ofNesting? nesting policy
  let tree ← ofFolding? folding
  some (tree, defects)

theorem idxOf?_eq {places : List (Option Nat)} (h : place ∈ places) :
    places.idxOf? place = some (places.idxOf place) :=
  List.findIdx?_eq_some_of_exists ⟨place, h, beq_self_eq_true place⟩

/-- The rows come to an end if they are empty after as many as the bound says. -/
theorem rows?_eq {children? : Option Nat → Option (List Nat)} {children : Option Nat → List Nat}
    (hchildren : ∀ place, children? place = some (children place)) {m : Nat}
    {row : List (Option Nat)} (hend : nthRow children m row = []) :
    rows? children? m row = some (rows children m row) := by
  induction m generalizing row with
  | zero =>
    have hrow : row = [] := hend
    rw [hrow]
    rfl
  | succ m ih =>
    rw [rows?, rows]
    split
    · rfl
    · have hnext : (row.map children).flatten.map some =
          row.flatMap fun place => (children place).map some := by
        rw [← List.flatMap_def, List.map_flatMap]
      rw [mapM_eq_some_map fun place _ => hchildren place]
      show (rows? children? m ((row.map children).flatten.map some)).bind _ = _
      have hrest : rows? children? m (row.flatMap fun place => (children place).map some) =
          some (rows children m (row.flatMap fun place => (children place).map some)) := ih hend
      rw [hnext, hrest]
      rfl

theorem childrenOf?_eq (h : f.WellFormed) (place : Option Nat) :
    childrenOf? f f.nodeLinks place = some (childrenOf f f.nodeLinks place) := by
  rw [childrenOf?, Links.children?_eq]
  refine filterM_eq_some_filter fun i hi => Folding.isNode?_eq h ?_
  rw [← Folding.size_nodeLinks f]
  exact (Links.mem_children.mp hi).1

theorem childNumbers?_eq (h : f.WellFormed) (place : Option Nat) :
    childNumbers? f f.nodeLinks (order f) place =
      some ((childrenOf f f.nodeLinks place).map fun c => (order f).idxOf (some c)) := by
  rw [childNumbers?, childrenOf?_eq h]
  refine mapM_eq_some_map fun c hc => idxOf?_eq ?_
  obtain ⟨hlt, -, hnode⟩ := mem_childrenOf.mp hc
  exact mem_order_of_isNode h hnode hlt

theorem rootEnv?_eq {n : Nesting} (h : n.WellFormed) :
    ∃ env, rootEnv? n = some env ∧ env.map Environment.id = n.root.bind n.id? ∧
      env.any Environment.onlyDeclares = n.root.any n.onlyDeclares := by
  rw [rootEnv?]
  cases hr : n.root with
  | none => exact ⟨none, rfl, rfl, rfl⟩
  | some r =>
    obtain ⟨env, henv, hid⟩ := Nesting.id?_eq (h.root_lt hr)
    refine ⟨some env, ?_, ?_, ?_⟩
    · show (n.envs[r]?).map some = _
      rw [henv]
      rfl
    · rw [Option.bind_some, hid]
      rfl
    · rw [Option.any_some, Option.any_some, Nesting.onlyDeclares, henv]
      rfl

/-- What is around a place that has a node has a number. -/
theorem around_mem_order (h : f.WellFormed) (hnode : f.isNode i = true) :
    f.nodeLinks.parent i ∈ order f := by
  cases hp : f.nodeLinks.parent i with
  | none => exact none_mem_order _
  | some p =>
    exact mem_order_of_isNode h (Folding.isNode_of_nodeLinks h hnode hp)
      (Folding.lt_size_of_nodeLinks h hp)

theorem nodeOf?_eq (h : f.WellFormed) (hplace : place ∈ order f) :
    nodeOf? f f.nodeLinks (order f) level place =
      some (nodeOf f f.nodeLinks (order f) level place) := by
  obtain ⟨j, -, hj⟩ := mem_order.mp hplace
  cases place with
  | none =>
    obtain ⟨env, henv, hid, honly⟩ := rootEnv?_eq h.nesting
    rw [nodeOf?, nodeOf, childNumbers?_eq h, henv]
    show some _ = some _
    rw [hid, honly]
  | some i =>
    -- only the row of the global place is not one of positions with nodes
    obtain ⟨hi, hnode⟩ : i < f.size ∧ f.isNode i = true := by
      cases j with
      | zero => simp [rowAt, nthRow] at hj
      | succ j =>
        obtain ⟨k, hk, hlt, hnode, -⟩ := mem_rowAt_succ.mp hj
        cases hk
        exact ⟨hlt, hnode⟩
    obtain ⟨env, henv, hid⟩ := Nesting.id?_eq hi
    have hmerged : (f.merged i).mapM f.nesting.id? = some ((f.merged i).filterMap f.nesting.id?) := by
      refine mapM_eq_some_filterMap fun j hj => ?_
      obtain ⟨env, -, hid⟩ := Nesting.id?_eq (Folding.lt_size_of_mem_merged h hi hj)
      rw [hid]
      rfl
    have hparent := Links.parent?_eq (l := f.nodeLinks) (i := i) (by rwa [Folding.size_nodeLinks])
    have honly : f.nesting.onlyDeclares i = env.onlyDeclares := by
      rw [Nesting.onlyDeclares, henv]
      rfl
    simp only [nodeOf?, nodeOf, childNumbers?_eq h, henv, hparent,
      idxOf?_eq (around_mem_order h hnode), Folding.merged?_eq h hi, hmerged, hid, honly,
      Option.bind_eq_bind, Option.bind_some]

theorem home?_eq (h : f.WellFormed) (hi : i < f.size) : ∃ id,
    f.nesting.id? i = some id ∧ home? f (order f) i = some (id, (order f).idxOf (f.place i)) := by
  obtain ⟨env, -, hid⟩ := Nesting.id?_eq hi
  refine ⟨env.id, hid, ?_⟩
  simp only [home?, hid, Folding.place?_eq h hi, idxOf?_eq (place_mem_order h hi),
    Option.bind_eq_bind, Option.bind_some]

theorem ofFolding?_eq (h : f.WellFormed) : ofFolding? f = some (ofFolding f) := by
  have hrows : rows? (childrenOf? f f.nodeLinks) (f.size + 1) [none] = some (rowsOf f) :=
    rows?_eq (childrenOf?_eq h) (rowAt_eq_nil h)
  have hnodes : ((levelled (rowsOf f)).mapM fun lp => nodeOf? f f.nodeLinks (order f) lp.1 lp.2) =
      some (ofFolding f).nodes.toList := by
    rw [nodes_ofFolding]
    refine mapM_eq_some_map fun lp hlp => nodeOf?_eq h ?_
    rw [order, ← map_snd_levelled]
    exact List.mem_map_of_mem hlp
  have hhome : ∀ i ∈ List.range f.size, home? f (order f) i =
      (f.nesting.id? i).map fun id => (id, (order f).idxOf (f.place i)) := by
    intro i hi
    obtain ⟨id, hid, hhome⟩ := home?_eq h (List.mem_range.mp hi)
    rw [hhome, hid]
    rfl
  have hhomes : (List.range f.size).mapM (home? f (order f)) = some (ofFolding f).homes := by
    rw [mapM_eq_some_filterMap, List.filterMap_congr hhome]
    · rfl
    · intro i hi
      obtain ⟨id, -, hhome⟩ := home?_eq h (List.mem_range.mp hi)
      rw [hhome]
      rfl
  simp only [ofFolding?, Folding.nodeLinks?_eq h, hrows, Option.bind_eq_bind, Option.bind_some]
  rw [show (rowsOf f).flatten = order f from rfl, hnodes, hhomes]
  rfl

/-- Building the tree never looks up what is not there, and all its walks end. -/
theorem build?_eq (s : Snapshot) (policy : FramePolicy) :
    build? s policy = some (build s policy) := by
  have h := Nesting.ofSnapshot_wellFormed s
  simp only [build?, Nesting.ofSnapshot?_eq, Folding.ofNesting?_eq policy h,
    ofFolding?_eq (Folding.wellFormed_ofNesting h policy), Option.bind_eq_bind, Option.bind_some]
  rfl

end EnvTree

end EnvDiagram

import EnvDiagram.Proofs.EnvTree.BreadthFirst
import EnvDiagram.Proofs.EnvTree.Merging

/-!
# Finding the nodes with a queue

The nodes of a tree can be found one after the other. A queue holds the places with nodes whose
children have not been looked for; the first of them leaves it, and its children get the next
numbers and join at the end. What has been found by then is always the beginning of the tree: the
places with the first numbers, and of each node the children with such numbers. So the queue runs
empty when the places run out, and what has been found is the tree.

* `Search`, `Search.run` — what has been found, and one place after the other
* `EnvTree.order_found` — the children of a place have the next numbers
* `Search.upTo` — the beginning of a tree
* `Search.attach_upTo`, `Search.step_upTo`, `Search.run_upTo` — one more node, one more place, so
  many places
* `Search.queue_run` — the queue runs empty
* `Search.tree_eq_build` — the tree that is found is that of the snapshot
-/

namespace EnvDiagram

/-! ## The search -/

/-- A tree while its nodes are found. -/
@[ext]
structure Search where
  nodes : Array TreeNode
  /-- The numbers of the positions whose nodes have been found. -/
  number : Nat → Option Nat
  /-- The places whose children have not been looked for, with their numbers. -/
  queue : List (Option Nat × Nat)

namespace Search

/-- Only the global node has been found. -/
def start (f : Folding) : Search where
  nodes := #[{
    env := f.nesting.root.bind f.nesting.id?
    parent := none
    children := []
    level := 0
    merged := []
    onlyDeclares := f.nesting.root.any f.nesting.onlyDeclares }]
  number i := if f.nesting.isRoot i then some 0 else none
  queue := [(none, 0)]

/-- The positions that get nodes right in a place. -/
def inside (f : Folding) (t : Merging) (place : Option Nat) : List Nat :=
  (List.range f.size).filter fun c =>
    f.isKept c && (t.into c).isNone && !f.nesting.isRoot c && t.outer c = place

/-- Gives a position the next number, and a node among the children of the given one. -/
def attach (f : Folding) (t : Merging) (q : Nat) (s : Search) (c : Nat) : Search :=
  match s.nodes[q]? with
  | none => s
  | some around =>
    let node : TreeNode :=
      { env := f.nesting.id? c
        parent := some q
        children := []
        level := around.level + 1
        merged := (t.merged c).filterMap f.nesting.id?
        onlyDeclares := f.nesting.onlyDeclares c }
    let k := s.nodes.size
    { nodes := (s.nodes.push node).modify q fun n => { n with children := n.children ++ [k] }
      number := Function.update s.number c (some k)
      queue := s.queue ++ [(some c, k)] }

/-- The first place of the queue leaves it, and its children join at the end. -/
def step (f : Folding) (t : Merging) (s : Search) : Search :=
  match s.queue with
  | [] => s
  | (place, q) :: rest => (inside f t place).foldl (attach f t q) { s with queue := rest }

/-- So many places have left the queue. -/
def run (f : Folding) (t : Merging) (n : Nat) : Search := (step f t)^[n] (start f)

/-- The number of the node that stands for a position: that of its own node, or else of where it
is folded into, or else of what is around it. -/
def home (f : Folding) (t : Merging) (number : Nat → Option Nat) : Nat → Nat → Option Nat
  | 0, _ => none
  | n + 1, i =>
    match number i with
    | some k => some k
    | none =>
      match t.into i, f.nesting.links.parent i with
      | some c, _ => home f t number n c
      | none, some p => home f t number n p
      | none, none => some 0

/-- The tree that is found. -/
def tree (f : Folding) (t : Merging) (n : Nat) : EnvTree :=
  let s := run f t n
  { nodes := s.nodes
    homes := (List.range f.size).filterMap fun i =>
      (f.nesting.id? i).bind fun id => (home f t s.number n i).map (Prod.mk id) }

end Search

/-! ## The children of a place have the next numbers -/

namespace EnvTree

variable {f : Folding} {children : Option Nat → List Nat} {i j k m q c : Nat}
  {place : Option Nat} {node : TreeNode}

theorem nextRow_append (row row' : List (Option Nat)) :
    nextRow children (row ++ row') = nextRow children row ++ nextRow children row' :=
  List.flatMap_append

/-- When the rows end within the bound, their places are those of the first row and the children
of all. -/
theorem flatten_rows {row : List (Option Nat)} (h : nthRow children m row = []) :
    (rows children m row).flatten =
      row ++ nextRow children (rows children m row).flatten := by
  induction m generalizing row with
  | zero =>
    obtain rfl : row = [] := h
    rfl
  | succ m ih =>
    rw [rows]
    split
    · rename_i hrow
      rw [List.isEmpty_iff.mp hrow]
      rfl
    · have hrest := ih h
      show row ++ (rows children m (nextRow children row)).flatten =
        row ++ nextRow children (row ++ (rows children m (nextRow children row)).flatten)
      rw [nextRow_append, ← hrest]

/-- The places are the global one and the children of all of them. -/
theorem order_eq (h : f.WellFormed) :
    order f = none :: nextRow (childrenOf f f.nodeLinks) (order f) :=
  flatten_rows (rowAt_eq_nil h)

/-- The places that have been found when the children of the first ones have been looked for. -/
def found (f : Folding) (k : Nat) : List (Option Nat) :=
  none :: nextRow (childrenOf f f.nodeLinks) ((order f).take k)

theorem found_succ (hk : (order f)[k]? = some place) :
    found f (k + 1) = found f k ++ (childrenOf f f.nodeLinks place).map some := by
  rw [found, List.take_add_one, hk, nextRow, List.flatMap_append]
  simp [found, nextRow]

theorem found_length (h : f.WellFormed) : found f (order f).length = order f := by
  rw [found, List.take_length]
  exact (order_eq h).symm

/-- What has been found is the beginning of the places. -/
theorem found_isPrefix (h : f.WellFormed) (k : Nat) : found f k <+: order f := by
  rw [order_eq h, found]
  refine (List.prefix_cons_inj none).mpr ?_
  exact List.IsPrefix.flatMap (List.take_prefix k _) _

/-- The number of a child of a place. -/
theorem order_found (h : f.WellFormed) (hk : (order f)[k]? = some place)
    (hj : (childrenOf f f.nodeLinks place)[j]? = some c) :
    (order f)[(found f k).length + j]? = some (some c) := by
  obtain ⟨rest, hrest⟩ := found_isPrefix h (k + 1)
  have hlt : j < ((childrenOf f f.nodeLinks place).map some).length := by
    rw [List.length_map]
    exact (List.getElem?_eq_some_iff.mp hj).1
  rw [← hrest, found_succ hk, List.append_assoc, List.getElem?_append_right (Nat.le_add_right _ _),
    Nat.add_sub_cancel_left, List.getElem?_append_left hlt, List.getElem?_map, hj]
  rfl

/-- The children of a node have numbers one after the other. -/
theorem children_eq_range' (h : f.WellFormed) (hnode : (ofFolding f).nodes[q]? = some node) :
    node.children = List.range' (found f q).length node.children.length := by
  obtain ⟨place, hplace, hchildren⟩ := children_of_node hnode
  refine List.ext_getElem (by rw [List.length_range']) fun j hj _ => ?_
  have hj' : j < (childrenOf f f.nodeLinks place).length := by
    rwa [hchildren, List.length_map] at hj
  have hnumber := idxOf_order (order_found h hplace (List.getElem?_eq_getElem hj'))
  simp only [hchildren, List.getElem_map, List.getElem_range', hnumber, one_mul]

/-- Every place comes before its children. -/
theorem idxOf_parent_lt (hc : some c ∈ order f) :
    (order f).idxOf (f.nodeLinks.parent c) < (order f).idxOf (some c) := by
  obtain ⟨level, hnode⟩ := nodes_idxOf hc
  have hk : (order f).idxOf (some c) ≠ 0 := by
    rw [← idxOf_none f]
    exact fun heq => Option.some_ne_none c ((List.idxOf_inj hc).mp heq)
  obtain ⟨p, hp, around, hparent, -, -⟩ := parent_ofFolding hk hnode
  rwa [Option.some.inj hparent]

/-- When a place leaves the queue, it has been found. -/
theorem lt_length_found (h : f.WellFormed) (hk : (order f)[k]? = some place) :
    k < (found f k).length := by
  cases place with
  | none =>
    rw [← idxOf_order hk, idxOf_none]
    exact Nat.one_pos
  | some c =>
    -- it is among the children of a place that comes before it
    have hc := List.mem_of_getElem? hk
    obtain ⟨hnode, hlt⟩ := isNode_of_mem_order hc
    have hp := idxOf_parent_lt hc
    rw [idxOf_order hk] at hp
    have houter : f.nodeLinks.parent c ∈ (order f).take k :=
      List.mem_of_getElem?
        ((List.getElem?_take_of_lt hp).trans (order_idxOf (parent_mem_order hc)))
    have hmem : some c ∈ found f k :=
      List.mem_cons_of_mem _ (List.mem_flatMap.mpr
        ⟨_, houter, List.mem_map_of_mem (mem_childrenOf.mpr ⟨hlt, rfl, hnode⟩)⟩)
    obtain ⟨rest, hrest⟩ := found_isPrefix h k
    calc k = (order f).idxOf (some c) := (idxOf_order hk).symm
      _ = (found f k).idxOf (some c) := by rw [← hrest, List.idxOf_append_of_mem hmem]
      _ < (found f k).length := List.idxOf_lt_length_of_mem hmem

end EnvTree

/-! ## The beginning of a tree -/

/-- A node whose children with later numbers have not been found. -/
def TreeNode.before (m : Nat) (node : TreeNode) : TreeNode :=
  { node with children := node.children.filter (· < m) }

namespace Search

open EnvTree

variable {f : Folding} {i j k m q c : Nat} {place : Option Nat} {node : TreeNode}

/-- What has been found when the first places have left the queue and so many have numbers. -/
def upTo (f : Folding) (k m : Nat) : Search where
  nodes := ((ofFolding f).nodes.extract 0 m).map (TreeNode.before m)
  number i :=
    if f.nesting.isRoot i then some 0
    else if (order f).idxOf (some i) < m then some ((order f).idxOf (some i))
    else none
  queue := ((order f).zipIdx.take m).drop k

theorem getElem?_nodes_upTo : (upTo f k m).nodes[j]? =
    if j < m then ((ofFolding f).nodes[j]?).map (TreeNode.before m) else none := by
  rw [upTo, Array.getElem?_map, Array.getElem?_extract, Nat.zero_add, Nat.sub_zero]
  by_cases hj : j < (ofFolding f).nodes.size
  · simp [hj]
  · simp [hj]

theorem size_nodes_upTo (hm : m ≤ (order f).length) : (upTo f k m).nodes.size = m := by
  rw [upTo, Array.size_map, Array.size_extract, size_nodes_ofFolding, Nat.sub_zero,
    Nat.min_eq_left hm]

theorem number_upTo : (upTo f k m).number i =
    if f.nesting.isRoot i then some 0
    else if (order f).idxOf (some i) < m then some ((order f).idxOf (some i))
    else none := rfl

theorem filter_lt_succ {numbers : List Nat} (h : numbers.Pairwise (· < ·)) (m : Nat) :
    numbers.filter (· < m + 1) = numbers.filter (· < m) ++ if m ∈ numbers then [m] else [] := by
  induction numbers with
  | nil => rfl
  | cons a rest ih =>
    obtain ⟨hall, hrest⟩ := List.pairwise_cons.mp h
    rw [List.filter_cons, List.filter_cons, ih hrest]
    rcases Nat.lt_trichotomy a m with hlt | rfl | hgt
    · simp [hlt, hlt.ne', Nat.lt_succ_of_lt hlt]
    · have hnil : rest.filter (· < a) = [] :=
        List.filter_eq_nil_iff.mpr fun b hb => by simpa using (hall b hb).le
      have hnot : a ∉ rest := fun hmem => lt_irrefl a (hall a hmem)
      simp [hnil, hnot]
    · have hnot : m ∉ rest := fun hmem => lt_asymm hgt (hall m hmem)
      have hle : ¬ a < m + 1 := by omega
      simp [hnot, hle, hgt.ne, lt_asymm hgt]

/-- The children of a node before and after one more number is given. -/
theorem children_before_succ (h : f.WellFormed) (hnode : (ofFolding f).nodes[q]? = some node) :
    (node.before (m + 1)).children = (node.before m).children ++
      if (ofFolding f).links.parent m = some q then [m] else [] := by
  have hmem : m ∈ node.children ↔ (ofFolding f).links.parent m = some q := by
    rw [← List.count_pos_iff, count_children h hnode]
    split
    · exact iff_of_true Nat.one_pos ‹_›
    · exact iff_of_false (lt_irrefl 0) ‹_›
  have hrise : node.children.Pairwise (· < ·) := by
    rw [children_eq_range' h hnode]
    exact List.pairwise_lt_range'
  show node.children.filter _ = node.children.filter _ ++ _
  rw [filter_lt_succ hrise, if_congr hmem rfl rfl]

/-- A node has no children before it. -/
theorem children_before_self (h : f.WellFormed) (hnode : (ofFolding f).nodes[q]? = some node) :
    (node.before (q + 1)).children = [] := by
  obtain ⟨place, hplace, hchildren⟩ := children_of_node hnode
  refine List.filter_eq_nil_iff.mpr fun k hk => ?_
  rw [hchildren] at hk
  obtain ⟨c, hc, rfl⟩ := List.mem_map.mp hk
  have hlt := idxOf_parent_lt (some_mem_order_of_childrenOf h hc)
  rw [(mem_childrenOf.mp hc).2.1, idxOf_order hplace] at hlt
  simpa using hlt

/-- The node with the next number, as it is made and as it is in the tree. -/
theorem next_node (h : f.WellFormed) (hm : (order f)[m]? = some (some c))
    (hq : (order f).idxOf (f.nodeLinks.parent c) = q) :
    ∃ node around, (ofFolding f).nodes[m]? = some node ∧ (ofFolding f).nodes[q]? = some around ∧
      node.parent = some q ∧ node.before (m + 1) =
        { env := f.nesting.id? c
          parent := some q
          children := []
          level := around.level + 1
          merged := (f.merged c).filterMap f.nesting.id?
          onlyDeclares := f.nesting.onlyDeclares c } := by
  have hlt : m < (ofFolding f).nodes.size := by
    rw [size_nodes_ofFolding]
    exact (List.getElem?_eq_some_iff.mp hm).1
  have hnode := Array.getElem?_eq_getElem hlt
  obtain ⟨place, hplace, -, hnodeOf⟩ := row_of_node hnode
  obtain rfl : some c = place := Option.some.inj (hm.symm.trans hplace)
  have hm0 : m ≠ 0 := by
    rintro rfl
    rw [← idxOf_none f, order_idxOf (none_mem_order f)] at hm
    cases hm
  obtain ⟨p, -, around, hparent, haround, hlevel⟩ := parent_ofFolding hm0 hnode
  have hpq : p = q := by
    rw [hnodeOf] at hparent
    exact (Option.some.inj hparent).symm.trans hq
  subst hpq
  refine ⟨_, around, hnode, haround, hparent, ?_⟩
  generalize (ofFolding f).nodes[m] = node at *
  have henv : node.env = f.nesting.id? c := congrArg TreeNode.env hnodeOf
  have hmerged : node.merged = (f.merged c).filterMap f.nesting.id? :=
    congrArg TreeNode.merged hnodeOf
  have honly : node.onlyDeclares = f.nesting.onlyDeclares c :=
    congrArg TreeNode.onlyDeclares hnodeOf
  show ({ node with children := (node.before (m + 1)).children } : TreeNode) = _
  rw [children_before_self h hnode, henv, hparent, hlevel, hmerged, honly]

theorem number_upTo_succ (hm : (order f)[m]? = some (some c)) :
    Function.update (upTo f k m).number c (some m) = (upTo f k (m + 1)).number := by
  have hc := List.mem_of_getElem? hm
  funext i
  by_cases hi : i = c
  · have hroot := (Folding.isNode_iff.mp (isNode_of_mem_order hc).1).2.2
    rw [hi, Function.update_self, number_upTo, idxOf_order hm, if_pos (Nat.lt_succ_self m), hroot]
    rfl
  · have hidx : (order f).idxOf (some i) ≠ m := by
      intro heq
      have hlt := (List.getElem?_eq_some_iff.mp hm).1
      have hplace := order_idxOf (List.idxOf_lt_length_iff.mp (heq ▸ hlt))
      rw [heq, hm, Option.some.injEq, Option.some.injEq] at hplace
      exact hi hplace.symm
    rw [Function.update_of_ne hi, number_upTo, number_upTo]
    refine if_congr Iff.rfl rfl (if_congr ?_ rfl rfl)
    omega

/-- One more node joins the nodes, and the children of the one around it. -/
theorem nodes_upTo_succ (h : f.WellFormed) (hm : (order f)[m]? = some (some c)) {new : TreeNode}
    (hnode : (ofFolding f).nodes[m]? = some node) (hq : node.parent = some q) (hqm : q < m)
    (hnew : node.before (m + 1) = new) :
    ((upTo f k m).nodes.push new).modify q (fun n => { n with children := n.children ++ [m] }) =
      (upTo f k (m + 1)).nodes := by
  have hsize := size_nodes_upTo (k := k) (List.getElem?_eq_some_iff.mp hm).1.le
  have hlink : (ofFolding f).links.parent m = some q := by
    rw [parent_links, hnode]
    exact hq
  refine Array.ext_getElem? fun j => ?_
  rw [Array.getElem?_modify, Array.getElem?_push, hsize, getElem?_nodes_upTo, getElem?_nodes_upTo]
  rcases Nat.lt_trichotomy j m with hlt | rfl | hgt
  · rw [if_neg hlt.ne, if_pos hlt, if_pos (Nat.lt_succ_of_lt hlt)]
    cases hj : (ofFolding f).nodes[j]? with
    | none => split <;> rfl
    | some other =>
      have hother := children_before_succ (m := m) h hj
      rw [hlink] at hother
      show _ = some { other with children := (other.before (m + 1)).children }
      rw [hother]
      by_cases hjq : q = j
      · rw [if_pos hjq, if_pos (by rw [hjq])]
        rfl
      · rw [if_neg hjq, if_neg (by simpa using hjq), List.append_nil]
        rfl
  · rw [if_neg hqm.ne, if_pos rfl, if_pos (Nat.lt_succ_self j), hnode, Option.map_some, hnew]
  · rw [if_neg (hqm.trans hgt).ne, if_neg hgt.ne', if_neg hgt.not_gt, if_neg (by omega)]

theorem queue_upTo_succ (hkm : k ≤ m) (hm : (order f)[m]? = some place) :
    (upTo f k m).queue ++ [(place, m)] = (upTo f k (m + 1)).queue := by
  have hlen := (List.getElem?_eq_some_iff.mp hm).1
  show ((order f).zipIdx.take m).drop k ++ [(place, m)] = ((order f).zipIdx.take (m + 1)).drop k
  rw [List.take_add_one, List.getElem?_zipIdx, hm, List.drop_append_of_le_length]
  · simp
  · rw [List.length_take, List.length_zipIdx]
    omega

/-- One more node is found. -/
theorem attach_upTo (h : f.WellFormed) (hkm : k ≤ m) (hm : (order f)[m]? = some (some c))
    (hq : (order f).idxOf (f.nodeLinks.parent c) = q) :
    attach f (.ofFolding f) q (upTo f k m) c = upTo f k (m + 1) := by
  have hc := List.mem_of_getElem? hm
  have hfolds := (Folding.isNode_iff.mp (isNode_of_mem_order hc).1).2.1
  have hqm : q < m := by
    rw [← hq, ← idxOf_order hm]
    exact idxOf_parent_lt hc
  obtain ⟨node, around, hnode, haround, hparent, hnew⟩ := next_node h hm hq
  have hfound : (upTo f k m).nodes[q]? = some (around.before m) := by
    rw [getElem?_nodes_upTo, if_pos hqm, haround]
    rfl
  rw [attach, hfound, Merging.ofFolding_merged_of_none hfolds,
    size_nodes_upTo (List.getElem?_eq_some_iff.mp hm).1.le]
  exact Search.ext (nodes_upTo_succ h hm hnode hparent hqm hnew) (number_upTo_succ hm)
    (queue_upTo_succ hkm hm)

/-! ## All places -/

theorem inside_ofFolding (f : Folding) (place : Option Nat) :
    inside f (.ofFolding f) place = childrenOf f f.nodeLinks place := by
  rw [inside, childrenOf, Links.children, List.filter_filter, Folding.size_nodeLinks]
  refine List.filter_congr fun c hc => ?_
  rw [Folding.nodeLinks, Links.parent_ofFn _ (List.mem_range.mp hc)]
  rfl

/-- The first place leaves the queue, and its children are found. -/
theorem step_upTo (h : f.WellFormed) (hk : (order f)[k]? = some place) :
    step f (.ofFolding f) (upTo f k (found f k).length) =
      upTo f (k + 1) (found f (k + 1)).length := by
  have hqueue : (upTo f k (found f k).length).queue =
      (place, k) :: (upTo f (k + 1) (found f k).length).queue := by
    show ((order f).zipIdx.take (found f k).length).drop k = _
    rw [List.drop_eq_getElem?_toList_append, List.getElem?_take_of_lt (lt_length_found h hk),
      List.getElem?_zipIdx, hk]
    simp [upTo]
  rw [step, hqueue]
  show (inside f (.ofFolding f) place).foldl _ (upTo f (k + 1) (found f k).length) = _
  rw [inside_ofFolding, found_succ hk, List.length_append, List.length_map]
  refine foldl_keeps (P := fun done s => s = upTo f (k + 1) ((found f k).length + done.length)) _ ?_
    rfl
  rintro done c _ ⟨rest, hrest⟩ rfl
  have hc : (childrenOf f f.nodeLinks place)[done.length]? = some c := by simp [← hrest]
  have hparent := (mem_childrenOf.mp (List.mem_of_getElem? hc)).2.1
  rw [attach_upTo h (Nat.le_add_right_of_le (lt_length_found h hk)) (order_found h hk hc)
    (by rw [hparent, idxOf_order hk]), List.length_append]
  rfl

/-- At first the global node has been found. -/
theorem start_eq (h : f.WellFormed) : start f = upTo f 0 1 := by
  have hzero : (order f)[0]? = some none := by
    rw [← idxOf_none f, order_idxOf (none_mem_order f)]
  obtain ⟨root, hroot, -, hlevel⟩ := root_ofFolding f
  obtain ⟨place, hplace, -, hnodeOf⟩ := row_of_node hroot
  obtain rfl : none = place := Option.some.inj (hzero.symm.trans hplace)
  refine Search.ext ?_ ?_ ?_
  · refine Array.ext_getElem? fun j => ?_
    rw [getElem?_nodes_upTo]
    cases j with
    | zero =>
      rw [if_pos Nat.one_pos, hroot, Option.map_some]
      show _ = some { root with children := (root.before 1).children }
      rw [children_before_self h hroot, hlevel, hnodeOf]
      rfl
    | succ j =>
      rw [if_neg (by omega)]
      rfl
  · funext i
    have hpos : ¬ (order f).idxOf (some i) < 1 := by
      rw [Nat.lt_one_iff, ← idxOf_none f, eq_comm]
      exact fun heq => Option.some_ne_none i ((List.idxOf_inj (none_mem_order f)).mp heq).symm
    rw [number_upTo, if_neg hpos]
    rfl
  · show _ = ((order f).zipIdx.take 1).drop 0
    rw [List.take_add_one, List.getElem?_zipIdx, hzero]
    rfl

/-- What has been found when so many places have left the queue. -/
theorem run_upTo (h : f.WellFormed) (hk : k ≤ (order f).length) :
    run f (.ofFolding f) k = upTo f k (found f k).length := by
  induction k with
  | zero => exact start_eq h
  | succ k ih =>
    rw [run, Function.iterate_succ_apply']
    show step f _ (run f _ k) = _
    rw [ih (by omega), step_upTo h (List.getElem?_eq_getElem hk)]

theorem queue_upTo_length (f : Folding) :
    (upTo f (order f).length (order f).length).queue = [] := by
  refine List.drop_eq_nil_of_le ?_
  rw [List.length_take]
  exact Nat.min_le_left _ _

/-- What has been found when all places have left the queue; after that nothing changes. -/
theorem run_eq (h : f.WellFormed) (hk : (order f).length ≤ k) :
    run f (.ofFolding f) k = upTo f (order f).length (order f).length := by
  have hlast := run_upTo h (le_refl (order f).length)
  rw [found_length h] at hlast
  obtain ⟨n, rfl⟩ := Nat.exists_eq_add_of_le' hk
  rw [run, Function.iterate_add_apply]
  show (step f _)^[n] (run f _ _) = _
  rw [hlast]
  refine Function.iterate_fixed ?_ n
  rw [step, queue_upTo_length]

theorem nodes_upTo_length (h : f.WellFormed) (k : Nat) :
    (upTo f k (order f).length).nodes = (ofFolding f).nodes := by
  refine Array.ext_getElem? fun j => ?_
  rw [getElem?_nodes_upTo]
  cases hj : (ofFolding f).nodes[j]? with
  | none => split <;> rfl
  | some node =>
    obtain ⟨hlt, -⟩ := Array.getElem?_eq_some_iff.mp hj
    rw [size_nodes_ofFolding] at hlt
    obtain ⟨place, -, hchildren⟩ := children_of_node hj
    have hall : node.children.filter (· < (order f).length) = node.children := by
      refine List.filter_eq_self.mpr fun k hk => ?_
      rw [hchildren] at hk
      obtain ⟨c, hc, rfl⟩ := List.mem_map.mp hk
      exact decide_eq_true (List.idxOf_lt_length_of_mem (some_mem_order_of_childrenOf h hc))
    rw [if_pos hlt, Option.map_some, TreeNode.before, hall]

theorem length_order_le (f : Folding) : (order f).length ≤ f.size + 1 := by
  have hsub : order f ⊆ none :: (List.range f.size).map some := by
    intro place hplace
    cases place with
    | none => exact List.mem_cons_self
    | some i =>
      have hi := (isNode_of_mem_order hplace).2
      exact List.mem_cons_of_mem _ (List.mem_map_of_mem (List.mem_range.mpr hi))
  simpa using ((nodup_order f).subperm hsub).length_le

/-! ## The nodes that stand for the environments -/

theorem number_of_not_isNode (hnode : f.isNode i = false) (hroot : f.nesting.isRoot i = false) :
    (upTo f k (order f).length).number i = none := by
  have hnot : ¬ (order f).idxOf (some i) < (order f).length := by
    rw [List.idxOf_lt_length_iff]
    intro hmem
    rw [(isNode_of_mem_order hmem).1] at hnode
    cases hnode
  rw [number_upTo, hroot, if_neg hnot]
  rfl

section Home

variable (h : f.WellFormed)

include h

theorem number_of_isNode (hi : i < f.size) (hnode : f.isNode i = true) :
    (upTo f k (order f).length).number i = some ((order f).idxOf (some i)) := by
  have hlt := List.idxOf_lt_length_of_mem (mem_order_of_isNode h hnode hi)
  rw [number_upTo, (Folding.isNode_iff.mp hnode).2.2, if_pos hlt]
  rfl

/-- What is folded is found at the end of its chain. -/
theorem home_of_inner (hi : i < f.size) (hkept : f.isKept i = true)
    (hroot : f.nesting.isRoot i = false) {n : Nat} (hend : f.folds.EndsWithin n i) :
    home f (.ofFolding f) (upTo f k (order f).length).number n i =
      some ((order f).idxOf (some (f.folds.climb n i))) := by
  induction n generalizing i with
  | zero => exact absurd hend (by simp [Links.EndsWithin])
  | succ n ih =>
    rw [home]
    cases hc : f.folds.parent i with
    | none =>
      rw [number_of_isNode h hi (Folding.isNode_iff.mpr ⟨hkept, hc, hroot⟩), Links.climb_of_none hc]
    | some c =>
      obtain ⟨-, -, -, hkc, hout, -⟩ := Folding.fold_spec h hc
      have hlt : c < f.size := Folding.size_outer h ▸ Links.lt_size_of_parent hout
      rw [number_of_not_isNode (by simp [Folding.isNode, hc]) hroot, Links.climb_succ_of_some hc]
      simp only [Merging.ofFolding, hc]
      exact ih hlt hkc (Folding.isRoot_of_outer h hout) (hend c hc)

theorem home_of_kept (hi : i < f.size) (hkept : f.isKept i = true) {n : Nat} (hn : f.size ≤ n) :
    home f (.ofFolding f) (upTo f k (order f).length).number n i =
      some ((order f).idxOf (f.place i)) := by
  rw [Folding.place_of_kept hkept]
  cases hroot : f.nesting.isRoot i with
  | true =>
    obtain ⟨m, rfl⟩ := Nat.exists_eq_succ_of_ne_zero (Nat.ne_zero_of_lt (hi.trans_le hn))
    rw [home, number_upTo, hroot, if_pos rfl, if_pos rfl, idxOf_none]
  | false =>
    have hend := Folding.folds_endsWithin h hi
    have hlonger : f.folds.EndsWithin n i := by
      obtain ⟨m, rfl⟩ := Nat.exists_eq_add_of_le hn
      exact Links.endsWithin_add hend m
    -- both walks end at the same position
    have hnone := Links.parent_climb_of_endsWithin hend
    have hsame : f.folds.climb n i = f.standIn i :=
      (Links.climb_eq_iff hlonger hnone).mpr ((Links.climb_eq_iff hend hnone).mp rfl)
    rw [home_of_inner h hi hkept hroot hlonger, hsame]
    rfl

/-- The node that stands for a position is found, whatever is skipped or folded. -/
theorem home_eq (hi : i < f.size) {n : Nat} (hend : f.nesting.links.EndsWithin m i)
    (hn : m + f.size ≤ n) :
    home f (.ofFolding f) (upTo f k (order f).length).number n i =
      some ((order f).idxOf (f.place i)) := by
  induction m generalizing i n with
  | zero => exact absurd hend (by simp [Links.EndsWithin])
  | succ m ih =>
    cases hkept : f.isKept i with
    | true => exact home_of_kept h hi hkept (by omega)
    | false =>
      obtain ⟨n, rfl⟩ := Nat.exists_eq_succ_of_ne_zero (show n ≠ 0 by omega)
      have hroot : f.nesting.isRoot i = false := by
        by_contra hr
        have hr : f.nesting.root = some i := by simpa [Nesting.isRoot] using hr
        rw [h.isKept_root hr] at hkept
        cases hkept
      have hfold : f.folds.parent i = none := by
        by_contra hne
        obtain ⟨c, hc⟩ := Option.ne_none_iff_exists'.mp hne
        rw [(Folding.fold_spec h hc).1] at hkept
        cases hkept
      rw [home, number_of_not_isNode (by simp [Folding.isNode, hkept]) hroot,
        Folding.place_of_not_kept h hkept]
      simp only [Merging.ofFolding, hfold]
      cases hp : f.nesting.links.parent i with
      | none => simp [idxOf_none]
      | some p =>
        have hlt : p < f.size := Folding.size_links h ▸ h.nesting.closed i p hp
        exact ih hlt (hend p hp) (by omega)

/-- Two steps for every environment, and one, are enough to find the tree. -/
theorem tree_eq {n : Nat} (hn : 2 * f.size + 1 ≤ n) : tree f (.ofFolding f) n = ofFolding f := by
  have hlength := length_order_le f
  rw [tree, run_eq h (by omega), nodes_upTo_length h, ofFolding]
  refine congrArg (EnvTree.mk _) (List.filterMap_congr fun i hi => ?_)
  have hi := List.mem_range.mp hi
  have hend := Links.endsWithin_size h.nesting.forest h.nesting.closed
    (i := i) (by rwa [Folding.size_links h])
  rw [Folding.size_links h] at hend
  simp only [home_eq h hi hend (show f.size + f.size ≤ n by omega)]
  cases f.nesting.id? i <;> rfl

end Home

/-! ## The tree of a snapshot -/

section Snapshot

variable (s : Snapshot) (policy : FramePolicy)

/-- The queue runs empty. -/
theorem queue_run {n : Nat} (hn : (s.folding policy).size + 1 ≤ n) :
    (run (s.folding policy) (s.merging policy) n).queue = [] := by
  rw [s.merging_eq, run_eq (s.wellFormed_folding policy) ((length_order_le _).trans hn)]
  exact queue_upTo_length _

/-- The tree of a snapshot is found by folding one environment after the other, and then giving
numbers from a queue. -/
theorem tree_eq_build {n : Nat} (hn : 2 * (s.folding policy).size + 1 ≤ n) :
    tree (s.folding policy) (s.merging policy) n = (build s policy).1 := by
  rw [s.merging_eq, tree_eq (s.wellFormed_folding policy) hn, build_fst]

end Snapshot

end Search

end EnvDiagram

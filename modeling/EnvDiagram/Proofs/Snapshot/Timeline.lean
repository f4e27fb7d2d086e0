import EnvDiagram.Proofs.Steps
import EnvDiagram.Snapshot.History

/-!
# A history is a cursor over a list

A timeline is a list of snapshots seen from one of them: those before it, the nearest first, and
those after it. A step hands one snapshot over to the other side, and what is recorded comes to
the far end. A history keeps the same as an array, a position and a running total. What every
operation keeps of these is said once (`History.Sound`), and under it an operation does to a
history what it does to its timeline, with the same reason if it is refused
(`History.map_timeline_perform`).

* `HistoryOp`, `History.perform`, `History.after` — operations, and what is left by them
* `Timeline`, `History.timeline` — a history seen from its cursor
* `History.tracks_afterAll` — so it is after any operations
-/

namespace EnvDiagram

/-- What can be asked of a history. -/
inductive HistoryOp where
  | push (s : Snapshot)
  | forward
  | backward
  | toStart
  | toEnd

/-- The sizes of snapshots together. -/
def totalSize : List Snapshot → Nat
  | [] => 0
  | s :: rest => s.size + totalSize rest

/-! ## Timelines -/

/-- A list of snapshots seen from one of them. -/
inductive Timeline where
  | blank
  /-- The snapshots before the one that is seen, nearest first, that one, and those after it. -/
  | showing (past : List Snapshot) (here : Snapshot) (future : List Snapshot)

namespace Timeline

/-- All snapshots, in order. -/
def all : Timeline → List Snapshot
  | blank => []
  | showing past here future => past.reverse ++ here :: future

/-- A list seen from its first snapshot. -/
def ofList : List Snapshot → Timeline
  | [] => blank
  | s :: rest => showing [] s rest

/-- A list seen from its last snapshot, given in reverse. -/
def ofReverse : List Snapshot → Timeline
  | [] => blank
  | s :: rest => showing rest s []

/-- Adds a snapshot after all others. -/
def record (s : Snapshot) : Timeline → Timeline
  | blank => showing [] s []
  | showing past here future => showing past here (future ++ [s])

/-- Goes on to the next snapshot. -/
def next : Timeline → Except HistoryError Timeline
  | blank => .error .empty
  | showing _ _ [] => .error .atEnd
  | showing past here (s :: future) => .ok (showing (here :: past) s future)

/-- Goes back to the snapshot before. -/
def previous : Timeline → Except HistoryError Timeline
  | blank => .error .empty
  | showing [] _ _ => .error .atStart
  | showing (s :: past) here future => .ok (showing past s (here :: future))

/-- Carries out an operation under a limit for the sizes together, or says why not. -/
def perform (limit : Nat) (t : Timeline) : HistoryOp → Except HistoryError Timeline
  | .push s =>
    if totalSize t.all + s.size ≤ limit then .ok (t.record s)
    else .error (.limitExceeded (totalSize t.all) s.size limit)
  | .forward => t.next
  | .backward => t.previous
  | .toStart => .ok (ofList t.all)
  | .toEnd => .ok (ofReverse t.all.reverse)

/-- The timeline that is left by an operation. -/
def after (limit : Nat) (t : Timeline) (op : HistoryOp) : Timeline :=
  (t.perform limit op).toOption.getD t

end Timeline

/-! ## Operations on a history -/

namespace History

variable {h h' : History} {s here : Snapshot} {past future : List Snapshot} {limit : Nat}
  {op : HistoryOp}

/-- What is done to a history if an operation is asked of it. -/
def action : HistoryOp → Action
  | .push s => .push s
  | .forward => .forward
  | .backward => .backward
  | .toStart => .toStart
  | .toEnd => .toEnd

/-- Carries out an operation, or says why not. -/
def perform (h : History) (op : HistoryOp) : Except HistoryError History := (action op).result h

/-- The history that is left by an operation, also if it is refused. -/
def after (h : History) (op : HistoryOp) : History := (action op).left h

/-- The history that is left by operations one after the other. -/
def afterAll (h : History) (ops : List HistoryOp) : History := ops.foldl after h

/-- The snapshot that an operation adds, if it is a push that is not refused. -/
def accepted (h : History) : HistoryOp → List Snapshot
  | .push s => if (h.push s).isOk then [s] else []
  | _ => []

/-- The history seen from its cursor. -/
def timeline (h : History) : Timeline :=
  match h.snapshots.toList.drop h.position with
  | [] => .blank
  | here :: future => .showing (h.snapshots.toList.take h.position).reverse here future

/-! ## What comes of an operation -/

theorem push_eq_ok_iff : h.push s = .ok h' ↔ h.used + s.size ≤ h.limit ∧
    h' = { h with snapshots := h.snapshots.push s, used := h.used + s.size } := by
  rw [push_eq]
  split
  · rename_i hlt
    simp only [reduceCtorEq, false_iff]
    omega
  · rename_i hle
    rw [Except.ok.injEq, eq_comm, iff_and_self]
    omega

theorem forward_eq_ok_iff : h.forward = .ok h' ↔
    h.position + 1 < h.length ∧ h' = { h with position := h.position + 1 } := by
  rw [forward_eq]
  repeat' split
  · simp only [reduceCtorEq, false_iff]
    omega
  · simp only [reduceCtorEq, false_iff]
    omega
  · rw [Except.ok.injEq, eq_comm, iff_and_self]
    omega

theorem backward_eq_ok_iff : h.backward = .ok h' ↔
    h.length ≠ 0 ∧ h.position ≠ 0 ∧ h' = { h with position := h.position - 1 } := by
  rw [backward_eq]
  repeat' split
  · simp [*]
  · simp [*]
  · rename_i hne hpos
    rw [Except.ok.injEq, eq_comm, and_iff_right hne, and_iff_right hpos]

/-! ## The cursor is on a snapshot -/

/-- The cursor is on a snapshot, if there is one. -/
def InRange (h : History) : Prop := h.position ≤ h.length - 1

theorem inRange_ofLimit (limit : Nat) : (ofLimit limit).InRange := Nat.le_refl 0

theorem InRange.push (hr : h.InRange) (hp : h.push s = .ok h') : h'.InRange := by
  obtain ⟨-, rfl⟩ := push_eq_ok_iff.mp hp
  simp only [InRange, length, Array.size_push] at *
  omega

theorem InRange.pushAll {snapshots : List Snapshot} (hr : h.InRange)
    (hp : h.pushAll snapshots = .ok h') : h'.InRange := by
  induction snapshots generalizing h with
  | nil =>
    cases hp
    exact hr
  | cons s rest ih =>
    rw [History.pushAll] at hp
    cases hs : h.push s with
    | error e =>
      rw [hs] at hp
      cases hp
    | ok next =>
      rw [hs] at hp
      exact ih (hr.push hs) hp

/-- The history of a recorded run is in range. -/
theorem inRange_of_recorded {limit : Nat} {snapshots : List Snapshot}
    (hp : (ofLimit limit).pushAll snapshots = .ok h) : h.InRange :=
  (inRange_ofLimit limit).pushAll hp

theorem InRange.forward (hf : h.forward = .ok h') : h'.InRange := by
  obtain ⟨hlt, rfl⟩ := forward_eq_ok_iff.mp hf
  simp only [InRange, length] at *
  omega

theorem InRange.backward (hr : h.InRange) (hb : h.backward = .ok h') : h'.InRange := by
  obtain ⟨-, -, rfl⟩ := backward_eq_ok_iff.mp hb
  simp only [InRange, length] at *
  omega

theorem inRange_toStart (h : History) : h.toStart.InRange := Nat.zero_le _

theorem inRange_toEnd (h : History) : h.toEnd.InRange := Nat.le_refl _

theorem InRange.current?_eq_none_iff (hr : h.InRange) : h.current? = none ↔ h.length = 0 := by
  rw [current?, Array.getElem?_eq_none_iff]
  simp only [InRange, length] at *
  omega

/-! ## What every operation keeps -/

/-- The running total is that of the snapshots and within the limit, and the cursor is on a
snapshot if there is one. -/
structure Sound (limit : Nat) (h : History) : Prop where
  limit_eq : h.limit = limit
  used_eq : h.used = totalSize h.snapshots.toList
  used_le : h.used ≤ limit
  inRange : h.InRange

theorem sound_ofLimit (limit : Nat) : (ofLimit limit).Sound limit :=
  ⟨rfl, rfl, Nat.zero_le limit, inRange_ofLimit limit⟩

theorem totalSize_append (front back : List Snapshot) :
    totalSize (front ++ back) = totalSize front + totalSize back := by
  induction front with
  | nil => exact (Nat.zero_add _).symm
  | cons s rest ih => rw [List.cons_append, totalSize, totalSize, ih, Nat.add_assoc]

theorem totalSize_singleton (s : Snapshot) : totalSize [s] = s.size := rfl

/-- What is added to the snapshots is what was accepted. -/
theorem snapshots_perform (hp : h.perform op = .ok h') :
    h'.snapshots.toList = h.snapshots.toList ++ h.accepted op := by
  cases op with
  | push s =>
    have hpush : h.push s = .ok h' := hp
    obtain ⟨-, rfl⟩ := push_eq_ok_iff.mp hpush
    rw [accepted, hpush]
    exact Array.toList_push
  | forward =>
    obtain ⟨-, rfl⟩ := forward_eq_ok_iff.mp hp
    exact (List.append_nil _).symm
  | backward =>
    obtain ⟨-, -, rfl⟩ := backward_eq_ok_iff.mp hp
    exact (List.append_nil _).symm
  | toStart =>
    cases hp
    exact (List.append_nil _).symm
  | toEnd =>
    cases hp
    exact (List.append_nil _).symm

theorem Sound.perform (hs : h.Sound limit) (hp : h.perform op = .ok h') : h'.Sound limit := by
  cases op with
  | push s =>
    have hr := hs.inRange.push hp
    obtain ⟨hle, rfl⟩ := push_eq_ok_iff.mp hp
    refine ⟨hs.limit_eq, ?_, hs.limit_eq ▸ hle, hr⟩
    rw [Array.toList_push, totalSize_append, totalSize_singleton, ← hs.used_eq]
  | forward =>
    have hr := InRange.forward hp
    obtain ⟨-, rfl⟩ := forward_eq_ok_iff.mp hp
    exact ⟨hs.limit_eq, hs.used_eq, hs.used_le, hr⟩
  | backward =>
    have hr := hs.inRange.backward hp
    obtain ⟨-, -, rfl⟩ := backward_eq_ok_iff.mp hp
    exact ⟨hs.limit_eq, hs.used_eq, hs.used_le, hr⟩
  | toStart =>
    cases hp
    exact ⟨hs.limit_eq, hs.used_eq, hs.used_le, inRange_toStart h⟩
  | toEnd =>
    cases hp
    exact ⟨hs.limit_eq, hs.used_eq, hs.used_le, inRange_toEnd h⟩

/-- Whatever an operation is refused for is found before anything is changed. -/
theorem eq_of_run_error {e : HistoryError} (hrun : (action op).run h = .error e h') : h' = h := by
  cases op with
  | push s =>
    rw [action, Action.run_push] at hrun
    split at hrun <;> cases hrun
    rfl
  | forward =>
    rw [action, Action.run_forward] at hrun
    repeat' split at hrun
    all_goals cases hrun
    all_goals rfl
  | backward =>
    rw [action, Action.run_backward] at hrun
    repeat' split at hrun
    all_goals cases hrun
    all_goals rfl
  | toStart => cases hrun
  | toEnd => cases hrun

/-- A history that is refused an operation stays as it is. -/
theorem after_of_error {e : HistoryError} (hp : h.perform op = .error e) : h.after op = h := by
  unfold perform Action.result at hp
  unfold after Action.left
  cases hrun : (action op).run h with
  | ok _ h' =>
    rw [hrun] at hp
    cases hp
  | error _ h' => exact eq_of_run_error hrun

theorem after_of_ok (hp : h.perform op = .ok h') : h.after op = h' := by
  unfold perform Action.result at hp
  unfold after Action.left
  cases hrun : (action op).run h with
  | ok _ made =>
    rw [hrun] at hp
    exact Except.ok.inj hp
  | error _ left =>
    rw [hrun] at hp
    cases hp

theorem accepted_of_error {e : HistoryError} (hp : h.perform op = .error e) :
    h.accepted op = [] := by
  cases op with
  | push s =>
    rw [accepted, show h.push s = .error e from hp]
    rfl
  | _ => rfl

theorem Sound.after (hs : h.Sound limit) (op : HistoryOp) : (h.after op).Sound limit := by
  cases hp : h.perform op with
  | error e =>
    rw [after_of_error hp]
    exact hs
  | ok h' =>
    rw [after_of_ok hp]
    exact hs.perform hp

theorem snapshots_after (h : History) (op : HistoryOp) :
    (h.after op).snapshots.toList = h.snapshots.toList ++ h.accepted op := by
  cases hp : h.perform op with
  | error e => rw [after_of_error hp, accepted_of_error hp, List.append_nil]
  | ok h' => rw [after_of_ok hp, snapshots_perform hp]

/-! ## A history seen from its cursor -/

/-- A history without snapshots is a blank timeline. -/
theorem timeline_of_nil (h0 : h.snapshots.toList = []) : h.timeline = .blank := by
  rw [timeline, h0, List.drop_nil]

theorem timeline_of_split (hsplit : h.snapshots.toList = past.reverse ++ here :: future)
    (hpos : h.position = past.length) : h.timeline = .showing past here future := by
  rw [timeline, hsplit, hpos, ← List.length_reverse, List.drop_left, List.take_left,
    List.reverse_reverse]

/-- The snapshots of a history in range are parted by its cursor. -/
theorem InRange.exists_split (hr : h.InRange) (hne : h.snapshots.toList ≠ []) :
    ∃ (past : List Snapshot) (here : Snapshot) (future : List Snapshot),
      h.snapshots.toList = past.reverse ++ here :: future ∧ h.position = past.length := by
  have hlt : h.position < h.snapshots.toList.length := by
    have hpos := List.length_pos_iff.mpr hne
    simp only [InRange, length, Array.length_toList] at *
    omega
  refine ⟨(h.snapshots.toList.take h.position).reverse, h.snapshots.toList[h.position],
    h.snapshots.toList.drop (h.position + 1), ?_, ?_⟩
  · rw [List.reverse_reverse, List.getElem_cons_drop, List.take_append_drop]
  · rw [List.length_reverse, List.length_take, Nat.min_eq_left hlt.le]

theorem all_timeline (hr : h.InRange) : h.timeline.all = h.snapshots.toList := by
  by_cases hnil : h.snapshots.toList = []
  · rw [timeline_of_nil hnil, hnil, Timeline.all]
  · obtain ⟨past, here, future, hsplit, hpos⟩ := hr.exists_split hnil
    rw [timeline_of_split hsplit hpos, Timeline.all, hsplit]

theorem length_of_split (hsplit : h.snapshots.toList = past.reverse ++ here :: future) :
    h.length = past.length + future.length + 1 := by
  rw [length, ← Array.length_toList, hsplit, List.length_append, List.length_reverse,
    List.length_cons, Nat.add_assoc]

theorem length_eq_zero (hnil : h.snapshots.toList = []) : h.length = 0 := by
  rw [length, ← Array.length_toList, hnil, List.length_nil]

/-! ## Operations on the history are operations on its timeline -/

theorem timeline_push (hr : h.InRange) (hp : h.push s = .ok h') :
    h'.timeline = h.timeline.record s := by
  obtain ⟨-, rfl⟩ := push_eq_ok_iff.mp hp
  by_cases hnil : h.snapshots.toList = []
  · have hpos : h.position = 0 := by
      simp only [InRange, length_eq_zero hnil] at hr
      omega
    rw [timeline_of_nil hnil, Timeline.record]
    refine timeline_of_split ?_ hpos
    rw [Array.toList_push, hnil]
    rfl
  · obtain ⟨past, here, future, hsplit, hpos⟩ := hr.exists_split hnil
    rw [timeline_of_split hsplit hpos, Timeline.record]
    refine timeline_of_split ?_ hpos
    rw [Array.toList_push, hsplit, List.append_assoc, List.cons_append]

theorem map_timeline_push (hs : h.Sound limit) (s : Snapshot) :
    (h.push s).map timeline = h.timeline.perform limit (.push s) := by
  rw [Timeline.perform, all_timeline hs.inRange, ← hs.used_eq, ← hs.limit_eq]
  split
  · rename_i hle
    have hok := push_eq_ok_iff.mpr ⟨hle, rfl⟩
    rw [hok, Except.map, timeline_push hs.inRange hok]
  · rename_i hlt
    rw [push_eq, if_pos (Nat.lt_of_not_le hlt)]
    rfl

theorem map_timeline_forward (hr : h.InRange) : h.forward.map timeline = h.timeline.next := by
  by_cases hnil : h.snapshots.toList = []
  · rw [timeline_of_nil hnil, forward_eq, if_pos (length_eq_zero hnil)]
    rfl
  · obtain ⟨past, here, future, hsplit, hpos⟩ := hr.exists_split hnil
    have hlen := length_of_split hsplit
    rw [timeline_of_split hsplit hpos]
    cases future with
    | nil =>
      rw [List.length_nil] at hlen
      rw [forward_eq, if_neg (by omega), if_pos (by omega)]
      rfl
    | cons s future =>
      rw [List.length_cons] at hlen
      rw [forward_eq_ok_iff.mpr ⟨by omega, rfl⟩, Except.map, Timeline.next]
      refine congrArg _ (timeline_of_split ?_ (congrArg Nat.succ hpos))
      rw [hsplit, List.reverse_cons, List.append_assoc]
      rfl

theorem map_timeline_backward (hr : h.InRange) :
    h.backward.map timeline = h.timeline.previous := by
  by_cases hnil : h.snapshots.toList = []
  · rw [timeline_of_nil hnil, backward_eq, if_pos (length_eq_zero hnil)]
    rfl
  · obtain ⟨past, here, future, hsplit, hpos⟩ := hr.exists_split hnil
    have hlen := length_of_split hsplit
    rw [timeline_of_split hsplit hpos]
    cases past with
    | nil =>
      rw [List.length_nil] at hpos
      rw [backward_eq, if_neg (by omega), if_pos hpos]
      rfl
    | cons s past =>
      rw [List.length_cons] at hpos
      rw [backward_eq_ok_iff.mpr ⟨by omega, by omega, rfl⟩, Except.map, Timeline.previous]
      refine congrArg _ (timeline_of_split ?_ (Nat.sub_eq_of_eq_add hpos))
      rw [hsplit, List.reverse_cons, List.append_assoc]
      rfl

theorem timeline_toStart (h : History) :
    h.toStart.timeline = Timeline.ofList h.snapshots.toList := by
  cases hl : h.snapshots.toList with
  | nil => exact timeline_of_nil hl
  | cons s rest => exact timeline_of_split hl rfl

theorem timeline_toEnd (h : History) :
    h.toEnd.timeline = Timeline.ofReverse h.snapshots.toList.reverse := by
  cases hl : h.snapshots.toList.reverse with
  | nil => exact timeline_of_nil (List.reverse_eq_nil_iff.mp hl)
  | cons s rest =>
    have hsplit : h.snapshots.toList = rest.reverse ++ s :: [] := by
      rw [← List.reverse_cons, ← hl, List.reverse_reverse]
    refine timeline_of_split hsplit ?_
    show h.length - 1 = rest.length
    rw [length_of_split hsplit]
    rfl

/-- An operation does to a history what it does to its timeline, or is refused for the same
reason. -/
theorem map_timeline_perform (hs : h.Sound limit) (op : HistoryOp) :
    (h.perform op).map timeline = h.timeline.perform limit op := by
  cases op with
  | push s => exact map_timeline_push hs s
  | forward => exact map_timeline_forward hs.inRange
  | backward => exact map_timeline_backward hs.inRange
  | toStart =>
    rw [Timeline.perform, all_timeline hs.inRange, ← timeline_toStart]
    rfl
  | toEnd =>
    rw [Timeline.perform, all_timeline hs.inRange, ← timeline_toEnd]
    rfl

theorem timeline_after (hs : h.Sound limit) (op : HistoryOp) :
    (h.after op).timeline = h.timeline.after limit op := by
  rw [Timeline.after, ← map_timeline_perform hs]
  cases hp : h.perform op with
  | error e =>
    rw [after_of_error hp]
    rfl
  | ok h' =>
    rw [after_of_ok hp]
    rfl

/-! ## Any operations -/

/-- The snapshots whose pushes are accepted on the way, in order. -/
def acceptedAll (h : History) (ops : List HistoryOp) : List Snapshot :=
  foldNotes after accepted h ops

theorem spec_afterAll (limit : Nat) (ops : List HistoryOp) :
    ((ofLimit limit).afterAll ops).Sound limit ∧
      ((ofLimit limit).afterAll ops).timeline = ops.foldl (Timeline.after limit) .blank ∧
      ((ofLimit limit).afterAll ops).snapshots.toList = (ofLimit limit).acceptedAll ops := by
  let P : List HistoryOp → History → List Snapshot → Prop := fun done h log =>
    h.Sound limit ∧ h.timeline = done.foldl (Timeline.after limit) .blank ∧
      h.snapshots.toList = log
  have hstart : P [] (ofLimit limit) [] := ⟨sound_ofLimit limit, rfl, rfl⟩
  refine foldl_foldNotes (P := P) ops ?_ hstart
  rintro done op h log - ⟨hs, htimeline, hlog⟩
  refine ⟨hs.after op, ?_, ?_⟩
  · rw [timeline_after hs, htimeline, List.foldl_concat]
  · rw [snapshots_after, hlog]

/-- Whether a history is what operations under a limit make of an empty one. -/
structure Tracks (limit : Nat) (ops : List HistoryOp) (h : History) : Prop where
  /-- It is seen as the timeline that they make of a blank one. -/
  timeline : h.timeline = ops.foldl (Timeline.after limit) .blank
  /-- A further operation is accepted or refused as on the timeline. -/
  perform : ∀ op, (h.perform op).map History.timeline = h.timeline.perform limit op
  snapshots : h.snapshots.toList = (ofLimit limit).acceptedAll ops
  used : h.used = totalSize h.snapshots.toList
  used_le : h.used ≤ limit
  position : h.length = 0 ∧ h.position = 0 ∨ h.position < h.length
  current : h.current?.isSome ↔ h.length ≠ 0
  push_refused : ∀ s e, h.push s = .error e ↔
    limit < totalSize h.snapshots.toList + s.size ∧
      e = .limitExceeded (totalSize h.snapshots.toList) s.size limit
  refused : ∀ op e, h.perform op = .error e → h.after op = h
  push_position : ∀ s, (h.after (.push s)).position = h.position
  forward_backward : ∀ h', h.forward = .ok h' → h'.backward = .ok h
  backward_forward : ∀ h', h.backward = .ok h' → h'.forward = .ok h

theorem push_eq_error_iff {e : HistoryError} : h.push s = .error e ↔
    h.limit < h.used + s.size ∧ e = .limitExceeded h.used s.size h.limit := by
  rw [push_eq]
  split
  · rename_i hlt
    rw [Except.error.injEq, eq_comm, and_iff_right hlt]
  · rename_i hle
    simp [hle]

theorem position_push (hp : h.push s = .ok h') : h'.position = h.position := by
  obtain ⟨-, rfl⟩ := push_eq_ok_iff.mp hp
  rfl

theorem backward_of_forward (hf : h.forward = .ok h') : h'.backward = .ok h := by
  obtain ⟨hlt, rfl⟩ := forward_eq_ok_iff.mp hf
  exact backward_eq_ok_iff.mpr ⟨Nat.ne_zero_of_lt hlt, Nat.succ_ne_zero _, rfl⟩

theorem InRange.forward_of_backward (hr : h.InRange) (hb : h.backward = .ok h') :
    h'.forward = .ok h := by
  obtain ⟨hlen, hpos, rfl⟩ := backward_eq_ok_iff.mp hb
  have hback : h.position - 1 + 1 = h.position := Nat.sub_add_cancel (Nat.pos_of_ne_zero hpos)
  refine forward_eq_ok_iff.mpr ⟨?_, by rw [hback]⟩
  show h.position - 1 + 1 < h.length
  simp only [InRange] at hr
  omega

/-- Whatever operations an empty history is put to, it is a cursor over the list of the pushes
that it has accepted. -/
theorem tracks_afterAll (limit : Nat) (ops : List HistoryOp) :
    ((ofLimit limit).afterAll ops).Tracks limit ops := by
  obtain ⟨hs, htimeline, hsnapshots⟩ := spec_afterAll limit ops
  set h := (ofLimit limit).afterAll ops
  have hr := hs.inRange
  exact
    { timeline := htimeline
      perform := map_timeline_perform hs
      snapshots := hsnapshots
      used := hs.used_eq
      used_le := hs.used_le
      position := by
        simp only [InRange] at hr
        omega
      current := by rw [Option.isSome_iff_ne_none, ne_eq, hr.current?_eq_none_iff]
      push_refused := fun s e => by rw [push_eq_error_iff, hs.limit_eq, hs.used_eq]
      refused := fun op e => after_of_error
      push_position := by
        intro s
        cases hp : h.perform (.push s) with
        | error e => rw [after_of_error hp]
        | ok h' => rw [after_of_ok hp, position_push hp]
      forward_backward := fun h' => backward_of_forward
      backward_forward := fun h' => hr.forward_of_backward }

end History

end EnvDiagram

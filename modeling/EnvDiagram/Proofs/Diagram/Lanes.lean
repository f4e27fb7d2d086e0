import Mathlib.Data.List.Infix
import EnvDiagram.Proofs.Diagram.Routing

/-!
# Whose turn it is in a corridor

The lane of an arrow depends on everything that the router was asked before. Of all that only one
number matters, the count of the arrows that have left through the same corridor since the router
was last reset: a request that takes no lane leaves every count as it is, and one that takes a lane
adds one to the count of its own corridor.

* `Router.Call`, `Router.serveAll` — what a router is asked, one call after the other
* `Router.Entry.corridor?` — the corridor that an answer has taken a lane of
* `Router.arrowsOf` — the arrows in a corridor since the last reset
* `Router.TakesTurns`, `Router.takes_turns` — the lanes of a corridor are taken in turn
-/

namespace EnvDiagram

open Scalar

variable {α : Type} [Scalar α]

/-- A route that takes a lane leaves its source for the vertical line at the distance of the lane.
A detour also comes in from a vertical line, at the same distance before its target. -/
inductive Route.Takes (offset : α) (source : Point α) : Route α → Prop
  | elbow (target : Point α) : Takes offset source ⟨.elbow,
      [source, ⟨source.x + offset, source.y⟩, ⟨source.x + offset, target.y⟩, target]⟩
  | detour (target : Point α) (top : α) : Takes offset source ⟨.detour,
      [source, ⟨source.x + offset, source.y⟩, ⟨source.x + offset, top⟩,
        ⟨target.x - offset, top⟩, ⟨target.x - offset, target.y⟩, target]⟩

/-- The vertical line that a route turns to after its source, in the corridor where it takes its
lane. The other vertical line of a detour, by which it comes in, is counted from its target; it is
no lane of the corridor and may coincide with the lane of another arrow. -/
def Route.line? {α : Type} (r : Route α) : Option α := r.points[1]?.map Point.x

theorem Route.Takes.line?_eq {offset : α} {source : Point α} {route : Route α}
    (h : route.Takes offset source) : route.line? = some (source.x + offset) := by
  cases h <;> rfl

theorem Route.Takes.kind {offset : α} {source : Point α} {route : Route α}
    (h : route.Takes offset source) : route.kind = .elbow ∨ route.kind = .detour := by
  cases h with
  | elbow => exact Or.inl rfl
  | detour => exact Or.inr rfl

namespace Router

/-! ## Requests and answers -/

/-- A request for a route. -/
inductive Request (α : Type)
  | toPoint (source target : Point α)
  | intoBox (source : Point α) (box : Bounds α) (entryY : α)
  | loopBack (source : Point α) (array : Bounds α)
  | toFrame (source : Point α) (frame : Bounds α)

/-- A call of a router. -/
inductive Call (α : Type)
  | ask (request : Request α)
  | reset

/-- What a call leaves in the log. -/
inductive Entry (α : Type)
  | arrow (request : Request α) (route : Route α)
  | reset

namespace Request

/-- Where the route starts. -/
def source : Request α → Point α
  | .toPoint source _ | .intoBox source _ _ | .loopBack source _ | .toFrame source _ => source

/-- The corridor that the route may leave through. -/
def corridor (request : Request α) : Int := nearestInt request.source.x

/-- Whether the start lies to the right of the frame that the route is to reach. -/
def IsDirect : Request α → Prop
  | .toFrame source frame => frame.right < source.x
  | _ => False

instance : DecidablePred (IsDirect (α := α)) := fun request =>
  match request with
  | .toFrame source frame => inferInstanceAs (Decidable (frame.right < source.x))
  | .toPoint .. | .intoBox .. | .loopBack .. => inferInstanceAs (Decidable False)

end Request

/-- The route that is asked for, and the router that has given it. -/
def answer (r : Router α) : Request α → Route α × Router α
  | .toPoint source target => r.toPoint source target
  | .intoBox source box entryY => r.intoBox source box entryY
  | .loopBack source array => (r.loopBack source array, r)
  | .toFrame source frame => r.toFrame source frame

/-- The entry of a call, and the router after it. -/
def serve (r : Router α) : Call α → Entry α × Router α
  | .ask request => (.arrow request (r.answer request).1, (r.answer request).2)
  | .reset => (.reset, r.reset)

/-- The log of a sequence of calls, and the router after them. -/
def serveAll (r : Router α) (calls : List (Call α)) : List (Entry α) × Router α :=
  calls.foldl (fun (log, r) call => (log ++ [(r.serve call).1], (r.serve call).2)) ([], r)

/-- The corridor of an elbow or a detour; the elbow that turns up or down at its start, towards a
frame on the left, has none. -/
def Entry.corridor? : Entry α → Option Int
  | .arrow request route =>
    if (route.kind = .elbow ∨ route.kind = .detour) ∧ ¬ request.IsDirect then some request.corridor
    else none
  | .reset => none

/-- The arrows in a corridor, with one more entry in the log. -/
def note (corridor : Int) (arrows : List (Request α × Route α)) :
    Entry α → List (Request α × Route α)
  | .reset => []
  | .arrow request route =>
    if (Entry.arrow request route).corridor? = some corridor then arrows ++ [(request, route)]
    else arrows

/-- The arrows in a corridor since the last reset. -/
def arrowsOf (corridor : Int) (log : List (Entry α)) : List (Request α × Route α) :=
  log.foldl (note corridor) []

/-- The call concerns a corridor: it asks for a route from there, or frees all lanes. -/
def Call.Concerns (corridor : Int) : Call α → Prop
  | .ask request => request.corridor = corridor
  | .reset => True

instance (corridor : Int) : DecidablePred (Call.Concerns (α := α) corridor) := fun call =>
  match call with
  | .ask request => inferInstanceAs (Decidable (request.corridor = corridor))
  | .reset => inferInstanceAs (Decidable True)

variable {r r' : Router α} {request : Request α} {corridor : Int}

/-! ## One request -/

theorem Entry.corridor?_of_kind {route : Route α}
    (h : route.kind = .straight ∨ route.kind = .loop) :
    (Entry.arrow request route).corridor? = none := by
  refine if_neg fun hlane => ?_
  obtain h | h := h <;> rw [h] at hlane <;> simp at hlane

/-- From point to point a straight line takes no lane, and any other route the next one. -/
theorem toPoint_cases (r : Router α) (source target : Point α) :
    r.toPoint source target = (.straight source target, r) ∨
    (r.toPoint source target).1.Takes (r.laneOffset (nearestInt source.x)) source ∧
      (r.toPoint source target).2 = r.take (nearestInt source.x) := by
  unfold toPoint
  split
  · exact Or.inl rfl
  · right
    dsimp only
    split
    · exact ⟨.elbow target, rfl⟩
    · exact ⟨.detour target _, rfl⟩

/-- What an answer does to the lanes: it takes none, or the next one of its corridor. -/
def Outcome (r : Router α) (request : Request α) (answer : Route α × Router α) : Prop :=
  (Entry.arrow request answer.1).corridor? = none ∧ answer.2 = r ∨
  (Entry.arrow request answer.1).corridor? = some request.corridor ∧
    answer.1.Takes (r.laneOffset request.corridor) request.source ∧
    answer.2 = r.take request.corridor

/-- A request that is passed on to a route from point to point. -/
theorem outcome_toPoint (r : Router α) (request : Request α) (hdirect : ¬ request.IsDirect)
    (target : Point α) :
    r.Outcome request (r.toPoint request.source target) := by
  obtain hstraight | ⟨htakes, htake⟩ := r.toPoint_cases request.source target
  · rw [hstraight]
    exact Or.inl ⟨Entry.corridor?_of_kind (Or.inl rfl), rfl⟩
  · exact Or.inr ⟨if_pos ⟨htakes.kind, hdirect⟩, htakes, htake⟩

theorem outcome_answer (r : Router α) (request : Request α) :
    r.Outcome request (r.answer request) := by
  cases request with
  | toPoint source target => exact r.outcome_toPoint (.toPoint source target) id target
  | intoBox source box entryY =>
    by_cases habove : box.x ≤ source.x ∧ source.x ≤ box.right
    · have hanswer : r.answer (.intoBox source box entryY) = (.straight source
          ⟨source.x, if source.y < box.y then box.y else box.bottom⟩, r) := if_pos habove
      rw [hanswer]
      exact Or.inl ⟨Entry.corridor?_of_kind (Or.inl rfl), rfl⟩
    · have hanswer : r.answer (.intoBox source box entryY) = r.toPoint source ⟨box.x, entryY⟩ :=
        if_neg habove
      rw [hanswer]
      exact r.outcome_toPoint (.intoBox source box entryY) id _
  | loopBack source array => exact Or.inl ⟨Entry.corridor?_of_kind (Or.inr rfl), rfl⟩
  | toFrame source frame =>
    by_cases hright : frame.right < source.x
    · have hrouter : (r.answer (.toFrame source frame)).2 = r := by
        simp only [answer, toFrame, if_pos hright]
        split <;> rfl
      exact Or.inl ⟨if_neg (fun h => h.2 hright), hrouter⟩
    · have hanswer : r.answer (.toFrame source frame) = r.toPoint source (r.frameEntry frame) :=
        if_neg hright
      rw [hanswer]
      exact r.outcome_toPoint (.toFrame source frame) hright _

theorem reset_answer (r : Router α) (request : Request α) :
    (r.answer request).2.reset = r.reset := by
  obtain ⟨-, h⟩ | ⟨-, -, h⟩ := r.outcome_answer request <;> rw [h]
  rfl

theorem reset_serve (r : Router α) (call : Call α) : (r.serve call).2.reset = r.reset := by
  cases call with
  | ask request => exact r.reset_answer request
  | reset => rfl

/-- A corridor advances by one with every arrow that takes one of its lanes, and with no other
answer; a reset takes it back to the start. -/
theorem taken_serve (r : Router α) (call : Call α) (corridor : Int) :
    (r.serve call).2.taken corridor =
      match (r.serve call).1 with
      | .reset => 0
      | entry => r.taken corridor + if entry.corridor? = some corridor then 1 else 0 := by
  cases call with
  | reset => rfl
  | ask request =>
    show (r.answer request).2.taken corridor = r.taken corridor +
      if (Entry.arrow request (r.answer request).1).corridor? = some corridor then 1 else 0
    obtain ⟨hnone, hsame⟩ | ⟨hsome, -, htake⟩ := r.outcome_answer request
    · rw [hsame, hnone, if_neg nofun, Nat.add_zero]
    · rw [htake, hsome]
      by_cases hmine : corridor = request.corridor
      · rw [hmine, taken_take_self, if_pos rfl]
      · rw [taken_take_of_ne r hmine, if_neg (fun h => hmine (Option.some.inj h).symm),
          Nat.add_zero]

/-! ## Many calls -/

theorem serveAll_concat (r : Router α) (calls : List (Call α)) (call : Call α) :
    r.serveAll (calls ++ [call]) =
      ((r.serveAll calls).1 ++ [((r.serveAll calls).2.serve call).1],
        ((r.serveAll calls).2.serve call).2) := by
  unfold serveAll
  rw [List.foldl_concat]

theorem arrowsOf_concat (corridor : Int) (log : List (Entry α)) (entry : Entry α) :
    arrowsOf corridor (log ++ [entry]) = note corridor (arrowsOf corridor log) entry :=
  List.foldl_concat ..

theorem reset_serveAll (r : Router α) (calls : List (Call α)) :
    (r.serveAll calls).2.reset = r.reset := by
  induction calls using List.reverseRecOn with
  | nil => rfl
  | append_singleton calls call ih => rw [serveAll_concat, reset_serve, ih]

/-- The count of a corridor is that of the arrows there. -/
theorem taken_serveAll (config : Config α) (calls : List (Call α)) (corridor : Int) :
    ((ofConfig config).serveAll calls).2.taken corridor =
      (arrowsOf corridor ((ofConfig config).serveAll calls).1).length := by
  induction calls using List.reverseRecOn with
  | nil => rfl
  | append_singleton calls call ih =>
    rw [serveAll_concat, arrowsOf_concat, taken_serve, ih]
    cases call with
    | reset => rfl
    | ask request =>
      simp only [serve, note]
      split
      · rw [List.length_append, List.length_singleton]
      · rfl

theorem laneOffset_of_reset {config : Config α} (h : r.reset = ofConfig config) (corridor : Int) :
    r.laneOffset corridor = ((r.taken corridor % max config.arrowLanes 1 + 1 : Nat) : α) *
      (ofConfig config).laneGap := by
  obtain ⟨hgap, hlanes, -⟩ := Router.mk.inj h
  rw [laneOffset, hlanes, hgap]
  rfl

/-- Each arrow in a corridor has taken the lane after that of the arrow before it. -/
theorem takes_serveAll (config : Config α) (calls : List (Call α)) {k : Nat} {route : Route α}
    (h : (arrowsOf corridor ((ofConfig config).serveAll calls).1)[k]? = some (request, route)) :
    request.corridor = corridor ∧
      route.Takes (((k % max config.arrowLanes 1 + 1 : Nat) : α) * (ofConfig config).laneGap)
        request.source := by
  induction calls using List.reverseRecOn with
  | nil => exact absurd h nofun
  | append_singleton calls call ih =>
    have htaken := taken_serveAll config calls corridor
    have hreset := reset_serveAll (ofConfig config) calls
    rw [serveAll_concat, arrowsOf_concat] at h
    generalize (ofConfig config).serveAll calls = served at h ih htaken hreset
    obtain ⟨log, r⟩ := served
    cases call with
    | reset => exact absurd h nofun
    | ask asked =>
      by_cases hmine : (r.serve (.ask asked)).1.corridor? = some corridor
      · have hnote : note corridor (arrowsOf corridor log) (r.serve (.ask asked)).1 =
            arrowsOf corridor log ++ [(asked, (r.answer asked).1)] := if_pos hmine
        rw [hnote] at h
        rcases Nat.lt_or_ge k (arrowsOf corridor log).length with hk | hk
        · rw [List.getElem?_append_left hk] at h
          exact ih h
        · rw [List.getElem?_append_right hk, List.getElem?_singleton] at h
          obtain ⟨hlast, harrow⟩ := Option.ite_none_right_eq_some.mp h
          obtain ⟨rfl, rfl⟩ := Prod.ext_iff.mp (Option.some.inj harrow)
          have hcount : r.taken corridor = k := by
            rw [htaken]
            exact hk.antisymm (Nat.sub_eq_zero_iff_le.mp hlast)
          obtain ⟨hnone, -⟩ | ⟨hsome, htakes, -⟩ := r.outcome_answer asked
          · exact absurd (hnone.symm.trans hmine) nofun
          · obtain rfl := Option.some.inj (hsome.symm.trans hmine)
            rw [laneOffset_of_reset hreset, hcount] at htakes
            exact ⟨rfl, htakes⟩
      · have hnote : note corridor (arrowsOf corridor log) (r.serve (.ask asked)).1 =
            arrowsOf corridor log := if_neg hmine
        rw [hnote] at h
        exact ih h

/-! ## Other corridors -/

theorem toPoint_congr (h : r.reset = r'.reset) {source : Point α}
    (htaken : r.taken (nearestInt source.x) = r'.taken (nearestInt source.x)) (target : Point α) :
    (r.toPoint source target).1 = (r'.toPoint source target).1 := by
  obtain ⟨hgap, hlanes, hheight, -⟩ := Router.mk.inj h
  have hoffset : r.laneOffset (nearestInt source.x) = r'.laneOffset (nearestInt source.x) := by
    rw [laneOffset, laneOffset, htaken, hlanes, hgap]
  have hwidth : r.corridorWidth = r'.corridorWidth := by
    rw [corridorWidth, corridorWidth, hlanes, hgap]
  simp only [toPoint, hoffset, hwidth, hheight]
  split
  · rfl
  · split <;> rfl

/-- A route depends on the lanes that are taken in the corridor of its start, and on no others. -/
theorem answer_congr (h : r.reset = r'.reset)
    (htaken : r.taken request.corridor = r'.taken request.corridor) :
    (r.answer request).1 = (r'.answer request).1 := by
  obtain ⟨hgap, -, hheight, hpadding, -⟩ := Router.mk.inj h
  cases request with
  | toPoint source target => exact toPoint_congr h htaken target
  | intoBox source box entryY =>
    simp only [answer, intoBox]
    split
    · rfl
    · exact toPoint_congr h htaken _
  | loopBack source array => simp only [answer, loopBack, hgap, hheight]
  | toFrame source frame =>
    have hentry : r.frameEntry frame = r'.frameEntry frame := by
      rw [frameEntry, frameEntry, hpadding]
    simp only [answer, toFrame, hentry]
    split
    · split <;> rfl
    · exact toPoint_congr h htaken _

/-- Without the requests from other corridors the arrows in a corridor stay the same. -/
theorem arrowsOf_filter (config : Config α) (calls : List (Call α)) (corridor : Int) :
    arrowsOf corridor ((ofConfig config).serveAll (calls.filter (·.Concerns corridor))).1 =
      arrowsOf corridor ((ofConfig config).serveAll calls).1 := by
  induction calls using List.reverseRecOn with
  | nil => rfl
  | append_singleton calls call ih =>
    have hreset := (reset_serveAll (ofConfig config) (calls.filter (·.Concerns corridor))).trans
      (reset_serveAll (ofConfig config) calls).symm
    have htaken := taken_serveAll config (calls.filter (·.Concerns corridor)) corridor
    rw [ih, ← taken_serveAll config calls corridor] at htaken
    rw [List.filter_append, serveAll_concat, arrowsOf_concat]
    by_cases hmine : call.Concerns corridor
    · rw [List.filter_cons_of_pos (by simpa using hmine), List.filter_nil, serveAll_concat,
        arrowsOf_concat, ih]
      cases call with
      | reset => rfl
      | ask request =>
        obtain rfl : request.corridor = corridor := hmine
        simp only [serve, answer_congr hreset htaken]
    · rw [List.filter_cons_of_neg (by simpa using hmine), List.filter_nil, List.append_nil, ih]
      cases call with
      | reset => exact absurd trivial hmine
      | ask request =>
        symm
        refine if_neg fun h => hmine ?_
        obtain ⟨hnone, -⟩ | ⟨hsome, -, -⟩ :=
          ((ofConfig config).serveAll calls).2.outcome_answer request
        · exact absurd (hnone.symm.trans h) nofun
        · exact Option.some.inj (hsome.symm.trans h)

/-! ## Taking turns -/

/-- The lanes of every corridor are taken in turn. A corridor advances by one with each elbow and
each detour that leaves through it, and with nothing else; its arrows since the last reset have
taken its lanes from the first on, starting over after the last; and they are those that it would
have without the requests from elsewhere. -/
structure TakesTurns (config : Config α) (calls : List (Call α)) : Prop where
  advances : ∀ call corridor,
    (((ofConfig config).serveAll calls).2.serve call).2.taken corridor =
      match (((ofConfig config).serveAll calls).2.serve call).1 with
      | .reset => 0
      | entry => ((ofConfig config).serveAll calls).2.taken corridor +
          if entry.corridor? = some corridor then 1 else 0
  taken : ∀ corridor, ((ofConfig config).serveAll calls).2.taken corridor =
    (arrowsOf corridor ((ofConfig config).serveAll calls).1).length
  lane : ∀ corridor k (request : Request α) (route : Route α),
    (arrowsOf corridor ((ofConfig config).serveAll calls).1)[k]? = some (request, route) →
      request.corridor = corridor ∧
        route.Takes (((k % max config.arrowLanes 1 + 1 : Nat) : α) * (ofConfig config).laneGap)
          request.source
  others : ∀ corridor,
    arrowsOf corridor ((ofConfig config).serveAll (calls.filter (·.Concerns corridor))).1 =
      arrowsOf corridor ((ofConfig config).serveAll calls).1

theorem lanes_ne {L i j : Nat} (hij : i < j) (hL : j < i + L) : i % L ≠ j % L := by
  intro h
  have hzero : (j - i) % L = 0 := Nat.sub_mod_eq_zero_of_mod_eq h.symm
  rw [Nat.mod_eq_of_lt (by omega)] at hzero
  omega

/-- As many arrows one after the other as there are lanes leave by lines of their own. -/
theorem pairwise_line?_ne {config : Config Rat} (hgap : 0 < (ofConfig config).laneGap)
    {calls : List (Call Rat)} {window : List (Request Rat × Route Rat)}
    (hwindow : window <:+: arrowsOf corridor ((ofConfig config).serveAll calls).1)
    (hlength : window.length ≤ max config.arrowLanes 1) :
    window.Pairwise fun a b => a.1.source.x = b.1.source.x → a.2.line? ≠ b.2.line? := by
  obtain ⟨before, after, happend⟩ := hwindow
  have harrow (i : Nat) (hi : i < window.length) :
      window[i].2.Takes (((before.length + i) % max config.arrowLanes 1 + 1 : Nat) *
        (ofConfig config).laneGap) window[i].1.source := by
    have hget : (arrowsOf corridor ((ofConfig config).serveAll calls).1)[before.length + i]? =
        some (window[i].1, window[i].2) := by
      rw [← happend]
      simp [List.getElem?_append, hi]
    exact (takes_serveAll config calls hget).2
  refine List.pairwise_iff_getElem.mpr fun i j hi hj hij hsource hline => ?_
  rw [(harrow i hi).line?_eq, (harrow j hj).line?_eq, hsource] at hline
  have hoffset := mul_right_cancel₀ hgap.ne' (add_left_cancel (Option.some.inj hline))
  have hlane := Nat.succ_injective (Nat.cast_injective hoffset)
  exact lanes_ne (Nat.add_lt_add_left hij _) (by omega) hlane

/-- The lanes of a corridor are taken in turn, whatever the router has been asked before; if the
lanes lie apart, as many arrows in a row from one source as there are lanes leave it by lines of
their own. Nothing is said of the lines by which detours come in to their targets. -/
theorem takes_turns :
    (∀ {α : Type} [Scalar α] (config : Config α) (calls : List (Call α)),
      TakesTurns config calls) ∧
    ∀ (config : Config Rat) (calls : List (Call Rat)) (corridor : Int)
      (window : List (Request Rat × Route Rat)), 0 < (ofConfig config).laneGap →
      window <:+: arrowsOf corridor ((ofConfig config).serveAll calls).1 →
      window.length ≤ max config.arrowLanes 1 →
      window.Pairwise fun a b => a.1.source.x = b.1.source.x → a.2.line? ≠ b.2.line? := by
  refine ⟨fun config calls => ?_, fun config calls corridor window hgap hwindow hlength =>
    pairwise_line?_ne hgap hwindow hlength⟩
  exact {
    advances := fun call corridor => taken_serve _ call corridor
    taken := taken_serveAll config calls
    lane := fun corridor k request route h => takes_serveAll config calls h
    others := arrowsOf_filter config calls }

/-- Of three arrows from one point, with two lanes and an arrow from elsewhere in between, the last
two are apart. -/
theorem takes_turns_two_lanes :
    let config : Config Rat := { Config.standard with arrowLanes := 2 }
    let calls : List (Call Rat) := [.ask (.toPoint ⟨0, 0⟩ ⟨100, 50⟩),
      .ask (.toPoint ⟨0, 0⟩ ⟨100, 60⟩), .ask (.toPoint ⟨20, 0⟩ ⟨100, 60⟩),
      .ask (.toPoint ⟨0, 0⟩ ⟨10, 70⟩)]
    let window := (arrowsOf 0 ((ofConfig config).serveAll calls).1).drop 1
    0 < (ofConfig config).laneGap ∧ window.length = 2 ∧
      window.Pairwise fun a b => a.1.source.x = b.1.source.x → a.2.line? ≠ b.2.line? := by
  intro config calls window
  have hgap : 0 < (ofConfig config).laneGap := by decide +kernel
  have hlength : window.length = 2 := by decide +kernel
  have hwindow : window <:+: arrowsOf 0 ((ofConfig config).serveAll calls).1 :=
    (List.drop_suffix 1 _).isInfix
  exact ⟨hgap, hlength, takes_turns.2 config calls 0 window hgap hwindow hlength.le⟩

end Router

end EnvDiagram

/-
  File:      Irez/Traversal.lean
  Subject:   The breadth-first loop of `Service::slice_on` (service.cpp 1255-1314): two
             budgets, a known set, and what the loop denies.

  The loop is over a relation table behind two functions: `adjacency node`, the rows the
  frontier query returns for a node, and `nxt`, the endpoint of a row that the search moves
  to.

  * `Search` -- the variables of the loop; `visitEdge`, `visit`, `run` -- one edge, one node,
    the loop with a number of turns;
  * `visitEdges_eq` -- what one adjacency list does to every variable: the known set grows by
    the first `room` nodes that are new, an edge is selected or denied by whether its
    endpoint is known in the end;
  * `Search.Sound` -- the invariant; `sound_visit` (a turn keeps it), `sound_run` (a run
    keeps it), `run_total` (a run ends);
  * `Search.Sound.seen_eq`, `selected_perm`, `mem_boundaries`, `truncated_iff`,
    `reason_eq_depth_iff`, `reason_eq_node_iff` -- what the loop ends with.
-/
import Irez.Basis.Search
import Irez.Schema

open Irez.Basis

namespace Irez

/-! ## 1. The loop -/

/-- The texts of `reason`: `depth_budget` and `node_budget`. -/
inductive Reason where
  | depthBudget
  | nodeBudget
  deriving DecidableEq, Repr

/-- The variables of the loop. `selected` holds the rows behind `selected_edges` and
    `selected_run_ids`. -/
structure Search where
  queue : List (String × Nat)
  seen : List String
  known : List String
  selected : List Relation
  boundaries : List String
  reason : Option Reason
  deriving DecidableEq, Repr

namespace Search

variable (s : Search)

/-- `boundaries.push_back(nxt); if (!reason) reason = …`. -/
def deny (nxt : String) (reason : Reason) : Search :=
  { s with boundaries := s.boundaries ++ [nxt], reason := s.reason.or (some reason) }

/-- The edge is selected, and its endpoint is queued where it is new. -/
def select (edge : Relation) (nxt : String) (depth : Nat) : Search :=
  if nxt ∈ s.known then { s with selected := s.selected ++ [edge] }
  else { s with
    selected := s.selected ++ [edge]
    known := s.known ++ [nxt]
    queue := s.queue ++ [(nxt, depth + 1)] }

/-- `queue{(handle, 0)}`, `known{handle}`. -/
def initial (handle : String) : Search := ⟨[(handle, 0)], [], [handle], [], [], none⟩

variable (adjacency : String → List Relation) (nxt : Relation → String)
  (budgetNodes budgetDepth : Int)

/-- The body of the inner loop. -/
def visitEdge (depth : Nat) (s : Search) (edge : Relation) : Search :=
  if budgetDepth ≤ depth then
    if nxt edge ∉ s.known then s.deny (nxt edge) .depthBudget
    else s.select edge (nxt edge) depth
  else if nxt edge ∉ s.known ∧ budgetNodes ≤ s.known.length then s.deny (nxt edge) .nodeBudget
  else s.select edge (nxt edge) depth

def visitEdges (depth : Nat) (edges : List Relation) (s : Search) : Search :=
  edges.foldl (visitEdge nxt budgetNodes budgetDepth depth) s

/-- `pop_front`, and the adjacency of the node it gives. -/
def visit (node : String) (depth : Nat) (rest : List (String × Nat)) : Search :=
  visitEdges nxt budgetNodes budgetDepth depth (adjacency node)
    { s with queue := rest, seen := s.seen ++ [node] }

/-- `while (!queue.empty())`, for a number of turns: `none` where they do not suffice. -/
def run : Nat → Search → Option Search
  | 0, s => if s.queue = [] then some s else none
  | turns + 1, s =>
    match s.queue with
    | [] => some s
    | (node, depth) :: rest =>
      run turns (s.visit adjacency nxt budgetNodes budgetDepth node depth rest)

/-! ## 2. One adjacency list -/

/-- The number of nodes that the loop may still add at a depth. -/
def room (depth : Nat) (s : Search) : Nat :=
  if budgetDepth ≤ depth then 0 else (budgetNodes - s.known.length).toNat

/-- The reason that the first denial at a depth gives. -/
def cause (depth : Nat) : Reason := if budgetDepth ≤ depth then .depthBudget else .nodeBudget

/-- The nodes that an adjacency list adds. -/
def added (depth : Nat) (edges : List Relation) (s : Search) : List String :=
  (absorb s.known (edges.map nxt)).take (room budgetNodes budgetDepth depth s)

variable {adjacency nxt budgetNodes budgetDepth}

theorem visitEdge_of_known {depth : Nat} {s : Search} {edge : Relation} (h : nxt edge ∈ s.known) :
    visitEdge nxt budgetNodes budgetDepth depth s edge =
      { s with selected := s.selected ++ [edge] } := by
  simp [visitEdge, select, h]

theorem visitEdge_of_room {depth : Nat} {s : Search} {edge : Relation} (h : nxt edge ∉ s.known)
    (hr : 0 < room budgetNodes budgetDepth depth s) :
    visitEdge nxt budgetNodes budgetDepth depth s edge =
      { s with
        selected := s.selected ++ [edge]
        known := s.known ++ [nxt edge]
        queue := s.queue ++ [(nxt edge, depth + 1)] } := by
  unfold room at hr
  split at hr
  · omega
  · rename_i hd
    have hb : ¬ budgetNodes ≤ s.known.length := by omega
    simp [visitEdge, select, h, hd, hb]

theorem visitEdge_of_no_room {depth : Nat} {s : Search} {edge : Relation} (h : nxt edge ∉ s.known)
    (hr : room budgetNodes budgetDepth depth s = 0) :
    visitEdge nxt budgetNodes budgetDepth depth s edge =
      s.deny (nxt edge) (cause budgetDepth depth) := by
  unfold room at hr
  split at hr
  · rename_i hd
    simp [visitEdge, cause, h, hd]
  · rename_i hd
    have hb : budgetNodes ≤ s.known.length := by omega
    simp [visitEdge, cause, h, hd, hb]

theorem added_eq_nil {depth : Nat} {edges : List Relation} {s : Search}
    (h : room budgetNodes budgetDepth depth s = 0) :
    added nxt budgetNodes budgetDepth depth edges s = [] := by
  rw [added, h, List.take_zero]

theorem added_cons_of_room {depth : Nat} {edges : List Relation} {s : Search} {edge : Relation}
    (h : nxt edge ∉ s.known) (hr : 0 < room budgetNodes budgetDepth depth s) (s' : Search)
    (hs' : s'.known = s.known ++ [nxt edge]) :
    added nxt budgetNodes budgetDepth depth (edge :: edges) s =
      nxt edge :: added nxt budgetNodes budgetDepth depth edges s' := by
  have hroom : room budgetNodes budgetDepth depth s =
      room budgetNodes budgetDepth depth s' + 1 := by
    unfold room at hr ⊢
    rw [hs', List.length_append, List.length_singleton]
    split at hr
    · omega
    · rename_i hd
      rw [if_neg hd, if_neg hd]
      omega
  rw [added, List.map_cons, absorb_cons_of_not_mem h, hroom, List.take_succ_cons, added, hs']

/-- **One adjacency list.** The known set grows by the first nodes that are new, as many as
    there is room for; an edge is selected where its endpoint is known in the end and denied
    otherwise, and the first denial gives the reason where there is none. -/
theorem visitEdges_eq (depth : Nat) (edges : List Relation) (s : Search) :
    visitEdges nxt budgetNodes budgetDepth depth edges s =
      { queue := s.queue ++ (added nxt budgetNodes budgetDepth depth edges s).map (·, depth + 1)
        seen := s.seen
        known := s.known ++ added nxt budgetNodes budgetDepth depth edges s
        selected := s.selected ++ edges.filter
          (nxt · ∈ s.known ++ added nxt budgetNodes budgetDepth depth edges s)
        boundaries := s.boundaries ++ (edges.filter
          (nxt · ∉ s.known ++ added nxt budgetNodes budgetDepth depth edges s)).map nxt
        reason := if ∀ e ∈ edges, nxt e ∈ s.known ++ added nxt budgetNodes budgetDepth depth edges s
          then s.reason else s.reason.or (some (cause budgetDepth depth)) } := by
  induction edges generalizing s with
  | nil => simp [visitEdges, added, absorb]
  | cons e es ih =>
    have hcons : visitEdges nxt budgetNodes budgetDepth depth (e :: es) s =
        visitEdges nxt budgetNodes budgetDepth depth es
          (visitEdge nxt budgetNodes budgetDepth depth s e) := rfl
    rw [hcons, ih]
    by_cases hk : nxt e ∈ s.known
    · have ha : added nxt budgetNodes budgetDepth depth (e :: es) s =
          added nxt budgetNodes budgetDepth depth es s := by
        rw [added, List.map_cons, absorb_cons_of_mem hk, added]
      have ha' : added nxt budgetNodes budgetDepth depth es { s with selected := s.selected ++ [e] } =
          added nxt budgetNodes budgetDepth depth es s := rfl
      rw [visitEdge_of_known hk, ha, ha']
      simp [hk]
    · by_cases hr : 0 < room budgetNodes budgetDepth depth s
      · rw [visitEdge_of_room hk hr]
        have ha : added nxt budgetNodes budgetDepth depth (e :: es) s =
            nxt e :: added nxt budgetNodes budgetDepth depth es { s with
              selected := s.selected ++ [e]
              known := s.known ++ [nxt e]
              queue := s.queue ++ [(nxt e, depth + 1)] } :=
          added_cons_of_room hk hr _ rfl
        rw [ha]
        simp
      · have hr : room budgetNodes budgetDepth depth s = 0 := by omega
        have hr' : room budgetNodes budgetDepth depth (s.deny (nxt e) (cause budgetDepth depth)) = 0 :=
          hr
        rw [visitEdge_of_no_room hk hr, added_eq_nil hr, added_eq_nil hr']
        simp [deny, hk]

theorem denied_eq_nil_iff {edges : List Relation} {known : List String} :
    (edges.filter (nxt · ∉ known)).map nxt = [] ↔ ∀ e ∈ edges, nxt e ∈ known := by
  rw [List.map_eq_nil_iff, List.filter_eq_nil_iff]
  constructor
  · intro h e he
    by_contra hk
    exact h e he (decide_eq_true hk)
  · intro h e he hd
    exact of_decide_eq_true hd (h e he)

/-! ## 3. The invariant -/

variable (adjacency nxt) in
/-- The nodes that a node's adjacency leads to, in the order of the query. -/
def successors (node : String) : List String := (adjacency node).map nxt

/-- The number of nodes the node budget allows; the target is always visited. -/
def cap (budgetNodes : Int) : Nat := max 1 budgetNodes.toNat

variable (adjacency nxt budgetNodes budgetDepth) in
/-- The invariant of the loop. -/
structure Sound (handle : String) (s : Search) : Prop where
  known_eq : s.known = s.seen ++ s.queue.map (·.1)
  known_found : s.known =
    (found (successors adjacency nxt) handle budgetDepth.toNat s.seen).take (cap budgetNodes)
  known_order : s.known <+: order (successors adjacency nxt) handle budgetDepth.toNat
  depths : ∀ p ∈ s.queue, p.1 ∈ order (successors adjacency nxt) handle p.2 ∧
    p.1 ∉ before (successors adjacency nxt) handle p.2
  selected_eq : s.selected = (s.seen.flatMap adjacency).filter (nxt · ∈ s.known)
  boundaries_eq : s.boundaries = ((s.seen.flatMap adjacency).filter (nxt · ∉ s.known)).map nxt
  reason_none : s.reason = none ↔ s.boundaries = []
  reason_depth : s.reason = some .depthBudget →
    ∀ v ∈ order (successors adjacency nxt) handle budgetDepth.toNat, v ∈ s.known
  reason_node : s.reason = some .nodeBudget →
    ∃ v ∈ order (successors adjacency nxt) handle budgetDepth.toNat, v ∉ s.known

theorem room_eq (depth : Nat) (s : Search) :
    room budgetNodes budgetDepth depth s =
      if budgetDepth.toNat ≤ depth then 0 else budgetNodes.toNat - s.known.length := by
  unfold room
  by_cases h : budgetDepth ≤ depth
  · rw [if_pos h, if_pos (by omega)]
  · rw [if_neg h, if_neg (by omega)]
    omega

theorem cause_eq_depth_iff {depth : Nat} :
    cause budgetDepth depth = .depthBudget ↔ budgetDepth.toNat ≤ depth := by
  unfold cause
  by_cases h : budgetDepth ≤ depth
  · rw [if_pos h]
    exact iff_of_true rfl (by omega)
  · rw [if_neg h]
    exact iff_of_false (by decide) (by omega)

theorem mem_successors {v w : String} :
    w ∈ successors adjacency nxt v ↔ ∃ e ∈ adjacency v, nxt e = w := List.mem_map

namespace Sound

variable {handle : String} {s : Search}

theorem initial (handle : String) :
    Sound adjacency nxt budgetNodes budgetDepth handle (initial handle) where
  known_eq := rfl
  known_found := by
    have hf : found (successors adjacency nxt) handle budgetDepth.toNat [] = [handle] := rfl
    have hc : 1 ≤ cap budgetNodes := Nat.le_max_left _ _
    show [handle] = (found (successors adjacency nxt) handle budgetDepth.toNat []).take _
    rw [hf, List.take_of_length_le (by simpa using hc)]
  known_order := order_isPrefix (k := 0) (Nat.zero_le _)
  depths := by
    intro p hp
    rw [Search.initial, List.mem_singleton] at hp
    subst hp
    exact ⟨start_mem_order 0, List.not_mem_nil⟩
  selected_eq := rfl
  boundaries_eq := rfl
  reason_none := iff_of_true rfl rfl
  reason_depth := by
    intro h
    cases h
  reason_node := by
    intro h
    cases h

theorem known_nodup (h : Sound adjacency nxt budgetNodes budgetDepth handle s) : s.known.Nodup :=
  h.known_order.sublist.nodup (order_nodup _)

theorem start_mem_known (h : Sound adjacency nxt budgetNodes budgetDepth handle s) :
    handle ∈ s.known := by
  have hp : [handle] <+: s.known := by
    rw [h.known_found]
    exact List.prefix_take_iff.mpr ⟨start_isPrefix_found _ _, Nat.le_max_left _ _⟩
  exact hp.subset (List.mem_singleton.mpr rfl)

theorem no_boundary_iff (h : Sound adjacency nxt budgetNodes budgetDepth handle s) :
    s.boundaries = [] ↔ ∀ u ∈ s.seen, ∀ w ∈ successors adjacency nxt u, w ∈ s.known := by
  rw [h.boundaries_eq, denied_eq_nil_iff]
  simp only [List.mem_flatMap, mem_successors]
  constructor
  · rintro hall u hu w ⟨e, he, rfl⟩
    exact hall e ⟨u, hu, he⟩
  · rintro hall e ⟨u, hu, he⟩
    exact hall u hu _ ⟨e, he, rfl⟩

/-! The state with a node at the head of the queue. -/

variable {node : String} {depth : Nat} {rest : List (String × Nat)}

theorem head_order (h : Sound adjacency nxt budgetNodes budgetDepth handle s)
    (hq : s.queue = (node, depth) :: rest) :
    s.seen ++ [node] <+: order (successors adjacency nxt) handle budgetDepth.toNat := by
  refine List.IsPrefix.trans ?_ h.known_order
  rw [h.known_eq, hq, List.map_cons]
  exact (List.prefix_append_right_inj _).mpr (List.prefix_append [node] _)

theorem head_before (h : Sound adjacency nxt budgetNodes budgetDepth handle s)
    (hq : s.queue = (node, depth) :: rest) (D : Nat) :
    node ∈ before (successors adjacency nxt) handle D ↔ depth < D := by
  obtain ⟨h1, h2⟩ := h.depths (node, depth) (by rw [hq]; exact List.mem_cons_self)
  exact mem_before_iff_lt h1 h2

/-- Where the budget is not spent, nothing that was found is left out. -/
theorem known_eq_found (h : Sound adjacency nxt budgetNodes budgetDepth handle s)
    (hlt : s.known.length < cap budgetNodes) :
    s.known = found (successors adjacency nxt) handle budgetDepth.toNat s.seen := by
  have hk := h.known_found
  have hl := congrArg List.length hk
  rw [List.length_take] at hl
  rwa [List.take_of_length_le (by omega)] at hk

/-- **After a denial nothing is added**: an edge out of a node that was seen leads to an
    unknown node only when the budget is spent or the head is at the last depth. -/
theorem no_room (h : Sound adjacency nxt budgetNodes budgetDepth handle s)
    (hq : s.queue = (node, depth) :: rest) {u w : String} (hu : u ∈ s.seen)
    (hw : w ∈ successors adjacency nxt u) (hk : w ∉ s.known) :
    room budgetNodes budgetDepth depth s = 0 := by
  rw [room_eq]
  split
  · rfl
  · rename_i hd
    -- the head is before the last depth, and so is every node seen
    have hb : node ∈ before (successors adjacency nxt) handle budgetDepth.toNat :=
      (h.head_before hq _).mpr (by omega)
    have hub := subset_before_of_isPrefix (h.head_order hq) (Nat.le_refl _) hb u hu
    have hfull : ¬ s.known.length < cap budgetNodes := by
      intro hlt
      rw [h.known_eq_found hlt] at hk
      exact hk (mem_found.mpr (Or.inr ⟨u, hu, hub, hw⟩))
    have hc : budgetNodes.toNat ≤ cap budgetNodes := Nat.le_max_right _ _
    omega

/-- The nodes that a turn adds are as far from the target as their tags say. -/
theorem fresh_depth (h : Sound adjacency nxt budgetNodes budgetDepth handle s)
    (hq : s.queue = (node, depth) :: rest) {v : String}
    (hv : v ∈ added nxt budgetNodes budgetDepth depth (adjacency node) s) :
    v ∈ order (successors adjacency nxt) handle (depth + 1) ∧
      v ∉ before (successors adjacency nxt) handle (depth + 1) := by
  obtain ⟨hvs, hvk⟩ := mem_absorb.mp (List.mem_of_mem_take hv)
  obtain ⟨hd, _⟩ := h.depths (node, depth) (by rw [hq]; exact List.mem_cons_self)
  refine ⟨mem_order.mpr (.step (mem_order.mp hd) hvs), fun hb => hvk ?_⟩
  -- there is room, so the head is before the last depth and nothing found is left out
  have hr : room budgetNodes budgetDepth depth s ≠ 0 := by
    intro h0
    rw [added, h0] at hv
    exact List.not_mem_nil hv
  rw [room_eq] at hr
  have hdD : depth < budgetDepth.toNat := by
    by_contra hge
    exact hr (if_pos (by omega))
  rw [if_neg (by omega)] at hr
  have hc : budgetNodes.toNat ≤ cap budgetNodes := Nat.le_max_right _ _
  rw [h.known_eq_found (by omega)]
  have hnb : node ∉ before (successors adjacency nxt) handle depth := by
    rw [h.head_before hq]
    omega
  have hseen := before_subset_of_isPrefix (h.head_order hq) (by omega : depth ≤ _) hnb
  rw [before, order_eq_firsts, mem_firsts, List.mem_cons, List.mem_flatMap] at hb
  rw [mem_found]
  rcases hb with hb | ⟨u, hu, hw⟩
  · exact Or.inl hb
  · obtain ⟨j, hj, huj⟩ := mem_before.mp hu
    exact Or.inr ⟨u, hseen u hu, mem_before.mpr ⟨j, by omega, huj⟩, hw⟩

/-- After a turn the known set is again the first `cap` nodes found. -/
theorem known_found_visit (h : Sound adjacency nxt budgetNodes budgetDepth handle s)
    (hq : s.queue = (node, depth) :: rest) :
    s.known ++ added nxt budgetNodes budgetDepth depth (adjacency node) s =
      (found (successors adjacency nxt) handle budgetDepth.toNat (s.seen ++ [node])).take
        (cap budgetNodes) := by
  have hpos : 0 < s.known.length := List.length_pos_of_mem h.start_mem_known
  by_cases hd : depth < budgetDepth.toNat
  · rw [found_concat_of_mem ((h.head_before hq _).mpr hd)]
    by_cases hlt : s.known.length < cap budgetNodes
    · have hk := h.known_eq_found hlt
      have hroom : room budgetNodes budgetDepth depth s = cap budgetNodes - s.known.length := by
        rw [room_eq, if_neg (by omega), cap]
        omega
      rw [← hk, List.take_append, List.take_of_length_le (by omega), added, hroom]
      rfl
    · have hr : room budgetNodes budgetDepth depth s = 0 := by
        have hc : budgetNodes.toNat ≤ cap budgetNodes := Nat.le_max_right _ _
        rw [room_eq]
        split <;> omega
      rw [added_eq_nil hr, List.append_nil]
      have hl := congrArg List.length h.known_found
      rw [List.length_take] at hl
      rw [List.take_append_of_le_length (by omega)]
      exact h.known_found
  · have hnb : node ∉ before (successors adjacency nxt) handle budgetDepth.toNat := by
      rw [h.head_before hq]
      exact hd
    have hr : room budgetNodes budgetDepth depth s = 0 := by
      rw [room_eq, if_pos (by omega)]
    rw [found_concat_of_not_mem hnb, added_eq_nil hr, List.append_nil]
    exact h.known_found

/-- After a denial a turn adds nothing. -/
theorem added_of_boundary (h : Sound adjacency nxt budgetNodes budgetDepth handle s)
    (hq : s.queue = (node, depth) :: rest) (hb : s.boundaries ≠ []) :
    added nxt budgetNodes budgetDepth depth (adjacency node) s = [] := by
  obtain ⟨u, hu, w, hw, hk⟩ : ∃ u ∈ s.seen, ∃ w ∈ successors adjacency nxt u, w ∉ s.known := by
    simpa only [not_forall, exists_prop] using mt h.no_boundary_iff.mpr hb
  exact added_eq_nil (h.no_room hq hu hw hk)

/-- What was denied stays unknown. -/
theorem known_stable (h : Sound adjacency nxt budgetNodes budgetDepth handle s)
    (hq : s.queue = (node, depth) :: rest) {e : Relation} (he : e ∈ s.seen.flatMap adjacency) :
    nxt e ∈ s.known ++ added nxt budgetNodes budgetDepth depth (adjacency node) s ↔
      nxt e ∈ s.known := by
  constructor
  · intro hm
    by_contra hk
    obtain ⟨u, hu, he⟩ := List.mem_flatMap.mp he
    rw [added_eq_nil (h.no_room hq hu (mem_successors.mpr ⟨e, he, rfl⟩) hk), List.append_nil] at hm
    exact hk hm
  · exact List.mem_append_left _

/-- At the last depth, where nothing was denied, the ball is known. -/
theorem ball_known (h : Sound adjacency nxt budgetNodes budgetDepth handle s)
    (hq : s.queue = (node, depth) :: rest) (hd : budgetDepth.toNat ≤ depth)
    (hb : s.boundaries = []) :
    ∀ v ∈ order (successors adjacency nxt) handle budgetDepth.toNat, v ∈ s.known := by
  have hall := h.no_boundary_iff.mp hb
  have hnb : node ∉ before (successors adjacency nxt) handle budgetDepth.toNat := by
    rw [h.head_before hq]
    omega
  have hseen := before_subset_of_isPrefix (h.head_order hq) (Nat.le_refl _) hnb
  have hp : s.seen <+: order (successors adjacency nxt) handle budgetDepth.toNat :=
    (List.prefix_append _ _).trans (h.head_order hq)
  intro v hv
  rw [← found_eq_order hp hseen, mem_found] at hv
  rcases hv with rfl | ⟨u, hu, _, hv⟩
  · exact h.start_mem_known
  · exact hall u hu v hv

/-- **One turn keeps the invariant.** -/
theorem visit (h : Sound adjacency nxt budgetNodes budgetDepth handle s)
    (hq : s.queue = (node, depth) :: rest) :
    Sound adjacency nxt budgetNodes budgetDepth handle
      (s.visit adjacency nxt budgetNodes budgetDepth node depth rest) := by
  have hadded : added nxt budgetNodes budgetDepth depth (adjacency node)
      { s with queue := rest, seen := s.seen ++ [node] } =
      added nxt budgetNodes budgetDepth depth (adjacency node) s := rfl
  have hstable : ∀ e ∈ s.seen.flatMap adjacency, _ := fun e he => h.known_stable hq he
  have hfound := h.known_found_visit hq
  have hdepth : ∀ v ∈ added nxt budgetNodes budgetDepth depth (adjacency node) s, _ :=
    fun v hv => h.fresh_depth hq hv
  rw [Search.visit, visitEdges_eq, hadded]
  have hnone := h.added_of_boundary hq
  generalize added nxt budgetNodes budgetDepth depth (adjacency node) s = new at *
  constructor
  case known_eq =>
    show s.known ++ new = s.seen ++ [node] ++ (rest ++ new.map (·, depth + 1)).map (·.1)
    rw [h.known_eq, hq]
    simp [Function.comp_def]
  case known_found => exact hfound
  case known_order =>
    show s.known ++ new <+: _
    rw [hfound]
    exact (List.take_prefix _ _).trans (found_isPrefix (h.head_order hq))
  case depths =>
    intro p hp
    rcases List.mem_append.mp hp with hp | hp
    · exact h.depths p (by rw [hq]; exact List.mem_cons_of_mem _ hp)
    · obtain ⟨v, hv, rfl⟩ := List.mem_map.mp hp
      exact hdepth v hv
  case selected_eq =>
    have hc : (s.seen.flatMap adjacency).filter (nxt · ∈ s.known) =
        (s.seen.flatMap adjacency).filter (nxt · ∈ s.known ++ new) :=
      List.filter_congr fun e he => decide_eq_decide.mpr (hstable e he).symm
    show s.selected ++ (adjacency node).filter (nxt · ∈ s.known ++ new) = _
    rw [List.flatMap_append, List.filter_append, List.flatMap_singleton, ← hc, h.selected_eq]
  case boundaries_eq =>
    have hc : (s.seen.flatMap adjacency).filter (nxt · ∉ s.known) =
        (s.seen.flatMap adjacency).filter (nxt · ∉ s.known ++ new) :=
      List.filter_congr fun e he => decide_eq_decide.mpr (not_congr (hstable e he).symm)
    show s.boundaries ++ ((adjacency node).filter (nxt · ∉ s.known ++ new)).map nxt = _
    rw [List.flatMap_append, List.filter_append, List.flatMap_singleton, ← hc, List.map_append,
      h.boundaries_eq]
  case reason_none =>
    show (if ∀ e ∈ adjacency node, nxt e ∈ s.known ++ new then s.reason else _) = none ↔
      s.boundaries ++ ((adjacency node).filter (nxt · ∉ s.known ++ new)).map nxt = []
    rw [List.append_eq_nil_iff, denied_eq_nil_iff, ← h.reason_none]
    by_cases hall : ∀ e ∈ adjacency node, nxt e ∈ s.known ++ new
    · rw [if_pos hall]
      exact (and_iff_left hall).symm
    · rw [if_neg hall]
      have hno : s.reason.or (some (cause budgetDepth depth)) ≠ none := by simp
      exact iff_of_false hno fun hn => hall hn.2
  case reason_depth =>
    intro hr v hv
    refine List.mem_append_left _ ?_
    change (if ∀ e ∈ adjacency node, nxt e ∈ s.known ++ new then s.reason else _) = _ at hr
    split at hr
    · exact h.reason_depth hr v hv
    · cases hs : s.reason with
      | some r =>
        rw [hs, Option.some_or] at hr
        exact h.reason_depth (hs.trans hr) v hv
      | none =>
        rw [hs, Option.none_or] at hr
        have hd := cause_eq_depth_iff.mp (Option.some.inj hr)
        exact h.ball_known hq hd (h.reason_none.mp hs) v hv
  case reason_node =>
    intro hr
    change (if ∀ e ∈ adjacency node, nxt e ∈ s.known ++ new then s.reason else _) = _ at hr
    have hold : s.reason = some .nodeBudget →
        ∃ v ∈ order (successors adjacency nxt) handle budgetDepth.toNat, v ∉ s.known ++ new := by
      intro hs
      obtain ⟨v, hv, hk⟩ := h.reason_node hs
      have hb : s.boundaries ≠ [] := by
        intro hb
        rw [h.reason_none.mpr hb] at hs
        cases hs
      rw [hnone hb, List.append_nil]
      exact ⟨v, hv, hk⟩
    split at hr
    · exact hold hr
    · rename_i hall
      cases hs : s.reason with
      | some r =>
        rw [hs, Option.some_or] at hr
        exact hold (hs.trans hr)
      | none =>
        rw [hs, Option.none_or] at hr
        obtain ⟨e, he, hek⟩ : ∃ e ∈ adjacency node, nxt e ∉ s.known ++ new := by
          simpa only [not_forall, exists_prop] using hall
        have hd : depth < budgetDepth.toNat := by
          by_contra hge
          rw [cause_eq_depth_iff.mpr (by omega)] at hr
          cases hr
        have hb := (h.head_before hq budgetDepth.toNat).mpr hd
        exact ⟨nxt e, mem_next_order hb (mem_successors.mpr ⟨e, he, rfl⟩), hek⟩

end Sound

/-- The adjacency lists of distinct nodes are the rows of these nodes. -/
theorem flatMap_filter_perm {rows : List Relation} {frontier : Relation → String}
    (hadj : ∀ v, (adjacency v).Perm (rows.filter (frontier · = v))) {nodes : List String}
    (hn : nodes.Nodup) : (nodes.flatMap adjacency).Perm (rows.filter (frontier · ∈ nodes)) := by
  induction nodes with
  | nil => simp
  | cons v nodes ih =>
    obtain ⟨hv, hn⟩ := List.nodup_cons.mp hn
    have hleft : (rows.filter (frontier · ∈ v :: nodes)).filter (frontier · = v) =
        rows.filter (frontier · = v) := by
      rw [List.filter_filter]
      refine List.filter_congr fun e _ => ?_
      by_cases he : frontier e = v <;> simp [he]
    have hright : (rows.filter (frontier · ∈ v :: nodes)).filter (fun e => !decide (frontier e = v)) =
        rows.filter (frontier · ∈ nodes) := by
      rw [List.filter_filter]
      refine List.filter_congr fun e _ => ?_
      by_cases he : frontier e = v
      · simp [he, hv]
      · simp [he]
    have hsplit := List.filter_append_perm (frontier · = v) (rows.filter (frontier · ∈ v :: nodes))
    rw [hleft, hright] at hsplit
    rw [List.flatMap_cons]
    exact ((hadj v).append (ih hn)).trans hsplit

/-! ## 4. Runs -/

theorem run_of_empty {s : Search} (h : s.queue = []) (turns : Nat) :
    s.run adjacency nxt budgetNodes budgetDepth turns = some s := by
  cases turns with
  | zero => rw [run, if_pos h]
  | succ turns => rw [run, h]

/-- **A run keeps the invariant**, and ends with an empty queue. -/
theorem Sound.run {handle : String} {turns : Nat} {s s' : Search}
    (h : Sound adjacency nxt budgetNodes budgetDepth handle s)
    (hr : s.run adjacency nxt budgetNodes budgetDepth turns = some s') :
    Sound adjacency nxt budgetNodes budgetDepth handle s' ∧ s'.queue = [] := by
  induction turns generalizing s with
  | zero =>
    rw [Search.run] at hr
    split at hr
    · rename_i hq
      cases hr
      exact ⟨h, hq⟩
    · cases hr
  | succ turns ih =>
    cases hq : s.queue with
    | nil =>
      rw [run_of_empty hq] at hr
      cases hr
      exact ⟨h, hq⟩
    | cons p rest =>
      obtain ⟨node, depth⟩ := p
      rw [Search.run, hq] at hr
      exact ih (h.visit hq) hr

/-- **A run ends**: it takes no more turns than there are nodes to be met. -/
theorem Sound.run_total {handle : String} {pool : List String} {turns : Nat} {s : Search}
    (h : Sound adjacency nxt budgetNodes budgetDepth handle s)
    (hu : ∀ k, ∀ v ∈ order (successors adjacency nxt) handle k, v ∈ pool)
    (ht : pool.length ≤ s.seen.length + turns) :
    ∃ s', s.run adjacency nxt budgetNodes budgetDepth turns = some s' := by
  induction turns generalizing s with
  | zero =>
    refine ⟨s, ?_⟩
    have hsub : s.known ⊆ pool := fun v hv => hu _ v (h.known_order.subset hv)
    have hle := (List.subperm_of_subset h.known_nodup hsub).length_le
    have hl := congrArg List.length h.known_eq
    rw [List.length_append, List.length_map] at hl
    rw [Search.run, if_pos (List.eq_nil_of_length_eq_zero (by omega))]
  | succ turns ih =>
    cases hq : s.queue with
    | nil => exact ⟨s, run_of_empty hq _⟩
    | cons p rest =>
      obtain ⟨node, depth⟩ := p
      have hseen : (s.visit adjacency nxt budgetNodes budgetDepth node depth rest).seen =
          s.seen ++ [node] := by
        rw [Search.visit, visitEdges_eq]
      rw [Search.run, hq]
      refine ih (h.visit hq) ?_
      rw [hseen, List.length_append, List.length_singleton]
      omega

/-! ## 5. What the loop ends with -/

namespace Sound

variable {handle : String} {s : Search}

theorem seen_eq_known (h : Sound adjacency nxt budgetNodes budgetDepth handle s)
    (hq : s.queue = []) : s.seen = s.known := by
  rw [h.known_eq, hq, List.map_nil, List.append_nil]

/-- **The nodes visited are the first of the breadth-first order**, as many as the node budget
    and the ball allow. -/
theorem seen_eq (h : Sound adjacency nxt budgetNodes budgetDepth handle s) (hq : s.queue = [])
    {k : Nat} (hk : budgetDepth.toNat ≤ k) :
    s.seen = (order (successors adjacency nxt) handle k).take
      (max 1 (min budgetNodes
        (order (successors adjacency nxt) handle budgetDepth.toNat).length)).toNat := by
  have hs := h.seen_eq_known hq
  have hf := h.known_found
  rw [← hs] at hf
  have ho : s.seen <+: order (successors adjacency nxt) handle budgetDepth.toNat :=
    hs ▸ h.known_order
  have hstart : handle ∈ s.seen := hs ▸ h.start_mem_known
  have ht := order_take_of_found ho hstart hf
  have hpos : 0 < (order (successors adjacency nxt) handle budgetDepth.toNat).length :=
    List.length_pos_of_mem (start_mem_order _)
  have hlen := congrArg List.length ht
  rw [List.length_take] at hlen
  have hl : s.seen.length = (max 1 (min budgetNodes
      (order (successors adjacency nxt) handle budgetDepth.toNat).length)).toNat := by
    rw [hlen, cap]
    omega
  rw [← hl]
  exact List.prefix_iff_eq_take.mp (ho.trans (order_isPrefix hk))

theorem seen_subset_order (h : Sound adjacency nxt budgetNodes budgetDepth handle s)
    (hq : s.queue = []) {v : String} (hv : v ∈ s.seen) :
    v ∈ order (successors adjacency nxt) handle budgetDepth.toNat := by
  rw [h.seen_eq_known hq] at hv
  exact h.known_order.subset hv

/-- The boundaries are the nodes not visited next to a visited one. -/
theorem mem_boundaries (h : Sound adjacency nxt budgetNodes budgetDepth handle s)
    (hq : s.queue = []) {w : String} :
    w ∈ s.boundaries ↔ w ∉ s.seen ∧ ∃ u ∈ s.seen, w ∈ successors adjacency nxt u := by
  rw [h.boundaries_eq, ← h.seen_eq_known hq]
  simp only [List.mem_map, List.mem_filter, List.mem_flatMap, decide_eq_true_eq, mem_successors]
  constructor
  · rintro ⟨e, ⟨⟨u, hu, he⟩, hk⟩, rfl⟩
    exact ⟨hk, u, hu, e, he, rfl⟩
  · rintro ⟨hk, u, hu, e, he, rfl⟩
    exact ⟨e, ⟨⟨u, hu, he⟩, hk⟩, rfl⟩

/-- Something was denied exactly when something reachable was not visited. -/
theorem truncated_iff (h : Sound adjacency nxt budgetNodes budgetDepth handle s)
    (hq : s.queue = []) :
    s.boundaries ≠ [] ↔ ∃ v, Reaches (successors adjacency nxt) handle v ∧ v ∉ s.seen := by
  constructor
  · intro hb
    obtain ⟨w, hw⟩ := List.exists_mem_of_ne_nil _ hb
    obtain ⟨hk, u, hu, hw⟩ := (h.mem_boundaries hq).mp hw
    have hr : Reaches (successors adjacency nxt) handle u :=
      reaches_iff.mpr ⟨_, mem_order.mp (h.seen_subset_order hq hu)⟩
    exact ⟨w, hr.tail hw, hk⟩
  · intro ⟨v, hv, hk⟩ hb
    have hall := h.no_boundary_iff.mp hb
    rw [← h.seen_eq_known hq] at hall
    have hstart : handle ∈ s.seen := h.seen_eq_known hq ▸ h.start_mem_known
    exact hk (hv.mem_of_closed hstart hall)

/-- **`node_budget`: a node of the ball was not visited.** -/
theorem reason_eq_node_iff (h : Sound adjacency nxt budgetNodes budgetDepth handle s)
    (hq : s.queue = []) :
    s.reason = some .nodeBudget ↔
      ∃ v ∈ order (successors adjacency nxt) handle budgetDepth.toNat, v ∉ s.seen := by
  rw [h.seen_eq_known hq]
  constructor
  · exact h.reason_node
  · rintro ⟨v, hv, hk⟩
    have hb : s.boundaries ≠ [] := (h.truncated_iff hq).mpr
      ⟨v, reaches_iff.mpr ⟨_, mem_order.mp hv⟩, h.seen_eq_known hq ▸ hk⟩
    cases hr : s.reason with
    | none => exact absurd (h.reason_none.mp hr) hb
    | some r =>
      cases r with
      | depthBudget => exact absurd (h.reason_depth hr v hv) hk
      | nodeBudget => rfl

/-- **`depth_budget`: the whole ball was visited, and something lies beyond it.** -/
theorem reason_eq_depth_iff (h : Sound adjacency nxt budgetNodes budgetDepth handle s)
    (hq : s.queue = []) :
    s.reason = some .depthBudget ↔
      (∀ v ∈ order (successors adjacency nxt) handle budgetDepth.toNat, v ∈ s.seen) ∧
        ∃ v, Reaches (successors adjacency nxt) handle v ∧
          v ∉ order (successors adjacency nxt) handle budgetDepth.toNat := by
  constructor
  · intro hr
    have hall := h.reason_depth hr
    rw [← h.seen_eq_known hq] at hall
    have hb : s.boundaries ≠ [] := by
      intro hb
      rw [h.reason_none.mpr hb] at hr
      cases hr
    obtain ⟨v, hv, hk⟩ := (h.truncated_iff hq).mp hb
    exact ⟨hall, v, hv, fun hm => hk (hall v hm)⟩
  · rintro ⟨hall, v, hv, hm⟩
    have hb : s.boundaries ≠ [] :=
      (h.truncated_iff hq).mpr ⟨v, hv, fun hs => hm (h.seen_subset_order hq hs)⟩
    cases hr : s.reason with
    | none => exact absurd (h.reason_none.mp hr) hb
    | some r =>
      cases r with
      | depthBudget => rfl
      | nodeBudget =>
        obtain ⟨w, hw, hk⟩ := (h.reason_eq_node_iff hq).mp hr
        exact absurd (hall w hw) hk

/-- **The edges selected are the rows between visited nodes**, each once, where the adjacency
    of a node is its rows in some order. -/
theorem selected_perm (h : Sound adjacency nxt budgetNodes budgetDepth handle s)
    (hq : s.queue = []) (rows : List Relation) (frontier : Relation → String)
    (hadj : ∀ v, (adjacency v).Perm (rows.filter (frontier · = v))) :
    s.selected.Perm (rows.filter fun e => frontier e ∈ s.seen ∧ nxt e ∈ s.seen) := by
  have hn : s.seen.Nodup := h.seen_eq_known hq ▸ h.known_nodup
  rw [h.selected_eq, ← h.seen_eq_known hq]
  have hp := (flatMap_filter_perm hadj hn).filter (nxt · ∈ s.seen)
  rw [List.filter_filter] at hp
  refine hp.trans (List.Perm.of_eq (List.filter_congr fun e _ => ?_))
  by_cases h1 : frontier e ∈ s.seen <;> simp [h1]

end Sound

end Search

end Irez

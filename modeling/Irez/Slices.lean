/-
  File:      Irez/Slices.lean
  Subject:   Slices against each other (service.cpp 1187-1364): two budgets, two directions, and
             slices that go on from the boundaries of others.

  Every slice that answers is exact over one graph, which its target and its relations determine
  and no budget does. What slices have in common is then a matter of breadth-first orders.

  * `readSliceAll_exact` -- a slice that answers, whatever its target;
  * `slice_widens` -- larger budgets continue a slice, and add nothing to one that is not cut off;
  * `slice_dual` -- a node is met backwards where the start is met forwards from it;
  * `Explored`, `explored_covers` -- whoever goes on until no boundary is left has seen what
    can be reached.
-/
import Irez.Trace

open Irez.Basis

namespace Irez

variable {db : Database} {handle direction : String} {relations : List String}
  {budgetNodes budgetDepth : Int} {out : SliceResponse}

/-! ## 1. One slice -/

/-- The multigraph that a slice of an entity reads. -/
def Tables.slicedGraph (t : Tables) (target : Entity) (relations : List String) : List Relation :=
  t.sliceEdges target.scope (traversedKinds t target.scope (requestedKinds relations))

theorem mem_slicedGraph {t : Tables} {target : Entity} {r : Relation}
    (h : r ∈ t.slicedGraph target relations) : r ∈ t.relations := by
  unfold Tables.slicedGraph Tables.sliceEdges at h
  split at h
  · exact absurd h List.not_mem_nil
  · exact List.mem_of_mem_filter h

theorem mem_neighbours {graph : List Relation} {u v : String} :
    v ∈ neighbours graph direction u ↔
      ∃ r ∈ graph, r.frontier direction = u ∧ r.nxt direction = v := by
  unfold neighbours
  rw [List.mem_map]
  constructor
  · rintro ⟨r, hr, rfl⟩
    obtain ⟨hmem, hu⟩ := List.mem_filter.mp ((rowsAt_perm _ _ _).mem_iff.mp hr)
    exact ⟨r, hmem, of_decide_eq_true hu, rfl⟩
  · rintro ⟨r, hr, hu, rfl⟩
    exact ⟨r, (rowsAt_perm _ _ _).mem_iff.mpr (List.mem_filter.mpr ⟨hr, decide_eq_true hu⟩), rfl⟩

/-- What a slice checks before it searches. -/
def sliceChecks (handle : String) (relations : List String) (t : Tables) :
    Except Thrown (Entity × String) := do
  let target ← entityOrThrow t handle
  checkSupported relations
  let inv ← investigationId t
  .ok (target, inv)

/-- **A slice answers where its checks pass**, whatever its budgets, and then it is exact. -/
theorem readSliceAll_checks (db : Database) (handle direction : String) (relations : List String)
    (budgetNodes budgetDepth : Int) :
    (∀ e, sliceChecks handle relations db.toTables = .error e →
      readSliceAll handle direction relations budgetNodes budgetDepth db.toTables = .error e) ∧
    ∀ target inv, sliceChecks handle relations db.toTables = .ok (target, inv) →
      db.entity handle = some target ∧
      ∃ out, readSliceAll handle direction relations budgetNodes budgetDepth db.toTables = .ok out ∧
        ExactSlice (db.slicedGraph target relations)
          (neighbours (db.slicedGraph target relations) direction) handle budgetNodes budgetDepth out := by
  have hget : readSlice db.toTables db.turns handle direction relations budgetNodes budgetDepth =
      some (readSliceAll handle direction relations budgetNodes budgetDepth db.toTables) :=
    (Option.some_get _).symm
  unfold readSlice at hget
  unfold sliceChecks entityOrThrow
  cases ht : db.entity handle with
  | none =>
    rw [ht] at hget
    refine ⟨fun e he => ?_, fun target inv h => by cases h⟩
    cases he
    exact (Option.some.inj hget).symm
  | some target =>
    rw [ht] at hget
    cases hs : checkSupported relations with
    | error e =>
      rw [hs] at hget
      refine ⟨fun e' he => ?_, fun target inv h => by cases h⟩
      cases he
      exact (Option.some.inj hget).symm
    | ok u =>
      rw [hs] at hget
      obtain ⟨s, hrun, hread⟩ := Option.map_eq_some_iff.mp hget
      obtain ⟨hsound, hq⟩ := (Search.Sound.initial handle).run hrun
      cases hinv : investigationId db.toTables with
      | error e =>
        rw [hinv] at hread
        refine ⟨fun e' he => ?_, fun target inv h => by cases h⟩
        cases he
        exact hread.symm
      | ok inv =>
        rw [hinv] at hread
        refine ⟨fun e he => (by cases he), fun target' inv' h => ?_⟩
        cases h
        exact ⟨rfl, _, hread.symm, exactSlice_of_search ht (fun _ hr => mem_slicedGraph hr)
          hsound hq _ _ _⟩

/-- **A slice that answers is exact.** -/
theorem readSliceAll_exact
    (h : readSliceAll handle direction relations budgetNodes budgetDepth db.toTables = .ok out) :
    ∃ target inv, sliceChecks handle relations db.toTables = .ok (target, inv) ∧
      db.entity handle = some target ∧
      ExactSlice (db.slicedGraph target relations)
          (neighbours (db.slicedGraph target relations) direction) handle budgetNodes budgetDepth out := by
  obtain ⟨herror, hok⟩ :=
    readSliceAll_checks db handle direction relations budgetNodes budgetDepth
  cases hc : sliceChecks handle relations db.toTables with
  | error e =>
    rw [herror e hc] at h
    cases h
  | ok found =>
    obtain ⟨target, inv⟩ := found
    obtain ⟨ht, out', hread, hexact⟩ := hok target inv hc
    rw [hread] at h
    cases h
    exact ⟨target, inv, rfl, ht, hexact⟩

namespace ExactSlice

variable {graph : List Relation} {next : String → List String}

/-- The nodes of a slice are the first of the breadth-first order. -/
theorem visitedIds_eq (h : ExactSlice graph next handle budgetNodes budgetDepth out) {k : Nat}
    (hk : budgetDepth.toNat ≤ k) :
    out.visitedIds = (order next handle k).take
      (max 1 (min budgetNodes
        (order next handle budgetDepth.toNat).length)).toNat :=
  h.nodes_eq _ (order_nodup _) (fun _ => mem_order) k hk

/-- They are at most as many steps away as the budget allows. -/
theorem within (h : ExactSlice graph next handle budgetNodes budgetDepth out) {v : String}
    (hv : v ∈ out.visitedIds) : Within next handle budgetDepth.toNat v := by
  rw [h.visitedIds_eq le_rfl] at hv
  exact mem_order.mp (List.mem_of_mem_take hv)

theorem reaches (h : ExactSlice graph next handle budgetNodes budgetDepth out) {v : String}
    (hv : v ∈ out.visitedIds) : Reaches next handle v :=
  reaches_iff.mpr ⟨_, h.within hv⟩

/-- The target is visited. -/
theorem target_mem (h : ExactSlice graph next handle budgetNodes budgetDepth out) :
    handle ∈ out.visitedIds := by
  rw [h.visitedIds_eq le_rfl]
  obtain ⟨rest, hrest⟩ : [handle] <+: order next handle budgetDepth.toNat :=
    order_isPrefix (Nat.zero_le _)
  rw [← hrest, List.singleton_append]
  have hpos : 1 ≤ (max 1 (min budgetNodes ((handle :: rest).length : Int))).toNat := by omega
  obtain ⟨n, hn⟩ := Nat.exists_eq_add_of_le' hpos
  rw [hn, List.take_succ_cons]
  exact List.mem_cons_self

/-- A slice that is not cut off visits what can be reached. -/
theorem whole (h : ExactSlice graph next handle budgetNodes budgetDepth out)
    (hcut : out.truncated = false) (v : String) :
    v ∈ out.visitedIds ↔ Reaches next handle v := by
  refine ⟨h.reaches, fun hv => ?_⟩
  by_contra hmiss
  rw [h.truncated_iff.mpr ⟨v, hv, hmiss⟩] at hcut
  cases hcut

/-- A slice that its node budget does not cut visits all that is near enough. -/
theorem ball (h : ExactSlice graph next handle budgetNodes budgetDepth out)
    (hcut : out.reason ≠ some .nodeBudget) (v : String) :
    v ∈ out.visitedIds ↔ Within next handle budgetDepth.toNat v := by
  refine ⟨h.within, fun hv => ?_⟩
  by_contra hmiss
  exact hcut (h.node_iff.mpr ⟨v, hv, hmiss⟩)

end ExactSlice

/-! ## 2. Two budgets -/

/-- **A slice continues another one.** -/
structure SliceResponse.Continues (out' out : SliceResponse) : Prop where
  nodes : out.visitedIds <+: out'.visitedIds
  relations : List.Subperm out.relations out'.relations
  boundaries : ∀ v ∈ out.boundaries, v ∈ out'.visitedIds ∨ v ∈ out'.boundaries

/-- Two slices that are not cut off and show the same. -/
structure SliceResponse.ShowsSame (out' out : SliceResponse) : Prop where
  nodes : out'.visitedIds = out.visitedIds
  relations : out'.relations.Perm out.relations
  boundaries : out'.boundaries = []
  truncated : out'.truncated = false

section Budgets

variable {graph : List Relation} {next : String → List String} {budgetNodes' budgetDepth' : Int} {out' : SliceResponse}

/-- Larger budgets continue a slice of the same graph. -/
theorem ExactSlice.continues
    (h : ExactSlice graph next handle budgetNodes budgetDepth out)
    (h' : ExactSlice graph next handle budgetNodes' budgetDepth' out')
    (hnodes : budgetNodes ≤ budgetNodes') (hdepth : budgetDepth ≤ budgetDepth') :
    out'.Continues out := by
  have hd : budgetDepth.toNat ≤ budgetDepth'.toNat := Int.toNat_le_toNat hdepth
  have hfirst : out.visitedIds <+: out'.visitedIds := by
    have hball : (order next handle budgetDepth.toNat).length ≤
        (order next handle budgetDepth'.toNat).length :=
      (order_isPrefix hd).length_le
    rw [h.visitedIds_eq hd, h'.visitedIds_eq le_rfl]
    exact List.take_prefix_take_left (by omega)
  refine ⟨hfirst, ?_, fun v hv => ?_⟩
  · refine (h.relations_perm.subperm.trans (List.Sublist.subperm ?_)).trans
      h'.relations_perm.symm.subperm
    refine (List.monotone_filter_right graph fun r hr => ?_).map _
    simp only [decide_eq_true_eq] at hr ⊢
    exact ⟨hfirst.subset hr.1, hfirst.subset hr.2⟩
  · obtain ⟨_, u, hu, hv⟩ := (h.mem_boundaries v).mp hv
    by_cases hmem : v ∈ out'.visitedIds
    · exact .inl hmem
    · exact .inr ((h'.mem_boundaries v).mpr ⟨hmem, u, hfirst.subset hu, hv⟩)

/-- They add nothing to a slice that is not cut off. -/
theorem ExactSlice.showsSame
    (h : ExactSlice graph next handle budgetNodes budgetDepth out)
    (h' : ExactSlice graph next handle budgetNodes' budgetDepth' out')
    (hc : out'.Continues out) (hcut : out.truncated = false) : out'.ShowsSame out := by
  have hsub (v : String) (hv : Reaches next handle v) :
      v ∈ out'.visitedIds := hc.nodes.subset ((h.whole hcut v).mpr hv)
  have hnodes : out'.visitedIds = out.visitedIds := by
    have hle : out'.visitedIds.length ≤ out.visitedIds.length :=
      (h'.nodes_nodup.subperm fun v hv => (h.whole hcut v).mpr (h'.reaches hv)).length_le
    exact (hc.nodes.eq_of_length_le hle).symm
  refine ⟨hnodes, ?_, ?_, ?_⟩
  · refine h'.relations_perm.trans (.trans (.of_eq ?_) h.relations_perm.symm)
    rw [hnodes]
  · refine List.eq_nil_iff_forall_not_mem.mpr fun v hv => ?_
    obtain ⟨hmiss, u, hu, hv⟩ := (h'.mem_boundaries v).mp hv
    exact hmiss (hsub v (.tail (h'.reaches hu) hv))
  · rw [← Bool.not_eq_true, h'.truncated_iff]
    intro ⟨v, hv, hmiss⟩
    exact hmiss (hsub v hv)

end Budgets

section Calls

variable {env : Environment} {graph : String → String → Outcome} {d : MaterializeDraw}

/-- **Larger budgets continue a slice.** Where `slice_on` answers it answers with larger budgets
    too, in the same state: the nodes it had come first and in the same order, its relations are
    there, and its boundaries have been visited or are still boundaries. To a slice that is not cut
    off nothing is added. -/
theorem slice_widens {db' : Database} {budgetNodes' budgetDepth' : Int}
    (hnodes : budgetNodes ≤ budgetNodes') (hdepth : budgetDepth ≤ budgetDepth')
    (h : afterEnsure env graph d handle
      (readSliceAll handle direction relations budgetNodes budgetDepth) db = (db', .ok out)) :
    ∃ out', afterEnsure env graph d handle
        (readSliceAll handle direction relations budgetNodes' budgetDepth') db = (db', .ok out') ∧
      out'.Continues out ∧ (out.truncated = false → out'.ShowsSame out) := by
  obtain ⟨hens, hread⟩ := afterEnsure_ok h
  obtain ⟨target, inv, hchecks, _, hexact⟩ := readSliceAll_exact hread
  obtain ⟨_, out', hread', hexact'⟩ := (readSliceAll_checks db' handle direction relations
    budgetNodes' budgetDepth').2 target inv hchecks
  have hc := hexact.continues hexact' hnodes hdepth
  refine ⟨out', ?_, hc, hexact.showsSame hexact' hc⟩
  unfold afterEnsure
  rw [hens]
  exact congrArg (Prod.mk db') hread'

end Calls

namespace Diamond

/-- A slice of the diamond. -/
def slice (handle direction : String) (budgetNodes : Int) : Except Thrown SliceResponse :=
  readSliceAll handle direction ["operand"] budgetNodes 12 database.toTables

theorem slice_ok (handle direction : String) (budgetNodes : Int)
    (hh : (database.entity handle).isSome = true) : ∃ out, slice handle direction budgetNodes = .ok out := by
  obtain ⟨target, ht⟩ := Option.isSome_iff_exists.mp hh
  have hchecks : sliceChecks handle ["operand"] database.toTables =
      .ok (target, "investigation:i") := by
    unfold sliceChecks entityOrThrow
    rw [ht]
    rfl
  obtain ⟨_, out, hread, _⟩ :=
    (readSliceAll_checks database handle direction ["operand"] budgetNodes 12).2 _ _ hchecks
  exact ⟨out, hread⟩

def reasonOf : Except Thrown SliceResponse → Option Reason
  | .ok out => out.reason
  | .error _ => none

def boundariesOf : Except Thrown SliceResponse → List String
  | .ok out => out.boundaries
  | .error _ => []

def truncatedOf : Except Thrown SliceResponse → Bool
  | .ok out => out.truncated
  | .error _ => true

/-- The same as a call. -/
def sliceCall (handle direction : String) (budgetNodes : Int) :
    Database × Except Thrown SliceResponse :=
  afterEnsure Sample.environment (fun _ _ => .error "bad_alloc") Sample.draw handle
    (readSliceAll handle direction ["operand"] budgetNodes 12) database

theorem sliceCall_ok {handle direction : String} {budgetNodes : Int} {out : SliceResponse}
    (ht : database.entity handle = some (instruction handle))
    (h : slice handle direction budgetNodes = .ok out) :
    sliceCall handle direction budgetNodes = (database, .ok out) := by
  have hensured : ensureMaterialized Sample.environment (fun _ _ => .error "bad_alloc") Sample.draw
      handle database = (database, .ok ()) :=
    ensureMaterialized_of_current (f := Sample.handle) ht rfl (by decide)
  unfold sliceCall afterEnsure
  rw [hensured]
  exact congrArg (Prod.mk database) h

end Diamond

open Diamond in
/-- A slice of one node, and the same one with room for more. -/
theorem slice_widens_diamond : ∃ out out',
    sliceCall "ret" "backward" 1 = (database, .ok out) ∧
      sliceCall "ret" "backward" 100 = (database, .ok out') ∧ out'.Continues out := by
  have ht : database.entity "ret" = some (instruction "ret") := rfl
  obtain ⟨out, hread⟩ := slice_ok "ret" "backward" 1 (by decide)
  have hcall := sliceCall_ok ht hread
  have hwider : ∃ out', sliceCall "ret" "backward" 100 = (database, .ok out') ∧
      out'.Continues out ∧ (out.truncated = false → out'.ShowsSame out) :=
    slice_widens (by decide) le_rfl hcall
  obtain ⟨out', hcall', hc, _⟩ := hwider
  exact ⟨out, out', hcall, hcall', hc⟩

/-! ## 3. Two directions -/

theorem neighbours_reverse {graph : List Relation} {forward u v : String} (hf : forward ≠ "backward") :
    v ∈ neighbours graph "backward" u ↔ u ∈ neighbours graph forward v := by
  rw [mem_neighbours, mem_neighbours]
  simp only [Relation.frontier, Relation.nxt, if_true, if_neg hf]
  exact ⟨fun ⟨r, hr, h⟩ => ⟨r, hr, h.2, h.1⟩, fun ⟨r, hr, h⟩ => ⟨r, hr, h.2, h.1⟩⟩

/-- The graph of a slice is a matter of the scope of its target. -/
theorem slicedGraph_congr {t : Tables} {e e' : Entity} (h : e.scope = e'.scope) :
    t.slicedGraph e relations = t.slicedGraph e' relations := by
  unfold Tables.slicedGraph
  rw [h]

/-- **Backwards and forwards are each other's reverse.** Of two entities of one function, with the
    same relations and the same depth, the backward slice of the one shows the other exactly where
    the forward slice of the other shows the one, unless a node budget cuts one of them. The calls
    may start anywhere, and answer from one state. -/
theorem slice_dual {x y forward : String} {e e' : Entity} {n n' depth : Int} {out out' : SliceResponse}
    {env env' : Environment} {graph graph' : String → String → Outcome} {d d' : MaterializeDraw}
    {start start' : Database}
    (hx : db.entity x = some e) (hy : db.entity y = some e') (hscope : e.scope = e'.scope)
    (hf : forward ≠ "backward")
    (h : afterEnsure env graph d x (readSliceAll x "backward" relations n depth) start =
      (db, .ok out))
    (h' : afterEnsure env' graph' d' y (readSliceAll y forward relations n' depth) start' =
      (db, .ok out'))
    (hcut : out.reason ≠ some .nodeBudget) (hcut' : out'.reason ≠ some .nodeBudget) :
    y ∈ out.visitedIds ↔ x ∈ out'.visitedIds := by
  obtain ⟨target, _, _, ht, hexact⟩ := readSliceAll_exact (afterEnsure_ok h).2
  obtain ⟨target', _, _, ht', hexact'⟩ := readSliceAll_exact (afterEnsure_ok h').2
  obtain rfl := Option.some.inj (hx.symm.trans ht)
  obtain rfl := Option.some.inj (hy.symm.trans ht')
  rw [← slicedGraph_congr hscope] at hexact'
  rw [hexact.ball hcut, hexact'.ball hcut']
  exact ⟨.reverse fun _ _ => (neighbours_reverse hf).mp, .reverse fun _ _ => (neighbours_reverse hf).mpr⟩

open Diamond in
/-- `ret` uses `c` on a path of two steps, and is met from `c` on it. -/
theorem slice_dual_diamond : ∃ out out', sliceCall "ret" "backward" 100 = (database, .ok out) ∧
    sliceCall "c" "forward" 100 = (database, .ok out') ∧
      ("c" ∈ out.visitedIds ↔ "ret" ∈ out'.visitedIds) := by
  have hback : (reasonOf (slice "ret" "backward" 100)) = none := by decide +kernel
  have hforth : (reasonOf (slice "c" "forward" 100)) = none := by decide +kernel
  obtain ⟨out, hout⟩ := slice_ok "ret" "backward" 100 (by decide)
  obtain ⟨out', hout'⟩ := slice_ok "c" "forward" 100 (by decide)
  rw [hout] at hback
  rw [hout'] at hforth
  have hx : database.entity "ret" = some (instruction "ret") := rfl
  have hy : database.entity "c" = some (instruction "c") := rfl
  have hcall := sliceCall_ok hx hout
  have hcall' := sliceCall_ok hy hout'
  refine ⟨out, out', hcall, hcall', slice_dual hx hy rfl (by decide) hcall hcall' ?_ ?_⟩
  · intro he
    rw [reasonOf, he] at hback
    cases hback
  · intro he
    rw [reasonOf, he] at hforth
    cases hforth

/-! ## 4. Slices that go on -/

/-- **What somebody has seen who goes on**: a slice of the handle, and slices of boundaries of
    those before, with any budgets. -/
inductive Explored (t : Tables) (direction : String) (relations : List String) (handle : String) :
    List SliceResponse → Prop
  | first {budgetNodes budgetDepth : Int} {out : SliceResponse}
      (h : readSliceAll handle direction relations budgetNodes budgetDepth t = .ok out) :
      Explored t direction relations handle [out]
  | next {outs : List SliceResponse} {out out' : SliceResponse} {b : String}
      {budgetNodes budgetDepth : Int} (hrun : Explored t direction relations handle outs)
      (hout : out ∈ outs) (hb : b ∈ out.boundaries)
      (h : readSliceAll b direction relations budgetNodes budgetDepth t = .ok out') :
      Explored t direction relations handle (out' :: outs)

/-- The boundaries belong to the function of the target. -/
def SliceResponse.Inside (t : Tables) (scope : Option String) (out : SliceResponse) : Prop :=
  ∀ b ∈ out.boundaries, ∀ e, t.entity b = some e → e.scope = scope

/-- Every slice of an exploration is exact over the graph of its start, from what can be reached. -/
theorem Explored.exact {outs : List SliceResponse} {target : Entity}
    (h : Explored db.toTables direction relations handle outs)
    (ht : db.entity handle = some target)
    (hin : ∀ out ∈ outs, out.Inside db.toTables target.scope) :
    ∀ out ∈ outs, ∃ b budgetNodes budgetDepth,
      Reaches (neighbours (db.slicedGraph target relations) direction) handle b ∧
      ExactSlice (db.slicedGraph target relations)
        (neighbours (db.slicedGraph target relations) direction) b budgetNodes budgetDepth out := by
  induction h with
  | first h =>
    intro out hout
    obtain rfl := List.mem_singleton.mp hout
    obtain ⟨target', _, _, ht', hexact⟩ := readSliceAll_exact h
    obtain rfl := Option.some.inj (ht.symm.trans ht')
    exact ⟨handle, _, _, .refl, hexact⟩
  | @next outs before out' b _ _ hrun hbefore hb h ih =>
    have ih := ih fun out hout => hin out (List.mem_cons_of_mem _ hout)
    intro out hout
    rcases List.mem_cons.mp hout with rfl | hout
    · obtain ⟨e, _, _, he, hexact⟩ := readSliceAll_exact h
      obtain ⟨c, _, _, hreach, hslice⟩ := ih _ hbefore
      obtain ⟨_, u, hu, hstep⟩ := (hslice.mem_boundaries b).mp hb
      have hscope := hin _ (List.mem_cons_of_mem _ hbefore) b hb e he
      rw [slicedGraph_congr hscope] at hexact
      exact ⟨b, _, _, (hreach.trans (hslice.reaches hu)).tail hstep, hexact⟩
    · exact ih out hout

/-- **Going on until no boundary is left shows all there is.** Where the boundaries belong to the
    function, and every boundary has been visited by some slice, the slices together visit exactly
    what one slice without a cut visits. -/
theorem explored_covers {outs : List SliceResponse} {target : Entity} {n depth : Int}
    {whole : SliceResponse} (h : Explored db.toTables direction relations handle outs)
    (ht : db.entity handle = some target)
    (hin : ∀ out ∈ outs, out.Inside db.toTables target.scope)
    (hdone : ∀ out ∈ outs, ∀ b ∈ out.boundaries, ∃ out' ∈ outs, b ∈ out'.visitedIds)
    (hwhole : readSliceAll handle direction relations n depth db.toTables = .ok whole)
    (hcut : whole.truncated = false) (v : String) :
    (∃ out ∈ outs, v ∈ out.visitedIds) ↔ v ∈ whole.visitedIds := by
  obtain ⟨target', _, _, ht', hexact⟩ := readSliceAll_exact hwhole
  obtain rfl := Option.some.inj (ht.symm.trans ht')
  have hall := h.exact ht hin
  rw [hexact.whole hcut]
  constructor
  · intro ⟨out, hout, hv⟩
    obtain ⟨b, _, _, hreach, hslice⟩ := hall out hout
    exact hreach.trans (hslice.reaches hv)
  · intro hv
    -- the nodes visited so far hold the start and are closed under steps
    have hstart : ∃ out ∈ outs, handle ∈ out.visitedIds := by
      clear hdone hin hall
      induction h with
      | first h =>
        obtain ⟨_, _, _, _, hslice⟩ := readSliceAll_exact h
        exact ⟨_, List.mem_singleton_self _, hslice.target_mem⟩
      | next _ _ _ _ ih =>
        obtain ⟨out, hout, hv⟩ := ih
        exact ⟨out, List.mem_cons_of_mem _ hout, hv⟩
    induction hv with
    | refl => exact hstart
    | @tail u w _ hstep ih =>
      obtain ⟨out, hout, hu⟩ := ih
      by_cases hw : w ∈ out.visitedIds
      · exact ⟨out, hout, hw⟩
      · obtain ⟨b, _, _, _, hslice⟩ := hall out hout
        exact hdone out hout w ((hslice.mem_boundaries w).mpr ⟨hw, u, hu, hstep⟩)

open Diamond in
/-- A slice of `ret` alone, and one of its boundary `a`: together they are the whole slice. -/
theorem explored_covers_diamond : ∃ first rest whole, slice "ret" "backward" 1 = .ok first ∧
    slice "a" "backward" 100 = .ok rest ∧ slice "ret" "backward" 100 = .ok whole ∧
      ∀ v, (∃ out ∈ [rest, first], v ∈ out.visitedIds) ↔ v ∈ whole.visitedIds := by
  have hfirst : boundariesOf (slice "ret" "backward" 1) = ["a"] := by decide +kernel
  have hrest : boundariesOf (slice "a" "backward" 100) = [] := by decide +kernel
  have hcut : truncatedOf (slice "ret" "backward" 100) = false := by decide +kernel
  obtain ⟨first, h₁⟩ := slice_ok "ret" "backward" 1 (by decide)
  obtain ⟨rest, h₂⟩ := slice_ok "a" "backward" 100 (by decide)
  obtain ⟨whole, h₃⟩ := slice_ok "ret" "backward" 100 (by decide)
  rw [h₁] at hfirst
  rw [h₂] at hrest
  rw [h₃] at hcut
  have hf : first.boundaries = ["a"] := hfirst
  have hr : rest.boundaries = [] := hrest
  have ha : "a" ∈ rest.visitedIds := by
    obtain ⟨_, _, _, _, hexact⟩ := readSliceAll_exact h₂
    exact hexact.target_mem
  have hrun : Explored database.toTables "backward" ["operand"] "ret" [rest, first] :=
    .next (.first h₁) List.mem_cons_self (by rw [hf]; exact List.mem_cons_self) h₂
  have ht : database.entity "ret" = some (instruction "ret") := rfl
  refine ⟨first, rest, whole, h₁, h₂, h₃, explored_covers hrun ht ?_ ?_ h₃ hcut⟩
  · intro out hout b hb e he
    have hb : b = "a" := by
      rcases List.mem_pair.mp hout with rfl | rfl
      · rw [hr] at hb
        cases hb
      · rw [hf] at hb
        exact List.mem_singleton.mp hb
    rw [hb] at he
    cases he
    rfl
  · intro out hout b hb
    refine ⟨rest, List.mem_cons_self, ?_⟩
    rcases List.mem_pair.mp hout with rfl | rfl
    · rw [hr] at hb
      cases hb
    · rw [hf] at hb
      rw [List.mem_singleton.mp hb]
      exact ha

end Irez

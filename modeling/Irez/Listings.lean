/-
  File:      Irez/Listings.lean
  Subject:   `uses`, `guards` and `show --view children` against the list they cut off
             (service.cpp 1052-1095, 1136-1177, 1444-1517).

  Each of the three asks for one row more than its budget, shows the rows up to the budget
  and reports the row behind them as the boundary.

  * `probe_isSome`, `beyond_probe` -- the probe, in the integers of the program;
  * `ListQuery.rows` -- the list without a budget, each row with the handle it is reported by;
  * `Listing.Agrees` -- what an answer says of that list;
  * `bounded_list_agrees` -- where an answer agrees: `show` counts no children it shows;
  * `Miscounted`, `ThreeBlocks` -- a function with one block, and one whose blocks are cut off.
-/
import Mathlib.Algebra.Group.Int.Defs
import Irez.History
import Irez.Trace

open Irez.Basis

namespace Irez

/-! ## 1. The probe -/

/-- The largest budget that the command line reads. -/
def maxBudget : Int := 2 ^ 63 - 1

section Probe

variable {α : Type} {budget : Int} {rows : List α}

/-- **The probe does not overflow** below the largest integer. -/
theorem probe_isSome (h : 0 ≤ budget) : (probe budget).isSome = true ↔ budget < maxBudget := by
  unfold probe int64Add maxBudget
  rw [Option.isSome_ite]
  omega

/-- The row behind the budget, where there is one. -/
theorem beyond_probe (h : 0 ≤ budget) (hmax : budget < maxBudget) :
    beyond budget (limit (probe budget) rows) = (rows[budget.toNat]?).toList := by
  have hb : (budget + 1).toNat = budget.toNat + 1 := by omega
  have hprobe : probe budget = some (budget + 1) := by
    unfold maxBudget at hmax
    unfold probe int64Add
    exact if_pos (by omega)
  rw [hprobe, limit, if_neg (by omega), hb, beyond, List.take_succ, List.drop_append]
  by_cases hlt : budget.toNat < rows.length
  · have hlen : (rows.take budget.toNat).length = budget.toNat := by simp; omega
    rw [List.drop_eq_nil_of_le (by omega), hlen, Nat.sub_self, List.drop_zero, List.nil_append]
  · rw [List.getElem?_eq_none (by omega), Option.toList_none, List.drop_nil, List.append_nil]
    exact List.drop_eq_nil_of_le (by simp)

end Probe

/-! ## 2. The three lists -/

inductive ListQuery where
  | uses
  | guards
  | children (kind : Option String)
  deriving DecidableEq, Repr

def ListQuery.query (l : ListQuery) (handle : String) (budget : Int) : Query :=
  match l with
  | .uses => .uses handle budget
  | .guards => .guards handle budget
  | .children kind => .view handle "children" kind budget

inductive ListRow where
  | use (row : UseRow)
  | guard (row : GuardRow)
  | child (entity : Entity)
  deriving DecidableEq, Repr

/-- **The list without a budget**: its rows, each with the handle it is reported by as a
    boundary. -/
def ListQuery.rows (l : ListQuery) (t : Tables) (handle : String) : List (ListRow × String) :=
  match l with
  | .uses => (t.operandUses handle).map fun r => (.use (t.useRow r), r.srcId)
  | .guards =>
    (t.entity handle).elim [] fun target =>
      (t.guardRelations (guardsExact t target) (guardedBlock target handle)).map fun r =>
        (.guard (t.guardRow (guardsExact t target) r), guardTerminator (guardsExact t target) r)
  | .children kind =>
    (orderedByOrdinal (t.entitiesOf handle (childPredicate (kind.getD "block")))).map fun e =>
      (.child e, e.id)

/-- `visited_nodes` where the list has `n` rows. -/
def ListQuery.visited (l : ListQuery) (budget : Int) (n : Nat) : Int :=
  match l with
  | .uses => if budget < n then budget else n
  | .guards => if budget < n then budget else n
  | .children _ => if budget < n then budget else 0

/-- What an answer says of its list. -/
structure Listing where
  rows : List ListRow
  truncated : Bool
  reason : Option Cut
  boundaries : List String
  visited : Int
  deriving DecidableEq, Repr

def Response.listing : Response → Option Listing
  | .uses out =>
    some ⟨out.result.map .use, out.truncated, out.reason, out.boundaries, out.visited⟩
  | .guards out =>
    some ⟨out.result.map .guard, out.truncated, out.reason, out.boundaries, out.visited⟩
  | .shown out =>
    match out.result with
    | .children _ _ items =>
      some ⟨items.map .child, out.truncated, out.reason, out.boundaries, out.visited⟩
    | _ => none
  | _ => none

/-- The answer that a list with a budget makes. -/
def ListQuery.listing (l : ListQuery) (budget : Int) (rows : List (ListRow × String)) : Listing :=
  { rows := (rows.map (·.1)).take budget.toNat
    truncated := decide (budget < rows.length)
    reason := nodeCut (decide (budget < rows.length))
    boundaries := ((rows.map (·.2))[budget.toNat]?).toList
    visited := l.visited budget rows.length }

section Listings

variable {env : Environment} {graph : String → String → Outcome}
  {draw : Nat → Nat → MaterializeDraw} {db db' : Database} {l : ListQuery} {handle : String}
  {budget : Int} {out : Response}

theorem readUses_listing {t : Tables} {env' : Envelope (List UseRow)} (h : 0 ≤ budget)
    (hread : readUses handle budget t = .ok env') :
    ∃ x, (Response.uses env').listing = some x ∧
      (budget < maxBudget → x = ListQuery.uses.listing budget (ListQuery.uses.rows t handle)) := by
  unfold readUses at hread
  obtain ⟨entity, _, hread⟩ := bind_eq_ok hread
  obtain ⟨inv, _, hread⟩ := bind_eq_ok hread
  cases hread
  refine ⟨_, rfl, fun hmax => ?_⟩
  simp only [ListQuery.listing, ListQuery.rows, ListQuery.visited, Tables.useRows,
    visible_probe h, beyond_probe h hmax, truncates_probe h, List.length_map, List.map_map,
    List.getElem?_map, List.map_take, Listing.mk.injEq, decide_eq_true_eq]
  refine ⟨rfl, trivial, trivial, ?_, ?_⟩
  · cases (t.operandUses handle)[budget.toNat]? <;> rfl
  · rcases limit_probe h (t.operandUses handle) with hl | hl
    · rw [hl]
    · rw [hl, List.length_take]
      split <;> omega

theorem readGuards_listing {t : Tables} {env' : Envelope (List GuardRow)} (h : 0 ≤ budget)
    (hread : readGuards handle budget t = .ok env') :
    ∃ x, (Response.guards env').listing = some x ∧
      (budget < maxBudget → x = ListQuery.guards.listing budget (ListQuery.guards.rows t handle)) := by
  unfold readGuards at hread
  obtain ⟨target, htarget, hread⟩ := bind_eq_ok hread
  obtain ⟨inv, _, hread⟩ := bind_eq_ok hread
  cases hread
  have htarget : t.entity handle = some target := by
    unfold entityOrThrow at htarget
    split at htarget
    · rename_i heq
      cases htarget
      exact heq
    · cases htarget
  refine ⟨_, rfl, fun hmax => ?_⟩
  simp only [ListQuery.listing, ListQuery.rows, ListQuery.visited, htarget,
    Option.elim_some, Tables.guardRows, visible_probe h, beyond_probe h hmax, truncates_probe h,
    List.length_map, List.map_map, List.getElem?_map, List.map_take, Listing.mk.injEq,
    decide_eq_true_eq]
  refine ⟨rfl, trivial, trivial, ?_, ?_⟩
  · cases (t.guardRelations (guardsExact t target) (guardedBlock target handle))[budget.toNat]? <;>
      rfl
  · rw [List.length_take]
    split <;> omega

theorem readShow_listing {t : Tables} {kind : Option String} {env' : Envelope ShowResult}
    (h : 0 ≤ budget) (hread : readShow handle "children" kind budget t = .ok env') :
    ∃ x, (Response.shown env').listing = some x ∧ (budget < maxBudget →
      x = (ListQuery.children kind).listing budget ((ListQuery.children kind).rows t handle)) := by
  unfold readShow at hread
  obtain ⟨entity, _, hread⟩ := bind_eq_ok hread
  obtain ⟨_, _, hread⟩ := bind_eq_ok hread
  obtain ⟨_, _, hread⟩ := bind_eq_ok hread
  obtain ⟨_, hfunction, hread⟩ := bind_eq_ok hread
  obtain ⟨_, _, hread⟩ := bind_eq_ok hread
  obtain ⟨body, hbody, hread⟩ := bind_eq_ok hread
  obtain ⟨inv, _, hread⟩ := bind_eq_ok hread
  cases hread
  have hfunction : entity.kind = "function" := by
    unfold usage at hfunction
    by_contra hne
    rw [if_neg (by simp [hne])] at hfunction
    cases hfunction
  unfold showBody at hbody
  rw [if_neg (by simp [hfunction]), if_neg (by decide)] at hbody
  unfold showChildren at hbody
  obtain ⟨_, _, hbody⟩ := bind_eq_ok hbody
  cases hbody
  refine ⟨_, rfl, fun hmax => ?_⟩
  simp only [ListQuery.listing, ListQuery.rows, ListQuery.visited,
    visible_probe h, beyond_probe h hmax, truncates_probe h, List.length_map, List.map_map,
    List.getElem?_map, List.map_take, Listing.mk.injEq, decide_eq_true_eq]
  refine ⟨rfl, trivial, trivial, ?_, trivial⟩
  cases (orderedByOrdinal (t.entitiesOf handle (childPredicate (kind.getD "block"))))[budget.toNat]? <;>
    rfl

/-- **A query with a budget cuts its list**: where its probe does not overflow, the answer is that
    of the list in the state left by the materialization on demand. -/
theorem ListQuery.perform_listing (h : 0 ≤ budget)
    (hq : (l.query handle budget).perform env graph draw db = (db', .ok out)) :
    (ensureMaterialized env graph (draw 0 0) handle db).1 = db' ∧
      ∃ x, out.listing = some x ∧
        (budget < maxBudget → x = l.listing budget (l.rows db'.toTables handle)) := by
  cases l with
  | uses =>
    obtain ⟨a, ha, rfl⟩ := respond_ok hq
    obtain ⟨hens, hread⟩ := afterEnsure_ok ha
    exact ⟨congrArg Prod.fst hens, readUses_listing h hread⟩
  | guards =>
    obtain ⟨a, ha, rfl⟩ := respond_ok hq
    obtain ⟨hens, hread⟩ := afterEnsure_ok ha
    exact ⟨congrArg Prod.fst hens, readGuards_listing h hread⟩
  | children kind =>
    obtain ⟨a, ha, rfl⟩ := respond_ok hq
    obtain ⟨hens, hread⟩ := afterEnsure_ok ha
    exact ⟨congrArg Prod.fst hens, readShow_listing h hread⟩

/-! ## 3. Agreement -/

/-- **An answer agrees with the list without a budget**, and the probe it was found with is
    defined. -/
structure Listing.Agrees (x : Listing) (full : List (ListRow × String)) (budget : Int) : Prop where
  probe : (Irez.probe budget).isSome = true
  rows : x.rows = (full.map (·.1)).take budget.toNat
  truncated : x.truncated = true ↔ budget < full.length
  reason : x.reason = some (.budget .nodeBudget) ↔ budget < full.length
  boundary : x.boundaries ≠ [] ↔ budget < full.length
  boundaries : x.boundaries = ((full.map (·.2))[budget.toNat]?).toList
  visited : x.visited = x.rows.length

/-- `show` leaves `visited_nodes` at 0 where it shows all children. -/
def ListQuery.Counts (l : ListQuery) (budget : Int) (n : Nat) : Prop :=
  match l with
  | .children _ => n = 0 ∨ budget < n
  | _ => True

theorem ListQuery.listing_agrees (h : 0 ≤ budget) (hmax : budget < maxBudget)
    (rows : List (ListRow × String)) :
    (l.listing budget rows).Agrees rows budget ↔ l.Counts budget rows.length := by
  have hvisited : (l.listing budget rows).visited = (l.listing budget rows).rows.length ↔
      l.Counts budget rows.length := by
    cases l <;>
      simp only [listing, ListQuery.visited, Counts, List.length_take, List.length_map, iff_true] <;>
      split <;> omega
  have hboundary : (l.listing budget rows).boundaries ≠ [] ↔ budget < rows.length := by
    unfold listing
    by_cases hlt : budget.toNat < rows.length
    · rw [List.getElem?_map, List.getElem?_eq_getElem hlt]
      simp only [Option.map_some, Option.toList_some, ne_eq, List.cons_ne_nil, not_false_eq_true,
        true_iff]
      omega
    · rw [List.getElem?_map, List.getElem?_eq_none (by omega)]
      simp only [Option.map_none, Option.toList_none, ne_eq, not_true, false_iff]
      omega
  refine ⟨fun ha => hvisited.mp ha.visited, fun hcounts => ?_⟩
  refine ⟨(probe_isSome h).mpr hmax, rfl, decide_eq_true_iff, ?_, hboundary, rfl,
    hvisited.mpr hcounts⟩
  unfold listing nodeCut
  by_cases hlt : budget < rows.length
  · simp [hlt]
  · simp [hlt]

/-- **When a bounded answer agrees with the unbounded list.** Where the budget is one that the
    command line reads, an answer agrees if and only if the budget is not the largest integer
    and, for `show`, the children are cut off or there are none; and a larger budget, if it is not
    the largest integer, only extends the result. -/
theorem bounded_list_agrees (h : 0 ≤ budget) (hmax : budget ≤ maxBudget)
    (hq : (l.query handle budget).perform env graph draw db = (db', .ok out)) :
    (∃ x, out.listing = some x ∧ (x.Agrees (l.rows db'.toTables handle) budget ↔
      budget < maxBudget ∧ l.Counts budget (l.rows db'.toTables handle).length)) ∧
      ∀ budget' db'' out', budget ≤ budget' → budget' < maxBudget →
        (l.query handle budget').perform env graph draw db = (db'', .ok out') →
        ∃ x x', out.listing = some x ∧ out'.listing = some x' ∧ x.rows <+: x'.rows := by
  obtain ⟨hdb, x, hx, hcut⟩ := ListQuery.perform_listing h hq
  refine ⟨⟨x, hx, ?_⟩, fun budget' db'' out' hle hmax' hq' => ?_⟩
  · constructor
    · intro ha
      have hlt := (probe_isSome h).mp ha.probe
      rw [hcut hlt] at ha
      exact ⟨hlt, (ListQuery.listing_agrees h hlt _).mp ha⟩
    · intro ⟨hlt, hcounts⟩
      rw [hcut hlt]
      exact (ListQuery.listing_agrees h hlt _).mpr hcounts
  · obtain ⟨hdb', x', hx', hcut'⟩ := ListQuery.perform_listing (by omega) hq'
    obtain rfl : db' = db'' := hdb.symm.trans hdb'
    refine ⟨x, x', hx, hx', ?_⟩
    rw [hcut (by omega), hcut' hmax']
    exact List.take_prefix_take_left (by omega)

end Listings

/-! ## 4. Blocks that are shown -/

namespace Miscounted

def module : Module := { Collision.module with functions := [Collision.function "main"] }

/-- The children of `f0`, with a budget of 100. -/
def call (l : ListQuery) : Database × Except Thrown Response :=
  (l.query Collision.f0 100).perform Sample.environment (singleAdapter module).functionGraph
    (fun _ _ => Collision.draw "a") (singleCatalogued module)

/-- One row is shown, and none is counted. -/
def miscounts : Except Thrown Response → Bool
  | .ok out => out.listing.any fun x => x.rows.length = 1 && x.visited = 0
  | .error _ => false

end Miscounted

open Miscounted in
/-- **The block that is shown is not counted**: `visited_nodes` is 0. -/
theorem children_miscounted :
    History (Contents.single module) (singleCatalogued module) ∧
      ∃ db' out x, call (.children none) = (db', .ok out) ∧ out.listing = some x ∧
        ¬ x.Agrees ((ListQuery.children none).rows db'.toTables Collision.f0) 100 := by
  have hmis : miscounts (call (.children none)).2 = true := by decide +kernel
  refine ⟨singleCatalogued_history module, ?_⟩
  generalize call (.children none) = answer at hmis ⊢
  obtain ⟨db', e | out⟩ := answer
  · cases hmis
  · obtain ⟨x, hx, hcount⟩ := (Option.any_eq_true _ _).mp hmis
    simp only [Bool.and_eq_true, decide_eq_true_eq] at hcount
    refine ⟨db', out, x, rfl, hx, fun ha => ?_⟩
    have hvisited := ha.visited
    omega

namespace ThreeBlocks

/-- The blocks of `main` in ControlDependence.lean, with a budget. -/
def call (n : Int) : Database × Except Thrown Response :=
  ((ListQuery.children none).query Collision.f0 n).perform Sample.environment
    (singleAdapter Branch.module).functionGraph (fun _ _ => Collision.draw "a")
    (singleCatalogued Branch.module)

def blocksOf : Except Thrown Response → Nat
  | .ok out => out.listing.elim 0 fun x => x.rows.length
  | .error _ => 0

def allBlocks (db : Database) : List (ListRow × String) :=
  (ListQuery.children none).rows db.toTables Collision.f0

end ThreeBlocks

open ThreeBlocks in
/-- One of three blocks is shown, and counted; with a budget of two it is the first of two. -/
theorem bounded_list_agrees_cut :
    ∃ db' out out' x x', call 1 = (db', .ok out) ∧ call 2 = (db', .ok out') ∧
      out.listing = some x ∧ out'.listing = some x' ∧ x.rows.length = 1 ∧
      x.Agrees (allBlocks db') 1 ∧ x.rows <+: x'.rows := by
  have hone : blocksOf (call 1).2 = 1 := by decide +kernel
  have htwo : blocksOf (call 2).2 = 2 := by decide +kernel
  have hrows : (allBlocks (call 1).1).length = 3 := by decide +kernel
  have hsame : (call 2).1 = (call 1).1 := rfl
  generalize h : call 1 = answer at hone hrows hsame ⊢
  generalize h' : call 2 = answer' at htwo hsame ⊢
  obtain ⟨db', e | out⟩ := answer
  · cases hone
  obtain ⟨db'', e | out'⟩ := answer'
  · cases htwo
  obtain rfl : db'' = db' := hsame
  obtain ⟨⟨x, hx, hiff⟩, hwider⟩ := bounded_list_agrees (by decide) (by decide) h
  obtain ⟨y, x', hy, hx', hext⟩ := hwider 2 _ out' (by decide) (by decide) h'
  obtain rfl : y = x := Option.some.inj (hy.symm.trans hx)
  refine ⟨_, out, out', y, x', rfl, rfl, hx, hx', ?_, hiff.mpr ⟨by decide, .inr ?_⟩, hext⟩
  · rw [blocksOf, hx] at hone
    exact hone
  · show (1 : Int) < ((allBlocks db'').length : Int)
    rw [hrows]
    decide

end Irez

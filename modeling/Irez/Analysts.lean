/-
  File:      Irez/Analysts.lean
  Subject:   At most one live analyst per function: what the claim of `materialize` excludes
             over every interleaving of `materialize`, `ingest` and `reindex`.

  An analyst is live while its claim is younger than ten minutes. The claim's UPDATE, the
  publish and the failure keep the claims of others (`ClaimsHeld.step`); the upsert of
  a catalog publish does not look at them.

  * `ClaimsHeld` -- the row of a function shows the claim of its live analyst;
  * `one_live_analyst` -- in every run in which no catalog publish lists a function with a
    live analyst there is at most one, and another claim is Busy;
  * `two_live_analysts` -- a refresh of the catalog lets a second one in.
-/
import Irez.System

open Irez.Basis

namespace Irez

/-! ## 1. Live analysts -/

/-- The process `p` lies between its claim on the function `f` and its publish or failure,
    with a claim younger than ten minutes. -/
def World.LiveAnalyst (w : World) (f : String) (p : Nat) : Prop :=
  ∃ target d, w.phase p = .analysing target d ∧ target.handle = f ∧
    w.now < d.claimedAt + tenMinutes

/-- No catalog is published that lists a function with a live analyst. -/
def keepsLiveClaims : Condition
  | w, .publishCatalog p records => ∀ a d, w.phase p = .cataloging a d →
    ∀ f ∈ functionRecords records, ∀ q, ¬ w.LiveAnalyst (f.handle a) q
  | _, _ => True

/-- The row of a function with a live analyst shows that analyst's claim. -/
def ClaimsHeld (w : World) : Prop :=
  ∀ q target d, w.phase q = .analysing target d → w.now < d.claimedAt + tenMinutes →
    ∃ m ∈ w.db.materializations, m.functionId = target.handle ∧ m.status = .materializing ∧
      m.claimOwner = some d.owner ∧ m.claimStartedAt = some d.claimedAt

theorem not_claimable {m : Materialization} {t now : Time} (hs : m.status = .materializing)
    (ht : m.claimStartedAt = some t) (hl : now < t + tenMinutes) : m.claimable now = false := by
  have hfresh : ¬ t + tenMinutes < now := Nat.not_lt.mpr (Nat.le_of_lt hl)
  have hstale : staleClaim (some t) now = false := by
    unfold staleClaim
    rw [Option.any_some]
    exact decide_eq_false hfresh
  unfold Materialization.claimable
  rw [hs, ht, hstale]
  rfl

/-! ## 2. Steps -/

section Steps

variable {w w' : World}

/-- Where a process does not analyse, what it held is nobody's. -/
theorem ClaimsHeld.move (h : ClaimsHeld w) {p : Nat} {phase : Phase}
    (hphase : w'.phase = Function.update w.phase p phase) (hnow : w'.now = w.now)
    (hidle : ∀ target d, phase ≠ .analysing target d)
    (hrow : ∀ q target d, q ≠ p → w.phase q = .analysing target d →
      w.now < d.claimedAt + tenMinutes → ∀ m ∈ w.db.materializations,
      m.functionId = target.handle → m.status = .materializing → m.claimOwner = some d.owner →
      m.claimStartedAt = some d.claimedAt → m ∈ w'.db.materializations) : ClaimsHeld w' := by
  intro q target d hq hlive
  rw [hphase] at hq
  rw [hnow] at hlive
  by_cases hqp : q = p
  · rw [hqp, Function.update_self] at hq
    exact absurd hq (hidle target d)
  · rw [Function.update_of_ne hqp] at hq
    obtain ⟨m, hm, hf, hs, ho, ht⟩ := h q target d hq hlive
    exact ⟨m, hrow q target d hqp hq hlive m hm hf hs ho ht, hf, hs, ho, ht⟩

/-- An update of rows claimed by another process keeps the row. -/
theorem mem_update_other {ms : List Materialization} {f o : String} {m : Materialization}
    {g : Materialization → Materialization} (hm : m ∈ ms) (ho : m.claimOwner ≠ some o) :
    m ∈ updateWhere (fun m => m.functionId = f && m.claimOwner = some o) g ms := by
  refine mem_updateWhere.mpr ⟨m, hm, ?_⟩
  have hcond : (decide (m.functionId = f) && decide (m.claimOwner = some o)) = false := by
    simp [ho]
  rw [hcond]
  rfl

/-- **One step keeps the claims of live analysts.** -/
theorem ClaimsHeld.step {l : Label} (h : ClaimsHeld w) (hg : Grounded w) (hs : World.Step w l w')
    (hC : keepsLiveClaims w l) : ClaimsHeld w' := by
  -- a process that ends its work meets only rows with its own claim
  have hown : ∀ {p q : Nat} {target target' : Target} {d d' : ClaimDraw},
      w.phase p = .analysing target d → w.phase q = .analysing target' d' → q ≠ p →
      d'.owner ≠ d.owner := by
    intro p q target target' d d' hp hq hne ho
    refine hne (hg.distinct q p d' d ?_ ?_ (Or.inl ho))
    · rw [hq]
      rfl
    · rw [hp]
      rfl
  cases hs with
  | tick hl =>
    intro q target d hq hlive
    exact h q target d hq (Nat.lt_of_le_of_lt hl hlive)
  | init _ ht =>
    intro q target d hq hlive
    obtain ⟨m, hm, hrest⟩ := h q target d hq hlive
    refine ⟨m, ?_, hrest⟩
    show m ∈ Tables.materializations _
    rw [ht]
    exact hm
  | store _ _ he =>
    intro q target d hq hlive
    obtain ⟨m, hm, hrest⟩ := h q target d hq hlive
    refine ⟨m, ?_, hrest⟩
    show m ∈ Tables.materializations _
    rw [exec_ok he]
    exact hm
  | mark hm he =>
    intro q target d hq hlive
    obtain ⟨m, hmem, hrest⟩ := h q target d hq hlive
    refine ⟨m, ?_, hrest⟩
    show m ∈ Tables.materializations _
    rw [exec_ok he]
    obtain ⟨id, rfl | rfl⟩ := hm
    · exact hmem
    · exact hmem
  | enter hp he =>
    exact h.move rfl rfl (fun _ _ => Phase.noConfusion) fun _ _ _ _ _ _ m hm _ _ _ _ => hm
  | @claim p io d target db' hp hd hc =>
    obtain ⟨inv, _, hone, _, ht⟩ := claimFunction_ok hc
    have hmats : db'.materializations = _ := congrArg Tables.materializations ht
    intro q target' d' hq hlive
    have hq : Function.update w.phase p (.analysing target d) q = .analysing target' d' := hq
    have hlive : w.now < d'.claimedAt + tenMinutes := hlive
    show ∃ m ∈ db'.materializations, _
    rw [hmats]
    by_cases hqp : q = p
    · -- the claim itself: the one claimable row
      rw [hqp, Function.update_self] at hq
      cases hq
      unfold Tables.claimableFunctions at hone
      obtain ⟨m, hm⟩ := List.length_eq_one_iff.mp hone
      obtain ⟨hmem, hcond⟩ := List.mem_filter.mp (hm ▸ List.mem_singleton.mpr rfl)
      refine ⟨_, mem_updateWhere.mpr ⟨m, hmem, rfl⟩, ?_⟩
      rw [if_pos hcond]
      simp only [Bool.and_eq_true, decide_eq_true_eq] at hcond
      exact ⟨hcond.1, rfl, rfl, rfl⟩
    · rw [Function.update_of_ne hqp] at hq
      obtain ⟨m, hmem, hf, hs, ho, hst⟩ := h q target' d' hq hlive
      refine ⟨m, mem_updateWhere.mpr ⟨m, hmem, ?_⟩, hf, hs, ho, hst⟩
      rw [hd.current, not_claimable hs hst hlive, Bool.and_false]
      rfl
  | @publish p io d target draw records db' hp he =>
    obtain ⟨_, _, f, hmats⟩ := Publish.exec_claims he
    refine h.move rfl rfl (fun _ _ => Phase.noConfusion) fun q target' d' hqp hq _ m hm _ _ ho _ => ?_
    show m ∈ db'.materializations
    rw [hmats]
    refine mem_update_other hm ?_
    rw [ho]
    exact fun hc => hown hp hq hqp (Option.some.inj hc)
  | @fail p io d target message endedAt db' hp he =>
    have hmats : db'.materializations = _ := congrArg Tables.materializations (failFunction_ok he)
    refine h.move rfl rfl (fun _ _ => Phase.noConfusion) fun q target' d' hqp hq _ m hm _ _ ho _ => ?_
    show m ∈ db'.materializations
    rw [hmats]
    refine mem_update_other hm ?_
    rw [ho]
    exact fun hc => hown hp hq hqp (Option.some.inj hc)
  | ingest hp ha =>
    exact h.move rfl rfl (fun _ _ => Phase.noConfusion) fun _ _ _ _ _ _ m hm _ _ _ _ => hm
  | @claimCatalog p io d a index db' hp hd hc =>
    obtain ⟨_, _, _, _, ht⟩ := claimCatalog_ok hc
    have hmats : db'.materializations = w.db.materializations := by rw [ht]
    refine h.move rfl rfl (fun _ _ => Phase.noConfusion) fun _ _ _ _ _ _ m hm _ _ _ _ => ?_
    show m ∈ db'.materializations
    rw [hmats]
    exact hm
  | @publishCatalog p io d a module records endedAt db' hp he =>
    obtain ⟨_, _, hmats⟩ := publishCatalog_claims he
    refine h.move rfl rfl (fun _ _ => Phase.noConfusion) fun q target' d' _ hq hlive m hm hf _ _ _ => ?_
    show m ∈ db'.materializations
    rw [hmats]
    refine mem_upsertAll_of_ne hm fun new hnew hpair => ?_
    obtain ⟨f, hfm, rfl⟩ := List.mem_map.mp hnew
    have hfid : f.handle a = m.functionId := (Prod.mk.inj hpair).2
    exact hC a d hp f hfm q ⟨target', d', hq, hf.symm.trans hfid.symm, hlive⟩
  | @failCatalog p io d a message endedAt db' hp he =>
    have hmats : db'.materializations = w.db.materializations := by rw [failCatalog_ok he]
    refine h.move rfl rfl (fun _ _ => Phase.noConfusion) fun _ _ _ _ _ _ m hm _ _ _ _ => ?_
    show m ∈ db'.materializations
    rw [hmats]
    exact hm
  | leave =>
    exact h.move rfl rfl (fun _ _ => Phase.noConfusion) fun _ _ _ _ _ _ m hm _ _ _ _ => hm

/-- **The claims of live analysts stand in every world reached.** -/
theorem Runs.claimsHeld (h : Runs keepsLiveClaims w) : ClaimsHeld w := by
  have hboth : Grounded w ∧ ClaimsHeld w := by
    refine h.invariant (I := fun w => Grounded w ∧ ClaimsHeld w) (fun w₀ h₀ => ⟨h₀.grounded, ?_⟩)
      fun hI hs hC => ⟨hI.1.step hs, hI.2.step hI.1 hs hC⟩
    intro q target d hq
    rw [h₀.idle q] at hq
    cases hq
  exact hboth.2

end Steps

/-! ## 3. One analyst -/

/-- The row that shows the claim of a live analyst, and no other row of the function. -/
theorem World.LiveAnalyst.row {w : World} {f : String} {p : Nat} (h : w.LiveAnalyst f p)
    (hheld : ClaimsHeld w) : ∃ target d m, w.phase p = .analysing target d ∧
      m ∈ w.db.materializations ∧ m.functionId = f ∧ m.claimOwner = some d.owner ∧
      m.claimable w.now = false := by
  obtain ⟨target, d, hp, hf, hlive⟩ := h
  obtain ⟨m, hm, hmf, hs, ho, ht⟩ := hheld p target d hp hlive
  exact ⟨target, d, m, hp, hm, hmf.trans hf, ho, not_claimable hs ht hlive⟩

/-- **At most one live analyst per function.** In every run of any number of processes in
    which no catalog publish lists a function with a live analyst, a function has at most one
    live analyst, and another process that claims the function is Busy. -/
theorem one_live_analyst {w : World} (h : Runs keepsLiveClaims w) :
    (∀ f p q, w.LiveAnalyst f p → w.LiveAnalyst f q → p = q) ∧
    ∀ f p target d io, w.LiveAnalyst f p → target.handle = f → w.Draws d →
      io.statement (.claimFunction d.owner d.claimedAt d.now f) w.db.toTables = none →
      claimFunction io d target w.db =
        .error (.irez (busy "function is being materialized by another process")) := by
  have hheld := h.claimsHeld
  have hg := h.grounded
  have hkey := hg.rooted.keyed w.db.constraints
  constructor
  · intro f p q hp hq
    obtain ⟨target, d, m, hpp, hm, hmf, ho, _⟩ := hp.row hheld
    obtain ⟨target', d', m', hqp, hm', hmf', ho', _⟩ := hq.row hheld
    obtain rfl := List.inj_on_of_nodup_map hkey hm hm' (hmf.trans hmf'.symm)
    have howner : d.owner = d'.owner := Option.some.inj (ho.symm.trans ho')
    refine hg.distinct p q d d' ?_ ?_ (Or.inl howner)
    · rw [hpp]
      rfl
    · rw [hqp]
      rfl
  · intro f p target d io hp htf hd hio
    obtain ⟨_, _, m, _, hm, hmf, _, hno⟩ := hp.row hheld
    -- no row of the function is claimable, so the UPDATE meets none
    have hnone : ∀ m' ∈ w.db.materializations,
        (decide (m'.functionId = target.handle) && m'.claimable d.now) = false := by
      intro m' hm'
      by_cases hf' : m'.functionId = target.handle
      · obtain rfl := List.inj_on_of_nodup_map hkey hm' hm (hf'.trans (htf.trans hmf.symm))
        rw [hd.current, hno, Bool.and_false]
      · simp [hf']
    have heff : (Statement.claimFunction d.owner d.claimedAt d.now target.handle).effect
        w.db.toTables = w.db.toTables := by
      have hmats := updateWhere_none hnone (g := Materialization.claimed d.owner d.claimedAt)
      show { w.db.toTables with
        materializations := updateWhere (fun m => decide (m.functionId = target.handle) &&
          m.claimable d.now) (Materialization.claimed d.owner d.claimedAt)
          w.db.materializations } = w.db.toTables
      rw [hmats]
    have hexec : exec io (.claimFunction d.owner d.claimedAt d.now target.handle) w.db =
        .ok w.db := by
      unfold exec
      rw [htf, hio]
      rw [htf] at heff
      simp only [heff, w.db.constraints, dite_true]
    have hcount : w.db.claimableFunctions target.handle d.now = 0 := by
      unfold Tables.claimableFunctions
      rw [List.length_eq_zero_iff]
      refine List.filter_eq_nil_iff.mpr fun m' hm' => ?_
      rw [hnone m' hm']
      exact Bool.false_ne_true
    unfold claimFunction
    rw [hexec]
    simp [hcount]

/-! ## 4. A refresh in between -/

namespace Scenario

/-- The process `2` claims the catalog of the artifact, and publishes it. -/
def second : World := refreshing claimed 2 (Sample.claimDraw "e" "e" 1)

def cleared : World := refreshed second 2 (Sample.claimDraw "e" "e" 1)

/-- The process `3` claims `f0`. -/
def third : World := analysing cleared 3 (Sample.claimDraw "b" "b" 1)

theorem claimed_live : claimed.LiveAnalyst handle 1 :=
  ⟨_, _, rfl, rfl, by decide⟩

end Scenario

/-- One process at work on a catalogued function is its only live analyst. -/
theorem one_live_analyst_claimed : Runs keepsLiveClaims Scenario.claimed ∧
    ∀ q, Scenario.claimed.LiveAnalyst Scenario.handle q → q = 1 := by
  have hcat : Runs keepsLiveClaims Scenario.catalogued := by
    refine Scenario.catalogued_runs (fun _ => trivial) (fun _ _ => trivial) ?_
    intro a d _ f _ q hlive
    obtain ⟨target, d', hq, _⟩ := hlive
    by_cases hq0 : q = 0
    · subst hq0
      cases hq
    · have hidle : Scenario.cataloging.phase q = .idle := by
        refine (Function.update_of_ne hq0 _ _).trans ?_
        exact Function.update_of_ne hq0 _ _
      rw [hidle] at hq
      cases hq
  have hrun := Scenario.claimed_runs hcat (fun _ => trivial) (fun _ _ => trivial)
  exact ⟨hrun, fun q hq => (one_live_analyst hrun).1 _ q 1 hq Scenario.claimed_live⟩

/-- **A refresh of the catalog lets a second analyst in**: two processes are at work on one
    function, both claims are younger than ten minutes, and neither was Busy. -/
theorem two_live_analysts :
    Runs anyStep Scenario.third ∧ Scenario.third.LiveAnalyst Scenario.handle 1 ∧
      Scenario.third.LiveAnalyst Scenario.handle 3 := by
  have hclaimed := Scenario.claimed_runs (Scenario.catalogued_runs (C := anyStep) (fun _ => trivial)
    (fun _ _ => trivial) trivial) (fun _ => trivial) (fun _ _ => trivial)
  have hsecond : Runs anyStep Scenario.second :=
    Scenario.refreshing_run hclaimed trivial trivial rfl (by decide) ⟨by decide, Nat.le_refl 1, rfl⟩
      rfl
  have hcleared : Runs anyStep Scenario.cleared := by
    obtain ⟨w₀, h₀, hrun⟩ := hsecond
    have hstep : World.Step Scenario.second (.publishCatalog 2 Scenario.records) Scenario.cleared :=
      @World.Step.publishCatalog Scenario.second 2 noFaults (Sample.claimDraw "e" "e" 1) _
        Scenario.moduleRecord Scenario.records 2 _ rfl rfl
    exact ⟨w₀, h₀, hrun.tail ⟨_, hstep, trivial⟩⟩
  refine ⟨?_, ⟨_, _, rfl, rfl, by decide⟩, ⟨_, _, rfl, rfl, by decide⟩⟩
  exact Scenario.analysing_run hcleared trivial trivial rfl rfl ⟨by decide, Nat.le_refl 1, rfl⟩ rfl

end Irez

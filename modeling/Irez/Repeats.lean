/-
  File:      Irez/Repeats.lean
  Subject:   Queries made again (service.cpp 214-236, 966-2131).

  A query materializes on demand, and that only once: after it has answered, every query of its
  handle only reads. What it reads are tables, and no adapter, no clock and no fault of a write
  has a part in it. Faults of reads are not modelled.

  * `Tables.Quiet` -- a state in which the queries of a handle write nothing;
  * `History.quiet` -- the state after a materialization on demand is one;
  * `Tables.Quiet.same` -- there every query answers the same in every environment;
  * `answers_again` -- so a query that has answered answers the same for ever.
-/
import Irez.Aggregates

open Irez.Basis

namespace Irez

section Repeats

variable {C : Contents} {db db₁ db' : Database} {adapter : Adapter} {env env' : Environment}
  {graph graph' : String → String → Outcome} {f handle : String}

/-! ## 1. States in which nothing is done -/

/-- **Nothing is left to do for a handle**: its function is settled, and so is the handle, where
    it is a function, for all that names it. -/
structure Tables.Quiet (t : Tables) (handle : String) : Prop where
  settled : ∀ e, t.entity handle = some e → ∀ f, e.home = some f → t.Settled f
  inside : ∀ x ∈ t.entities, x.functionId = some handle → x.home = some handle

theorem Tables.Quiet.ensure (h : db.Quiet handle) (d : MaterializeDraw) :
    ensureMaterialized env graph d handle db = (db, .ok ()) := by
  cases he : db.entity handle with
  | none =>
    unfold ensureMaterialized
    rw [he]
  | some e =>
    cases hhome : e.home with
    | none =>
      have hid : e.id = handle := key_of_lookup he
      unfold Entity.home at hhome
      rw [hid] at hhome
      simp only [ensureMaterialized, he, hhome]
    | some f => exact (h.settled e he f hhome).ensure he hhome

/-- A call is then a matter of what it reads. -/
theorem Tables.Quiet.afterEnsure (h : db.Quiet handle) {α : Type} (d : MaterializeDraw)
    (read : Tables → Except Thrown α) :
    Irez.afterEnsure env graph d handle read db = (db, read db.toTables) :=
  afterEnsure_of_ok (h.ensure d)

/-! ## 2. The owner of an entity -/

/-- Two rows with one id, in states of files that stay, belong to one function. -/
theorem Conforms.owner_eq {t t' : Tables} (h : Conforms C t) (h' : Conforms C t')
    (hu : C.Unambiguous) (hc : t'.Constraints) (hst : ∀ a, t.Stores a → t'.Stores a)
    {x x' : Entity} (hx : x ∈ t.entities) (hx' : x' ∈ t'.entities) (hid : x.id = x'.id)
    {f f' : String} (ho : x.functionId = some f) (ho' : x'.functionId = some f') : f = f' := by
  obtain ⟨a, K, F, p, hp, rfl, e, he, hi, rfl⟩ := h.shown_of_entity hu hx ho
  obtain ⟨b, J, G, p', hp', rfl, e', he', hi', rfl⟩ := h'.shown_of_entity hu hx' ho'
  have hscoped {a : Artifact} {K : Nat} {F : Function} {p : Publish} {t : Tables}
      (hp : C.Shows t a K F p) {e : EntityRecord} (he : e ∈ p.entities) (hi : e.interior = true) :
      ScopedTo (functionKey K) e.localKey := by
    have hkinds : e.kind ≠ "function" ∧ e.kind ≠ "global" := by
      unfold EntityRecord.interior at hi
      simpa using hi
    rw [hp.publishes.entities] at he
    exact (functionGraph_scoped hp.select (mem_entityRecords.mp he)).interior_iff.mp hkinds
  have hkey := hscoped hp he hi
  have hkey' := hscoped hp' he' hi'
  have hsame : entityId a e.localKey = entityId b e'.localKey :=
    (hp.entityId_eq _).symm.trans (hid.trans (hp'.entityId_eq _))
  obtain ⟨_, hsha, hlocal⟩ :=
    h'.handle_inj hc (hst a hp.stores) hp'.stores hkey.colon_mem hkey'.colon_mem hsame
  rw [hlocal] at hkey
  have hK : functionKey K = functionKey J :=
    ScopedTo.inj (colon_not_mem_functionKey K) (colon_not_mem_functionKey J) hkey hkey'
  rw [hp.publishes.handle, hp'.publishes.handle, hK, entityId_congr hsha]

/-- A function has no owner. -/
theorem Conforms.home_of_owner {t : Tables} (h : Conforms C t) {x : Entity} (hx : x ∈ t.entities)
    (ho : x.functionId = some f) : x.home = some f := by
  unfold Entity.home
  split
  · rename_i hk
    obtain ⟨_, _, _, _, hh⟩ := h.functions x hx hk
    rw [hh.cols.2.2.2.2] at ho
    cases ho
  · exact ho

/-- The materialization on demand for what a function owns is the function's. -/
theorem ensureMaterialized_owner {d : MaterializeDraw} {e x : Entity}
    (he : db.entity handle = some e) (hhome : e.home = some f) (hx : db.entity f = some x)
    (hk : x.kind = "function") :
    ensureMaterialized env graph d handle db = ensureMaterialized env graph d f db := by
  have hid : e.id = handle := key_of_lookup he
  unfold Entity.home at hhome
  rw [hid] at hhome
  simp only [ensureMaterialized, he, hhome, hx, hk, if_true]

/-- **After a materialization on demand nothing is left to do.** -/
theorem History.quiet (h : History C db) (hu : C.Unambiguous) (hans : C.Answered db.toTables adapter)
    {d : MaterializeDraw}
    (hens : ensureMaterialized env adapter.functionGraph d handle db = (db₁, .ok ())) :
    db₁.Quiet handle := by
  obtain ⟨hrun, _⟩ := hans.ensured hens
  have hconf := h.conforms hu
  have hconf₁ := (h.tail hrun).conforms hu
  refine ⟨fun e he f hhome => ?_, fun x hx ho => hconf₁.home_of_owner hx ho⟩
  obtain ⟨e₀, he₀⟩ := ensure_entity hens he
  by_cases hk : e.kind = "function"
  · obtain ⟨hk₀, _⟩ := h.function_before hu hrun he₀ he hk
    have hf : f = handle := by
      unfold Entity.home at hhome
      rw [if_pos hk] at hhome
      exact (Option.some.inj hhome).symm.trans (key_of_lookup he)
    rw [hf]
    exact hconf.settled he₀ hk₀ hens
  · have ho : e.functionId = some f := by
      unfold Entity.home at hhome
      rwa [if_neg hk] at hhome
    cases ho₀ : e₀.home with
    | none =>
      -- nothing is done for an entity without a function, so it is the same row
      have hid : e₀.id = handle := key_of_lookup he₀
      have hsame : ensureMaterialized env adapter.functionGraph d handle db = (db, .ok ()) := by
        unfold Entity.home at ho₀
        rw [hid] at ho₀
        simp only [ensureMaterialized, he₀, ho₀]
      rw [hsame] at hens
      obtain rfl := congrArg Prod.fst hens
      obtain rfl := Option.some.inj (he₀.symm.trans he)
      rw [hhome] at ho₀
      cases ho₀
    | some f₀ =>
      have hf₀ : f₀ = f := by
        by_cases hk₀ : e₀.kind = "function"
        · -- a function's row stays one
          exfalso
          obtain ⟨a, K, F, m, hh⟩ := hconf.functions e₀ (mem_of_lookup he₀) hk₀
          have hst : db₁.Stores a := hh.stores.history hrun
          obtain ⟨b, J, G, p, hp, _, r, hr, hi, hrow⟩ :=
            hconf₁.shown_of_entity hu (mem_of_lookup he) ho
          have hkinds : r.kind ≠ "function" ∧ r.kind ≠ "global" := by
            unfold EntityRecord.interior at hi
            simpa using hi
          rw [hp.publishes.entities] at hr
          have hkey : ScopedTo (functionKey J) r.localKey :=
            (functionGraph_scoped hp.select (mem_entityRecords.mp hr)).interior_iff.mp hkinds
          have hid : entityId b r.localKey = entityId a (functionLocal (functionKey K)) := by
            rw [← hh.cols.1, (key_of_lookup he₀ : e₀.id = handle), ← (key_of_lookup he : e.id = handle),
              hrow]
            exact (hp.entityId_eq _).symm
          obtain ⟨_, _, hlocal⟩ := hconf₁.handle_inj db₁.constraints hp.stores hst hkey.colon_mem
            (colon_mem_functionLocal _) hid
          exact hkey.ne_functionLocal hlocal
        · unfold Entity.home at ho₀
          rw [if_neg hk₀] at ho₀
          exact hconf.owner_eq hconf₁ hu db₁.constraints (fun a ha => ha.history hrun)
            (mem_of_lookup he₀) (mem_of_lookup he)
            ((key_of_lookup he₀).trans (key_of_lookup he).symm) ho₀ ho
      rw [hf₀] at ho₀
      -- the function is there, and the call is one for it
      obtain ⟨x, hx, hxk⟩ : ∃ x, db.entity f = some x ∧ x.kind = "function" := by
        by_cases hk₀ : e₀.kind = "function"
        · unfold Entity.home at ho₀
          rw [if_pos hk₀] at ho₀
          have hf : handle = f := (key_of_lookup he₀).symm.trans (Option.some.inj ho₀)
          exact ⟨e₀, hf ▸ he₀, hk₀⟩
        · unfold Entity.home at ho₀
          rw [if_neg hk₀] at ho₀
          by_contra hno
          have hbare := hconf.owners f fun x hx hid hk =>
            hno ⟨x, by rw [← hid]; exact lookup_self db.constraints.entityKey hx, hk⟩
          exact hbare.entities e₀ (mem_of_lookup he₀) ho₀
      rw [ensureMaterialized_owner he₀ ho₀ hx hxk] at hens
      exact hconf.settled hx hxk hens

/-! ## 3. Answers that are a matter of the tables -/

variable {draw draw' : Nat → Nat → MaterializeDraw}

/-- A turn of a trace. -/
theorem Tables.Settled.traceSink_same (h : db.Settled f) {turn turn' : Nat → MaterializeDraw}
    {req : TraceRequest} {sink : Entity} (hsink : sink ∈ db.entities) (hhome : sink.home = some f) :
    Irez.traceSink env graph turn req sink db = Irez.traceSink env' graph' turn' req sink db := by
  have hentity : db.entity sink.id = some sink := lookup_self db.constraints.entityKey hsink
  unfold Irez.traceSink sourceQuery
  simp only [afterEnsure_of_ok (h.ensure hentity hhome)]
  cases readSliceAll sink.id "backward" ["operand"] req.budgetNodes req.budgetDepth db.toTables with
  | error e => rfl
  | ok traced => simp only [afterEnsure_of_ok (h.ensure hentity hhome)]

theorem Tables.Settled.traceSinks_same (h : db.Settled f) {req : TraceRequest} {i i' : Nat}
    {sinks : List Entity} (hs : ∀ x ∈ sinks, x ∈ db.entities ∧ x.home = some f) :
    Irez.traceSinks env graph draw req i sinks db =
      Irez.traceSinks env' graph' draw' req i' sinks db := by
  induction sinks generalizing i i' with
  | nil => rfl
  | cons sink rest ih =>
    obtain ⟨hsink, hhome⟩ := hs sink List.mem_cons_self
    have hrest : ∀ x ∈ rest, x ∈ db.entities ∧ x.home = some f :=
      fun x hx => hs x (List.mem_cons_of_mem _ hx)
    have hsame : Irez.traceSink env graph (draw i) req sink db =
        Irez.traceSink env' graph' (draw' i') req sink db := h.traceSink_same hsink hhome
    have hmore : Irez.traceSinks env graph draw req (i + 1) rest db =
        Irez.traceSinks env' graph' draw' req (i' + 1) rest db := ih hrest
    unfold Irez.traceSinks
    rw [hsame]
    generalize hcall : Irez.traceSink env' graph' (draw' i') req sink db = call
    obtain ⟨db₁, e | traced⟩ := call
    · rfl
    · obtain rfl := h.traceSink hsink hhome hcall
      simp only [hmore]

theorem Tables.Settled.runTrace_same (h : db.Settled f) {req : TraceRequest} {sinks : List Entity}
    (hs : ∀ x ∈ sinks, x ∈ db.entities ∧ x.home = some f) :
    Irez.runTrace env graph draw req sinks db = Irez.runTrace env' graph' draw' req sinks db ∧
      (Irez.runTrace env graph draw req sinks db).1 = db := by
  have hsame : Irez.traceSinks env graph draw req 0 sinks db =
      Irez.traceSinks env' graph' draw' req 0 sinks db := h.traceSinks_same hs
  unfold Irez.runTrace
  rw [hsame]
  refine ⟨rfl, ?_⟩
  generalize hcall : Irez.traceSinks env' graph' draw' req 0 sinks db = call
  obtain ⟨db₁, e | turns⟩ := call
  · exact h.traceSinks hs hcall
  · exact h.traceSinks hs hcall

/-- The function of a trace is settled, and its sinks lie in it. -/
theorem Tables.Quiet.function (h : db.Quiet handle) {function : Entity}
    (hf : db.function handle = some function) : db.Settled handle := by
  obtain ⟨he, hk⟩ := Option.filter_eq_some_iff.mp hf
  refine h.settled function he handle ?_
  unfold Entity.home
  rw [if_pos (of_decide_eq_true hk), key_of_lookup he]

theorem traceRequest_function {t : Tables} {kind : SinkKind} {budgetNodes budgetDepth : Int}
    {detail : String} {includes : List String} {req : TraceRequest}
    (h : traceRequest t kind handle budgetNodes budgetDepth detail includes = .ok req) :
    ∃ function, t.function handle = some function := by
  obtain ⟨function, hfunction, _⟩ := traceRequest_ok h
  exact ⟨function, hfunction⟩

/-- **Where nothing is left to do a query is a matter of the tables**: no environment, adapter or
    draw makes a difference, and nothing is written. -/
theorem Tables.Quiet.same {q : Query} (h : db.Quiet q.handle) (hq : ∀ handle, q ≠ .expand handle) :
    q.perform env graph draw db = q.perform env' graph' draw' db ∧
      (q.perform env graph draw db).1 = db := by
  have hplain {α : Type} (make : α → Response) (read : Tables → Except Thrown α) :
      respond make (Irez.afterEnsure env graph (draw 0 0) q.handle read db) =
        respond make (Irez.afterEnsure env' graph' (draw' 0 0) q.handle read db) ∧
      (respond make (Irez.afterEnsure env graph (draw 0 0) q.handle read db)).1 = db := by
    rw [h.afterEnsure, h.afterEnsure]
    exact ⟨rfl, rfl⟩
  cases q with
  | view | source | uses | slice | graph | guards => exact hplain _ _
  | expand handle => exact absurd rfl (hq handle)
  | context handle budget =>
    have h : db.Quiet handle := h
    unfold Query.perform contextQuery showQuery sourceQuery graphQuery
    simp only [h.afterEnsure]
    cases readShow handle "summary" none 100 db.toTables with
    | error e => exact ⟨rfl, rfl⟩
    | ok shown =>
      simp only [h.afterEnsure]
      cases readSource handle db.toTables with
      | error e => exact ⟨rfl, rfl⟩
      | ok src =>
        simp only [h.afterEnsure]
        cases readGraph handle "backward" budget "json" db.toTables with
        | error e => exact ⟨trivial, rfl⟩
        | ok valueGraph => exact ⟨trivial, rfl⟩
  | traceReturn handle selector budgetNodes budgetDepth detail includes =>
    have h : db.Quiet handle := h
    unfold Query.perform Irez.traceReturn
    simp only [h.afterEnsure]
    cases hreq : traceRequest db.toTables .ret handle budgetNodes budgetDepth detail includes with
    | error e => exact ⟨rfl, rfl⟩
    | ok req =>
      cases hreturns : selectReturns db.toTables handle selector with
      | error e =>
        simp only [bind, Except.bind]
        exact ⟨trivial, rfl⟩
      | ok returns =>
        obtain ⟨function, hfunction⟩ := traceRequest_function hreq
        have hsinks : ∀ x ∈ returns, x ∈ db.entities ∧ x.home = some handle := by
          intro x hx
          obtain ⟨hm, ho, _⟩ := (selectReturns_ok db.constraints hreturns x).mp hx
          exact ⟨hm, h.inside x hm ho⟩
        obtain ⟨hsame, hfst⟩ : Irez.runTrace env graph (fun i => draw (i + 1)) req returns db =
            Irez.runTrace env' graph' (fun i => draw' (i + 1)) req returns db ∧ _ :=
          (h.function hfunction).runTrace_same hsinks
        simp only [bind, Except.bind]
        rw [hsame] at hfst ⊢
        refine ⟨rfl, ?_⟩
        generalize Irez.runTrace env' graph' (fun i => draw' (i + 1)) req returns db = call at hfst ⊢
        obtain ⟨db₁, e | out⟩ := call
        · exact hfst
        · exact hfst
  | traceStores handle budgetNodes budgetDepth detail includes =>
    have h : db.Quiet handle := h
    unfold Query.perform Irez.traceStores
    simp only [h.afterEnsure]
    cases hreq : traceRequest db.toTables .store handle budgetNodes budgetDepth detail includes with
    | error e => exact ⟨rfl, rfl⟩
    | ok req =>
      obtain ⟨function, hfunction⟩ := traceRequest_function hreq
      have hsinks : ∀ x ∈ orderedByOrdinal (db.entitiesOf handle (·.opcode = some "store")),
          x ∈ db.entities ∧ x.home = some handle := by
        intro x hx
        obtain ⟨hm, ho, _⟩ := mem_entitiesOf.mp hx
        exact ⟨hm, h.inside x hm ho⟩
      obtain ⟨hsame, hfst⟩ : Irez.runTrace env graph (fun i => draw (i + 1)) req
          (orderedByOrdinal (db.entitiesOf handle (·.opcode = some "store"))) db =
            Irez.runTrace env' graph' (fun i => draw' (i + 1)) req _ db ∧ _ :=
        (h.function hfunction).runTrace_same hsinks
      simp only [bind, Except.bind]
      rw [hsame] at hfst ⊢
      exact ⟨rfl, hfst⟩

/-! ## 4. A query made again -/

/-- A query of a handle begins with the materialization for it. -/
theorem Query.perform_from {q : Query} (hq : ∀ handle, q ≠ .expand handle)
    (hens : ensureMaterialized env graph (draw 0 0) q.handle db = (db₁, .ok ()))
    (hquiet : db₁.Quiet q.handle) :
    q.perform env graph draw db = q.perform env graph draw db₁ := by
  have hplain {α : Type} (read : Tables → Except Thrown α) :
      Irez.afterEnsure env graph (draw 0 0) q.handle read db =
        Irez.afterEnsure env graph (draw 0 0) q.handle read db₁ := by
    rw [afterEnsure_of_ok hens, hquiet.afterEnsure]
  cases q with
  | view | source | uses | slice | graph | guards => exact congrArg (respond _) (hplain _)
  | expand handle => exact absurd rfl (hq handle)
  | context handle budget =>
    unfold Query.perform contextQuery showQuery
    have hshow : Irez.afterEnsure env graph (draw 0 0) handle (readShow handle "summary" none 100) db =
        Irez.afterEnsure env graph (draw 0 0) handle (readShow handle "summary" none 100) db₁ :=
      hplain _
    simp only [hshow]
  | traceReturn handle selector budgetNodes budgetDepth detail includes =>
    unfold Query.perform Irez.traceReturn
    have hread (read : Tables → Except Thrown (TraceRequest × List Entity × List Unknown)) :
        Irez.afterEnsure env graph (draw 0 0) handle read db =
          Irez.afterEnsure env graph (draw 0 0) handle read db₁ := hplain _
    simp only [hread]
  | traceStores handle budgetNodes budgetDepth detail includes =>
    unfold Query.perform Irez.traceStores
    have hread (read : Tables → Except Thrown (TraceRequest × List Entity)) :
        Irez.afterEnsure env graph (draw 0 0) handle read db =
          Irez.afterEnsure env graph (draw 0 0) handle read db₁ := hplain _
    simp only [hread]

/-- **A query that has answered answers the same for ever.** After every history of unambiguous
    modules, a query that answers leaves a state in which it answers the same again, whatever the
    environment, the adapter and the draws; and so does every other query of its handle. None of
    them writes. The faults of an environment are those of statements and commits: a SELECT does
    not fail here. -/
theorem answers_again (h : History C db) (hu : C.Unambiguous) (hans : C.Answered db.toTables adapter)
    {q : Query} (hq : ∀ handle, q ≠ .expand handle) {out : Response}
    (hcall : q.perform env adapter.functionGraph draw db = (db', .ok out)) :
    ∃ answer : Query → Except Thrown Response, answer q = .ok out ∧
      ∀ q' : Query, q'.handle = q.handle → (∀ handle, q' ≠ .expand handle) →
        ∀ env' graph' draw', q'.perform env' graph' draw' db' = (db', answer q') := by
  obtain ⟨db₁, hens, _⟩ := Query.perform_ok hq hcall
  have hquiet : db₁.Quiet q.handle := h.quiet hu hans hens
  rw [Query.perform_from hq hens hquiet] at hcall
  obtain ⟨_, hfst⟩ : q.perform env adapter.functionGraph draw db₁ =
      q.perform env adapter.functionGraph draw db₁ ∧ _ := hquiet.same hq
  rw [hcall] at hfst
  obtain rfl : db' = db₁ := hfst
  refine ⟨fun q' => (q'.perform env adapter.functionGraph draw db').2, congrArg Prod.snd hcall, ?_⟩
  · intro q' hhandle hq' env' graph' draw'
    have hquiet' : db'.Quiet q'.handle := hhandle ▸ hquiet
    obtain ⟨hsame, hfst'⟩ : q'.perform env' graph' draw' db' =
        q'.perform env adapter.functionGraph draw db' ∧ _ := hquiet'.same hq'
    rw [hsame] at hfst' ⊢
    exact Prod.ext hfst' rfl

end Repeats

open Unread in
/-- The context of a catalogued function: asked for again it is the same, also where the adapter
    fails. -/
theorem answers_again_context :
    ∃ db' out, (Query.context Collision.f0 10).perform Sample.environment
        (singleAdapter module).functionGraph (fun _ _ => Collision.draw "a") (singleCatalogued module) =
          (db', .ok out) ∧
      (Query.context Collision.f0 10).perform Sample.environment (fun _ _ => .error "bad_alloc")
        (fun _ _ => Collision.draw "b") db' = (db', .ok out) := by
  have hok : ((Query.context Collision.f0 10).perform Sample.environment
      (singleAdapter module).functionGraph (fun _ _ => Collision.draw "a")
        (singleCatalogued module)).2.toBool = true := by decide +kernel
  generalize hcall : (Query.context Collision.f0 10).perform Sample.environment
    (singleAdapter module).functionGraph (fun _ _ => Collision.draw "a") (singleCatalogued module) =
      call at hok ⊢
  obtain ⟨db', e | out⟩ := call
  · cases hok
  · obtain ⟨answer, hanswer, hagain⟩ := answers_again (singleCatalogued_history module) unambiguous
      (single_answered module _) (fun _ => Query.noConfusion) hcall
    refine ⟨db', out, rfl, ?_⟩
    rw [hagain _ rfl (fun _ => Query.noConfusion), hanswer]

end Irez

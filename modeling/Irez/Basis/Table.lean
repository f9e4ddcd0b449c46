/-
  File:      Irez/Basis/Table.lean
  Subject:   Keyed tables as lists of rows: the SQL statements a store runs on
             them, read back through the key.

  A table is the list of its rows in the order they were inserted.

  * `updateWhere`, `deleteWhere`, `upsert` -- `UPDATE … WHERE`, `DELETE … WHERE`
    and `INSERT … ON CONFLICT(key) DO UPDATE`;
  * `lookup` -- the row a key names; on a table with distinct keys (`Keyed`) it
    determines membership (`lookup_eq_some_iff`), so a statement is described by
    what it does to `lookup`;
  * `upsertAll`, `updateAll` -- a loop of upserts, and of updates, of rows with distinct
    keys (`mem_upsertAll`, `updateAll_eq_map`).
-/
import Mathlib.Data.List.Nodup

namespace Irez.Basis

variable {ρ κ : Type}

/-! ## 1. Statements -/

/-- `UPDATE t SET g WHERE p`. -/
def updateWhere (p : ρ → Bool) (g : ρ → ρ) (t : List ρ) : List ρ :=
  t.map fun r => if p r then g r else r

/-- `DELETE FROM t WHERE p`. -/
def deleteWhere (p : ρ → Bool) (t : List ρ) : List ρ :=
  t.filter fun r => !p r

@[simp] theorem mem_deleteWhere {p : ρ → Bool} {t : List ρ} {r : ρ} :
    r ∈ deleteWhere p t ↔ r ∈ t ∧ p r = false := by
  simp [deleteWhere]

theorem mem_updateWhere {p : ρ → Bool} {g : ρ → ρ} {t : List ρ} {r : ρ} :
    r ∈ updateWhere p g t ↔ ∃ r₀ ∈ t, r = if p r₀ then g r₀ else r₀ := by
  unfold updateWhere
  rw [List.mem_map]
  exact ⟨fun ⟨r₀, h, e⟩ => ⟨r₀, h, e.symm⟩, fun ⟨r₀, h, e⟩ => ⟨r₀, h, e.symm⟩⟩

section Keys

variable [DecidableEq κ] (key : ρ → κ)

/-- The row the key `k` names. -/
def lookup (k : κ) (t : List ρ) : Option ρ :=
  t.find? fun r => key r = k

/-- No two rows have the same key. -/
def Keyed (t : List ρ) : Prop := (t.map key).Nodup

instance (t : List ρ) : Decidable (Keyed key t) := inferInstanceAs (Decidable (t.map key).Nodup)

/-- `INSERT … ON CONFLICT(key) DO UPDATE SET g`: a row with the new row's key is
    rewritten by `g new old`, otherwise the new row is appended. -/
def upsert (g : ρ → ρ → ρ) (new : ρ) (t : List ρ) : List ρ :=
  if (lookup key (key new) t).isSome then updateWhere (fun r => key r = key new) (g new) t
  else t ++ [new]

/-- A loop of upserts. -/
def upsertAll (g : ρ → ρ → ρ) (news : List ρ) (t : List ρ) : List ρ :=
  news.foldl (fun t new => upsert key g new t) t

/-- A loop of updates, each of the row one key names. -/
def updateAll (us : List (κ × (ρ → ρ))) (t : List ρ) : List ρ :=
  us.foldl (fun t u => updateWhere (fun r => key r = u.1) u.2 t) t

/-! ## 2. Lookups -/

variable {key}

theorem lookup_eq_some_iff {t : List ρ} (h : Keyed key t) {k : κ} {r : ρ} :
    lookup key k t = some r ↔ r ∈ t ∧ key r = k := by
  constructor
  · intro hr
    exact ⟨List.mem_of_find?_eq_some hr, by simpa using List.find?_some hr⟩
  · rintro ⟨hr, rfl⟩
    cases hf : lookup key (key r) t with
    | none =>
      have hne : key r ≠ key r := by simpa using List.find?_eq_none.mp hf r hr
      exact absurd rfl hne
    | some r' =>
      have hk : key r' = key r := by simpa using List.find?_some hf
      rw [List.inj_on_of_nodup_map h (List.mem_of_find?_eq_some hf) hr hk]

theorem lookup_self {t : List ρ} (h : Keyed key t) {r : ρ} (hr : r ∈ t) :
    lookup key (key r) t = some r :=
  (lookup_eq_some_iff h).mpr ⟨hr, rfl⟩

theorem lookup_eq_none_iff {t : List ρ} {k : κ} : lookup key k t = none ↔ ∀ r ∈ t, key r ≠ k := by
  simp [lookup, List.find?_eq_none]

theorem mem_of_lookup {t : List ρ} {k : κ} {r : ρ} (h : lookup key k t = some r) : r ∈ t :=
  List.mem_of_find?_eq_some h

theorem key_of_lookup {t : List ρ} {k : κ} {r : ρ} (h : lookup key k t = some r) : key r = k := by
  simpa using List.find?_some h

/-- A key meets one row. -/
theorem Keyed.filter_eq {t : List ρ} (h : Keyed key t) {r : ρ} (hr : r ∈ t) :
    t.filter (fun x => key x = key r) = [r] := by
  induction t with
  | nil => cases hr
  | cons x t ih =>
    obtain ⟨hx, ht⟩ := List.nodup_cons.mp h
    have hother : ∀ y ∈ t, key y ≠ key x := fun y hy he => hx (he ▸ List.mem_map_of_mem hy)
    rcases List.mem_cons.mp hr with rfl | hr
    · have hnil : t.filter (fun x => key x = key r) = [] :=
        List.filter_eq_nil_iff.mpr fun y hy => by simpa using hother y hy
      rw [List.filter_cons_of_pos (by simp), hnil]
    · have hne : key x ≠ key r := fun he => hother r hr he.symm
      rw [List.filter_cons_of_neg (by simpa using hne)]
      exact ih ht hr

theorem lookup_append {t u : List ρ} {k : κ} :
    lookup key k (t ++ u) = (lookup key k t).or (lookup key k u) := by
  simp [lookup, List.find?_append]

/-- An update that keeps the key acts on the row a key names. -/
theorem lookup_updateWhere {p : ρ → Bool} {g : ρ → ρ} (hg : ∀ r, key (g r) = key r) {t : List ρ}
    {k : κ} :
    lookup key k (updateWhere p g t) = (lookup key k t).map fun r => if p r then g r else r := by
  induction t with
  | nil => rfl
  | cons r t ih =>
    have hk : key (if p r then g r else r) = key r := by
      split
      · exact hg r
      · rfl
    simp only [lookup, updateWhere, List.map_cons, List.find?_cons, hk] at ih ⊢
    by_cases h : key r = k
    · simp [h]
    · simpa [h] using ih

theorem lookup_deleteWhere {p : ρ → Bool} {t : List ρ} (h : Keyed key t) {k : κ} :
    lookup key k (deleteWhere p t) = (lookup key k t).filter fun r => !p r := by
  cases hf : lookup key k t with
  | none =>
    refine lookup_eq_none_iff.mpr fun r hr => ?_
    exact lookup_eq_none_iff.mp hf r (List.mem_of_mem_filter hr)
  | some r =>
    have hkd : Keyed key (deleteWhere p t) := (List.filter_sublist.map key).nodup h
    obtain ⟨hr, hk⟩ := (lookup_eq_some_iff h).mp hf
    cases hp : p r with
    | false =>
      simp only [Option.filter_some, hp, Bool.not_false, if_true]
      exact (lookup_eq_some_iff hkd).mpr ⟨List.mem_filter.mpr ⟨hr, by simp [hp]⟩, hk⟩
    | true =>
      simp only [Option.filter_some, hp, Bool.not_true, Bool.false_eq_true, if_false]
      refine lookup_eq_none_iff.mpr fun r' hr' hk' => ?_
      obtain ⟨hr', hp'⟩ := List.mem_filter.mp hr'
      rw [List.inj_on_of_nodup_map h hr' hr (hk'.trans hk.symm), hp] at hp'
      exact Bool.noConfusion hp'

theorem lookup_upsert {g : ρ → ρ → ρ} (hg : ∀ n r, key (g n r) = key r) {new : ρ} {t : List ρ}
    {k : κ} :
    lookup key k (upsert key g new t) =
      if k = key new then some ((lookup key k t).elim new (g new)) else lookup key k t := by
  unfold upsert
  split
  · rename_i hs
    rw [lookup_updateWhere (hg new)]
    by_cases hk : k = key new
    · subst hk
      obtain ⟨r, hr⟩ := Option.isSome_iff_exists.mp hs
      simp [hr, key_of_lookup hr]
    · rw [if_neg hk]
      cases hr : lookup key k t with
      | none => rfl
      | some r => simp [key_of_lookup hr, hk]
  · rename_i hs
    rw [lookup_append]
    have hnone : lookup key (key new) t = none := by simpa using hs
    by_cases hk : k = key new
    · subst hk
      rw [hnone]
      simp [lookup]
    · have hk' : ¬ key new = k := fun e => hk e.symm
      simp [hk, hk', lookup]

/-- **A loop of upserts of rows with distinct keys**: each key it names is written
    once, the rest of the table is unchanged. -/
theorem lookup_upsertAll {g : ρ → ρ → ρ} (hg : ∀ n r, key (g n r) = key r) {news : List ρ}
    (hn : Keyed key news) {t : List ρ} {k : κ} :
    lookup key k (upsertAll key g news t) =
      match lookup key k news with
      | some new => some ((lookup key k t).elim new (g new))
      | none => lookup key k t := by
  induction news generalizing t with
  | nil => rfl
  | cons new news ih =>
    obtain ⟨hnew, hn⟩ := List.nodup_cons.mp hn
    show lookup key k (upsertAll key g news (upsert key g new t)) = _
    rw [ih hn, lookup_upsert hg]
    by_cases hk : k = key new
    · subst hk
      have hnone : lookup key (key new) news = none :=
        lookup_eq_none_iff.mpr fun r hr e => hnew (e ▸ List.mem_map_of_mem hr)
      rw [hnone]
      simp [lookup]
    · have hk' : ¬ key new = k := fun e => hk e.symm
      simp [lookup, hk, hk']

/-- A loop of upserts leaves a row for each key it names, and for each key there was. -/
theorem exists_lookup_upsertAll {g : ρ → ρ → ρ} (hg : ∀ n r, key (g n r) = key r) {news : List ρ}
    {t : List ρ} {k : κ} (h : k ∈ news.map key ∨ (lookup key k t).isSome) :
    ∃ r, lookup key k (upsertAll key g news t) = some r := by
  induction news generalizing t with
  | nil => exact Option.isSome_iff_exists.mp (h.resolve_left List.not_mem_nil)
  | cons new news ih =>
    have hl : lookup key k (upsert key g new t) =
        if k = key new then some ((lookup key k t).elim new (g new)) else lookup key k t :=
      lookup_upsert hg
    refine ih ?_
    by_cases hk : k = key new
    · rw [hl, if_pos hk]
      exact Or.inr rfl
    · rw [hl, if_neg hk]
      exact h.imp_left fun hm => (List.mem_cons.mp hm).resolve_left hk

/-- A column that the upserts keep is kept in the row a key names. -/
theorem lookup_upsertAll_col {σ : Type} {col : ρ → σ} {g : ρ → ρ → ρ}
    (hg : ∀ n r, key (g n r) = key r) (hcol : ∀ n r, col (g n r) = col r) {news : List ρ}
    {t : List ρ} {k : κ} {r : ρ} (h : lookup key k t = some r) :
    ∃ r', lookup key k (upsertAll key g news t) = some r' ∧ col r' = col r := by
  induction news generalizing t r with
  | nil => exact ⟨r, h, rfl⟩
  | cons new news ih =>
    have hl : lookup key k (upsert key g new t) =
        if k = key new then some ((lookup key k t).elim new (g new)) else lookup key k t :=
      lookup_upsert hg
    rw [h] at hl
    by_cases hk : k = key new
    · rw [if_pos hk] at hl
      obtain ⟨r', hr', hc⟩ := ih hl
      exact ⟨r', hr', hc.trans (hcol new r)⟩
    · rw [if_neg hk] at hl
      exact ih hl

/-! ## 3. Keys and membership -/

omit [DecidableEq κ] in
theorem Keyed.deleteWhere {t : List ρ} (h : Keyed key t) (p : ρ → Bool) :
    Keyed key (deleteWhere p t) :=
  (List.filter_sublist.map key).nodup h

omit [DecidableEq κ] in
theorem map_key_updateWhere {p : ρ → Bool} {g : ρ → ρ} (hg : ∀ r, key (g r) = key r) (t : List ρ) :
    (updateWhere p g t).map key = t.map key := by
  simp only [updateWhere, List.map_map]
  refine List.map_congr_left fun r _ => ?_
  simp only [Function.comp]
  split
  · exact hg r
  · rfl

omit [DecidableEq κ] in
theorem Keyed.updateWhere {t : List ρ} (h : Keyed key t) {p : ρ → Bool} {g : ρ → ρ}
    (hg : ∀ r, key (g r) = key r) : Keyed key (updateWhere p g t) := by
  unfold Keyed
  rw [map_key_updateWhere hg]
  exact h

theorem Keyed.append_singleton {t : List ρ} (h : Keyed key t) {new : ρ}
    (hnew : lookup key (key new) t = none) : Keyed key (t ++ [new]) := by
  unfold Keyed
  rw [List.map_append, List.nodup_append]
  refine ⟨h, List.nodup_singleton _, fun a ha b hb => ?_⟩
  obtain ⟨r, hr, rfl⟩ := List.mem_map.mp ha
  obtain rfl := List.mem_singleton.mp hb
  exact lookup_eq_none_iff.mp hnew r hr

omit [DecidableEq κ] in
/-- An insert that keeps the keys distinct has a new key. -/
theorem Keyed.not_mem {t : List ρ} {new : ρ} (h : Keyed key (t ++ [new])) :
    key new ∉ t.map key := by
  unfold Keyed at h
  rw [List.map_append, List.nodup_append] at h
  intro hm
  exact h.2.2 (key new) hm (key new) (List.mem_singleton.mpr rfl) rfl

theorem Keyed.upsert {t : List ρ} (h : Keyed key t) {g : ρ → ρ → ρ}
    (hg : ∀ n r, key (g n r) = key r) (new : ρ) : Keyed key (upsert key g new t) := by
  unfold Basis.upsert
  split
  · exact h.updateWhere (hg new)
  · rename_i hs
    exact h.append_singleton (by simpa using hs)

theorem Keyed.upsertAll {t : List ρ} (h : Keyed key t) {g : ρ → ρ → ρ}
    (hg : ∀ n r, key (g n r) = key r) (news : List ρ) : Keyed key (upsertAll key g news t) := by
  induction news generalizing t with
  | nil => exact h
  | cons new news ih => exact ih (h.upsert hg new)

/-- **The rows after a loop of upserts**: those the loop wrote and those it did not name. -/
theorem mem_upsertAll {t : List ρ} (h : Keyed key t) {g : ρ → ρ → ρ}
    (hg : ∀ n r, key (g n r) = key r) {news : List ρ} (hn : Keyed key news) {r : ρ} :
    r ∈ Basis.upsertAll key g news t ↔
      (∃ new ∈ news, key new = key r ∧ r = (lookup key (key r) t).elim new (g new)) ∨
      (r ∈ t ∧ ∀ new ∈ news, key new ≠ key r) := by
  have hl := lookup_upsertAll hg hn (t := t) (k := key r)
  have hr : r ∈ Basis.upsertAll key g news t ↔
      lookup key (key r) (Basis.upsertAll key g news t) = some r :=
    ⟨fun hm => lookup_self (h.upsertAll hg news) hm, mem_of_lookup⟩
  rw [hr, hl]
  cases hf : lookup key (key r) news with
  | some new =>
    obtain ⟨hmem, hkey⟩ := (lookup_eq_some_iff hn).mp hf
    constructor
    · intro he
      exact Or.inl ⟨new, hmem, hkey, (Option.some.inj he).symm⟩
    · intro he
      rcases he with ⟨new', hmem', hkey', he⟩ | ⟨_, hne⟩
      · obtain rfl : new' = new := List.inj_on_of_nodup_map hn hmem' hmem (hkey'.trans hkey.symm)
        exact congrArg some he.symm
      · exact absurd hkey (hne new hmem)
  | none =>
    have hne := lookup_eq_none_iff.mp hf
    constructor
    · intro he
      exact Or.inr ⟨mem_of_lookup he, hne⟩
    · intro he
      rcases he with ⟨new, hmem, hkey, _⟩ | ⟨hm, _⟩
      · exact absurd hkey (hne new hmem)
      · exact lookup_self h hm

/-- Where a row after a loop of upserts comes from, without any key being unique. -/
theorem of_mem_upsertAll {t : List ρ} {g : ρ → ρ → ρ} (hg : ∀ n r, key (g n r) = key r)
    {news : List ρ} {r : ρ} (h : r ∈ Basis.upsertAll key g news t) :
    (r ∈ t ∧ ∀ new ∈ news, key new ≠ key r) ∨
      ∃ new ∈ news, key new = key r ∧ (r = new ∨ ∃ r₀, key r₀ = key r ∧ r = g new r₀) := by
  induction news generalizing t with
  | nil => exact Or.inl ⟨h, fun new hn => absurd hn List.not_mem_nil⟩
  | cons new news ih =>
    rcases ih h with ⟨hr, hne⟩ | ⟨n, hn, hk, hr⟩
    · have hr : r ∈ Basis.upsert key g new t := hr
      unfold Basis.upsert at hr
      split at hr
      · obtain ⟨r₀, hr₀, hrow⟩ := mem_updateWhere.mp hr
        by_cases hk : key r₀ = key new
        · rw [if_pos (decide_eq_true hk)] at hrow
          have hkr : key r = key r₀ := by rw [hrow, hg]
          exact Or.inr ⟨new, List.mem_cons_self, hk.symm.trans hkr.symm, Or.inr ⟨r₀, hkr.symm, hrow⟩⟩
        · rw [if_neg (by simpa using hk)] at hrow
          subst hrow
          refine Or.inl ⟨hr₀, fun n hn => ?_⟩
          rcases List.mem_cons.mp hn with rfl | hn
          · exact fun hkn => hk hkn.symm
          · exact hne n hn
      · rename_i hnone
        rcases List.mem_append.mp hr with hrt | hrn
        · refine Or.inl ⟨hrt, fun n hn => ?_⟩
          rcases List.mem_cons.mp hn with rfl | hn
          · intro hk
            have hl : lookup key (key n) t = none := by simpa using hnone
            exact lookup_eq_none_iff.mp hl r hrt hk.symm
          · exact hne n hn
        · obtain rfl := List.mem_singleton.mp hrn
          exact Or.inr ⟨r, List.mem_cons_self, rfl, Or.inl rfl⟩
    · exact Or.inr ⟨n, List.mem_cons_of_mem _ hn, hk, hr⟩

/-- What holds of the rows and of the new rows, and is kept by the update, holds after. -/
theorem forall_upsertAll {P : ρ → Prop} {t : List ρ} {g : ρ → ρ → ρ} {news : List ρ}
    (ht : ∀ r ∈ t, P r) (hn : ∀ new ∈ news, P new)
    (hg : ∀ new ∈ news, ∀ r, P r → P (g new r)) : ∀ r ∈ Basis.upsertAll key g news t, P r := by
  induction news generalizing t with
  | nil => exact ht
  | cons new news ih =>
    refine ih ?_ (fun n h => hn n (List.mem_cons_of_mem _ h))
      fun n h => hg n (List.mem_cons_of_mem _ h)
    intro r hr
    have hr : r ∈ Basis.upsert key g new t := hr
    unfold Basis.upsert at hr
    split at hr
    · obtain ⟨r₀, hr₀, rfl⟩ := mem_updateWhere.mp hr
      split
      · exact hg new List.mem_cons_self r₀ (ht r₀ hr₀)
      · exact ht r₀ hr₀
    · rcases List.mem_append.mp hr with hr | hr
      · exact ht r hr
      · rw [List.mem_singleton.mp hr]
        exact hn new List.mem_cons_self

/-- A row that no new row names stays. -/
theorem mem_upsertAll_of_ne {t : List ρ} {g : ρ → ρ → ρ} {news : List ρ} {r : ρ} (h : r ∈ t)
    (hne : ∀ new ∈ news, key new ≠ key r) : r ∈ Basis.upsertAll key g news t := by
  induction news generalizing t with
  | nil => exact h
  | cons new news ih =>
    refine ih ?_ fun n hn => hne n (List.mem_cons_of_mem _ hn)
    have hk := hne new List.mem_cons_self
    show r ∈ Basis.upsert key g new t
    unfold Basis.upsert
    split
    · refine mem_updateWhere.mpr ⟨r, h, ?_⟩
      rw [if_neg (by simpa using fun hc : key r = key new => hk hc.symm)]
    · exact List.mem_append_left _ h

/-- **A loop of updates of distinct keys is one pass over the table.** -/
theorem updateAll_eq_map {us : List (κ × (ρ → ρ))} (hk : ∀ u ∈ us, ∀ r, key (u.2 r) = key r)
    (hn : (us.map (·.1)).Nodup) (t : List ρ) :
    updateAll key us t =
      t.map fun r => (us.find? fun u => u.1 = key r).elim r fun u => u.2 r := by
  induction us generalizing t with
  | nil => simp [updateAll]
  | cons u us ih =>
    obtain ⟨hu, hn⟩ := List.nodup_cons.mp hn
    show updateAll key us (Basis.updateWhere (fun r => key r = u.1) u.2 t) = _
    rw [ih (fun v hv => hk v (List.mem_cons_of_mem _ hv)) hn, Basis.updateWhere, List.map_map]
    refine List.map_congr_left fun r _ => ?_
    by_cases he : key r = u.1
    · have hkey : key (u.2 r) = u.1 := (hk u List.mem_cons_self r).trans he
      have hnone : us.find? (fun v => v.1 = u.1) = none := by
        refine List.find?_eq_none.mpr fun v hv hv1 => hu ?_
        have hv1 : v.1 = u.1 := of_decide_eq_true hv1
        show u.1 ∈ us.map (·.1)
        rw [← hv1]
        exact List.mem_map_of_mem hv
      simp [he, hkey, hnone]
    · have he' : ¬ u.1 = key r := fun h => he h.symm
      simp [he, he']

end Keys

/-- An update that no row meets changes nothing. -/
theorem updateWhere_none {p : ρ → Bool} {g : ρ → ρ} {t : List ρ} (h : ∀ r ∈ t, p r = false) :
    updateWhere p g t = t := by
  unfold updateWhere
  exact (List.map_congr_left fun r hr => by simp [h r hr]).trans (List.map_id t)

/-- A projection the update does not touch is unchanged as a column. -/
theorem map_updateWhere {σ : Type} {f : ρ → σ} {p : ρ → Bool} {g : ρ → ρ} (hf : ∀ r, f (g r) = f r)
    (t : List ρ) : (updateWhere p g t).map f = t.map f := by
  simp only [updateWhere, List.map_map]
  refine List.map_congr_left fun r _ => ?_
  simp only [Function.comp]
  split
  · exact hf r
  · rfl

end Irez.Basis

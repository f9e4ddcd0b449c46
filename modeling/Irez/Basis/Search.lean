/-
  File:      Irez/Basis/Search.lean
  Subject:   Breadth-first order: the nodes within `k` steps of a start, in the order in
             which a breadth-first search meets them.

  A graph is given by the list of successors `next v` of each node, in the order in which
  the search reads them.

  * `Within`, `Reaches` -- the ball and what is reachable;
  * `absorb known vs` -- the values of `vs` that are not known, each where it first stands;
    `firsts vs` -- the case where nothing is known;
  * `order next s k` -- the BFS order up to radius `k`: `mem_order` (it is the ball),
    `order_nodup`, `order_isPrefix` (a larger ball continues a smaller one), `order_succ`
    (radius `k + 1` is what the nodes of radius `k` name, each once);
  * `found` -- what a search finds from the nodes it expands; `order_take_of_found`: a search
    that has seen all it holds, and holds the first `cap` nodes it found, holds the first
    `cap` nodes of the order.
-/
import Mathlib.Data.List.Nodup
import Mathlib.Data.List.Perm.Subperm
import Mathlib.Logic.Relation

namespace Irez.Basis

variable {ν : Type}

/-! ## 1. Paths -/

section Paths

variable (next : ν → List ν) (s : ν)

/-- `v` is at most `k` steps from `s`. -/
inductive Within : Nat → ν → Prop
  | start (k : Nat) : Within k s
  | step {k : Nat} {u v : ν} : Within k u → v ∈ next u → Within (k + 1) v

/-- Some path leads from `s` to `v`. -/
def Reaches (v : ν) : Prop := Relation.ReflTransGen (fun u w => w ∈ next u) s v

variable {next s}

theorem Within.succ {k : Nat} {v : ν} (h : Within next s k v) : Within next s (k + 1) v := by
  induction h with
  | start k => exact .start (k + 1)
  | step _ hv ih => exact .step ih hv

theorem Within.mono {k l : Nat} {v : ν} (h : Within next s k v) (hkl : k ≤ l) :
    Within next s l v := by
  induction hkl with
  | refl => exact h
  | step _ ih => exact ih.succ

theorem reaches_iff {v : ν} : Reaches next s v ↔ ∃ k, Within next s k v := by
  constructor
  · intro h
    induction h with
    | refl => exact ⟨0, .start 0⟩
    | tail _ hv ih =>
      obtain ⟨k, hk⟩ := ih
      exact ⟨k + 1, .step hk hv⟩
  · intro h
    obtain ⟨k, hk⟩ := h
    induction hk with
    | start k => exact .refl
    | step _ hv ih => exact .tail ih hv

/-- A path that begins with a given step. -/
theorem Within.head {k : Nat} {u v : ν} (hu : u ∈ next s) (h : Within next u k v) :
    Within next s (k + 1) v := by
  induction h with
  | start k => exact .step (.start k) hu
  | step _ hv ih => exact .step ih hv

/-- **A path backwards**: `prev` lists the predecessors. -/
theorem Within.reverse {prev : ν → List ν} (hprev : ∀ u v, v ∈ next u → u ∈ prev v) {k : Nat} {v : ν}
    (h : Within next s k v) : Within prev v k s := by
  induction h with
  | start k => exact .start k
  | step _ hv ih => exact .head (hprev _ _ hv) ih

/-- **Nodes that stand for others**: where the steps from `f i` are those of `i`, what is reached
    stands for what is reached. -/
theorem reaches_image {ι : Type} {R : ι → ι → Prop} {f : ι → ν} {D : ι → Prop}
    (hD : ∀ i j, R i j → D i → D j)
    (hstep : ∀ i, D i → ∀ v, v ∈ next (f i) ↔ ∃ j, R i j ∧ f j = v) {i : ι} (hi : D i) {v : ν} :
    Reaches next (f i) v ↔ ∃ j, Relation.ReflTransGen R i j ∧ f j = v := by
  have hkeep : ∀ j, Relation.ReflTransGen R i j → D j := by
    intro j hij
    induction hij with
    | refl => exact hi
    | tail _ hR ih => exact hD _ _ hR ih
  constructor
  · intro h
    induction h with
    | refl => exact ⟨i, .refl, rfl⟩
    | tail _ hw ih =>
      obtain ⟨j, hij, rfl⟩ := ih
      obtain ⟨k, hR, rfl⟩ := (hstep j (hkeep j hij) _).mp hw
      exact ⟨k, hij.tail hR, rfl⟩
  · intro ⟨j, hij, hv⟩
    subst hv
    induction hij with
    | refl => exact .refl
    | tail hij hR ih => exact .tail ih ((hstep _ (hkeep _ hij) _).mpr ⟨_, hR, rfl⟩)

/-- A set that holds the start and the successors of its nodes holds what is reachable. -/
theorem Reaches.mem_of_closed {l : List ν} {v : ν} (h : Reaches next s v) (hs : s ∈ l)
    (hl : ∀ u ∈ l, ∀ w ∈ next u, w ∈ l) : v ∈ l := by
  induction h with
  | refl => exact hs
  | tail _ hv ih => exact hl _ ih _ hv

end Paths

/-! ## 2. First occurrences -/

variable [DecidableEq ν]

/-- The values of `vs` that `known` lacks, each where it first stands. -/
def absorb (known : List ν) : List ν → List ν
  | [] => []
  | v :: vs => if v ∈ known then absorb known vs else v :: absorb (known ++ [v]) vs

/-- The values of `vs`, each where it first stands. -/
def firsts (vs : List ν) : List ν := absorb [] vs

theorem absorb_cons_of_mem {known vs : List ν} {v : ν} (h : v ∈ known) :
    absorb known (v :: vs) = absorb known vs := if_pos h

theorem absorb_cons_of_not_mem {known vs : List ν} {v : ν} (h : v ∉ known) :
    absorb known (v :: vs) = v :: absorb (known ++ [v]) vs := if_neg h

theorem mem_absorb {known vs : List ν} {v : ν} : v ∈ absorb known vs ↔ v ∈ vs ∧ v ∉ known := by
  induction vs generalizing known with
  | nil => simp [absorb]
  | cons w vs ih =>
    by_cases hw : w ∈ known
    · rw [absorb_cons_of_mem hw, ih, List.mem_cons]
      constructor
      · intro h
        exact ⟨Or.inr h.1, h.2⟩
      · intro h
        obtain ⟨rfl | h1, h2⟩ := h
        · exact absurd hw h2
        · exact ⟨h1, h2⟩
    · rw [absorb_cons_of_not_mem hw, List.mem_cons, ih, List.mem_cons, List.mem_append,
        List.mem_singleton, not_or]
      constructor
      · intro h
        obtain rfl | ⟨h1, h2, _⟩ := h
        · exact ⟨Or.inl rfl, hw⟩
        · exact ⟨Or.inr h1, h2⟩
      · intro h
        by_cases e : v = w
        · exact Or.inl e
        · exact Or.inr ⟨h.1.resolve_left e, h.2, e⟩

theorem absorb_nodup (known vs : List ν) : (absorb known vs).Nodup := by
  induction vs generalizing known with
  | nil => exact List.nodup_nil
  | cons v vs ih =>
    by_cases hv : v ∈ known
    · rw [absorb_cons_of_mem hv]
      exact ih known
    · rw [absorb_cons_of_not_mem hv]
      refine List.nodup_cons.mpr ⟨fun hm => ?_, ih _⟩
      exact (mem_absorb.mp hm).2 (List.mem_append_right _ (List.mem_singleton.mpr rfl))

theorem absorb_append (known vs ws : List ν) :
    absorb known (vs ++ ws) = absorb known vs ++ absorb (known ++ absorb known vs) ws := by
  induction vs generalizing known with
  | nil => simp [absorb]
  | cons v vs ih =>
    by_cases hv : v ∈ known
    · rw [List.cons_append, absorb_cons_of_mem hv, absorb_cons_of_mem hv, ih]
    · rw [List.cons_append, absorb_cons_of_not_mem hv, absorb_cons_of_not_mem hv, ih,
        List.cons_append, List.append_assoc, List.singleton_append]

theorem absorb_eq_nil {known vs : List ν} (h : ∀ v ∈ vs, v ∈ known) : absorb known vs = [] := by
  refine List.eq_nil_iff_forall_not_mem.mpr fun v hv => ?_
  obtain ⟨h1, h2⟩ := mem_absorb.mp hv
  exact h2 (h v h1)

theorem mem_firsts {vs : List ν} {v : ν} : v ∈ firsts vs ↔ v ∈ vs := by
  simp [firsts, mem_absorb]

theorem firsts_nodup (vs : List ν) : (firsts vs).Nodup := absorb_nodup [] vs

theorem firsts_append (vs ws : List ν) : firsts (vs ++ ws) = firsts vs ++ absorb (firsts vs) ws := by
  have h := absorb_append [] vs ws
  rwa [List.nil_append] at h

theorem firsts_isPrefix {vs ws : List ν} (h : vs <+: ws) : firsts vs <+: firsts ws := by
  obtain ⟨us, rfl⟩ := h
  rw [firsts_append]
  exact List.prefix_append _ _

theorem firsts_singleton (v : ν) : firsts [v] = [v] := rfl

/-- The part of a prefix that lies in another prefix is a prefix of that one. -/
theorem filter_mem_isPrefix {p q l : List ν} (hl : l.Nodup) (hp : p <+: l) (hq : q <+: l) :
    p.filter (· ∈ q) <+: q := by
  rcases List.prefix_or_prefix_of_prefix hp hq with h | h
  · have hall : p.filter (· ∈ q) = p := by
      refine List.filter_eq_self.mpr fun v hv => ?_
      exact decide_eq_true (h.subset hv)
    rw [hall]
    exact h
  · obtain ⟨r, rfl⟩ := h
    have hn : (q ++ r).Nodup := hp.sublist.nodup hl
    have hd := (List.nodup_append'.mp hn).2.2
    have hq' : q.filter (· ∈ q) = q := List.filter_eq_self.mpr fun v hv => decide_eq_true hv
    have hr : r.filter (· ∈ q) = [] := by
      refine List.filter_eq_nil_iff.mpr fun v hv hm => ?_
      exact hd (of_decide_eq_true hm) hv
    have hall : (q ++ r).filter (· ∈ q) = q := by
      rw [List.filter_append, hq', hr, List.append_nil]
    exact ⟨[], (List.append_nil _).trans hall⟩

/-! ## 3. The breadth-first order -/

section Order

variable (next : ν → List ν) (s : ν)

/-- The nodes within `k` steps of `s`, in breadth-first order: a node of radius `k + 1` comes
    after those of radius `k`, where a node before it first names it. -/
def order : Nat → List ν
  | 0 => [s]
  | k + 1 => order k ++ absorb (order k) ((order k).flatMap next)

/-- The nodes less than `k` steps from `s`. -/
def before : Nat → List ν
  | 0 => []
  | k + 1 => order next s k

variable {next s}

/-- **The order up to radius `k` lists the ball of radius `k`.** -/
theorem mem_order {k : Nat} {v : ν} : v ∈ order next s k ↔ Within next s k v := by
  induction k generalizing v with
  | zero =>
    rw [order, List.mem_singleton]
    constructor
    · rintro rfl
      exact .start 0
    · intro h
      cases h
      rfl
  | succ k ih =>
    rw [order, List.mem_append, mem_absorb, List.mem_flatMap]
    constructor
    · rintro (h | ⟨⟨u, hu, hv⟩, _⟩)
      · exact (ih.mp h).succ
      · exact .step (ih.mp hu) hv
    · intro h
      by_cases hv : v ∈ order next s k
      · exact Or.inl hv
      · cases h with
        | start => exact absurd (ih.mpr (.start k)) hv
        | step hu hw => exact Or.inr ⟨⟨_, ih.mpr hu, hw⟩, hv⟩

theorem start_mem_order (k : Nat) : s ∈ order next s k := mem_order.mpr (.start k)

theorem order_nodup (k : Nat) : (order next s k).Nodup := by
  induction k with
  | zero => exact List.nodup_singleton s
  | succ k ih =>
    rw [order]
    refine List.nodup_append'.mpr ⟨ih, absorb_nodup _ _, fun v hv hv' => ?_⟩
    exact (mem_absorb.mp hv').2 hv

theorem order_isPrefix {k l : Nat} (h : k ≤ l) : order next s k <+: order next s l := by
  induction h with
  | refl => exact List.prefix_rfl
  | step _ ih => exact ih.trans (List.prefix_append _ _)

/-- Radius `k + 1` is what the nodes of radius `k` name, each where it is first named. -/
theorem order_succ (k : Nat) :
    order next s (k + 1) = firsts (s :: (order next s k).flatMap next) := by
  induction k with
  | zero =>
    show [s] ++ absorb [s] ([s].flatMap next) = firsts ([s] ++ [s].flatMap next)
    rw [firsts_append, firsts_singleton]
  | succ k ih =>
    have hold : ∀ v ∈ (order next s k).flatMap next, v ∈ order next s (k + 1) := by
      intro v hv
      obtain ⟨u, hu, hv⟩ := List.mem_flatMap.mp hv
      exact mem_order.mpr (.step (mem_order.mp hu) hv)
    have hnil := absorb_eq_nil hold
    have hsplit : s :: (order next s (k + 1)).flatMap next =
        (s :: (order next s k).flatMap next) ++
          (absorb (order next s k) ((order next s k).flatMap next)).flatMap next := by
      rw [order, List.flatMap_append, List.cons_append]
    rw [hsplit, firsts_append, ← ih]
    have happ : (order next s (k + 1)).flatMap next = (order next s k).flatMap next ++
        (absorb (order next s k) ((order next s k).flatMap next)).flatMap next := by
      rw [order, List.flatMap_append]
    conv_lhs => rw [order, happ]
    rw [absorb_append, hnil, List.nil_append, List.append_nil]

theorem before_isPrefix (k : Nat) : before next s k <+: order next s k := by
  cases k with
  | zero => exact List.nil_prefix
  | succ k => exact order_isPrefix (Nat.le_succ k)

theorem order_eq_firsts (k : Nat) :
    order next s k = firsts (s :: (before next s k).flatMap next) := by
  cases k with
  | zero => rfl
  | succ k => exact order_succ k

theorem mem_before {k : Nat} {v : ν} : v ∈ before next s k ↔ ∃ j, j < k ∧ v ∈ order next s j := by
  cases k with
  | zero => simp [before]
  | succ k =>
    constructor
    · intro h
      exact ⟨k, Nat.lt_succ_self k, h⟩
    · rintro ⟨j, hj, h⟩
      exact (order_isPrefix (Nat.le_of_lt_succ hj)).subset h

/-- A node at distance `d` is before radius `D` exactly when `d < D`. -/
theorem mem_before_iff_lt {d D : Nat} {v : ν} (h : v ∈ order next s d) (h' : v ∉ before next s d) :
    v ∈ before next s D ↔ d < D := by
  rw [mem_before]
  constructor
  · rintro ⟨j, hj, hv⟩
    by_contra hd
    exact h' (mem_before.mpr ⟨j, by omega, hv⟩)
  · intro hd
    exact ⟨d, hd, h⟩

theorem mem_next_order {D : Nat} {u v : ν} (hu : u ∈ before next s D) (hv : v ∈ next u) :
    v ∈ order next s D := by
  obtain ⟨j, hj, hu⟩ := mem_before.mp hu
  exact mem_order.mpr ((Within.step (mem_order.mp hu) hv).mono hj)

/-! ## 4. What a search has found -/

/-- What a search finds from the nodes of `seen` it expands, those before radius `D`. -/
def found (next : ν → List ν) (s : ν) (D : Nat) (seen : List ν) : List ν :=
  firsts (s :: (seen.filter (· ∈ before next s D)).flatMap next)

theorem mem_found {D : Nat} {seen : List ν} {v : ν} :
    v ∈ found next s D seen ↔ v = s ∨ ∃ u ∈ seen, u ∈ before next s D ∧ v ∈ next u := by
  rw [found, mem_firsts, List.mem_cons, List.mem_flatMap]
  simp only [List.mem_filter, decide_eq_true_eq, and_assoc]

theorem start_isPrefix_found (D : Nat) (seen : List ν) : [s] <+: found next s D seen :=
  firsts_isPrefix (List.prefix_append [s] _)

theorem found_concat_of_mem {D : Nat} {seen : List ν} {v : ν} (h : v ∈ before next s D) :
    found next s D (seen ++ [v]) =
      found next s D seen ++ absorb (found next s D seen) (next v) := by
  have hv : [v].filter (· ∈ before next s D) = [v] := by simp [h]
  rw [found, List.filter_append, hv, List.flatMap_append, List.flatMap_singleton,
    ← List.cons_append, firsts_append, found]

theorem found_concat_of_not_mem {D : Nat} {seen : List ν} {v : ν} (h : v ∉ before next s D) :
    found next s D (seen ++ [v]) = found next s D seen := by
  have hv : [v].filter (· ∈ before next s D) = [] := by simp [h]
  rw [found, List.filter_append, hv, List.append_nil, found]

theorem found_isPrefix {D : Nat} {seen : List ν} (h : seen <+: order next s D) :
    found next s D seen <+: order next s D := by
  have hf := filter_mem_isPrefix (order_nodup D) h (before_isPrefix D)
  obtain ⟨r, hr⟩ := hf
  conv_rhs => rw [order_eq_firsts, ← hr, List.flatMap_append, ← List.cons_append]
  exact firsts_isPrefix (List.prefix_append _ _)

/-- A search that has seen all nodes before radius `D` has found the ball. -/
theorem found_eq_order {D : Nat} {seen : List ν} (h : seen <+: order next s D)
    (hb : ∀ v ∈ before next s D, v ∈ seen) : found next s D seen = order next s D := by
  have hf := filter_mem_isPrefix (order_nodup D) h (before_isPrefix D)
  have he : seen.filter (· ∈ before next s D) = before next s D := by
    refine hf.eq_of_length_le ?_
    have hn : (before next s D).Nodup := (before_isPrefix D).sublist.nodup (order_nodup D)
    refine (List.subperm_of_subset hn fun v hv => ?_).length_le
    exact List.mem_filter.mpr ⟨hb v hv, decide_eq_true hv⟩
  rw [found, he, ← order_eq_firsts]

/-- In a prefix of the order, a node that is not before radius `d` comes after all that are. -/
theorem before_subset_of_isPrefix {d D : Nat} {seen : List ν} {v : ν}
    (h : seen ++ [v] <+: order next s D) (hd : d ≤ D) (hv : v ∉ before next s d) :
    ∀ u ∈ before next s d, u ∈ seen := by
  have hb : before next s d <+: order next s D :=
    (before_isPrefix d).trans (order_isPrefix hd)
  intro u hu
  rcases List.prefix_or_prefix_of_prefix hb h with hp | hp
  · rcases List.mem_append.mp (hp.subset hu) with hm | hm
    · exact hm
    · rw [List.mem_singleton] at hm
      exact absurd (hm ▸ hu) hv
  · exact absurd (hp.subset (List.mem_append_right _ (List.mem_singleton.mpr rfl))) hv

/-- In a prefix of the order, what comes before a node before radius `d` is before it too. -/
theorem subset_before_of_isPrefix {d D : Nat} {seen : List ν} {v : ν}
    (h : seen ++ [v] <+: order next s D) (hd : d ≤ D) (hv : v ∈ before next s d) :
    ∀ u ∈ seen, u ∈ before next s d := by
  have hb : before next s d <+: order next s D :=
    (before_isPrefix d).trans (order_isPrefix hd)
  intro u hu
  rcases List.prefix_or_prefix_of_prefix h hb with hp | hp
  · exact hp.subset (List.mem_append_left _ hu)
  · rcases List.prefix_concat_iff.mp hp with he | hp
    · rw [he]
      exact List.mem_append_left _ hu
    · have hn : (seen ++ [v]).Nodup := h.sublist.nodup (order_nodup D)
      have hd := (List.nodup_append'.mp hn).2.2
      exact absurd (List.mem_singleton.mpr rfl) (hd (hp.subset hv))

/-- **A search that sees every node it holds, and holds the first `cap` nodes it finds, holds
    the first `cap` nodes of the order.** -/
theorem order_take_of_found {D cap : Nat} {seen : List ν} (hp : seen <+: order next s D)
    (hs : s ∈ seen) (h : seen = (found next s D seen).take cap) :
    seen = (order next s D).take cap := by
  by_cases hall : ∀ v ∈ before next s D, v ∈ seen
  · rwa [found_eq_order hp hall] at h
  · -- a node before radius `D` is not seen, so all that is seen is before radius `D`
    obtain ⟨b, hb, hbs⟩ : ∃ b ∈ before next s D, b ∉ seen := by
      simpa only [not_forall, exists_prop] using hall
    have hin : ∀ u ∈ seen, u ∈ before next s D := by
      rcases List.prefix_or_prefix_of_prefix hp (before_isPrefix D) with hq | hq
      · exact fun u hu => hq.subset hu
      · exact absurd (hq.subset hb) hbs
    have hlen : cap ≤ (found next s D seen).length := by
      by_contra hlt
      -- nothing found was left out, so what is seen is closed
      rw [List.take_of_length_le (by omega)] at h
      have hclosed : ∀ u ∈ seen, ∀ w ∈ next u, w ∈ seen := by
        intro u hu w hw
        rw [h]
        exact mem_found.mpr (Or.inr ⟨u, hu, hin u hu, hw⟩)
      obtain ⟨j, _, hj⟩ := mem_before.mp hb
      have hr : Reaches next s b := reaches_iff.mpr ⟨j, mem_order.mp hj⟩
      exact hbs (hr.mem_of_closed hs hclosed)
    have hl : seen.length = cap := by
      rw [h, List.length_take]
      omega
    have he := List.prefix_iff_eq_take.mp hp
    rwa [hl] at he

end Order

end Irez.Basis

import BagQuery.Proofs.BagOperations
import BagQuery.Proofs.ClosureProgram

/-!
# Pairs that are reached again

As long as no pair comes back, the passes of the closure program go by distance: the frontier of
the `n`-th pass holds the pairs at distance `n`, and what was reached are the pairs up to there, all
of them once (`Closing.Layered`).  Such a pass adds a pair again exactly when it gets to it in two
ways, for it was reached once before.  So the closure comes out without repetitions just when no
pass gets in two ways to a pair that is nearer (`Closing.Leads.nodup_iff`).
-/

open Relation (TransGen)

namespace BagQuery

namespace Closing

variable {α : Type} {E D R R' : Multiset (α × α)} {a b m : α} {n k : Nat}

/-! ## Distances -/

/-- `n` edges lead from one node to another. -/
inductive Walk (E : Multiset (α × α)) (a : α) : Nat → α → Prop
  | edge {b : α} : Edge E a b → Walk E a 1 b
  | tail {n : Nat} {b c : α} : Walk E a n b → Edge E b c → Walk E a (n + 1) c

/-- `n` edges lead from one node to another, and no fewer do.  A node has a distance from itself
that is the length of a cycle. -/
def Distance (E : Multiset (α × α)) (a : α) (n : Nat) (b : α) : Prop :=
  Walk E a n b ∧ ∀ k < n, ¬Walk E a k b

theorem Walk.pos (h : Walk E a n b) : 0 < n := by
  cases h <;> exact Nat.succ_pos _

theorem Walk.exists_distance (h : Walk E a n b) : ∃ k ≤ n, Distance E a k b := by
  induction n using Nat.strongRecOn with
  | ind n ih =>
    by_cases hshorter : ∃ k < n, Walk E a k b
    · obtain ⟨k, hk, hwalk⟩ := hshorter
      obtain ⟨j, hj, hdistance⟩ := ih k hk hwalk
      exact ⟨j, by omega, hdistance⟩
    · exact ⟨n, le_rfl, h, fun k hk hwalk => hshorter ⟨k, hk, hwalk⟩⟩

theorem Distance.le (h : Distance E a n b) (hwalk : Walk E a k b) : n ≤ k :=
  Nat.le_of_not_lt fun hlt => h.2 k hlt hwalk

theorem Distance.eq (h : Distance E a n b) (h' : Distance E a k b) : n = k :=
  Nat.le_antisymm (h.le h'.1) (h'.le h.1)

theorem distance_one_iff : Distance E a 1 b ↔ Edge E a b := by
  constructor
  · rintro ⟨hwalk, -⟩
    cases hwalk with
    | edge hedge => exact hedge
    | tail hwalk => exact absurd hwalk.pos (Nat.lt_irrefl 0)
  · exact fun hedge => ⟨.edge hedge, fun k hk hwalk => absurd hwalk.pos (by omega)⟩

/-- In front of a node at a distance is one that is nearer by one. -/
theorem Distance.exists_before (hn : 0 < n) (h : Distance E a (n + 1) b) :
    ∃ m, Distance E a n m ∧ Edge E m b := by
  obtain ⟨hwalk, hleast⟩ := h
  cases hwalk with
  | edge => exact absurd hn (Nat.lt_irrefl 0)
  | @tail _ m _ hwalk hedge =>
    refine ⟨m, ⟨hwalk, fun k hk hshorter => ?_⟩, hedge⟩
    exact hleast (k + 1) (by omega) (hshorter.tail hedge)

/-- On the way to a node at a distance are nodes at the smaller distances. -/
theorem Distance.exists_of_le (hn : 0 < n) (hk : n ≤ k) (h : Distance E a k b) :
    ∃ m, Distance E a n m := by
  induction k, hk using Nat.le_induction generalizing b with
  | base => exact ⟨b, h⟩
  | succ k hk ih =>
    obtain ⟨m, hm, -⟩ := h.exists_before (by omega)
    exact ih hm

/-- A node to which edges lead from two nodes at the distance `n` is farther than these. -/
def OneWayBackAt (E : Multiset (α × α)) (n : Nat) : Prop :=
  ∀ a b m m', m ≠ m' → Distance E a n m → Distance E a n m' → Edge E m b → Edge E m' b →
    Distance E a (n + 1) b

/-- A node to which edges lead from two nodes at one distance is farther than these. -/
def OneWayBack (E : Multiset (α × α)) : Prop := ∀ n, OneWayBackAt E n

/-! ## Pairs by distance -/

/-- The frontier are the pairs at distance `n`, and the pairs up to there were reached, all of them
once. -/
structure Layered (E : Multiset (α × α)) (n : Nat) (D R : Multiset (α × α)) : Prop where
  pos : 0 < n
  edges : E.Nodup
  frontier : ∀ a b, (a, b) ∈ D ↔ Distance E a n b
  once : D.Nodup
  reached : ∀ a b, (a, b) ∈ R ↔ ∃ k ≤ n, Distance E a k b
  reachedOnce : R.Nodup

namespace Layered

theorem start (hE : E.Nodup) : Layered E 1 E E where
  pos := Nat.one_pos
  edges := hE
  frontier _ _ := distance_one_iff.symm
  once := hE
  reached a b := by
    constructor
    · exact fun h => ⟨1, le_rfl, distance_one_iff.2 h⟩
    · rintro ⟨k, hk, hdistance⟩
      obtain rfl : k = 1 := Nat.le_antisymm hk hdistance.1.pos
      exact distance_one_iff.1 hdistance
  reachedOnce := hE

/-- What a walk of the pass leads to was reached before, or is at the next distance. -/
theorem mem_or_distance (h : Layered E n D R) (hm : Distance E a n m) (he : Edge E m b) :
    (a, b) ∈ R ∨ Distance E a (n + 1) b := by
  obtain ⟨k, hk, hdistance⟩ := (hm.1.tail he).exists_distance
  by_cases hkn : k ≤ n
  · exact .inl ((h.reached a b).2 ⟨k, hkn, hdistance⟩)
  · obtain rfl : k = n + 1 := by omega
    exact .inr hdistance

theorem notMem_of_distance (h : Layered E n D R) (hb : Distance E a (n + 1) b) : (a, b) ∉ R := by
  intro hR
  obtain ⟨k, hk, hdistance⟩ := (h.reached a b).1 hR
  have := hb.eq hdistance
  omega

end Layered

/-! ## Two ways to a pair -/

variable [DecidableEq α]

theorem one_lt_count_map {β : Type} {s : Multiset β} (hs : s.Nodup) (f : β → α) (p : α) :
    1 < (s.map f).count p ↔ ∃ x ∈ s, ∃ y ∈ s, x ≠ y ∧ f x = p ∧ f y = p := by
  have hfiltered := hs.filter fun x => p = f x
  rw [Multiset.count_map]
  refine (Finset.one_lt_card (s := ⟨s.filter fun x => p = f x, hfiltered⟩)).trans ?_
  simp only [Finset.mem_mk, Multiset.mem_filter]
  constructor
  · rintro ⟨x, ⟨hx, hxp⟩, y, ⟨hy, hyp⟩, hne⟩
    exact ⟨x, hx, y, hy, hne, hxp.symm, hyp.symm⟩
  · rintro ⟨x, hx, y, hy, hne, hxp, hyp⟩
    exact ⟨x, ⟨hx, hxp.symm⟩, y, ⟨hy, hyp.symm⟩, hne⟩

theorem meeting_eq_filter (E D : Multiset (α × α)) :
    meeting E D = (D ×ˢ E).filter fun p => p.1.2 = p.2.1 := by
  show _ = (D.bind fun d => E.map (Prod.mk d)).filter _
  rw [meeting, Multiset.filter_bind]
  refine Multiset.bind_congr fun d _ => ?_
  rw [Multiset.filter_map]
  rfl

/-- **There are two ways to a pair** if they go over two nodes. -/
theorem one_lt_count_extend (hE : E.Nodup) (hD : D.Nodup) :
    1 < (extend E D).count (a, b) ↔
      ∃ m m', m ≠ m' ∧ (a, m) ∈ D ∧ (a, m') ∈ D ∧ Edge E m b ∧ Edge E m' b := by
  have hmeeting : (meeting E D).Nodup := by
    rw [meeting_eq_filter]
    exact (hD.product hE).filter _
  have hmem {d e : α × α} : (d, e) ∈ meeting E D ↔ d ∈ D ∧ e ∈ E ∧ d.2 = e.1 := by
    rw [meeting_eq_filter, Multiset.mem_filter, Multiset.mem_product, and_assoc]
  rw [← map_meeting, one_lt_count_map hmeeting]
  constructor
  · rintro ⟨⟨⟨_, m⟩, ⟨_, _⟩⟩, hd, ⟨⟨_, m'⟩, ⟨_, _⟩⟩, hd', hne, hp, hp'⟩
    obtain ⟨hdD, heE, rfl⟩ := hmem.1 hd
    obtain ⟨hdD', heE', rfl⟩ := hmem.1 hd'
    cases hp
    cases hp'
    exact ⟨m, m', fun h => hne (by subst h; rfl), hdD, hdD', heE, heE'⟩
  · rintro ⟨m, m', hne, hd, hd', he, he'⟩
    refine ⟨((a, m), (m, b)), hmem.2 ⟨hd, he, rfl⟩, ((a, m'), (m', b)), hmem.2 ⟨hd', he', rfl⟩,
      fun h => hne ?_, rfl, rfl⟩
    exact congrArg (fun p => p.2.1) h

/-! ### Passes -/

namespace Layered

/-- A way of the pass is a walk that is longer by one than the distance of the frontier. -/
theorem mem_extend (h : Layered E n D R) :
    (a, b) ∈ extend E D ↔ ∃ m, Distance E a n m ∧ Edge E m b := by
  rw [Closing.mem_extend]
  constructor
  · rintro ⟨⟨_, m⟩, hd, ⟨_, _⟩, he, rfl, hp⟩
    cases hp
    exact ⟨m, (h.frontier _ _).1 hd, he⟩
  · rintro ⟨m, hm, he⟩
    exact ⟨(a, m), (h.frontier _ _).2 hm, (m, b), he, rfl, rfl⟩

/-- **The pass adds the pairs at the next distance.** -/
theorem mem_news (h : Layered E n D R) (hback : OneWayBackAt E n) :
    (a, b) ∈ news E D R ↔ Distance E a (n + 1) b := by
  rw [Closing.mem_news]
  constructor
  · intro hcount
    obtain ⟨m, hm, he⟩ := h.mem_extend.1 (Multiset.count_pos.1 (Nat.zero_lt_of_lt hcount))
    rcases h.mem_or_distance hm he with hR | hb
    · -- a pair that was reached needs two ways
      rw [Multiset.count_eq_one_of_mem h.reachedOnce hR] at hcount
      obtain ⟨m, m', hne, hm, hm', he, he'⟩ := (one_lt_count_extend h.edges h.once).1 hcount
      exact hback a b m m' hne ((h.frontier _ _).1 hm) ((h.frontier _ _).1 hm') he he'
    · exact hb
  · intro hb
    obtain ⟨m, hm, he⟩ := hb.exists_before h.pos
    rw [Multiset.count_eq_zero.2 (h.notMem_of_distance hb)]
    exact Multiset.count_pos.2 (h.mem_extend.2 ⟨m, hm, he⟩)

theorem pass (h : Layered E n D R) (hback : OneWayBackAt E n) :
    Layered E (n + 1) (news E D R) (R + news E D R) where
  pos := Nat.succ_pos n
  edges := h.edges
  frontier _ _ := h.mem_news hback
  once := Multiset.nodup_dedup _
  reached a b := by
    rw [Multiset.mem_add, h.reached, h.mem_news hback]
    constructor
    · rintro (⟨k, hk, hdistance⟩ | hdistance)
      · exact ⟨k, by omega, hdistance⟩
      · exact ⟨n + 1, le_rfl, hdistance⟩
    · rintro ⟨k, hk, hdistance⟩
      rcases Nat.lt_or_eq_of_le hk with hlt | rfl
      · exact .inl ⟨k, by omega, hdistance⟩
      · exact .inr hdistance
  reachedOnce := by
    refine Multiset.nodup_add.2 ⟨h.reachedOnce, Multiset.nodup_dedup _, ?_⟩
    refine Multiset.disjoint_left.2 fun {p} hR hnews => ?_
    exact h.notMem_of_distance ((h.mem_news (a := p.1) (b := p.2) hback).1 hnews) hR

/-- **If nothing was added again, the pass got in one way at most to what is nearer.** -/
theorem oneWayBackAt (h : Layered E n D R) (hnodup : (R + news E D R).Nodup) :
    OneWayBackAt E n := by
  intro a b m m' hne hm hm' he he'
  rcases h.mem_or_distance hm he with hR | hb
  · have hways : 1 < (extend E D).count (a, b) :=
      (one_lt_count_extend h.edges h.once).2
        ⟨m, m', hne, (h.frontier _ _).2 hm, (h.frontier _ _).2 hm', he, he'⟩
    have hnews : (a, b) ∈ news E D R := by
      rwa [Closing.mem_news, Multiset.count_eq_one_of_mem h.reachedOnce hR]
    have hdisjoint := (Multiset.nodup_add.1 hnodup).2.2
    exact absurd hnews (Multiset.disjoint_left.1 hdisjoint hR)
  · exact hb

end Layered

/-- **The passes repeat no pair exactly if none of them gets in two ways to a pair that is
nearer.** -/
theorem Leads.nodup_iff_of_layered (hleads : Leads E D R R') (h : Layered E n D R) :
    R'.Nodup ↔ ∀ k, n ≤ k → OneWayBackAt E k := by
  induction hleads generalizing n with
  | done R =>
    -- nothing is at the distance of an empty frontier, and nothing beyond it
    refine iff_of_true h.reachedOnce fun k hk a b m m' _ hm => ?_
    obtain ⟨x, hx⟩ := hm.exists_of_le h.pos hk
    exact absurd ((h.frontier a x).2 hx) (Multiset.notMem_zero _)
  | @pass D R R' hleads ih =>
    constructor
    · intro hnodup
      have hback := h.oneWayBackAt (Multiset.nodup_of_le hleads.le hnodup)
      intro k hk
      rcases Nat.lt_or_eq_of_le hk with hlt | rfl
      · exact (ih (h.pass hback)).1 hnodup k hlt
      · exact hback
    · intro hback
      have hpass := h.pass (hback n le_rfl)
      exact (ih hpass).2 fun k hk => hback k (by omega)

theorem Leads.nodup_iff (hleads : Leads E E E R) (hE : E.Nodup) : R.Nodup ↔ OneWayBack E := by
  rw [hleads.nodup_iff_of_layered (.start hE)]
  constructor
  · intro h n
    by_cases hn : 1 ≤ n
    · exact h n hn
    · intro a b m m' _ hm
      exact absurd hm.1.pos (by omega)
  · exact fun h k _ => h k

end Closing

/-! ## The closure program -/

namespace Program

/-- **The pairs are put out that the passes lead to**, in lazy and in eager mode. -/
theorem closureOf_run (E : List (Int64 × Int64)) {c : Settings} (hlimit : c.maxIterations = none)
    {passes : Nat} (hpasses : E.length ^ 3 + 2 ≤ passes) :
    let o := (closureOf E).run c passes .fresh
    o.ending = .completed ∧ ∃ ts, o.outputs = [.dump .pair ts] ∧
      ∃ R : Multiset (Int64 × Int64), (ts : Multiset Tuple) = R.map Tuple.pair ∧
        Closing.Leads ↑E ↑E ↑E R := by
  intro o
  cases hmode : c.mode with
  | lazy =>
    obtain ⟨s, ts, R, hrun, hts, hleads⟩ := closureOf_run_lazy hmode hlimit E hpasses
    replace hrun : o = .emitted (.dump .pair ts) s := hrun
    rw [hrun]
    exact ⟨rfl, ts, rfl, R, hts, hleads⟩
  | eager =>
    let lazy : Settings := { c with mode := .lazy }
    have hmodes : lazy.Modes c := ⟨rfl, hmode, rfl, rfl⟩
    obtain ⟨s, ts, R, hrun, hts, hleads⟩ :=
      closureOf_run_lazy (c := lazy) rfl hlimit E hpasses
    have hplain := plain_closureOf c.env E
    have hread : True → ∀ x ∈ Statement.exprsAll (closureOf E), x.Readable c.env :=
      fun _ x hx => (hplain x hx).2
    have hlockstep := (Statement.lockstep hmodes passes).2 (closureOf E)
      (fun x hx => (hplain x hx).1) hread [] 0 .fresh .fresh (.fresh c)
    have hagree := agree_of_lockstep hlockstep (.inl trivial)
    obtain ⟨hending, -, -, -, houtputs⟩ := hagree
    rw [hrun] at hending houtputs
    obtain ⟨_, _, ⟨_, hperm⟩, hnone, hus⟩ := List.forall₂_cons_left_iff.1 houtputs
    rw [List.forall₂_nil_left_iff] at hnone
    rw [hnone] at hus
    exact ⟨hending.symm, _, hus, R, (Multiset.coe_eq_coe.2 hperm).symm.trans hts, hleads⟩

/-- **The closure program repeats no pair exactly if no pass gets in two ways to what is nearer.**
On edges that are listed once each, and in either mode, the bag that is put out is its own distinct
if and only if every node, to which edges lead from two nodes at one distance from a start, is
itself at the next distance from there.  Then every pair of the closure is put out once. -/
theorem closure_repeats_iff (E : List (Int64 × Int64)) (hE : E.Nodup) (c : Settings)
    (hlimit : c.maxIterations = none) (passes : Nat) (hpasses : E.length ^ 3 + 2 ≤ passes) :
    parse closureText = .ok closure ∧
      let o := (closureOf E).run c passes .fresh
      o.ending = .completed ∧ ∃ ts, o.outputs = [.dump .pair ts] ∧
        ((Bag.ofList ts).distinct = Bag.ofList ts ↔
          Closing.OneWayBack (E : Multiset (Int64 × Int64))) ∧
        (Closing.OneWayBack (E : Multiset (Int64 × Int64)) →
          ∀ a b, TransGen (fun a b => (a, b) ∈ E) a b → ts.count (.pair (a, b)) = 1) := by
  refine ⟨parse_closureText, ?_⟩
  obtain ⟨hending, ts, houtputs, R, hts, hleads⟩ := closureOf_run E hlimit hpasses
  have hnodup : ts.Nodup ↔ Closing.OneWayBack (E : Multiset (Int64 × Int64)) := by
    rw [← hleads.nodup_iff hE, ← Multiset.coe_nodup, hts,
      Multiset.nodup_map_iff_of_injective Tuple.pair_injective]
  refine ⟨hending, ts, houtputs, Bag.distinct_ofList_eq_iff.trans hnodup, fun hback a b hab => ?_⟩
  have hmem : Tuple.pair (a, b) ∈ ts := by
    rw [← Multiset.mem_coe, hts]
    exact Multiset.mem_map_of_mem _ ((hleads.closing (.start _)).mem_iff.2 hab)
  exact List.count_eq_one_of_mem (hnodup.2 hback) hmem

/-- **A pair may be put out twice.**  An edge leads from `1` to `4` and so do two longer ways, and
the first pass adds the pair again. -/
theorem closure_repeats_pair :
    let edges : List (Int64 × Int64) := [(1, 2), (2, 4), (1, 3), (3, 4), (1, 4)]
    let lazy : Settings := { Settings.eager with mode := .lazy }
    let tuples := [(1, 2), (2, 4), (1, 3), (3, 4), (1, 4), (1, 4)].map Tuple.pair
    let sorted := [(1, 2), (1, 3), (1, 4), (1, 4), (2, 4), (3, 4)].map Tuple.pair
    edges.Nodup ∧
      ((closureOf edges).run lazy 127 .fresh).outputs = [.dump .pair tuples] ∧
      (Bag.ofList tuples).distinct ≠ Bag.ofList tuples ∧
      ((closureOf edges).run .eager 127 .fresh).outputs = [.dump .pair sorted] ∧
      (Bag.ofList sorted).distinct ≠ Bag.ofList sorted := by
  refine ⟨by decide, ?_, ?_, ?_, ?_⟩
  · decide +kernel
  · decide +kernel
  · decide +kernel
  · decide +kernel

/-- Six edges without such ways, and the closure that is put out for them. -/
theorem closure_repeats_iff_sixEdges :
    let edges : List (Int64 × Int64) := [(1, 2), (2, 3), (3, 4), (3, 5), (6, 5), (7, 2)]
    let tuples := [(1, 2), (1, 3), (1, 4), (1, 5), (2, 3), (2, 4), (2, 5), (3, 4), (3, 5), (6, 5),
      (7, 2), (7, 3), (7, 4), (7, 5)].map Tuple.pair
    edges.Nodup ∧ Settings.eager.maxIterations = none ∧ edges.length ^ 3 + 2 ≤ 218 ∧
      ((closureOf edges).run .eager 218 .fresh).outputs = [.dump .pair tuples] ∧
      (Bag.ofList tuples).distinct = Bag.ofList tuples ∧
      Closing.OneWayBack (edges : Multiset (Int64 × Int64)) := by
  intro edges tuples
  obtain ⟨-, -, ts, houtputs, hiff, -⟩ :=
    closure_repeats_iff edges (by decide) .eager rfl 218 (by decide)
  have hrun : ((closureOf edges).run .eager 218 .fresh).outputs = [.dump .pair tuples] := by
    decide +kernel
  rw [hrun] at houtputs
  cases houtputs
  have hdistinct : (Bag.ofList tuples).distinct = Bag.ofList tuples := by decide +kernel
  exact ⟨by decide, rfl, by decide, hrun, hdistinct, hiff.1 hdistinct⟩

end Program

end BagQuery

import Mathlib.Algebra.Group.Action.Defs
import Mathlib.Algebra.Order.BigOperators.Group.Multiset
import Mathlib.Algebra.Order.Ring.Nat
import Mathlib.Data.Multiset.AddSub
import Mathlib.Data.Multiset.Bind
import Mathlib.Data.Multiset.Dedup
import Mathlib.Logic.Relation
import Mathlib.Tactic.Ring

/-!
# Closing a bag of pairs

Pairs are reached from edges in passes.  A pass takes the pairs of the frontier one edge further,
once for every way there is, takes as many of each pair away as were reached before, and adds what
is left, each pair once; these are the next frontier.

* A path goes between the two ends of every pair that is reached, and a pair that is no longer in
  the frontier has been taken further (`Closing.pass`).  So when the frontier is empty, the pairs
  reached are the transitive closure (`Closing.mem_iff`).
* A pair can come back: bags are subtracted, so a pair that was reached once is added again by a
  pass that gets to it in two ways.  But a frontier that holds each pair once gets to a pair in no
  more ways than there are edges (`Closing.count_extend_le`).  So a pair is added no more often than
  that, and what may still be added becomes less with every pass (`Closing.room_lt`).
-/

open Relation (TransGen)

namespace BagQuery

namespace Closing

variable {α : Type} [DecidableEq α]

/-! ## Passes -/

/-- The way over two pairs, if the first ends where the second starts. -/
def hop (d e : α × α) : Multiset (α × α) := if d.2 = e.1 then {(d.1, e.2)} else 0

/-- The frontier pairs with the edges that go on from them. -/
def meeting (E D : Multiset (α × α)) : Multiset ((α × α) × (α × α)) :=
  D.bind fun d => (E.filter fun e => d.2 = e.1).map fun e => (d, e)

/-- The pairs taken one edge further, once for each way. -/
def extend (E D : Multiset (α × α)) : Multiset (α × α) := D.bind fun d => E.bind (hop d)

/-- What a pass adds to the pairs `R` from the frontier `D`. -/
def news (E D R : Multiset (α × α)) : Multiset (α × α) := (extend E D - R).dedup

/-- There is an edge. -/
def Edge (E : Multiset (α × α)) (a b : α) : Prop := (a, b) ∈ E

variable {E D R : Multiset (α × α)} {p d e : α × α}

theorem mem_hop : p ∈ hop d e ↔ d.2 = e.1 ∧ p = (d.1, e.2) := by
  unfold hop
  split
  · next h => simp [h]
  · next h => simp [h]

theorem bind_hop (d : α × α) (E : Multiset (α × α)) :
    E.bind (hop d) = (E.filter fun e => d.2 = e.1).map fun e => (d.1, e.2) := by
  induction E using Multiset.induction_on with
  | empty => rfl
  | cons e E ih =>
    rw [Multiset.cons_bind, ih, hop]
    split
    · next h =>
      rw [Multiset.filter_cons_of_pos (p := fun e : α × α => d.2 = e.1) E h, Multiset.map_cons,
        Multiset.singleton_add]
    · next h =>
      rw [Multiset.filter_cons_of_neg (p := fun e : α × α => d.2 = e.1) E h, Multiset.zero_add]

/-- The ways are the pairs and edges that meet. -/
theorem map_meeting (E D : Multiset (α × α)) :
    (meeting E D).map (fun p => (p.1.1, p.2.2)) = extend E D := by
  rw [meeting, Multiset.map_bind]
  refine Multiset.bind_congr fun d _ => ?_
  rw [Multiset.map_map, bind_hop]
  rfl

theorem mem_extend : p ∈ extend E D ↔ ∃ d ∈ D, ∃ e ∈ E, d.2 = e.1 ∧ p = (d.1, e.2) := by
  simp only [extend, Multiset.mem_bind, mem_hop]

theorem mem_news : p ∈ news E D R ↔ R.count p < (extend E D).count p := by
  rw [news, Multiset.mem_dedup, ← Multiset.count_pos, Multiset.count_sub, Nat.sub_pos_iff_lt]

theorem map_sub {β γ : Type} [DecidableEq β] [DecidableEq γ] {f : β → γ}
    (hf : Function.Injective f) (s t : Multiset β) : s.map f - t.map f = (s - t).map f := by
  induction s, t using Quotient.inductionOn₂ with
  | h xs ys =>
    simp only [Multiset.quot_mk_to_coe, Multiset.coe_sub, Multiset.map_coe, List.map_diff hf]

/-- A pass may be made on values that stand for the pairs. -/
theorem map_news {β : Type} [DecidableEq β] {f : α × α → β} (hf : Function.Injective f)
    (E D R : Multiset (α × α)) :
    ((extend E D).map f - R.map f).dedup = (news E D R).map f := by
  rw [map_sub hf, Multiset.dedup_map_of_injective hf, news]

end Closing

/-- Pairs `R` that were reached from the edges `E`, of which those in `D` have not been taken
further. -/
structure Closing {α : Type} (E D R : Multiset (α × α)) : Prop where
  edges : ∀ p ∈ E, p ∈ R
  frontier : ∀ p ∈ D, p ∈ R
  paths : ∀ p ∈ R, TransGen (Closing.Edge E) p.1 p.2
  taken : ∀ p ∈ R, p ∈ D ∨ ∀ e ∈ E, p.2 = e.1 → (p.1, e.2) ∈ R

namespace Closing

variable {α : Type} {E D R : Multiset (α × α)} {p : α × α}

theorem start (E : Multiset (α × α)) : Closing E E E where
  edges _ h := h
  frontier _ h := h
  paths _ h := .single h
  taken _ h := .inl h

/-- **With nothing left to take further, the pairs reached are the transitive closure.** -/
theorem mem_iff (h : Closing E 0 R) {a b : α} : (a, b) ∈ R ↔ TransGen (Edge E) a b := by
  refine ⟨h.paths (a, b), fun hab => ?_⟩
  induction hab with
  | single hab => exact h.edges _ hab
  | tail _ hbc ih =>
    obtain hnone | htaken := h.taken _ ih
    · exact absurd hnone (Multiset.notMem_zero _)
    · exact htaken _ hbc rfl

/-- The pairs that paths may go between. -/
def places (E : Multiset (α × α)) : Multiset (α × α) := E.map Prod.fst ×ˢ E.map Prod.snd

theorem mem_places (h : TransGen (Edge E) p.1 p.2) : p ∈ places E := by
  obtain ⟨b, hb, -⟩ := TransGen.head'_iff.1 h
  obtain ⟨c, -, hc⟩ := TransGen.tail'_iff.1 h
  rw [places, Multiset.mem_product]
  exact ⟨Multiset.mem_map.2 ⟨_, hb, rfl⟩, Multiset.mem_map.2 ⟨_, hc, rfl⟩⟩

variable [DecidableEq α]

/-- **A pass goes on closing.** -/
theorem pass (h : Closing E D R) : Closing E (news E D R) (R + news E D R) where
  edges p hp := Multiset.mem_add.2 (.inl (h.edges p hp))
  frontier p hp := Multiset.mem_add.2 (.inr hp)
  paths p hp := by
    obtain hp | hp := Multiset.mem_add.1 hp
    · exact h.paths p hp
    · have hp := Multiset.count_pos.1 (Nat.zero_lt_of_lt (mem_news.1 hp))
      obtain ⟨d, hd, e, he, hmeet, rfl⟩ := mem_extend.1 hp
      have hpath := h.paths d (h.frontier d hd)
      rw [hmeet] at hpath
      exact hpath.tail he
  taken p hp := by
    obtain hp | hp := Multiset.mem_add.1 hp
    · right
      intro e he hmeet
      rw [Multiset.mem_add]
      obtain hD | htaken := h.taken p hp
      · -- the pass takes the pair further, unless it gets to a pair that was reached before
        have hext : (p.1, e.2) ∈ extend E D := mem_extend.2 ⟨p, hD, e, he, hmeet, rfl⟩
        by_cases hR : (p.1, e.2) ∈ R
        · exact .inl hR
        · rw [mem_news, Multiset.count_eq_zero.2 hR]
          exact .inr (Multiset.count_pos.2 hext)
      · exact .inl (htaken e he hmeet)
    · exact .inl hp

/-- Passes take the frontier `D` and the pairs `R` to the pairs `R'`, where the frontier is empty. -/
inductive Leads (E : Multiset (α × α)) :
    Multiset (α × α) → Multiset (α × α) → Multiset (α × α) → Prop
  | done (R : Multiset (α × α)) : Leads E 0 R R
  | pass {D R R' : Multiset (α × α)} :
      Leads E (news E D R) (R + news E D R) R' → Leads E D R R'

variable {R' : Multiset (α × α)}

theorem Leads.last (h : news E D R = 0) : Leads E D R R := by
  refine .pass ?_
  rw [h, Multiset.add_zero]
  exact .done R

/-- **Passes to an empty frontier close the pairs.** -/
theorem Leads.closing (hleads : Leads E D R R') (h : Closing E D R) : Closing E 0 R' := by
  induction hleads with
  | done => exact h
  | pass _ ih => exact ih h.pass

/-- No pass takes pairs away. -/
theorem Leads.le (h : Leads E D R R') : R ≤ R' := by
  induction h with
  | done => exact le_rfl
  | pass _ ih => exact (Multiset.le_add_right _ _).trans ih

/-! ## The number of passes -/

/-- The frontier pairs that an edge takes to a given place are no more than those that end where
the edge starts. -/
theorem count_hops_le (e : α × α) (D : Multiset (α × α)) :
    (D.bind fun d => hop d e).count p ≤ D.count (p.1, e.1) := by
  induction D using Multiset.induction_on with
  | empty => exact Nat.le_refl _
  | cons d D ih =>
    rw [Multiset.cons_bind, Multiset.count_add, Multiset.count_cons]
    have hhop : (hop d e).count p ≤ if (p.1, e.1) = d then 1 else 0 := by
      by_cases hp : p ∈ hop d e
      · obtain ⟨hmeet, rfl⟩ := mem_hop.1 hp
        have hd : (d.1, e.1) = d := Prod.ext rfl hmeet.symm
        rw [if_pos hd, hop, if_pos hmeet]
        exact (Multiset.count_singleton_self _).le
      · rw [Multiset.count_eq_zero.2 hp]
        exact Nat.zero_le _
    omega

/-- **If the frontier holds each pair once, there are no more ways to a pair than edges.** -/
theorem count_extend_le (hD : D.Nodup) : (extend E D).count p ≤ E.card := by
  rw [extend, Multiset.bind_bind, Multiset.count_bind]
  have hway (e : α × α) : (D.bind fun d => hop d e).count p ≤ 1 :=
    (count_hops_le e D).trans (Multiset.nodup_iff_count_le_one.1 hD _)
  have hways : ∀ n ∈ E.map fun e => (D.bind fun d => hop d e).count p, n ≤ 1 := by
    intro n hn
    obtain ⟨e, -, rfl⟩ := Multiset.mem_map.1 hn
    exact hway e
  have hsum := Multiset.sum_le_card_nsmul _ 1 hways
  rwa [Multiset.card_map, smul_eq_mul, Nat.mul_one] at hsum

/-- How often pairs may still be added. -/
def room (E R : Multiset (α × α)) : Nat := ((places E).map fun p => E.card - R.count p).sum

theorem room_le (E R : Multiset (α × α)) : room E R ≤ E.card ^ 3 := by
  have hplace : ∀ n ∈ (places E).map fun p => E.card - R.count p, n ≤ E.card := by
    intro n hn
    obtain ⟨p, -, rfl⟩ := Multiset.mem_map.1 hn
    exact Nat.sub_le _ _
  have hsum := Multiset.sum_le_card_nsmul _ _ hplace
  rw [Multiset.card_map, places, Multiset.card_product, Multiset.card_map, Multiset.card_map,
    smul_eq_mul] at hsum
  calc
    room E R ≤ E.card * E.card * E.card := hsum
    _ = E.card ^ 3 := by ring

/-- **A pass that adds something leaves less room.** -/
theorem room_lt (h : Closing E D R) (hD : D.Nodup) (hnews : news E D R ≠ 0) :
    room E (R + news E D R) < room E R := by
  obtain ⟨p, hp⟩ := Multiset.exists_mem_of_ne_zero hnews
  apply Multiset.sum_lt_sum
  · intro q _
    rw [Multiset.count_add]
    omega
  · have hplace := mem_places (h.pass.paths p (h.pass.frontier p hp))
    have hways := count_extend_le (E := E) (p := p) hD
    have hcount := mem_news.1 hp
    have hnew := Multiset.count_pos.2 hp
    refine ⟨p, hplace, ?_⟩
    rw [Multiset.count_add]
    omega

end Closing

end BagQuery

import BagQuery.Proofs.Equivalence
import BagQuery.Proofs.ExpressionTyping
import Mathlib.Data.Multiset.Bind

/-!
# Joins from the other side

A join may take its inputs in either order.  The two joins pass the same checks
(`Query.exists_makeJoin_iff`): whether a pair of columns fits does not depend on the side that is
named first, nor does it matter in which order the labelled columns stand when their names are
compared.

Where both inputs come to their ends, the joins find the same pairs of tuples, in loops that are
nested the other way round.  The tuples of one join are those of the other with the fields of the
second input put in front (`Query.join_commutes`).
-/

namespace BagQuery

open BagQuery.Stream (Agrees pairs)

/-- The last `k` fields of the tuple, then the others. -/
def Tuple.lastToFront (k : Nat) (t : Tuple) : Tuple :=
  ⟨t.atoms.drop (t.arity - k) ++ t.atoms.take (t.arity - k)⟩

theorem Tuple.lastToFront_append (t u : Tuple) : (u.append t).lastToFront t.arity = t.append u := by
  have hfront : (u.append t).arity - t.arity = u.atoms.length := by
    simp [arity, append]
  rw [lastToFront, hfront]
  simp [append]

namespace Query

/-! ## What is accepted -/

/-- Pairs of columns of two inputs as the pairs of their join, in which the columns of the second
input count on from the `offset` columns of the first one. -/
def pairsOn (offset : Nat) (on : List (Nat × Nat)) : List (Nat × Nat) :=
  on.map fun p => (p.1, offset + p.2)

/-- Both columns are there, and they have one type. -/
def PairFits (left right : Schema) (p : Nat × Nat) : Prop :=
  ∃ c d : Column, left.columns[p.1]? = some c ∧ right.columns[p.2]? = some d ∧ c.type = d.type

theorem pairFits_swap {left right : Schema} {p : Nat × Nat} :
    PairFits right left p.swap ↔ PairFits left right p := by
  constructor
  · rintro ⟨d, c, hd, hc, h⟩
    exact ⟨c, d, hc, hd, h.symm⟩
  · rintro ⟨c, d, hc, hd, h⟩
    exact ⟨d, c, hd, hc, h.symm⟩

theorem checkPair_eq_ok_cases {offset : Nat} {schema : Schema} {p : Nat × Nat}
    (h : checkPair offset schema p = .ok ()) :
    p.1 < offset ∧ ∃ c, schema.columns[p.2]? = some c := by
  unfold checkPair at h
  split at h
  · next hd =>
    split at h
    · next hin => exact ⟨hin.1, _, hd⟩
    · cases h
  · cases h

/-- **A pair passes its check exactly if it fits**, whatever its indexes are. -/
theorem checkPair_offset_iff {left right schema : Schema} {leftLabel rightLabel : String}
    (hschema : schema.columns = left.labelled leftLabel ++ right.labelled rightLabel)
    (p : Nat × Nat) :
    checkPair left.arity schema (p.1, left.arity + p.2) = .ok () ↔ PairFits left right p := by
  obtain ⟨i, j⟩ := p
  constructor
  · intro h
    obtain ⟨hi, d', hd'⟩ := checkPair_eq_ok_cases h
    have hc : left.columns[i]? = some left.columns[i] := List.getElem?_eq_getElem hi
    rw [Schema.getElem?_right hschema, Schema.getElem?_labelled] at hd'
    obtain ⟨d, hd, -⟩ := Option.map_eq_some_iff.1 hd'
    rw [Nat.add_comm, checkPair_eq_ok_iff hschema hc hd] at h
    exact ⟨_, d, hc, hd, h⟩
  · rintro ⟨c, d, hc, hd, htypes⟩
    rw [Nat.add_comm, checkPair_eq_ok_iff hschema hc hd]
    exact htypes

/-- What a join is made of, and what its inputs have to be like. -/
theorem makeJoin_pairsOn_iff {left right q : Query} {on : List (Nat × Nat)}
    {leftLabel rightLabel : String} :
    makeJoin left right (pairsOn left.schema.arity on) leftLabel rightLabel = .ok q ↔
      ∃ schema : Schema, schema.columns =
          left.schema.labelled leftLabel ++ right.schema.labelled rightLabel ∧
        (∀ p ∈ on, PairFits left.schema right.schema p) ∧
        q = join left right (pairsOn left.schema.arity on) schema := by
  rw [makeJoin_eq_ok_iff]
  refine exists_congr fun schema => and_congr_right fun hschema => and_congr_left fun _ => ?_
  rw [pairsOn, List.forall_mem_map]
  exact forall₂_congr fun p _ => checkPair_offset_iff hschema p

/-- **Joins are accepted by their names and pairs.** -/
theorem exists_makeJoin_iff {left right : Query} {on : List (Nat × Nat)}
    {leftLabel rightLabel : String} :
    (∃ q, makeJoin left right (pairsOn left.schema.arity on) leftLabel rightLabel = .ok q) ↔
      ((left.schema.labelled leftLabel ++ right.schema.labelled rightLabel).map
        Column.name).Nodup ∧ ∀ p ∈ on, PairFits left.schema right.schema p := by
  simp only [makeJoin_pairsOn_iff]
  constructor
  · rintro ⟨_, schema, hschema, hfits, -⟩
    exact ⟨hschema ▸ schema.names_nodup, hfits⟩
  · rintro ⟨hnames, hfits⟩
    exact ⟨_, ⟨_, hnames⟩, rfl, hfits, rfl⟩

/-! ## What is produced -/

/-- The tuples agree on the pairs of columns. -/
def Meet (on : List (Nat × Nat)) (t u : Tuple) : Prop := ∀ p ∈ on, t.get? p.1 = u.get? p.2

instance (on : List (Nat × Nat)) (t u : Tuple) : Decidable (Meet on t u) :=
  inferInstanceAs (Decidable (∀ p ∈ on, _))

theorem meet_swap {on : List (Nat × Nat)} {t u : Tuple} :
    Meet (on.map Prod.swap) u t ↔ Meet on t u := by
  rw [Meet, List.forall_mem_map]
  exact forall₂_congr fun p _ => eq_comm

section Pairs

variable {left right : Schema} {on : List (Nat × Nat)}

/-- The index of a pair that counts on from the first input finds the field of the second one. -/
theorem agrees_append_iff (hfits : ∀ p ∈ on, PairFits left right p) {t u : Tuple}
    (ht : left.Admits t) : Agrees (pairsOn left.arity on) (t.append u) ↔ Meet on t u := by
  rw [Agrees, pairsOn, List.forall_mem_map]
  refine forall₂_congr fun p hp => ?_
  obtain ⟨c, d, hc, -, -⟩ := hfits p hp
  have hi : p.1 < t.atoms.length := by
    have hin : p.1 < left.arity := (List.getElem?_eq_some_iff.1 hc).1
    rwa [← ht.arity_eq] at hin
  have hfirst : (t.append u).get? p.1 = t.get? p.1 := List.getElem?_append_left hi
  have hsecond : (t.append u).get? (left.arity + p.2) = u.get? p.2 := by
    rw [← ht.arity_eq]
    show (t.atoms ++ u.atoms)[t.atoms.length + p.2]? = _
    rw [List.getElem?_append_right (Nat.le_add_right ..), Nat.add_sub_cancel_left]
    rfl
  have hthere : t.get? p.1 ≠ none := by
    rw [Tuple.get?, List.getElem?_eq_getElem hi]
    exact Option.some_ne_none _
  rw [hfirst, hsecond, and_iff_right hthere]

/-- The tuples of a join, by pairs of tuples that meet. -/
theorem flatMap_pairs (hfits : ∀ p ∈ on, PairFits left right p) {ls rs : List Tuple}
    (hls : ∀ t ∈ ls, left.Admits t) :
    ls.flatMap (pairs (pairsOn left.arity on) rs)
      = ls.flatMap fun t => (rs.filter fun u => decide (Meet on t u)).map t.append := by
  refine List.flatMap_congr fun t ht => ?_
  rw [pairs, List.filter_map]
  refine congrArg (List.map _) (List.filter_congr fun u _ => ?_)
  exact decide_eq_decide.2 (agrees_append_iff hfits (hls t ht))

theorem map_filter_eq_flatMap {α β : Type} (p : α → Bool) (f : α → β) (xs : List α) :
    (xs.filter p).map f = xs.flatMap fun x => if p x = true then [f x] else [] := by
  induction xs with
  | nil => rfl
  | cons x xs ih => by_cases h : p x = true <;> simp [h, ih]

/-- Nested loops may be exchanged. -/
theorem flatMap_filter_perm {α β γ : Type} (xs : List α) (ys : List β) (p : α → β → Bool)
    (f : α → β → γ) :
    (xs.flatMap fun x => (ys.filter (p x)).map (f x)).Perm
      (ys.flatMap fun y => (xs.filter (p · y)).map (f · y)) := by
  rw [← Multiset.coe_eq_coe]
  simp only [map_filter_eq_flatMap, ← Multiset.coe_bind]
  exact Multiset.bind_bind _ _

/-- **Joins of the same tuples from both sides hold the same pairs.** -/
theorem flatMap_pairs_perm (hfits : ∀ p ∈ on, PairFits left right p) {ls rs : List Tuple}
    (hls : ∀ t ∈ ls, left.Admits t) (hrs : ∀ u ∈ rs, right.Admits u) :
    (ls.flatMap (pairs (pairsOn left.arity on) rs)).Perm
      ((rs.flatMap (pairs (pairsOn right.arity (on.map Prod.swap)) ls)).map
        (Tuple.lastToFront left.arity)) := by
  have hfits' : ∀ p ∈ on.map Prod.swap, PairFits right left p :=
    List.forall_mem_map.2 fun p hp => pairFits_swap.2 (hfits p hp)
  have hmirrored : (rs.flatMap (pairs (pairsOn right.arity (on.map Prod.swap)) ls)).map
      (Tuple.lastToFront left.arity)
      = rs.flatMap fun u => (ls.filter fun t => decide (Meet on t u)).map (·.append u) := by
    rw [flatMap_pairs hfits' hrs, List.map_flatMap]
    refine List.flatMap_congr fun u _ => ?_
    simp only [meet_swap, List.map_map]
    refine List.map_congr_left fun t ht => ?_
    rw [Function.comp_apply, ← (hls t (List.mem_of_mem_filter ht)).arity_eq,
      Tuple.lastToFront_append]
  rw [hmirrored, flatMap_pairs hfits hls]
  exact flatMap_filter_perm ls rs (fun t u => decide (Meet on t u)) Tuple.append

end Pairs

variable {left right : Query}

/-- **Joins commute up to the order of the columns.**  A join is accepted exactly if the one from
the other side is; and over a well-typed store on which both inputs come to their ends, both joins
do, with the same tuples as often, once the fields of the left input are put in front. -/
theorem join_commutes (hleft : left.Built) (hright : right.Built) (on : List (Nat × Nat))
    (leftLabel rightLabel : String) :
    ((∃ q, makeJoin left right (pairsOn left.schema.arity on) leftLabel rightLabel = .ok q) ↔
      ∃ q, makeJoin right left (pairsOn right.schema.arity (on.map Prod.swap)) rightLabel leftLabel
        = .ok q) ∧
    ∀ q q', makeJoin left right (pairsOn left.schema.arity on) leftLabel rightLabel = .ok q →
      makeJoin right left (pairsOn right.schema.arity (on.map Prod.swap)) rightLabel leftLabel
        = .ok q' →
      ∀ (env : Environment) (store : Store) (ls rs : List Tuple), store.WellTyped →
        (left.drain env store).outcome = .ok ls → (right.drain env store).outcome = .ok rs →
        ∃ ts us, (q.drain env store).outcome = .ok ts ∧ (q'.drain env store).outcome = .ok us ∧
          Bag.ofList ts = Bag.ofList (us.map (Tuple.lastToFront left.schema.arity)) := by
  constructor
  · rw [exists_makeJoin_iff, exists_makeJoin_iff, List.map_append, List.nodup_append_comm,
      ← List.map_append, List.forall_mem_map]
    refine and_congr_right fun _ => forall₂_congr fun p _ => ?_
    exact pairFits_swap.symm
  · intro q q' hq hq' env store ls rs hstore hls hrs
    obtain ⟨schema, -, hfits, rfl⟩ := makeJoin_pairsOn_iff.1 hq
    obtain ⟨schema', -, -, rfl⟩ := makeJoin_pairsOn_iff.1 hq'
    have hls := yields_iff.2 hls
    have hrs := yields_iff.2 hrs
    refine ⟨_, _, yields_iff.1 (hls.join hrs _ schema), yields_iff.1 (hrs.join hls _ schema'), ?_⟩
    refine Bag.ext_count fun t => ?_
    rw [Bag.count_ofList, Bag.count_ofList]
    have hperm := flatMap_pairs_perm hfits (hls.admits hstore hleft.wellTyped)
      (hrs.admits hstore hright.wellTyped)
    exact hperm.count_eq t

/-- Three rows of a number and a text, of which two are the same. -/
def namedNumbers : Query :=
  .table [⟨[.int 1, .string "x"]⟩, ⟨[.int 2, .string "y"]⟩, ⟨[.int 1, .string "x"]⟩]
    ⟨[⟨"n", .int⟩, ⟨"s", .string⟩], by decide⟩

/-- The rows are joined with a stored row, on a pair of columns that is given twice. -/
theorem join_commutes_repeatedPair :
    let key : Key := ⟨"owner", "program", "relation"⟩
    let store : Store := Database.oneRow key "a" 1
    let scan : Query := .scan key (Database.column "a")
    let on : List (Nat × Nat) := [(0, 0), (0, 0)]
    namedNumbers.Built ∧ scan.Built ∧ store.WellTyped ∧
      ∃ q q' us, makeJoin namedNumbers scan (pairsOn 2 on) "l" "r" = .ok q ∧
        makeJoin scan namedNumbers (pairsOn 1 (on.map Prod.swap)) "r" "l" = .ok q' ∧
        (namedNumbers.drain Database.noFiles store).outcome = .ok
          [⟨[.int 1, .string "x"]⟩, ⟨[.int 2, .string "y"]⟩, ⟨[.int 1, .string "x"]⟩] ∧
        (scan.drain Database.noFiles store).outcome = .ok [⟨[.int 1]⟩] ∧
        (q.drain Database.noFiles store).outcome = .ok
          [⟨[.int 1, .string "x", .int 1]⟩, ⟨[.int 1, .string "x", .int 1]⟩] ∧
        (q'.drain Database.noFiles store).outcome = .ok us ∧
        Bag.ofList [⟨[.int 1, .string "x", .int 1]⟩, ⟨[.int 1, .string "x", .int 1]⟩]
          = Bag.ofList (us.map (Tuple.lastToFront 2)) := by
  intro key store scan on
  have hleft : namedNumbers.Built :=
    .table (show makeTable _ _ = .ok namedNumbers from makeTable_eq_ok_iff.2 ⟨by decide, rfl⟩)
  have hright : scan.Built :=
    .scan (show makeScan store key = .ok scan by decide +kernel)
  have hstore : store.WellTyped := Database.wellTyped_oneRow key "a" 1
  have hls : (namedNumbers.drain Database.noFiles store).outcome = .ok
      [⟨[.int 1, .string "x"]⟩, ⟨[.int 2, .string "y"]⟩, ⟨[.int 1, .string "x"]⟩] :=
    yields_iff.1 (.table _ _)
  have hrs : (scan.drain Database.noFiles store).outcome = .ok [⟨[.int 1]⟩] :=
    yields_iff.1 (show scan.items _ _ = _ by decide +kernel)
  obtain ⟨haccepted, htuples⟩ := join_commutes hleft hright on "l" "r"
  obtain ⟨q, hq⟩ : ∃ q, makeJoin namedNumbers scan (pairsOn 2 on) "l" "r" = .ok q :=
    exists_makeJoin_iff.2 ⟨by decide +kernel, by
      intro p hp
      obtain rfl : p = (0, 0) := by simpa [on] using hp
      exact ⟨_, _, rfl, rfl, rfl⟩⟩
  obtain ⟨q', hq'⟩ := haccepted.1 ⟨q, hq⟩
  obtain ⟨ts, us, hts, hus, hbags⟩ := htuples q q' hq hq' Database.noFiles store _ _ hstore hls hrs
  have hrows : (q.drain Database.noFiles store).outcome = .ok
      [⟨[.int 1, .string "x", .int 1]⟩, ⟨[.int 1, .string "x", .int 1]⟩] := by
    obtain ⟨schema, -, -, rfl⟩ := makeJoin_pairsOn_iff.1 hq
    have hjoin := (yields_iff.2 hls).join (yields_iff.2 hrs) (pairsOn 2 on) schema
    rwa [show List.flatMap _ _ = [⟨[.int 1, .string "x", .int 1]⟩, ⟨[.int 1, .string "x", .int 1]⟩]
      by decide +kernel, yields_iff] at hjoin
  obtain rfl := Except.ok.inj (hts.symm.trans hrows)
  exact ⟨hleft, hright, hstore, q, q', us, hq, hq', hls, hrs, hrows, hus, hbags⟩

end Query

end BagQuery

import BagQuery.Proofs.ExpressionTyping
import BagQuery.Proofs.Modes
import BagQuery.Proofs.PairClosure

/-!
# The closure program

A program with one loop that joins what is new with the edges, until nothing is new
(`Program.closureText`).  On any table of edges it is completed, and it puts out the pairs that
paths over the edges go between, no matter how often it puts them out
(`Program.closure_correct`).

The statements are followed in lazy mode, where a name is bound to a query: `Session.Gives` says
which bag an expression is for, whatever plan it is bound to, so that each operator needs one
lemma and each assignment the same one (`Session.Unstored.assign`).  The four statements of the
loop are then a pass in the sense of `Closing` (`Session.Reaching.pass`), and the induction over the
turns is on the room that is left.  Eager mode follows, as there are no limits and no files.

One thing stands in the way of the count of passes.  The edges are the first frontier, and they may
be listed twice; only from the second turn on does the frontier hold each pair once.
-/

open Relation (TransGen)

namespace BagQuery

open Closing (news meeting extend)

/-! ## Tuples of pairs -/

/-- A pair of numbers as a tuple. -/
def Tuple.pair (p : Int64 × Int64) : Tuple := ⟨[.int p.1, .int p.2]⟩

/-- Two pairs as one tuple. -/
def Tuple.twoPairs (p : (Int64 × Int64) × (Int64 × Int64)) : Tuple :=
  (Tuple.pair p.1).append (Tuple.pair p.2)

theorem Tuple.pair_injective : Function.Injective Tuple.pair := by
  rintro ⟨a, b⟩ ⟨a', b'⟩ h
  simp only [Tuple.pair, Tuple.mk.injEq, List.cons.injEq, Atom.int.injEq, and_true] at h
  exact Prod.ext h.1 h.2

theorem Stream.agrees_twoPairs {d e : Int64 × Int64} :
    Stream.Agrees [(1, 2)] (Tuple.twoPairs (d, e)) ↔ d.2 = e.1 := by
  simp [Stream.Agrees, Tuple.twoPairs, Tuple.pair, Tuple.append, Tuple.get?]

theorem Schema.nodup_pair : ["src", "dst"].Nodup := by decide

/-- The columns of a pair. -/
def Schema.pair : Schema := ⟨[⟨"src", .int⟩, ⟨"dst", .int⟩], nodup_pair⟩

/-- The columns of two pairs under names for each of them. -/
def Schema.twoPairs : Schema :=
  ⟨[⟨"Delta.src", .int⟩, ⟨"Delta.dst", .int⟩, ⟨"Edge.src", .int⟩, ⟨"Edge.dst", .int⟩], by decide⟩

namespace Session

variable {c : Settings} {s : Session} {x : Expr} {schema : Schema} {bag : Multiset Tuple}

/-- In the session the expression is a query of the schema for the bag, over nothing stored. -/
def Gives (c : Settings) (s : Session) (x : Expr) (schema : Schema) (bag : Multiset Tuple) : Prop :=
  ∃ q ts, x.analyze s.bindings = .ok q ∧ q.schema = schema ∧ q.Yields c.env .empty ts ∧
    (ts : Multiset Tuple) = bag

/-- Nothing is stored, and what is bound is something. -/
structure Unstored (c : Settings) (s : Session) : Prop where
  empty : s.database.store = .empty
  yields : ∀ name q, s.bindings.get? name = some q → ∃ ts, q.Yields c.env .empty ts

theorem Unstored.fresh (c : Settings) : Unstored c .fresh := ⟨rfl, nofun⟩

theorem Unstored.reading (h : s.Unstored c) (n : Nat) : (s.reading n).Unstored c :=
  ⟨h.empty, h.yields⟩

/-- What is bound is no scan. -/
theorem Unstored.no_scan (h : s.Unstored c) (name : String) (key : Key) (schema : Schema) :
    s.bindings.get? name ≠ some (.scan key schema) := by
  intro hscan
  obtain ⟨ts, hts⟩ := h.yields name _ hscan
  cases hts

/-- **A lazy assignment binds the bag of its expression**, and leaves the other names alone. -/
theorem Unstored.assign (hmode : c.mode = .lazy) (h : s.Unstored c) (hx : s.Gives c x schema bag)
    (name : String) :
    ∃ s' : Session, s.assign c name x = .completed s' ∧ s'.Unstored c ∧
      s'.Gives c (.reference name) schema bag ∧
      ∀ other schema bag, other ≠ name → s.Gives c (.reference other) schema bag →
        s'.Gives c (.reference other) schema bag := by
  obtain ⟨q, ts, hq, hschema, hts, hbag⟩ := hx
  have hself : (s.bind c name q).bindings.get? name = some q := by
    rw [bindings_bind, Dictionary.get?_insert_self]
  have hother {other : String} (hne : other ≠ name) :
      (s.bind c name q).bindings.get? other = s.bindings.get? other := by
    rw [bindings_bind, Dictionary.get?_insert_of_ne hne]
  refine ⟨s.bind c name q, ?_, ⟨?_, fun other r hr => ?_⟩, ?_,
    fun other schema bag hne hgives => ?_⟩
  · rw [Session.assign, hq, hmode]
  · rw [database_bind_of_no_scan (h.no_scan name)]
    exact h.empty
  · by_cases hne : other = name
    · subst hne
      rw [hself] at hr
      cases hr
      exact ⟨ts, hts⟩
    · rw [hother hne] at hr
      exact h.yields other r hr
  · refine ⟨q, ts, ?_, hschema, hts, hbag⟩
    rw [Expr.analyze, Bindings.resolve, hself]
  · obtain ⟨r, us, hr, hgives⟩ := hgives
    refine ⟨r, us, ?_, hgives⟩
    rw [Expr.analyze, Bindings.resolve] at hr ⊢
    rwa [hother hne]

/-- The tuples of an expression are those of its bag. -/
theorem Gives.tuplesOf (hx : s.Gives c x schema bag) (h : s.Unstored c) :
    ∃ q ts n, s.tuplesOf c x = (.ok (q, ts), s.reading n) ∧ q.schema = schema ∧
      (ts : Multiset Tuple) = bag := by
  obtain ⟨q, ts, hq, hschema, hts, hbag⟩ := hx
  obtain ⟨n, hn⟩ := tuplesOf_reads c x s
  refine ⟨q, ts, n, Prod.ext ?_ hn, hschema, hbag⟩
  rw [tuplesOf_outcome, hq, h.empty]
  show ((q.drain c.env .empty).outcome.map (q, ·)) = _
  rw [Query.yields_iff.1 hts]
  rfl

/-! ### Expressions -/

theorem gives_table (E : List (Int64 × Int64)) :
    s.Gives c (.table (E.map Tuple.pair) Schema.pair.columns) .pair
      ((E : Multiset (Int64 × Int64)).map Tuple.pair) := by
  refine ⟨.table (E.map Tuple.pair) .pair, E.map Tuple.pair, ?_, rfl, .table _ _, rfl⟩
  refine Attempt.bind_eq_ok_iff.2 ⟨.pair, rfl, Query.makeTable_eq_ok_iff.2 ⟨fun t ht => ?_, rfl⟩⟩
  obtain ⟨p, -, rfl⟩ := List.mem_map.1 ht
  rfl

theorem gives_join {D E : Multiset (Int64 × Int64)}
    (hdelta : s.Gives c (.reference "Delta") .pair (D.map Tuple.pair))
    (hedge : s.Gives c (.reference "Edge") .pair (E.map Tuple.pair)) :
    s.Gives c (.join ⟨"Delta", ["dst"]⟩ ⟨"Edge", ["src"]⟩) .twoPairs
      ((meeting E D).map Tuple.twoPairs) := by
  obtain ⟨d, ds, hd, hdschema, hds, hdbag⟩ := hdelta
  obtain ⟨e, es, he, heschema, hes, hebag⟩ := hedge
  refine ⟨.join d e [(1, 2)] .twoPairs, _, ?_, rfl, hds.join hes _ _, ?_⟩
  · refine Attempt.bind_eq_ok_iff.2 ⟨d, hd, Attempt.bind_eq_ok_iff.2 ⟨e, he, ?_⟩⟩
    rw [hdschema, heschema]
    refine Attempt.bind_eq_ok_iff.2 ⟨[(1, 2)], by decide +kernel, ?_⟩
    refine Query.makeJoin_eq_ok_iff.2 ⟨.twoPairs, ?_, ?_, rfl⟩
    · rw [hdschema, heschema]
      decide +kernel
    · rw [hdschema]
      decide +kernel
  · rw [← Multiset.coe_bind, hdbag, Multiset.bind_map, meeting, Multiset.map_bind]
    refine Multiset.bind_congr fun d _ => ?_
    rw [Stream.pairs, ← Multiset.filter_coe, ← Multiset.map_coe, hebag, Multiset.map_map,
      Multiset.filter_map, Multiset.map_map]
    exact congrArg (Multiset.map _) (Multiset.filter_congr fun e _ => Stream.agrees_twoPairs)

theorem gives_foreach {K : Multiset ((Int64 × Int64) × (Int64 × Int64))}
    (hjoin : s.Gives c (.reference "J") .twoPairs (K.map Tuple.twoPairs)) :
    s.Gives c (.foreach "J" ["Delta.src", "Edge.dst"] (some Schema.pair.columns)) .pair
      ((K.map fun p => (p.1.1, p.2.2)).map Tuple.pair) := by
  obtain ⟨q, ts, hq, hschema, hts, hbag⟩ := hjoin
  have hselect : ∀ t ∈ ts, (t.select? [0, 3]).isSome := by
    intro t ht
    rw [← Multiset.mem_coe, hbag] at ht
    obtain ⟨p, -, rfl⟩ := Multiset.mem_map.1 ht
    rfl
  refine ⟨.foreach q [0, 3] .pair, _, ?_, rfl, hts.foreach hselect _, ?_⟩
  · refine Attempt.bind_eq_ok_iff.2 ⟨q, hq, ?_⟩
    rw [hschema]
    refine Attempt.bind_eq_ok_iff.2 ⟨[0, 3], by decide +kernel, ?_⟩
    refine Attempt.bind_eq_ok_iff.2 ⟨.pair, rfl, Query.makeForeach_some_iff.2 ?_⟩
    rw [hschema]
    exact ⟨[⟨"Delta.src", .int⟩, ⟨"Edge.dst", .int⟩], by decide +kernel, rfl, rfl⟩
  · show Multiset.filterMap (fun t => t.select? [0, 3]) (ts : Multiset Tuple) = _
    rw [hbag, Multiset.filterMap_map, Multiset.map_map, ← Multiset.filterMap_eq_map]
    rfl

variable {left right : String} {bag' : Multiset Tuple}

theorem gives_union (hleft : s.Gives c (.reference left) schema bag)
    (hright : s.Gives c (.reference right) schema bag') :
    s.Gives c (.setOp .union left right) schema (bag + bag') := by
  obtain ⟨l, ls, hl, rfl, hls, rfl⟩ := hleft
  obtain ⟨r, rs, hr, hschema, hrs, rfl⟩ := hright
  refine ⟨.setOp .union l r, _, ?_, rfl, hls.union hrs, rfl⟩
  refine Attempt.bind_eq_ok_iff.2 ⟨l, hl, Attempt.bind_eq_ok_iff.2 ⟨r, hr, ?_⟩⟩
  exact Query.makeSetOp_eq_ok_iff.2 ⟨congrArg Schema.types hschema.symm, rfl⟩

theorem gives_diff (hleft : s.Gives c (.reference left) schema bag)
    (hright : s.Gives c (.reference right) schema bag') :
    s.Gives c (.setOp .diff left right) schema (bag - bag') := by
  obtain ⟨l, ls, hl, rfl, hls, rfl⟩ := hleft
  obtain ⟨r, rs, hr, hschema, hrs, rfl⟩ := hright
  refine ⟨.setOp .diff l r, _, ?_, rfl, hls.diff hrs, ?_⟩
  · refine Attempt.bind_eq_ok_iff.2 ⟨l, hl, Attempt.bind_eq_ok_iff.2 ⟨r, hr, ?_⟩⟩
    exact Query.makeSetOp_eq_ok_iff.2 ⟨congrArg Schema.types hschema.symm, rfl⟩
  · rw [Multiset.coe_eq_coe.2 (Tuple.sorted_perm _), Multiset.coe_sub]

theorem gives_distinct (hx : s.Gives c x schema bag) :
    s.Gives c (.distinct x) schema bag.dedup := by
  obtain ⟨q, ts, hq, hschema, hts, rfl⟩ := hx
  obtain ⟨us, hus, hnodup, hmem⟩ := hts.distinct
  refine ⟨.distinct q, us, Attempt.bind_eq_ok_iff.2 ⟨q, hq, rfl⟩, hschema, hus, ?_⟩
  rw [Multiset.Nodup.ext (Multiset.coe_nodup.2 hnodup) (Multiset.nodup_dedup _)]
  intro t
  rw [Multiset.mem_dedup, Multiset.mem_coe, Multiset.mem_coe, hmem]

end Session

/-! ## The program -/

theorem Statement.runAll_of_completed {c : Settings} {passes : Nat} {st : Statement}
    {rest : List Statement} {s s' : Session} (h : st.run c passes s = .completed s') :
    Statement.runAll c passes (st :: rest) s = Statement.runAll c passes rest s' := by
  show (st.run c passes s).andThen _ = _
  rw [h, Outcome.andThen_of_completed rfl]
  rfl

namespace Program

/-- The text of the program. -/
def closureText : String :=
  "Reach = Edge; Delta = Edge;
DO
  J = JOIN Delta BY dst, Edge BY src;
  New = FOREACH J EMIT (Delta.src, Edge.dst) AS (src:int, dst:int);
  Delta = DISTINCT DIFF New, Reach;
  Reach = UNION Reach, Delta;
WHILE Delta;
DUMP Reach;"

/-- A pass. -/
def closurePass : Program :=
  [.assign "J" (.join ⟨"Delta", ["dst"]⟩ ⟨"Edge", ["src"]⟩),
    .assign "New" (.foreach "J" ["Delta.src", "Edge.dst"] (some Schema.pair.columns)),
    .assign "Delta" (.distinct (.setOp .diff "New" "Reach")),
    .assign "Reach" (.setOp .union "Reach" "Delta")]

/-- The program. -/
def closure : Program :=
  [.assign "Reach" (.reference "Edge"),
    .assign "Delta" (.reference "Edge"),
    .doWhile closurePass (.reference "Delta"),
    .dump (.reference "Reach")]

set_option maxRecDepth 4000 in
theorem parse_closureText : parse closureText = .ok closure := by
  with_unfolding_all rfl

end Program

namespace Session

/-- In the session `Edge` is bound to the edges, `Reach` to the pairs that were reached from them,
and `Delta` to those that have not been taken further. -/
structure Reaching (c : Settings) (E D R : Multiset (Int64 × Int64)) (s : Session) : Prop where
  unstored : s.Unstored c
  edge : s.Gives c (.reference "Edge") .pair (E.map Tuple.pair)
  delta : s.Gives c (.reference "Delta") .pair (D.map Tuple.pair)
  reach : s.Gives c (.reference "Reach") .pair (R.map Tuple.pair)

variable {c : Settings} {E D R : Multiset (Int64 × Int64)} {s : Session}

theorem Reaching.reading (h : s.Reaching c E D R) (n : Nat) : (s.reading n).Reaching c E D R :=
  ⟨h.unstored.reading n, h.edge, h.delta, h.reach⟩

/-- **The statements of the loop are a pass.** -/
theorem Reaching.pass (hmode : c.mode = .lazy) (h : s.Reaching c E D R) (passes : Nat) :
    ∃ s', Statement.runAll c passes Program.closurePass s = .completed s' ∧
      s'.Reaching c E (news E D R) (R + news E D R) := by
  obtain ⟨s₁, h₁, hs₁, hjoin, keep₁⟩ := h.unstored.assign hmode (gives_join h.delta h.edge) "J"
  have hreach₁ := keep₁ "Reach" _ _ (by decide) h.reach
  obtain ⟨s₂, h₂, hs₂, hnew, keep₂⟩ := hs₁.assign hmode (gives_foreach hjoin) "New"
  rw [Closing.map_meeting] at hnew
  have hreach₂ := keep₂ "Reach" _ _ (by decide) hreach₁
  obtain ⟨s₃, h₃, hs₃, hdelta, keep₃⟩ :=
    hs₂.assign hmode (gives_distinct (gives_diff hnew hreach₂)) "Delta"
  rw [Closing.map_news Tuple.pair_injective] at hdelta
  have hreach₃ := keep₃ "Reach" _ _ (by decide) hreach₂
  obtain ⟨s₄, h₄, hs₄, hreach, keep₄⟩ := hs₃.assign hmode (gives_union hreach₃ hdelta) "Reach"
  refine ⟨s₄, ?_, hs₄, ?_, ?_, ?_⟩
  · calc
      Statement.runAll c passes Program.closurePass s = _ := Statement.runAll_of_completed h₁
      _ = _ := Statement.runAll_of_completed h₂
      _ = _ := Statement.runAll_of_completed h₃
      _ = _ := Statement.runAll_of_completed h₄
  · have hedge₁ := keep₁ "Edge" _ _ (by decide) h.edge
    have hedge₂ := keep₂ "Edge" _ _ (by decide) hedge₁
    have hedge₃ := keep₃ "Edge" _ _ (by decide) hedge₂
    exact keep₄ "Edge" _ _ (by decide) hedge₃
  · exact keep₄ "Delta" _ _ (by decide) hdelta
  · rwa [← Multiset.map_add] at hreach

/-- **A turn of the loop is a pass**, and the last one if it adds nothing. -/
theorem Reaching.turn (hmode : c.mode = .lazy) (hlimit : c.maxIterations = none)
    (h : s.Reaching c E D R) (bound passes finished : Nat) :
    ∃ s' : Session, s'.Reaching c E (news E D R) (R + news E D R) ∧
      loop c (Statement.runAll c bound Program.closurePass) (.reference "Delta") (passes + 1)
          finished s =
        if news E D R = 0 then .completed s'
        else loop c (Statement.runAll c bound Program.closurePass) (.reference "Delta") passes
          (finished + 1) s' := by
  obtain ⟨s₁, h₁, hs₁⟩ := h.pass hmode bound
  obtain ⟨q, ts, n, htuples, -, hts⟩ := hs₁.delta.tuplesOf hs₁.unstored
  refine ⟨s₁.reading n, hs₁.reading n, ?_⟩
  rw [loop_passes, h₁, Outcome.andThen_of_completed rfl]
  dsimp only [Outcome.completed]
  rw [htuples]
  cases ts with
  | nil =>
    rw [if_pos (Multiset.map_eq_zero.1 hts.symm)]
    rfl
  | cons t ts =>
    have hnews : news E D R ≠ 0 := by
      intro hnone
      rw [hnone] at hts
      cases (Multiset.coe_eq_zero _).1 hts
    rw [if_neg hnews]
    dsimp only
    rw [hlimit]
    rfl

/-- **The loop ends with the pairs that can be reached**, in fewer turns than there is room. -/
theorem Reaching.turns (hmode : c.mode = .lazy) (hlimit : c.maxIterations = none)
    (h : s.Reaching c E D R) (hclosing : Closing E D R) (hD : D.Nodup) (bound : Nat)
    {passes : Nat} (hpasses : Closing.room E R < passes) (finished : Nat) :
    ∃ (s' : Session) (R' : Multiset (Int64 × Int64)), s'.Reaching c E 0 R' ∧
      Closing.Leads E D R R' ∧
      loop c (Statement.runAll c bound Program.closurePass) (.reference "Delta") passes
        finished s = .completed s' := by
  induction passes generalizing s D R finished with
  | zero => exact absurd hpasses (Nat.not_lt_zero _)
  | succ passes ih =>
    obtain ⟨s₁, hs₁, hturn⟩ := h.turn hmode hlimit bound passes finished
    by_cases hnews : news E D R = 0
    · rw [if_pos hnews] at hturn
      rw [hnews, Multiset.add_zero] at hs₁
      exact ⟨s₁, R, hs₁, .last hnews, hturn⟩
    · rw [if_neg hnews] at hturn
      have hroom := Closing.room_lt hclosing hD hnews
      obtain ⟨s', R', hs', hleads, hrest⟩ :=
        ih hs₁ hclosing.pass (Multiset.nodup_dedup _) (by omega) (finished + 1)
      exact ⟨s', R', hs', .pass hleads, hturn.trans hrest⟩

/-- **From the edges alone the loop ends as well.**  They may be listed twice, so only what the
first turn leaves is a frontier that holds each pair once. -/
theorem Reaching.turns_of_edges (hmode : c.mode = .lazy) (hlimit : c.maxIterations = none)
    (h : s.Reaching c E E E) (bound : Nat) {passes : Nat} (hpasses : E.card ^ 3 + 2 ≤ passes) :
    ∃ (s' : Session) (R' : Multiset (Int64 × Int64)), s'.Reaching c E 0 R' ∧
      Closing.Leads E E E R' ∧
      loop c (Statement.runAll c bound Program.closurePass) (.reference "Delta") passes 0 s =
        .completed s' := by
  obtain ⟨passes, rfl⟩ := Nat.exists_eq_add_of_le' (Nat.le_of_add_left_le hpasses)
  obtain ⟨s₁, hs₁, hturn⟩ := h.turn hmode hlimit bound (passes + 1) 0
  by_cases hnews : news E E E = 0
  · rw [if_pos hnews] at hturn
    rw [hnews, Multiset.add_zero] at hs₁
    exact ⟨s₁, E, hs₁, .last hnews, hturn⟩
  · rw [if_neg hnews] at hturn
    have hroom : Closing.room E (E + news E E E) < passes + 1 := by
      have hcube := Closing.room_le E (E + news E E E)
      omega
    obtain ⟨s', R', hs', hleads, hrest⟩ := hs₁.turns hmode hlimit (Closing.start E).pass
      (Multiset.nodup_dedup _) bound hroom 1
    exact ⟨s', R', hs', .pass hleads, hturn.trans hrest⟩

end Session

namespace Program

/-- The program on a list of edges. -/
def closureOf (E : List (Int64 × Int64)) : Program :=
  .assign "Edge" (.table (E.map Tuple.pair) Schema.pair.columns) :: closure

/-- The run is completed and puts out the pairs that paths over the edges go between. -/
def PutsOutClosure (E : List (Int64 × Int64)) (o : Outcome) : Prop :=
  o.ending = .completed ∧ ∃ tuples, o.outputs = [.dump .pair tuples] ∧
    ∀ t, t ∈ tuples ↔ ∃ a b, t = .pair (a, b) ∧ TransGen (fun a b => (a, b) ∈ E) a b

/-- In lazy mode the pairs are put out that the passes lead to. -/
theorem closureOf_run_lazy {c : Settings} (hmode : c.mode = .lazy)
    (hlimit : c.maxIterations = none) (E : List (Int64 × Int64)) {passes : Nat}
    (hpasses : E.length ^ 3 + 2 ≤ passes) :
    ∃ (s : Session) (ts : List Tuple) (R : Multiset (Int64 × Int64)),
      (closureOf E).run c passes .fresh = .emitted (.dump .pair ts) s ∧
        (ts : Multiset Tuple) = R.map Tuple.pair ∧ Closing.Leads ↑E ↑E ↑E R := by
  obtain ⟨s₁, h₁, hs₁, hedge₁, -⟩ :=
    (Session.Unstored.fresh c).assign hmode (Session.gives_table E) "Edge"
  obtain ⟨s₂, h₂, hs₂, hreach₂, keep₂⟩ := hs₁.assign hmode hedge₁ "Reach"
  have hedge₂ := keep₂ "Edge" _ _ (by decide) hedge₁
  obtain ⟨s₃, h₃, hs₃, hdelta₃, keep₃⟩ := hs₂.assign hmode hedge₂ "Delta"
  have hreaching : s₃.Reaching c E E E :=
    ⟨hs₃, keep₃ "Edge" _ _ (by decide) hedge₂, hdelta₃, keep₃ "Reach" _ _ (by decide) hreach₂⟩
  obtain ⟨s₄, R, hs₄, hleads, h₄⟩ := hreaching.turns_of_edges hmode hlimit passes hpasses
  obtain ⟨q, ts, n, htuples, hschema, hts⟩ := hs₄.reach.tuplesOf hs₄.unstored
  refine ⟨s₄.reading n, ts, R, ?_, hts, hleads⟩
  calc
    (closureOf E).run c passes .fresh = _ := Statement.runAll_of_completed h₁
    _ = _ := Statement.runAll_of_completed h₂
    _ = _ := Statement.runAll_of_completed h₃
    _ = _ := Statement.runAll_of_completed h₄
    _ = .emitted (.dump .pair ts) (s₄.reading n) := by
      show (s₄.dump .list c (.reference "Reach")).andThen _ = _
      rw [Session.dump_list, htuples, ← hschema]
      rfl

theorem closureOf_lazy {c : Settings} (hmode : c.mode = .lazy) (hlimit : c.maxIterations = none)
    (E : List (Int64 × Int64)) {passes : Nat} (hpasses : E.length ^ 3 + 2 ≤ passes) :
    PutsOutClosure E ((closureOf E).run c passes .fresh) := by
  obtain ⟨s, ts, R, hrun, hts, hleads⟩ := closureOf_run_lazy hmode hlimit E hpasses
  have hclosing := hleads.closing (.start _)
  rw [hrun]
  refine ⟨rfl, ts, rfl, fun t => ?_⟩
  rw [← Multiset.mem_coe, hts, Multiset.mem_map]
  constructor
  · rintro ⟨⟨a, b⟩, hab, rfl⟩
    exact ⟨a, b, rfl, hclosing.mem_iff.1 hab⟩
  · rintro ⟨a, b, rfl, hab⟩
    exact ⟨(a, b), hclosing.mem_iff.2 hab, rfl⟩

/-- The program has no limits, and reads no files. -/
theorem plain_closureOf (env : Environment) (E : List (Int64 × Int64)) :
    ∀ x ∈ Statement.exprsAll (closureOf E), x.LimitFree ∧ x.Readable env := by
  intro x hx
  simp only [closureOf, closure, closurePass, Statement.exprsAll, Statement.exprs,
    List.cons_append, List.nil_append, List.mem_cons, List.not_mem_nil, or_false] at hx
  rcases hx with rfl | rfl | rfl | rfl | rfl | rfl | rfl | rfl | rfl <;> exact ⟨trivial, trivial⟩

/-- **The program computes the transitive closure**, in lazy and in eager mode, whatever the edges
are, and in no more turns than the third power of their number and two. -/
theorem closure_correct (E : List (Int64 × Int64)) (c : Settings) (hlimit : c.maxIterations = none)
    (passes : Nat) (hpasses : E.length ^ 3 + 2 ≤ passes) :
    parse closureText = .ok closure ∧
      PutsOutClosure E ((closureOf E).run c passes .fresh) := by
  refine ⟨parse_closureText, ?_⟩
  cases hmode : c.mode with
  | lazy => exact closureOf_lazy hmode hlimit E hpasses
  | eager =>
    let lazy : Settings := { c with mode := .lazy }
    have hmodes : lazy.Modes c := ⟨rfl, hmode, rfl, rfl⟩
    obtain ⟨hending, ts, houtputs, hts⟩ :=
      closureOf_lazy (c := lazy) rfl hlimit E hpasses
    have hplain := plain_closureOf c.env E
    have hread : True → ∀ x ∈ Statement.exprsAll (closureOf E), x.Readable c.env :=
      fun _ x hx => (hplain x hx).2
    have hlockstep := (Statement.lockstep hmodes passes).2 (closureOf E)
      (fun x hx => (hplain x hx).1) hread [] 0 .fresh .fresh (.fresh c)
    have hagree := agree_of_lockstep hlockstep (.inl trivial)
    have hsame := hagree.outputs
    rw [houtputs] at hsame
    obtain ⟨_, _, ⟨_, hperm⟩, hnone, hus⟩ := List.forall₂_cons_left_iff.1 hsame
    rw [List.forall₂_nil_left_iff] at hnone
    rw [hnone] at hus
    refine ⟨hagree.ending.symm.trans hending, _, hus, fun t => ?_⟩
    rw [← hperm.mem_iff, hts]

/-- A cycle, a loop at one of its places, and that loop once more.  The loop is put out three
times: it comes back with the cycle. -/
theorem closure_correct_cycle :
    let edges : List (Int64 × Int64) := [(1, 2), (2, 1), (1, 1), (1, 1)]
    let ended := (closureOf edges).run .eager 66 .fresh
    Settings.eager.maxIterations = none ∧ edges.length ^ 3 + 2 ≤ 66 ∧
      parse closureText = .ok closure ∧ PutsOutClosure edges ended ∧
      ended.outputs = [.dump .pair ([(1, 1), (1, 1), (1, 1), (1, 2), (1, 2), (2, 1), (2, 1),
        (2, 1), (2, 2)].map Tuple.pair)] := by
  intro edges ended
  obtain ⟨hparse, hends⟩ := closure_correct edges .eager rfl 66 (by decide)
  exact ⟨rfl, by decide, hparse, hends, by decide +kernel⟩

end Program

end BagQuery

import BagQuery.Proofs.LazyRuns
import BagQuery.Proofs.MirroredRuns

/-!
# The order of assignments

Two assignments to different names can change places if neither name stands in the expression of
the other (`Program.assignments_commute`).  An assignment changes what its own name is bound to and
no other binding, so the other expression is analyzed to the same query; in eager mode it stores one
relation and drops another of the same name, and the query of the other expression has no scan of
either (`Session.OneRelationPerName.drain_assigned`).

In lazy mode both orders leave the same bindings.  In eager mode they leave the same relation for
every name (`Session.Holds`), under keys with other numbers; and sessions that hold the same
relations go alike for good (`Session.Mirrors.of_holds`).
-/

namespace BagQuery

theorem Outcome.completed_andThen (s : Session) (next : Session → Outcome) :
    (Outcome.completed s).andThen next = next s := rfl

theorem Outcome.andThen_completed (o : Outcome) : o.andThen .completed = o := by
  by_cases h : o.ending = .completed
  · rw [andThen_of_completed h]
    show Outcome.mk o.session (o.outputs ++ []) .completed = o
    rw [List.append_nil, ← h]
  · exact andThen_of_not_completed h _

namespace Session

variable {c : Settings} {s s' : Session}

/-! ## Lazy mode -/

theorem analyze_of_assign_completed {name : String} {x : Expr}
    (h : (s.assign c name x).ending = .completed) : ∃ q, x.analyze s.bindings = .ok q := by
  unfold assign at h
  cases hq : x.analyze s.bindings with
  | error e => rw [hq] at h; cases h
  | ok q => exact ⟨q, rfl⟩

theorem assign_lazy (hmode : c.mode = .lazy) {name : String} {x : Expr} {q : Query}
    (hq : x.analyze s.bindings = .ok q) : s.assign c name x = .completed (s.bind c name q) := by
  unfold assign
  rw [hq, hmode]

/-- Where nothing is stored, no query has a scan in it. -/
theorem Aside.of_unstored {loads : String → Prop}
    (h : ∀ name q, s.bindings.get? name = some q → ∀ leaf ∈ q.leaves, leaf.Unstored loads) :
    Aside s.database s.database s s := by
  refine ⟨rfl, fun name q hq leaf hleaf key schema hscan => ?_, rfl, rfl⟩
  have hunstored := h name q hq leaf hleaf
  rw [hscan] at hunstored
  exact hunstored

/-- Another name is bound, which the expression does not have in it. -/
theorem analyze_bind {x : Expr} {name : String} (hname : name ∉ x.names) (q : Query) :
    x.analyze (s.bind c name q).bindings = x.analyze s.bindings := by
  refine Expr.analyze_congr fun other hother => ?_
  rw [bindings_bind]
  exact Dictionary.get?_insert_of_ne fun heq => hname (heq ▸ hother)

/-! ## Eager mode -/

theorem analyze_assigned {x : Expr} {name : String} (hname : name ∉ x.names) (schema : Schema)
    (bag : Bag) :
    x.analyze (s.assigned c name schema bag).bindings = x.analyze s.bindings :=
  Expr.analyze_congr fun _ hother => get?_assigned_of_ne fun heq => hname (heq ▸ hother)

/-- **The relation that is stored for a name, and the one that is dropped, are no part of a query
without the name.** -/
theorem OneRelationPerName.drain_assigned (h : s.OneRelationPerName c) {x : Expr} {name : String}
    (hname : name ∉ x.names) {q : Query} (hq : x.analyze s.bindings = .ok q) (env : Environment)
    (schema : Schema) (bag : Bag) :
    q.drain env (s.assigned c name schema bag).database.store = q.drain env s.database.store := by
  -- the query can be had from the bindings of the other names
  have hother : x.analyze (s.bindings.erase name) = .ok q := by
    rw [← hq]
    exact Expr.analyze_congr fun other hmem =>
      Dictionary.get?_erase_of_ne fun heq => hname (heq ▸ hmem)
  refine Query.drain_congr fun key old hleaf => ?_
  refine Expr.leaves_of_analyze (P := fun leaf => ∀ key old, leaf = .scan key old →
    (s.assigned c name schema bag).database.store.get? key = s.database.store.get? key)
    ?_ (fun _ _ _ _ => nofun) (fun _ _ _ _ _ => nofun) hother _ hleaf key old rfl
  intro other r hr leaf hmem key old hscan
  have hne : other ≠ name := by
    rintro rfl
    rw [Dictionary.get?_erase_self] at hr
    cases hr
  rw [Dictionary.get?_erase_of_ne hne] at hr
  obtain ⟨n, schema', -, rfl⟩ := h.bound other r hr
  obtain rfl := List.mem_singleton.1 hmem
  cases hscan
  exact h.store_assigned_of_bound hne hr schema bag

theorem drain_of_assign_completed (hmode : c.mode = .eager) {name : String} {x : Expr}
    (h : (s.assign c name x).ending = .completed) :
    ∃ q ts, x.analyze s.bindings = .ok q ∧ (q.drain c.env s.database.store).outcome = .ok ts := by
  obtain ⟨q, hq⟩ := analyze_of_assign_completed h
  rw [assign_eager hmode, hq] at h
  dsimp only at h
  cases hts : (q.drain c.env s.database.store).outcome with
  | error e => rw [hts] at h; cases h
  | ok ts => exact ⟨q, ts, hq, hts⟩

theorem assign_eager_of_ok (hmode : c.mode = .eager) (name : String) {x : Expr} {q : Query}
    {ts : List Tuple} (hq : x.analyze s.bindings = .ok q)
    (hts : (q.drain c.env s.database.store).outcome = .ok ts) :
    ∃ n, s.assign c name x =
      .completed ((s.reading n).assigned c name q.schema (.ofList ts)) := by
  refine ⟨(q.drain c.env s.database.store).scans, ?_⟩
  rw [assign_eager hmode, hq]
  dsimp only
  rw [hts]

/-- A relation is stored for a name. -/
def Holds (c : Settings) (s : Session) (name : String) (r : Relation) : Prop :=
  ∃ n, s.bindings.get? name = some (.scan (c.key name n) r.schema) ∧
    s.database.store.get? (c.key name n) = some r

namespace OneRelationPerName

variable {name x : String} {r : Relation}

theorem unbound_or_holds (h : s.OneRelationPerName c) (name : String) :
    s.bindings.get? name = none ∨ ∃ r, s.Holds c name r := by
  rcases h.displaced name with hnone | ⟨n, schema, -, hname⟩
  · exact Or.inl hnone
  · obtain ⟨r, hr, rfl⟩ := h.schemas name _ schema hname
    exact Or.inr ⟨r, n, hname, hr⟩

theorem holds_assigned_self (h : s.OneRelationPerName c) (name : String) (schema : Schema)
    (bag : Bag) : (s.assigned c name schema bag).Holds c name ⟨schema, bag⟩ :=
  ⟨s.materialized + 1, get?_assigned_self .., h.store_assigned_self name schema bag⟩

theorem holds_assigned_of_ne (h : s.OneRelationPerName c) (hx : x ≠ name) (hr : s.Holds c x r)
    (schema : Schema) (bag : Bag) : (s.assigned c name schema bag).Holds c x r := by
  obtain ⟨n, hname, hr⟩ := hr
  exact ⟨n, (get?_assigned_of_ne hx).trans hname,
    (h.store_assigned_of_bound hx hname schema bag).trans hr⟩

end OneRelationPerName

/-- **Sessions that hold the same relations** are mirrors under any numbers. -/
theorem Mirrors.of_holds (h : s.OneRelationPerName c) (h' : s'.OneRelationPerName c)
    (hm : s'.materialized = s.materialized)
    (hheld : ∀ name, (s.bindings.get? name = none ∧ s'.bindings.get? name = none) ∨
      ∃ r, s.Holds c name r ∧ s'.Holds c name r) : Mirrors c c (fun _ _ => True) s s' := by
  refine ⟨h, h', fun name => ?_, hm⟩
  rcases hheld name with ⟨hb, hb'⟩ | ⟨r, ⟨m, hb, hr⟩, ⟨n, hb', hr'⟩⟩
  · rw [hb, hb']
    exact .none
  · rw [hb, hb']
    exact .some (.scan trivial hr hr')

/-- **Relations that are stored for two names in either order** are the same for every name. -/
theorem Mirrors.of_swapped (h : s.OneRelationPerName c) {x y : String} (hxy : x ≠ y)
    (rx ry : Relation) (m n m' n' : Nat) :
    Mirrors c c (fun _ _ => True)
      ((((s.reading m).assigned c x rx.schema rx.bag).reading n).assigned c y ry.schema ry.bag)
      ((((s.reading m').assigned c y ry.schema ry.bag).reading n').assigned c x rx.schema
        rx.bag) := by
  have hx := ((h.reading m).assigned x rx.schema rx.bag).reading n
  have hy := ((h.reading m').assigned y ry.schema ry.bag).reading n'
  have hsx := (h.reading m).holds_assigned_self x rx.schema rx.bag
  have hsy := (h.reading m').holds_assigned_self y ry.schema ry.bag
  refine .of_holds (hx.assigned y _ _) (hy.assigned x _ _) ?_ fun name => ?_
  · have hcount (t : Session) (k : Nat) (name : String) (r : Relation) :
        ((t.reading k).assigned c name r.schema r.bag).materialized = t.materialized + 1 :=
      materialized_assigned ..
    rw [hcount, hcount, hcount, hcount]
  · by_cases hnx : name = x
    · subst hnx
      exact Or.inr ⟨rx, hx.holds_assigned_of_ne hxy hsx _ _, hy.holds_assigned_self ..⟩
    by_cases hny : name = y
    · subst hny
      exact Or.inr ⟨ry, hx.holds_assigned_self .., hy.holds_assigned_of_ne hxy.symm hsy _ _⟩
    rcases h.unbound_or_holds name with hnone | ⟨r, hr⟩
    · left
      constructor
      · exact (get?_assigned_of_ne hny).trans ((get?_assigned_of_ne hnx).trans hnone)
      · exact (get?_assigned_of_ne hnx).trans ((get?_assigned_of_ne hny).trans hnone)
    · right
      have hr₁ := (h.reading m).holds_assigned_of_ne hnx hr rx.schema rx.bag
      have hr₂ := (h.reading m').holds_assigned_of_ne hny hr ry.schema ry.bag
      exact ⟨r, hx.holds_assigned_of_ne hny hr₁ _ _, hy.holds_assigned_of_ne hnx hr₂ _ _⟩

/-! ## Both orders -/

/-- **In lazy mode both orders bind the same queries**, and none of them is over a store. -/
theorem Aside.of_swapped (hmode : c.mode = .lazy) {db : Database} (h : Aside db db s s)
    {x y : String} {ex ey : Expr} (hxy : x ≠ y) (hx : x ∉ ey.names) (hy : y ∉ ex.names)
    (hcompleted : ((s.assign c x ex).andThen (assign c y ey)).ending = .completed) :
    ((s.assign c y ey).andThen (assign c x ex)).ending = .completed ∧
      Aside db db ((s.assign c x ex).andThen (assign c y ey)).session
        ((s.assign c y ey).andThen (assign c x ex)).session := by
  obtain ⟨p, hp⟩ := analyze_of_assign_completed (Outcome.of_andThen_completed hcompleted).1
  rw [assign_lazy hmode hp, Outcome.completed_andThen] at hcompleted
  obtain ⟨q, hq'⟩ := analyze_of_assign_completed hcompleted
  have hq : ey.analyze s.bindings = .ok q := (analyze_bind hx p).symm.trans hq'
  have hp' : ex.analyze (s.bind c y q).bindings = .ok p := (analyze_bind hy q).trans hp
  rw [assign_lazy hmode hp, assign_lazy hmode hq, Outcome.completed_andThen,
    Outcome.completed_andThen, assign_lazy hmode hq', assign_lazy hmode hp']
  have hpfree := h.analyze p hp
  have hqfree := h.analyze q hq
  have hleft := (h.bind c c x hpfree).bind c c y hqfree
  have hright := (h.bind c c y hqfree).bind c c x hpfree
  refine ⟨rfl, ?_, hleft.scanFree, hleft.database, hright.database⟩
  show ((s.bind c y q).bind c x p).bindings = ((s.bind c x p).bind c y q).bindings
  rw [bindings_bind, bindings_bind, bindings_bind, bindings_bind]
  exact Dictionary.insert_comm hxy.symm ..

/-- **In eager mode both orders store the same relations.** -/
theorem Mirrors.of_swapped_assigns (hmode : c.mode = .eager) (h : s.OneRelationPerName c)
    {x y : String} {ex ey : Expr} (hxy : x ≠ y) (hx : x ∉ ey.names) (hy : y ∉ ex.names)
    (hcompleted : ((s.assign c x ex).andThen (assign c y ey)).ending = .completed) :
    ((s.assign c y ey).andThen (assign c x ex)).ending = .completed ∧
      Mirrors c c (fun _ _ => True) ((s.assign c x ex).andThen (assign c y ey)).session
        ((s.assign c y ey).andThen (assign c x ex)).session := by
  obtain ⟨p, ts, hp, hts⟩ :=
    drain_of_assign_completed hmode (Outcome.of_andThen_completed hcompleted).1
  obtain ⟨m, hm⟩ := assign_eager_of_ok hmode x hp hts
  rw [hm, Outcome.completed_andThen] at hcompleted ⊢
  obtain ⟨q, us, hq', hus'⟩ := drain_of_assign_completed hmode hcompleted
  obtain ⟨n, hn⟩ := assign_eager_of_ok hmode y hq' hus'
  -- the second expression sees nothing of the first assignment
  rw [analyze_assigned hx] at hq'
  rw [(h.reading m).drain_assigned hx hq'] at hus'
  obtain ⟨n', hn'⟩ := assign_eager_of_ok (s := s) hmode y hq' hus'
  rw [hn', Outcome.completed_andThen]
  -- and the first one nothing of the second
  let t := (s.reading n').assigned c y q.schema (.ofList us)
  have hp' : ex.analyze t.bindings = .ok p := (analyze_assigned hy _ _).trans hp
  have hts' : (p.drain c.env t.database.store).outcome = .ok ts := by
    rw [(h.reading n').drain_assigned hy hp]
    exact hts
  obtain ⟨m', hm'⟩ := assign_eager_of_ok hmode x hp' hts'
  rw [hn, hm']
  exact ⟨rfl, .of_swapped h hxy ⟨p.schema, .ofList ts⟩ ⟨q.schema, .ofList us⟩ m n n' m'⟩

end Session

/-! ## Runs behind them -/

theorem Program.run_pair (c : Settings) (passes : Nat) (x y : String) (ex ey : Expr)
    (s : Session) : run c passes [.assign x ex, .assign y ey] s =
      (s.assign c x ex).andThen (Session.assign c y ey) :=
  congrArg (s.assign c x ex).andThen (funext fun _ => Outcome.andThen_completed _)

/-- **Independent assignments commute.**  In a session that programs left, whether or not they
failed, two assignments to different names are completed, and neither expression has the name of
the other assignment in it.  Then they are completed in the other order too, and whatever programs
are run afterwards, the next one ends in the same way and with the same outputs behind both orders:
in eager mode up to the numbers in the keys that are explained. -/
theorem Program.assignments_commute {c : Settings} {loads : String → Prop} {s : Session}
    (hs : s.Reached c loads) {x y : String} {ex ey : Expr} (hxy : x ≠ y) (hx : x ∉ ey.names)
    (hy : y ∉ ex.names) (passes : Nat)
    (h : (run c passes [.assign x ex, .assign y ey] s).ending = .completed) :
    let o := run c passes [.assign x ex, .assign y ey] s
    let o' := run c passes [.assign y ey, .assign x ex] s
    o'.ending = .completed ∧
      ∀ (passes : Nat) (earlier : List Program) (program : Program),
        let r := program.run c passes (o.session.runEach c passes earlier)
        let r' := program.run c passes (o'.session.runEach c passes earlier)
        r'.ending = r.ending ∧
          (c.mode = .lazy → r'.outputs = r.outputs) ∧
          (c.mode = .eager →
            List.Forall₂ (Output.Mirrored c c fun _ _ => True) r.outputs r'.outputs) := by
  rw [run_pair] at h
  rw [run_pair, run_pair]
  intro o o'
  cases hs.sound with
  | lazy hmode _ _ hleaves =>
    obtain ⟨hcompleted, hfinal⟩ := (Session.Aside.of_unstored hleaves).of_swapped hmode hxy hx hy h
    refine ⟨hcompleted, fun passes earlier program => ?_⟩
    have hsim := Session.Aside.simulation hmode hmode rfl rfl s.database s.database
    have hrelated := hsim.run passes program (hsim.runEach passes earlier hfinal)
    refine ⟨hrelated.ending.symm, fun _ => ?_, fun hmode' => ?_⟩
    · exact List.forall₂_eq_eq_eq ▸ hrelated.outputs.flip.imp fun _ _ hout => hout.1
    · rw [hmode] at hmode'
      cases hmode'
  | eager hmode hstored _ =>
    obtain ⟨hcompleted, hfinal⟩ :=
      Session.Mirrors.of_swapped_assigns hmode hstored hxy hx hy h
    refine ⟨hcompleted, fun passes earlier program => ?_⟩
    have hsim := Session.Mirrors.simulation hmode hmode rfl rfl (fun _ _ => True) fun _ => trivial
    have hrelated := hsim.run passes program (hsim.runEach passes earlier hfinal)
    refine ⟨hrelated.ending.symm, fun hmode' => ?_, fun _ => hrelated.outputs⟩
    rw [hmode] at hmode'
    cases hmode'

/-! ### Names that are bound again -/

/-- Binds two names to a row each, and fails. -/
def Program.twoRows : Program :=
  [.assign "x" (.table [⟨[.int 1]⟩] [⟨"n", .int⟩]),
    .assign "y" (.table [⟨[.int 2]⟩] [⟨"n", .int⟩]),
    .dump (.reference "z")]

/-- Each name is bound to a query on itself, and the key of the first one shows the order. -/
theorem Program.assignments_commute_twoRows :
    let c := Settings.eager
    let s := (twoRows.run c 1 .fresh).session
    let x : Statement := .assign "x" (.setOp .union "x" "x")
    let y : Statement := .assign "y" (.distinct (.reference "y"))
    let o := Program.run c 1 [x, y] s
    let o' := Program.run c 1 [y, x] s
    let program : Program := [.explain "x", .dump (.setOp .union "x" "y")]
    let dumped : Output := .dump Query.numbers [⟨[.int 1]⟩, ⟨[.int 1]⟩, ⟨[.int 2]⟩]
    s.Reached c (fun _ => False) ∧ "x" ≠ "y" ∧ o.ending = .completed ∧ o'.ending = .completed ∧
      List.Forall₂ (Output.Mirrored c c fun _ _ => True) (program.run c 1 o.session).outputs
        (program.run c 1 o'.session).outputs ∧
      (program.run c 1 o.session).outputs =
        [.explain "x" (.scan (c.key "x" 3) Query.numbers), dumped] ∧
      (program.run c 1 o'.session).outputs =
        [.explain "x" (.scan (c.key "x" 4) Query.numbers), dumped] := by
  intro c s x y o o' program dumped
  have hreached : s.Reached c (fun _ => False) :=
    .run .fresh 1 .list fun _ h => nomatch (h : _ ∈ Statement.pathsAll twoRows)
  have hcompleted : o.ending = .completed := by decide +kernel
  obtain ⟨hcompleted', hafter⟩ := assignments_commute hreached (x := "x") (y := "y") (by decide)
    (by decide) (by decide) 1 hcompleted
  refine ⟨hreached, by decide, hcompleted, hcompleted', (hafter 1 [] program).2.2 rfl, ?_, ?_⟩
  · decide +kernel
  · decide +kernel

end BagQuery

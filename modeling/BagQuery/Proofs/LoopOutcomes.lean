import BagQuery.Proofs.LoopUnrolling
import BagQuery.Proofs.RunFaults

/-!
# What a loop comes to

Behind the passes of a loop its condition is a non-empty bag (`Session.Again`) until the loop ends.
It is completed behind the first pass with an empty condition (`Session.Converges`), it fails where
the body or the condition does, and it fails over the limit behind pass number `max 1 limit` if that
condition is non-empty, too.  A loop in the body that comes to the limit is a body that fails, so
the error alone does not tell the two apart.  This is said of the body written out
(`Program.Unrolls`), and it is all that a loop can come to (`Statement.doWhile_unrolls`).
-/

namespace BagQuery

open Attempt

namespace Session

variable {c : Settings} {passes : Nat} {body : Program} {condition : Expr} {s : Session}

/-! ## Conditions -/

/-- The tuples of the condition of a loop. -/
def found (c : Settings) (condition : Expr) (s : Session) : Except Error (List Tuple) :=
  (s.tuplesOf c condition).1.map Prod.snd

theorem test_eq (c : Settings) (condition : Expr) (finished : Nat) (s : Session) :
    (s.test c condition finished).1 =
      s.found c condition >>= verdict c.maxIterations finished := by
  unfold test found
  cases (s.tuplesOf c condition).1 <;> rfl

theorem test_eq_true_iff {finished : Nat} :
    (s.test c condition finished).1 = .ok true ↔
      (∃ ts, s.found c condition = .ok ts ∧ ts ≠ []) ∧
        ∀ limit, c.maxIterations = some limit → finished + 1 < limit := by
  rw [test_eq, bind_eq_ok_iff]
  constructor
  · rintro ⟨ts, hts, h⟩
    obtain ⟨hne, hbelow⟩ := verdict_eq_true_iff.1 h
    exact ⟨⟨ts, hts, hne⟩, hbelow⟩
  · rintro ⟨⟨ts, hts, hne⟩, hbelow⟩
    exact ⟨ts, hts, verdict_eq_true_iff.2 ⟨hne, hbelow⟩⟩

theorem test_eq_false_iff {finished : Nat} :
    (s.test c condition finished).1 = .ok false ↔ s.found c condition = .ok [] := by
  rw [test_eq, bind_eq_ok_iff]
  constructor
  · rintro ⟨ts, hts, h⟩
    rw [verdict_eq_false_iff.1 h] at hts
    exact hts
  · intro h
    exact ⟨[], h, rfl⟩

theorem test_eq_error_iff {finished : Nat} {e : Error} :
    (s.test c condition finished).1 = .error e ↔ s.found c condition = .error e ∨
      (∃ ts, s.found c condition = .ok ts ∧ ts ≠ []) ∧
        ∃ limit, c.maxIterations = some limit ∧ limit ≤ finished + 1 ∧ e = .iterationLimit limit := by
  rw [test_eq, bind_eq_error_iff]
  refine or_congr_right ?_
  constructor
  · rintro ⟨ts, hts, h⟩
    obtain ⟨hne, hlimit⟩ := verdict_eq_error_iff.1 h
    exact ⟨⟨ts, hts, hne⟩, hlimit⟩
  · rintro ⟨⟨ts, hts, hne⟩, hlimit⟩
    exact ⟨ts, hts, verdict_eq_error_iff.2 ⟨hne, hlimit⟩⟩

theorem testOutcome_of_ok {finished : Nat} {b : Bool}
    (h : (s.test c condition finished).1 = .ok b) :
    ∃ n, s.testOutcome c condition finished = .completed (s.reading n) := by
  obtain ⟨n, hn⟩ := test_reads c condition finished s
  have htest : s.test c condition finished = (.ok b, s.reading n) := Prod.ext h hn
  exact ⟨n, by rw [testOutcome, htest]⟩

theorem testOutcome_of_error {finished : Nat} {e : Error}
    (h : (s.test c condition finished).1 = .error e) :
    ∃ n, s.testOutcome c condition finished = .failed e (s.reading n) := by
  obtain ⟨n, hn⟩ := test_reads c condition finished s
  have htest : s.test c condition finished = (.error e, s.reading n) := Prod.ext h hn
  exact ⟨n, by rw [testOutcome, htest]⟩

theorem ending_testOutcome_ne_unfinished (c : Settings) (condition : Expr) (finished : Nat)
    (s : Session) : (s.testOutcome c condition finished).ending ≠ .unfinished := by
  unfold testOutcome
  split <;> exact nofun

/-- The limit is no failure of a condition. -/
theorem found_ne_iterationLimit (c : Settings) (condition : Expr) (s : Session) (limit : Nat) :
    s.found c condition ≠ .error (.iterationLimit limit) := by
  intro h
  have htuples : (s.tuplesOf c condition).1 = .error (.iterationLimit limit) := by
    unfold found at h
    cases hs : (s.tuplesOf c condition).1 with
    | error e => rw [hs] at h; cases h; rfl
    | ok p => rw [hs] at h; cases h
  rcases tuplesOf_eq_error htuples with hanalysis | ⟨q, -, hdrain⟩
  · exact Expr.ofAnalysis_analyze _ _ _ hanalysis
  · exact Query.Fault.not_iterationLimit (Query.fault_of_drain hdrain)

/-! ## Loops without bounds -/

/-- The body can be run `j` times in a row, and then the condition is a non-empty bag. -/
def Again (c : Settings) (body : Program) (condition : Expr) (s : Session) (j : Nat) : Prop :=
  ∃ o ts, Program.Ends c (body.times j) s o ∧ o.ending = .completed ∧
    o.session.found c condition = .ok ts ∧ ts ≠ []

/-- The loop gets to its pass number `n + 1`. -/
structure GetsTo (c : Settings) (body : Program) (condition : Expr) (s : Session) (n : Nat) :
    Prop where
  limit : ∀ limit, c.maxIterations = some limit → n < max 1 limit
  again : ∀ j, 1 ≤ j → j ≤ n → s.Again c body condition j

theorem GoesOn.getsTo {n : Nat} (h : s.GoesOn c passes body condition n) :
    s.GetsTo c body condition n where
  limit limit hlimit := by
    cases n with
    | zero => omega
    | succ n =>
      have hbelow := (test_eq_true_iff.1 (h n (Nat.lt_succ_self n)).2).2 limit hlimit
      omega
  again j hj hle := by
    obtain ⟨j, rfl⟩ : ∃ i, j = i + 1 := ⟨j - 1, by omega⟩
    obtain ⟨hend, htest⟩ := h j hle
    obtain ⟨⟨ts, hts, hne⟩, -⟩ := test_eq_true_iff.1 htest
    refine ⟨_, ts, ⟨?_, passes, rfl⟩, hend, hts, hne⟩
    rw [hend]
    exact nofun

theorem GetsTo.goesOn {n : Nat} (h : s.GetsTo c body condition n)
    (hend : (Program.run c passes (body.times n) s).ending ≠ .unfinished) :
    s.GoesOn c passes body condition n := by
  intro j hj
  obtain ⟨o, ts, hends, hcompleted, hts, hne⟩ := h.again (j + 1) (by omega) hj
  rw [hends.run_eq (Program.ending_times_of_le hj hend)]
  refine ⟨hcompleted, test_eq_true_iff.2 ⟨⟨ts, hts, hne⟩, fun limit hlimit => ?_⟩⟩
  have hbelow := h.limit limit hlimit
  omega

end Session

/-- The loop ends with the outcome, and makes `k` tests. -/
def Statement.LoopEnds (c : Settings) (body : Program) (condition : Expr) (s : Session) (k : Nat)
    (o : Outcome) : Prop :=
  o.ending ≠ .unfinished ∧ ∃ passes,
    (Statement.doWhile body condition).run c passes s = o ∧
      (Step.testsAt [] ((Statement.doWhile body condition).trace c passes [] s)).length = k

namespace Statement

variable {c : Settings} {body : Program} {condition : Expr} {s : Session} {k k' n : Nat}
  {o o' : Outcome}

/-- **A loop ends in one way only.** -/
theorem LoopEnds.unique (h : LoopEnds c body condition s k o)
    (h' : LoopEnds c body condition s k' o') : k = k' ∧ o = o' := by
  obtain ⟨hend, passes, rfl, rfl⟩ := h
  obtain ⟨hend', passes', rfl, rfl⟩ := h'
  obtain ⟨hrun, htrace⟩ :=
    (run_mono c (Nat.le_max_left passes passes')).1 (.doWhile body condition) [] s hend
  obtain ⟨hrun', htrace'⟩ :=
    (run_mono c (Nat.le_max_right passes passes')).1 (.doWhile body condition) [] s hend'
  rw [← hrun, ← htrace, ← hrun', ← htrace']
  exact ⟨rfl, rfl⟩

/-- The last pass of a loop: it is not completed, or its condition ends the loop. -/
def LastPass (c : Settings) (condition : Expr) (n : Nat) (o : Outcome) : Prop :=
  o.ending ≠ .unfinished ∧
    (o.ending = .completed → (o.session.test c condition n).1 ≠ .ok true)

/-- **A loop ends behind `n` passes that ask for another and one that does not.** -/
theorem LoopEnds.last (h : LoopEnds c body condition s k o) :
    ∃ n o', s.GetsTo c body condition n ∧ Program.Ends c (body.times (n + 1)) s o' ∧
      LastPass c condition n o' ∧ k = (if o'.ending = .completed then n + 1 else n) ∧
      o.SameContents (o'.andThen (Session.testOutcome c condition n)) := by
  obtain ⟨hend, passes, rfl, rfl⟩ := h
  rw [run_doWhile] at hend ⊢
  obtain ⟨n, hn, hgoes, hlast⟩ := Session.exists_last hend
  obtain ⟨p, hp⟩ : ∃ p, passes = p + 1 + n := ⟨passes - n - 1, by omega⟩
  have hloop := Session.loop_last hgoes hlast p
  have hlength := Session.length_tests_last hgoes hlast [] p
  rw [← hp] at hloop hlength
  have hends : (Program.run c passes (body.times (n + 1)) s).ending ≠ .unfinished := by
    have hrun : ((Program.run c passes (body.times (n + 1)) s).andThen
        (Session.testOutcome c condition n)).ending ≠ .unfinished := by
      rw [← hloop.ending]
      exact hend
    exact (Outcome.of_andThen_ne_unfinished hrun).1
  exact ⟨n, _, hgoes.getsTo, ⟨hends, passes, rfl⟩, ⟨hends, hlast⟩, hlength, hloop⟩

theorem LoopEnds.of_last (h : s.GetsTo c body condition n)
    (ho : Program.Ends c (body.times (n + 1)) s o) (hlast : LastPass c condition n o) :
    ∃ o', LoopEnds c body condition s (if o.ending = .completed then n + 1 else n) o' ∧
      o'.SameContents (o.andThen (Session.testOutcome c condition n)) := by
  obtain ⟨hend, passes, rfl⟩ := ho
  -- a bound that is enough for the passes of the loop, too
  let enough := max passes (n + 1)
  have hrun := Program.run_mono (Nat.le_max_left passes (n + 1)) hend
  obtain ⟨p, hp⟩ : ∃ p, enough = p + 1 + n := ⟨enough - n - 1, by omega⟩
  have hends : (Program.run c enough (body.times (n + 1)) s).ending ≠ .unfinished := by
    rw [hrun]
    exact hend
  have hgoes : s.GoesOn c enough body condition n :=
    h.goesOn (Program.ending_times_of_le (Nat.le_succ n) hends)
  have hno : s.Last c enough body condition n := by
    unfold Session.Last
    rw [hrun]
    exact hlast.2
  have hloop := Session.loop_last hgoes hno p
  have hlength := Session.length_tests_last hgoes hno [] p
  rw [← hp, hrun] at hloop hlength
  rw [← run_doWhile] at hloop
  refine ⟨_, ⟨?_, enough, rfl, hlength⟩, hloop⟩
  rw [hloop.ending]
  by_cases hcompleted : (Program.run c passes (body.times (n + 1)) s).ending = .completed
  · rw [Outcome.andThen_of_completed hcompleted]
    exact Session.ending_testOutcome_ne_unfinished c condition n _
  · rw [Outcome.andThen_of_not_completed hcompleted]
    exact hend

end Statement

/-! ## What a loop comes to -/

/-- The outcome, but for a failure behind it. -/
def Outcome.failing (o : Outcome) (e : Error) : Outcome := { o with ending := .failed e }

namespace Outcome

variable {c : Settings} {condition : Expr} {o : Outcome} {n : Nat}

theorem andThen_testOutcome_of_ok {b : Bool} (hend : o.ending = .completed)
    (h : (o.session.test c condition n).1 = .ok b) :
    (o.andThen (Session.testOutcome c condition n)).SameContents o := by
  obtain ⟨m, hm⟩ := Session.testOutcome_of_ok h
  rw [andThen_of_completed hend]
  dsimp only
  rw [hm]
  exact ⟨.of_reading o.session m, List.append_nil _, hend.symm⟩

theorem andThen_testOutcome_of_error {e : Error} (hend : o.ending = .completed)
    (h : (o.session.test c condition n).1 = .error e) :
    (o.andThen (Session.testOutcome c condition n)).SameContents (o.failing e) := by
  obtain ⟨m, hm⟩ := Session.testOutcome_of_error h
  rw [andThen_of_completed hend]
  dsimp only
  rw [hm]
  exact ⟨.of_reading o.session m, List.append_nil _, rfl⟩

end Outcome

/-- What a loop that makes `k` tests comes to, told by its body written out. -/
inductive Program.Unrolls (c : Settings) (body : Program) (condition : Expr) (s : Session) :
    Nat → Outcome → Prop where
  /-- The condition is empty behind pass number `n + 1`, and behind none before it. -/
  | completed {n : Nat} {o : Outcome} : s.GetsTo c body condition n →
      Program.Ends c (body.times (n + 1)) s o → o.ending = .completed →
        o.session.found c condition = .ok [] → Unrolls c body condition s (n + 1) o
  /-- A statement of pass number `n + 1` fails. -/
  | bodyFailed {n : Nat} {o : Outcome} {e : Error} : s.GetsTo c body condition n →
      Program.Ends c (body.times (n + 1)) s o → o.ending = .failed e →
        Unrolls c body condition s n o
  /-- The condition fails behind pass number `n + 1`. -/
  | conditionFailed {n : Nat} {o : Outcome} {e : Error} : s.GetsTo c body condition n →
      Program.Ends c (body.times (n + 1)) s o → o.ending = .completed →
        o.session.found c condition = .error e →
          Unrolls c body condition s (n + 1) (o.failing e)
  /-- The condition is non-empty behind all passes that the limit allows. -/
  | overLimit {limit : Nat} {o : Outcome} : c.maxIterations = some limit →
      (∀ j, 1 ≤ j → j ≤ max 1 limit → s.Again c body condition j) →
        Program.Ends c (body.times (max 1 limit)) s o →
          Unrolls c body condition s (max 1 limit) (o.failing (.iterationLimit limit))

/-- The condition is empty behind pass number `k` and non-empty behind all passes before it, and
the limit allows `k` passes. -/
structure Session.Converges (c : Settings) (body : Program) (condition : Expr) (s : Session)
    (k : Nat) : Prop where
  pos : 1 ≤ k
  limit : ∀ limit, c.maxIterations = some limit → k ≤ max 1 limit
  again : ∀ j, 1 ≤ j → j < k → s.Again c body condition j
  empty : ∃ o, Program.Ends c (body.times k) s o ∧ o.ending = .completed ∧
    o.session.found c condition = .ok []

/-- A loop that is completed converges, and comes to what its passes come to. -/
theorem Program.Unrolls.of_completed {c : Settings} {body : Program} {condition : Expr}
    {s : Session} {k : Nat} {o : Outcome} (h : Unrolls c body condition s k o)
    (hend : o.ending = .completed) :
    s.Converges c body condition k ∧ Program.Ends c (body.times k) s o := by
  cases h with
  | @completed n _ hgets hends _ hempty =>
    refine ⟨⟨by omega, hgets.limit, fun j hj hlt => ?_, o, hends, hend, hempty⟩, hends⟩
    exact hgets.again j hj (by omega)
  | bodyFailed _ _ hfailed => exact absurd (hend.symm.trans hfailed) nofun
  | conditionFailed | overLimit => cases hend

namespace Statement

variable {c : Settings} {body : Program} {condition : Expr} {s : Session} {k : Nat} {o : Outcome}

theorem LoopEnds.unrolls (h : LoopEnds c body condition s k o) :
    ∃ o', Program.Unrolls c body condition s k o' ∧ o.SameContents o' := by
  obtain ⟨n, o', hgets, hends, ⟨hfinished, hlast⟩, hk, hsame⟩ := h.last
  cases hend : o'.ending with
  | unfinished => exact absurd hend hfinished
  | failed e =>
    have hnot : o'.ending ≠ .completed := by
      rw [hend]
      exact nofun
    rw [if_neg hnot] at hk
    rw [Outcome.andThen_of_not_completed hnot] at hsame
    subst hk
    exact ⟨o', .bodyFailed hgets hends hend, hsame⟩
  | completed =>
    rw [if_pos hend] at hk
    subst hk
    cases htest : (o'.session.test c condition n).1 with
    | ok again =>
      have hagain : again = false := by
        cases again with
        | false => rfl
        | true => exact absurd htest (hlast hend)
      subst hagain
      have hempty := Session.test_eq_false_iff.1 htest
      exact ⟨o', .completed hgets hends hend hempty,
        hsame.trans (Outcome.andThen_testOutcome_of_ok hend htest)⟩
    | error e =>
      refine ⟨o'.failing e, ?_, hsame.trans (Outcome.andThen_testOutcome_of_error hend htest)⟩
      rcases Session.test_eq_error_iff.1 htest with hfound | ⟨⟨ts, hts, hne⟩, limit, hlimit, hle, rfl⟩
      · exact .conditionFailed hgets hends hend hfound
      · -- this was the last pass that the limit allows
        have hbelow := hgets.limit limit hlimit
        have hn : n + 1 = max 1 limit := by omega
        rw [hn] at hends ⊢
        refine .overLimit hlimit (fun j hj hle => ?_) hends
        rcases Nat.lt_or_ge n j with hlt | hge
        · obtain rfl : j = max 1 limit := by omega
          exact ⟨o', ts, hends, hend, hts, hne⟩
        · exact hgets.again j hj hge

/-- A test that fails, be it over the limit, is the last one. -/
theorem LoopEnds.of_test_error {n : Nat} {e : Error} (hgets : s.GetsTo c body condition n)
    (hends : Program.Ends c (body.times (n + 1)) s o) (hend : o.ending = .completed)
    (htest : (o.session.test c condition n).1 = .error e) :
    ∃ o', LoopEnds c body condition s (n + 1) o' ∧ o'.SameContents (o.failing e) := by
  have hlast : LastPass c condition n o := by
    refine ⟨hends.1, fun _ => ?_⟩
    rw [htest]
    exact nofun
  obtain ⟨o', ho', hsame⟩ := of_last hgets hends hlast
  rw [if_pos hend] at ho'
  exact ⟨o', ho', hsame.trans (Outcome.andThen_testOutcome_of_error hend htest)⟩

theorem LoopEnds.of_unrolls (h : Program.Unrolls c body condition s k o) :
    ∃ o', LoopEnds c body condition s k o' ∧ o'.SameContents o := by
  cases h with
  | @completed n o hgets hends hend hempty =>
    have htest : (o.session.test c condition n).1 = .ok false :=
      Session.test_eq_false_iff.2 hempty
    have hlast : LastPass c condition n o := by
      refine ⟨hends.1, fun _ => ?_⟩
      rw [htest]
      exact nofun
    obtain ⟨o', ho', hsame⟩ := of_last hgets hends hlast
    rw [if_pos hend] at ho'
    exact ⟨o', ho', hsame.trans (Outcome.andThen_testOutcome_of_ok hend htest)⟩
  | bodyFailed hgets hends hend =>
    have hnot : o.ending ≠ .completed := by
      rw [hend]
      exact nofun
    obtain ⟨o', ho', hsame⟩ := of_last hgets hends ⟨hends.1, fun h => absurd h hnot⟩
    rw [if_neg hnot] at ho'
    rw [Outcome.andThen_of_not_completed hnot] at hsame
    exact ⟨o', ho', hsame⟩
  | conditionFailed hgets hends hend hfound =>
    exact of_test_error hgets hends hend (Session.test_eq_error_iff.2 (Or.inl hfound))
  | @overLimit limit o hlimit hagain hends =>
    obtain ⟨n, hn⟩ : ∃ n, max 1 limit = n + 1 := ⟨max 1 limit - 1, by omega⟩
    obtain ⟨o₁, ts, hends₁, hend, hts, hne⟩ := hagain (max 1 limit) (by omega) le_rfl
    obtain rfl := hends₁.unique hends
    have hgets : s.GetsTo c body condition n := by
      refine ⟨fun limit' hlimit' => ?_, fun j hj hle => hagain j hj (by omega)⟩
      obtain rfl : limit = limit' := Option.some.inj (hlimit.symm.trans hlimit')
      omega
    have htest : (o₁.session.test c condition n).1 = .error (.iterationLimit limit) :=
      Session.test_eq_error_iff.2 (Or.inr ⟨⟨ts, hts, hne⟩, limit, hlimit, by omega, rfl⟩)
    rw [hn] at hends ⊢
    exact of_test_error hgets hends hend htest

/-- **A loop is completed behind the first pass with an empty condition.** -/
theorem loopEnds_completed_iff : (∃ o, LoopEnds c body condition s k o ∧ o.ending = .completed) ↔
    s.Converges c body condition k := by
  constructor
  · rintro ⟨o, ho, hend⟩
    obtain ⟨o', hunrolls, hsame⟩ := ho.unrolls
    exact (hunrolls.of_completed (hsame.ending.symm.trans hend)).1
  · rintro ⟨hpos, hlimit, hagain, o', hends, hend, hempty⟩
    obtain ⟨n, rfl⟩ : ∃ n, k = n + 1 := ⟨k - 1, by omega⟩
    have hgets : s.GetsTo c body condition n :=
      ⟨fun limit h => hlimit limit h, fun j hj hle => hagain j hj (by omega)⟩
    obtain ⟨o, ho, hsame⟩ := LoopEnds.of_unrolls (.completed hgets hends hend hempty)
    exact ⟨o, ho, hsame.ending.trans hend⟩

/-- A completed loop leaves what its passes leave. -/
theorem LoopEnds.ends_times (h : LoopEnds c body condition s k o) (hend : o.ending = .completed) :
    ∃ o', Program.Ends c (body.times k) s o' ∧ o.SameContents o' := by
  obtain ⟨o', hunrolls, hsame⟩ := h.unrolls
  exact ⟨o', (hunrolls.of_completed (hsame.ending.symm.trans hend)).2, hsame⟩

/-- A failure over the limit is that of the loop, behind all passes that are allowed, or that of a
loop in its body. -/
theorem loopEnds_iterationLimit_iff {limit : Nat} (hlimit : c.maxIterations = some limit) :
    (∃ o, LoopEnds c body condition s k o ∧ o.ending = .failed (.iterationLimit limit)) ↔
      (k = max 1 limit ∧ ∀ j, 1 ≤ j → j ≤ max 1 limit → s.Again c body condition j) ∨
      (s.GetsTo c body condition k ∧ ∃ o, Program.Ends c (body.times (k + 1)) s o ∧
        o.ending = .failed (.iterationLimit limit)) := by
  constructor
  · rintro ⟨o, ho, hend⟩
    obtain ⟨o', hunrolls, hsame⟩ := ho.unrolls
    have hend' : o'.ending = .failed (.iterationLimit limit) := hsame.ending.symm.trans hend
    cases hunrolls with
    | completed _ _ hdone => exact absurd (hdone.symm.trans hend') nofun
    | bodyFailed hgets hends => exact Or.inr ⟨hgets, o', hends, hend'⟩
    | conditionFailed _ _ _ hfound =>
      cases hend'
      exact (Session.found_ne_iterationLimit _ _ _ _ hfound).elim
    | overLimit _ hagain =>
      cases hend'
      exact Or.inl ⟨rfl, hagain⟩
  · rintro (⟨rfl, hagain⟩ | ⟨hgets, o', hends, hend⟩)
    · obtain ⟨o', -, hends, -⟩ := hagain (max 1 limit) (by omega) le_rfl
      obtain ⟨o, ho, hsame⟩ := LoopEnds.of_unrolls (.overLimit hlimit hagain hends)
      exact ⟨o, ho, hsame.ending⟩
    · obtain ⟨o, ho, hsame⟩ := LoopEnds.of_unrolls (.bodyFailed hgets hends hend)
      exact ⟨o, ho, hsame.ending.trans hend⟩

/-- Without loops there is nothing to be limited. -/
theorem runAll_ne_iterationLimit {program : Program} (h : ∀ st ∈ program, st.isLoop = false)
    (c : Settings) (passes : Nat) (s : Session) (limit : Nat) :
    (runAll c passes program s).ending ≠ .failed (.iterationLimit limit) := by
  induction program generalizing s with
  | nil => exact nofun
  | cons st rest ih =>
    have hst := h st List.mem_cons_self
    rw [runAll_cons]
    by_cases hend : (st.run c passes s).ending = .completed
    · rw [Outcome.andThen_of_completed hend]
      exact ih (fun st' h' => h st' (List.mem_cons_of_mem _ h')) _
    · rw [Outcome.andThen_of_not_completed hend]
      intro hfailed
      let step : Step := ⟨[], .statement st, s⟩
      have hstep : (step.after c).ending = .failed (.iterationLimit limit) := by
        rw [run_simple hst] at hfailed
        exact hfailed
      cases step.failsOver hstep with
      | analysis _ hx => exact Expr.ofAnalysis_analyze _ _ _ hx
      | query _ _ hdrain => exact Query.Fault.not_iterationLimit (Query.fault_of_drain hdrain)
      | limit haction => cases haction

/-- A failure over the limit of a loop that has no loop in its body. -/
theorem loopEnds_iterationLimit_iff_of_simple {limit : Nat}
    (hlimit : c.maxIterations = some limit) (hbody : ∀ st ∈ body, st.isLoop = false) :
    (∃ k o, LoopEnds c body condition s k o ∧ o.ending = .failed (.iterationLimit limit)) ↔
      ∀ j, 1 ≤ j → j ≤ max 1 limit → s.Again c body condition j := by
  constructor
  · rintro ⟨k, hk⟩
    rcases (loopEnds_iterationLimit_iff hlimit).1 hk with ⟨-, hagain⟩ | ⟨-, o, ⟨-, p, rfl⟩, hend⟩
    · exact hagain
    · refine absurd hend (runAll_ne_iterationLimit (fun st hst => ?_) c p s limit)
      obtain ⟨copy, hcopy, hst⟩ := List.mem_flatten.1 hst
      rw [List.eq_of_mem_replicate hcopy] at hst
      exact hbody st hst
  · intro hagain
    exact ⟨max 1 limit, (loopEnds_iterationLimit_iff hlimit).2 (Or.inl ⟨rfl, hagain⟩)⟩

/-- The tests at the place of a loop are numbered from zero. -/
theorem actions_testsAt (c : Settings) (body : Program) (condition : Expr) (passes : Nat)
    (place : List Nat) (s : Session) :
    ∃ k, (Step.testsAt place ((Statement.doWhile body condition).trace c passes place s)).map
      Step.action = (List.range k).map (Action.test condition) := by
  obtain ⟨k, hk⟩ := Session.actions_tests c passes body condition place passes 0 s
  rw [← List.range_eq_range'] at hk
  exact ⟨k, hk⟩

/-- **A loop is its body unrolled.**  The loop ends in one way.  It is completed behind the first
pass with an empty condition, and leaves what the passes leave.  It fails over the limit behind the
last pass that is allowed if no condition was empty until then, or in one of the passes up to it,
where a loop in its body does; without loops in the body there is only the first.  A failure of the
body or of the condition ends it there.  Loops number their passes from zero each time, wherever
they are; and with a limit all programs end. -/
theorem doWhile_unrolls (c : Settings) (body : Program) (condition : Expr) (s : Session) :
    (∀ k k' o o', LoopEnds c body condition s k o → LoopEnds c body condition s k' o' →
      k = k' ∧ o = o') ∧
    (∀ k, (∃ o, LoopEnds c body condition s k o ∧ o.ending = .completed) ↔
      s.Converges c body condition k) ∧
    (∀ k o, LoopEnds c body condition s k o → o.ending = .completed →
      ∃ o', Program.Ends c (body.times k) s o' ∧ o.SameContents o') ∧
    (∀ limit, c.maxIterations = some limit →
      (∀ k, (∃ o, LoopEnds c body condition s k o ∧ o.ending = .failed (.iterationLimit limit)) ↔
        (k = max 1 limit ∧ ∀ j, 1 ≤ j → j ≤ max 1 limit → s.Again c body condition j) ∨
        (s.GetsTo c body condition k ∧ ∃ o, Program.Ends c (body.times (k + 1)) s o ∧
          o.ending = .failed (.iterationLimit limit))) ∧
      ((∀ st ∈ body, st.isLoop = false) →
        ((∃ k o, LoopEnds c body condition s k o ∧ o.ending = .failed (.iterationLimit limit)) ↔
          ∀ j, 1 ≤ j → j ≤ max 1 limit → s.Again c body condition j))) ∧
    (∀ k o, LoopEnds c body condition s k o →
      ∃ o', Program.Unrolls c body condition s k o' ∧ o.SameContents o') ∧
    (∀ k o', Program.Unrolls c body condition s k o' →
      ∃ o, LoopEnds c body condition s k o ∧ o.SameContents o') ∧
    (∀ passes place t, ∃ k,
      (Step.testsAt place ((Statement.doWhile body condition).trace c passes place t)).map
        Step.action = (List.range k).map (Action.test condition)) ∧
    (∀ limit, c.maxIterations = some limit → ∀ program t, ∃ o, Program.Ends c program t o) := by
  refine ⟨fun k k' o o' => LoopEnds.unique, fun k => loopEnds_completed_iff,
    fun k o => LoopEnds.ends_times, fun limit hlimit => ⟨fun k => ?_, ?_⟩,
    fun k o => LoopEnds.unrolls, fun k o => LoopEnds.of_unrolls,
    actions_testsAt c body condition, fun limit hlimit program t => ?_⟩
  · exact loopEnds_iterationLimit_iff hlimit
  · exact loopEnds_iterationLimit_iff_of_simple hlimit
  · exact ⟨_, Program.ending_ne_unfinished hlimit program t, c.passes, rfl⟩

/-- A loop in the body of a loop comes to the limit in the first pass.  So the outer loop fails over
the limit and was never tested. -/
theorem limit_of_inner_loop :
    let c : Settings := ⟨.lazy, "owner", "run", some 3, fun _ => .refused "", none⟩
    let one : Statement := .assign "E" (.table [⟨[.int 1]⟩] [⟨"n", .int⟩])
    let inner : Statement := .doWhile [.assign "E" (.reference "E")] (.reference "E")
    let body : Program := [.dump (.reference "E"), inner]
    let s := (one.run c 0 .fresh).session
    (∃ o, LoopEnds c body (.reference "E") s 0 o ∧ o.ending = .failed (.iterationLimit 3) ∧
        o.outputs.length = 1) ∧
      ¬∀ j, 1 ≤ j → j ≤ max 1 3 → s.Again c body (.reference "E") j := by
  intro c one inner body s
  have hfailed : (Program.run c 3 (body.times 1) s).ending = .failed (.iterationLimit 3) := by
    decide +kernel
  refine ⟨⟨_, ⟨?_, 3, rfl, ?_⟩, ?_, ?_⟩, fun hagain => ?_⟩
  · decide +kernel
  · decide +kernel
  · decide +kernel
  · decide +kernel
  · -- the first pass is not completed, so there is no condition behind it
    obtain ⟨o, ts, hends, hend, -⟩ := hagain 1 (by decide) (by decide)
    have hunfinished : (Program.run c 3 (body.times 1) s).ending ≠ .unfinished := by
      rw [hfailed]
      exact nofun
    rw [hends.run_eq hunfinished, hend] at hfailed
    cases hfailed

/-- A limit of zero still allows one pass, and a condition that is empty behind it ends the loop. -/
example :
    let c : Settings := ⟨.eager, "owner", "run", some 0, fun _ => .refused "", none⟩
    let program : Program := [.assign "rest" (.table [⟨[.int 1]⟩] [⟨"n", .int⟩]),
      .doWhile [.assign "rest" (.setOp .diff "rest" "rest")] (.reference "rest")]
    (program.run c c.passes .fresh).ending = .completed := by
  decide +kernel

end Statement

end BagQuery

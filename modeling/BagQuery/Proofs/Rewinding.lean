import BagQuery.Proofs.Reference
import BagQuery.Proofs.TypeSoundness

/-!
# Starting a stream again

`Stream.origin` is what a stream was before anything was taken from it.  Of a file and of a stored
relation no more is known than that they were read, so two streams have one origin when they are
the same machine at different places.  Everything about restarts goes through it:

* `origin_next`, `origin_rewind`: no move and no restart changes the origin, so it is the same
  after any use of a stream (`Reaches.origin`), and with it the pass (`pass_origin`).
* `rewind_of_restartable`: a restart leads to the origin if all sources can be read again, and
  `rewind_of_single`: otherwise it fails.
* `Query.opens_of_open`: a query opens at its origin if it can be read again at all.

So a restart leads back to the stream that was opened (`Database.rewind_replays`), whatever was
taken from it in between.
-/

namespace BagQuery

theorem Pass.both_eq_restartable_iff {a b : Pass} :
    a.both b = .restartable ↔ a = .restartable ∧ b = .restartable := by
  cases a <;> cases b <;> decide

namespace Stream

/-! ## The origin -/

/-- The stream before anything was taken from it; the rows of files and relations are left out. -/
def origin : Stream → Stream
  | load path schema _ _ => load path schema 0 []
  | unreadable fault => unreadable fault
  | rows all _ => rows all all
  | scan _ => scan []
  | join left right on _ => join left.origin right on none
  | foreach input columns => foreach input.origin columns
  | union first second _ => union first.origin second.origin false
  | distinct input _ => distinct input.origin []
  | limit input count _ => limit input.origin count 0

theorem pass_origin (s : Stream) : s.origin.pass = s.pass := by
  induction s with
  | load | unreadable | rows | scan => rfl
  | join left right on current ih => exact ih
  | foreach input columns ih => exact ih
  | union first second onSecond ih₁ ih₂ => rw [origin, pass, ih₁, ih₂, pass]
  | distinct input seen ih => exact ih
  | limit input count emitted ih => exact ih

theorem origin_origin (s : Stream) : s.origin.origin = s.origin := by
  induction s with
  | load | unreadable | rows | scan => rfl
  | join left right on current ih => rw [origin, origin, ih]
  | foreach input columns ih => rw [origin, origin, ih]
  | union first second onSecond ih₁ ih₂ => rw [origin, origin, ih₁, ih₂]
  | distinct input seen ih => rw [origin, origin, ih]
  | limit input count emitted ih => rw [origin, origin, ih]

/-- **A move leaves the origin as it is.** -/
theorem origin_of_step {s s' : Stream} {move : Move} (h : s.step = (move, s')) :
    s'.origin = s.origin := by
  fun_induction step s generalizing s' move with
  | case1 | case2 | case3 | case4 | case5 | case6 | case18 => cases h; rfl
  | case7 _ _ _ _ _ hm ih | case8 _ _ _ _ _ _ hm ih | case9 _ _ _ _ hm _ _ ih
  | case10 _ _ _ _ hm _ ih | case11 _ _ _ _ _ hm ih | case12 _ _ _ _ hm ih
  | case13 _ _ _ hm ih | case14 _ _ _ _ _ hm ih | case15 _ _ _ _ hm _ ih
  | case16 _ _ _ _ hm _ ih | case17 _ _ _ _ _ hm ih | case19 _ _ _ _ _ _ hm ih
  | case20 _ _ _ _ _ _ _ hm ih =>
    cases h
    rw [origin, origin, ih hm]

theorem origin_next (s : Stream) : s.next.2.origin = s.origin := by
  fun_induction next s with
  | case1 s item s' hs => exact origin_of_step hs
  | case2 s s' hs => exact origin_of_step hs
  | case3 s s' hs ih => exact ih.trans (origin_of_step hs)

/-! ## Restarts -/

/-- **Where all sources can be read again, a restart leads to the origin.** -/
theorem rewind_of_restartable {s : Stream} (h : s.pass = .restartable) :
    s.rewind = (.ok (), s.origin) := by
  induction s with
  | load | unreadable | scan => cases h
  | rows => rfl
  | join left right on current ih => rw [rewind, ih h, origin]
  | foreach input columns ih => rw [rewind, ih h, origin]
  | union first second onSecond ih₁ ih₂ =>
    obtain ⟨h₁, h₂⟩ := Pass.both_eq_restartable_iff.1 h
    simp only [rewind, ih₁ h₁, ih₂ h₂, origin]
  | distinct input seen ih => rw [rewind, ih h, origin]
  | limit input count emitted ih => rw [rewind, ih h, origin]

/-- **Otherwise a restart fails**, and it leaves the origin as it is all the same. -/
theorem rewind_of_single {s : Stream} (h : s.pass = .single) :
    ∃ source s', s.rewind = (.error (.notRestartable source), s') ∧ s'.origin = s.origin := by
  induction s with
  | load | unreadable | scan => exact ⟨_, _, rfl, rfl⟩
  | rows => cases h
  | join left right on current ih =>
    obtain ⟨source, left', hleft, horigin⟩ := ih h
    exact ⟨source, join left' right on current, by rw [rewind, hleft],
      by rw [origin, origin, horigin]⟩
  | foreach input columns ih =>
    obtain ⟨source, input', hinput, horigin⟩ := ih h
    exact ⟨source, foreach input' columns, by rw [rewind, hinput],
      by rw [origin, origin, horigin]⟩
  | union first second onSecond ih₁ ih₂ =>
    cases h₁ : first.pass with
    | single =>
      obtain ⟨source, first', hfirst, horigin⟩ := ih₁ h₁
      exact ⟨source, union first' second onSecond, by rw [rewind, hfirst],
        by rw [origin, origin, horigin]⟩
    | restartable =>
      have h₂ : second.pass = .single := by
        rw [pass, h₁] at h
        cases h₂ : second.pass with
        | single => rfl
        | restartable => rw [h₂] at h; cases h
      obtain ⟨source, second', hsecond, horigin⟩ := ih₂ h₂
      refine ⟨source, union first.origin second' onSecond, ?_, ?_⟩
      · simp only [rewind, rewind_of_restartable h₁, hsecond]
      · rw [origin, origin, horigin, origin_origin]
  | distinct input seen ih =>
    obtain ⟨source, input', hinput, horigin⟩ := ih h
    exact ⟨source, distinct input' seen, by rw [rewind, hinput],
      by rw [origin, origin, horigin]⟩
  | limit input count emitted ih =>
    obtain ⟨source, input', hinput, horigin⟩ := ih h
    exact ⟨source, limit input' count emitted, by rw [rewind, hinput],
      by rw [origin, origin, horigin]⟩

theorem rewind_eq_ok_iff {s : Stream} : s.rewind.1 = .ok () ↔ s.pass = .restartable := by
  cases h : s.pass with
  | single =>
    obtain ⟨source, s', hs, -⟩ := rewind_of_single h
    rw [hs]
    exact ⟨nofun, nofun⟩
  | restartable =>
    rw [rewind_of_restartable h]
    exact ⟨fun _ => rfl, fun _ => rfl⟩

/-- A restart leaves the origin as it is, also where it fails. -/
theorem origin_rewind (s : Stream) : s.rewind.2.origin = s.origin := by
  cases h : s.pass with
  | single =>
    obtain ⟨source, s', hs, horigin⟩ := rewind_of_single h
    rw [hs]
    exact horigin
  | restartable =>
    rw [rewind_of_restartable h]
    exact origin_origin s

/-- **However a stream is used, its origin stays the same.** -/
theorem Reaches.origin {s t : Stream} (h : s.Reaches t) : t.origin = s.origin := by
  induction h with
  | here => rfl
  | next _ ih => exact (origin_next _).trans ih
  | rewind _ ih => exact (origin_rewind _).trans ih

theorem Reaches.pass {s t : Stream} (h : s.Reaches t) : t.pass = s.pass := by
  rw [← pass_origin t, h.origin, pass_origin]

/-- A stream that can be read again reads no file, so none that cannot be read. -/
theorem regular_of_restartable {s : Stream} (h : s.pass = .restartable) : s.Regular := by
  induction s with
  | load | rows | scan => trivial
  | unreadable => cases h
  | join left right on current ih => exact ih h
  | foreach input columns ih => exact ih h
  | union first second onSecond ih₁ ih₂ =>
    obtain ⟨h₁, h₂⟩ := Pass.both_eq_restartable_iff.1 h
    exact ⟨ih₁ h₁, ih₂ h₂⟩
  | distinct input seen ih => exact ih h
  | limit input count emitted ih => exact ih h

end Stream

namespace Query

/-! ## Queries that can be read again -/

/-- The inputs that are read while the query is pulled.  The right input of a join and the inputs
of an intersection or difference are read when the query is opened. -/
def pulled : Query → List Query
  | load .. | table .. | scan .. => []
  | join left .. => [left]
  | foreach input .. | distinct input | limit input _ => [input]
  | setOp .union left right => [left, right]
  | setOp .intersect .. | setOp .diff .. => []

/-- `p` is `q` itself or is read while `q` is pulled. -/
inductive Pulls : Query → Query → Prop
  | here (q : Query) : Pulls q q
  | input {q input p : Query} : input ∈ q.pulled → Pulls input p → Pulls q p

/-- The query reads a file or a stored relation itself. -/
def IsSource : Query → Prop
  | load .. | scan .. => True
  | table .. | join .. | foreach .. | setOp .. | distinct .. | limit .. => False

/-- Neither a file nor a stored relation is read while the query is pulled. -/
def Repeatable (q : Query) : Prop := ∀ p, q.Pulls p → ¬ p.IsSource

theorem repeatable_iff {q : Query} :
    q.Repeatable ↔ ¬ q.IsSource ∧ ∀ input ∈ q.pulled, input.Repeatable := by
  constructor
  · intro h
    exact ⟨h q (.here q), fun input hinput p hp => h p (.input hinput hp)⟩
  · rintro ⟨hq, hinputs⟩ p hp
    cases hp with
    | here => exact hq
    | input hinput hp => exact hinputs _ hinput p hp

theorem not_repeatable_of_isSource {q : Query} (h : q.IsSource) : ¬ q.Repeatable :=
  fun hq => hq q (.here q) h

theorem repeatable_of_pulled_nil {q : Query} (h : q.pulled = []) (hq : ¬ q.IsSource) :
    q.Repeatable :=
  repeatable_iff.2 ⟨hq, by rw [h]; nofun⟩

/-- A query that is no source and reads one input. -/
theorem repeatable_iff_of_pulled {q input : Query} (h : q.pulled = [input]) (hq : ¬ q.IsSource) :
    q.Repeatable ↔ input.Repeatable := by
  rw [repeatable_iff, h, List.forall_mem_singleton]
  exact and_iff_right hq

theorem repeatable_union {left right : Query} :
    (setOp .union left right).Repeatable ↔ left.Repeatable ∧ right.Repeatable := by
  rw [repeatable_iff, pulled, List.forall_mem_cons, List.forall_mem_singleton]
  exact and_iff_right id

/-! ## Opening -/

/-- The stream can be read again if the query can, and then it is at its origin. -/
structure Opens (q : Query) (s : Stream) : Prop where
  pass : s.pass = .restartable ↔ q.Repeatable
  origin : s.pass = .restartable → s.origin = s

theorem Opens.of_source {q : Query} {s : Stream} (h : s.pass = .single) (hq : q.IsSource) :
    q.Opens s where
  pass := ⟨fun hs => absurd (h.symm.trans hs) nofun,
    fun hr => absurd hr (not_repeatable_of_isSource hq)⟩
  origin hs := absurd (h.symm.trans hs) nofun

theorem Opens.of_rows {q : Query} {ts : List Tuple} (hq : q.Repeatable) :
    q.Opens (replay ts) where
  pass := ⟨fun _ => hq, fun _ => rfl⟩
  origin _ := rfl

/-- A query that is no source, as a stream that works on that of its one input. -/
theorem Opens.of_input {q input : Query} {s i : Stream} (h : input.Opens i)
    (hpulled : q.pulled = [input]) (hq : ¬ q.IsSource) (hpass : s.pass = i.pass)
    (horigin : i.origin = i → s.origin = s) : q.Opens s where
  pass := by rw [hpass, h.pass, repeatable_iff_of_pulled hpulled hq]
  origin hs := horigin (h.origin (hpass ▸ hs))

/-- **A query opens as a stream that can be read again exactly if the query can.** -/
theorem opens_of_open {env : Environment} {store : Store} {q : Query} {s : Stream}
    (hs : (q.openStream env store).outcome = .ok s) : q.Opens s := by
  induction q generalizing s with
  | load path schema =>
    obtain ⟨reason, -, rfl⟩ | ⟨bytes, -, rfl⟩ := opened_file hs
    · exact .of_source rfl trivial
    · exact .of_source rfl trivial
  | table rows schema => cases hs; exact .of_rows (repeatable_of_pulled_nil rfl id)
  | scan key schema =>
    obtain ⟨left, rfl⟩ := opened_relation hs
    exact .of_source rfl trivial
  | join left right on schema ihl ihr =>
    simp only [openStream, Access.outcome_bind_eq_ok] at hs
    obtain ⟨l, hl, r, -, rs, -, hs⟩ := hs
    cases hs
    exact (ihl hl).of_input rfl id rfl fun h => by rw [Stream.origin, h]
  | foreach input columns schema ih =>
    simp only [openStream, Access.outcome_bind_eq_ok] at hs
    obtain ⟨i, hi, hs⟩ := hs
    cases hs
    exact (ih hi).of_input rfl id rfl fun h => by rw [Stream.origin, h]
  | setOp op left right ihl ihr =>
    cases op with
    | union =>
      simp only [openStream, Access.outcome_bind_eq_ok] at hs
      obtain ⟨l, hl, r, hr, hs⟩ := hs
      cases hs
      obtain ⟨hpassl, horiginl⟩ := ihl hl
      obtain ⟨hpassr, horiginr⟩ := ihr hr
      refine ⟨?_, fun h => ?_⟩
      · rw [repeatable_union, ← hpassl, ← hpassr]
        exact Pass.both_eq_restartable_iff
      · obtain ⟨h₁, h₂⟩ := Pass.both_eq_restartable_iff.1 h
        rw [Stream.origin, horiginl h₁, horiginr h₂]
    | intersect | diff =>
      simp only [openStream, Access.outcome_bind_eq_ok] at hs
      obtain ⟨l, -, ls, -, r, -, rs, -, hs⟩ := hs
      cases hs
      exact .of_rows (repeatable_of_pulled_nil rfl id)
  | distinct input ih =>
    simp only [openStream, Access.outcome_bind_eq_ok] at hs
    obtain ⟨i, hi, hs⟩ := hs
    cases hs
    exact (ih hi).of_input rfl id rfl fun h => by rw [Stream.origin, h]
  | limit input count ih =>
    simp only [openStream, Access.outcome_bind_eq_ok] at hs
    obtain ⟨i, hi, hs⟩ := hs
    cases hs
    exact (ih hi).of_input rfl id rfl fun h => by rw [Stream.origin, h]

end Query

namespace Database

theorem open_of_evaluate {env : Environment} {db : Database} {q : Query} {r : Result}
    (h : (db.evaluate env (.query q)).1 = .ok r) :
    (q.openStream env db.store).outcome = .ok r.stream := by
  have h : Except.map (Result.mk q.schema) (q.openStream env db.store).outcome = .ok r := h
  cases ho : (q.openStream env db.store).outcome with
  | error e => rw [ho] at h; cases h
  | ok s => rw [ho] at h; cases h; rfl

/-- **Starting again.**  The stream of a query can be read again exactly if neither a file nor a
stored relation is read while the query is pulled.  Its pass stays what it was however the stream is
used, and a restart succeeds exactly if the stream can be read again.  It is then the stream that
was opened, and the calls that follow answer with all items of the query once more. -/
theorem rewind_replays {env : Environment} {db : Database} {q : Query} {r : Result}
    (h : (db.evaluate env (.query q)).1 = .ok r) :
    (r.stream.pass = .restartable ↔ q.Repeatable) ∧
      ∀ s, r.stream.Reaches s →
        s.pass = r.stream.pass ∧
        (s.rewind.1 = .ok () ↔ s.pass = .restartable) ∧
        (s.rewind.1 = .ok () → s.rewind.2 = r.stream ∧
          ∃ items, q.items env db.store = .ok items ∧ ∀ n, s.rewind.2.answer n = items[n]?) := by
  have hopen := open_of_evaluate h
  obtain ⟨hpass, horigin⟩ := Query.opens_of_open hopen
  refine ⟨hpass, fun s hs => ⟨hs.pass, Stream.rewind_eq_ok_iff, fun hok => ?_⟩⟩
  have hrestartable : s.pass = .restartable := Stream.rewind_eq_ok_iff.1 hok
  have hstream : r.stream.pass = .restartable := hs.pass ▸ hrestartable
  have hback : s.rewind.2 = r.stream := by
    rw [Stream.rewind_of_restartable hrestartable, hs.origin]
    exact horigin hstream
  have hitems := Query.outcome_openStream env db.store q
  rw [hopen] at hitems
  refine ⟨hback, r.stream.items, hitems.symm, fun n => ?_⟩
  rw [hback]
  exact Stream.answer_eq_getElem? (Stream.regular_of_restartable hstream) n

/-! ### A join with a stored relation on its right -/

/-- The columns of a pair of integers. -/
def pairColumns : Schema := ⟨[⟨"a.n", .int⟩, ⟨"b.n", .int⟩], by decide⟩

/-- The given rows, of which two are equal. -/
def givenRows : List Tuple := [⟨[.int 1]⟩, ⟨[.int 1]⟩, ⟨[.int 2]⟩]

/-- Each pair of a given row with a row of the relation, once. -/
def pairedOnce (key : Key) : Query :=
  .distinct (.join (.table givenRows (column "n")) (.scan key (column "n")) [] pairColumns)

/-- After a call, a restart and another call, a second restart brings both pairs again. -/
theorem rewind_replays_pairedOnce :
    let key : Key := ⟨"owner", "program", "relation"⟩
    let db : Database := ⟨oneRow key "n" 7, .none⟩
    ∃ r, (db.evaluate noFiles (.query (pairedOnce key))).1 = .ok r ∧
      (pairedOnce key).Repeatable ∧
      let s := r.stream.next.2.rewind.2.next.2
      r.stream.Reaches s ∧ s.rewind.1 = .ok () ∧ s.rewind.2 = r.stream ∧
        ∀ n, s.rewind.2.answer n = [.ok ⟨[.int 1, .int 7]⟩, .ok ⟨[.int 2, .int 7]⟩][n]? := by
  intro key db
  have hopen : ((pairedOnce key).openStream noFiles db.store).outcome
      = .ok (.distinct (.join (.rows givenRows givenRows) [⟨[.int 7]⟩] [] none) []) := by
    decide +kernel
  have hresult : (db.evaluate noFiles (.query (pairedOnce key))).1 = .ok ⟨pairColumns,
      .distinct (.join (.rows givenRows givenRows) [⟨[.int 7]⟩] [] none) []⟩ := by
    show Except.map _ ((pairedOnce key).openStream noFiles db.store).outcome = _
    rw [hopen]
    rfl
  have hitems : (pairedOnce key).items noFiles db.store
      = .ok [.ok ⟨[.int 1, .int 7]⟩, .ok ⟨[.int 2, .int 7]⟩] := by
    decide +kernel
  obtain ⟨hrepeatable, hused⟩ := rewind_replays hresult
  refine ⟨_, hresult, hrepeatable.1 rfl, ?_⟩
  intro s
  have hreaches : Stream.Reaches _ s := .next (.rewind (.next .here))
  obtain ⟨hpass, hok, hback⟩ := hused s hreaches
  have hrewind : s.rewind.1 = .ok () := hok.2 hpass
  obtain ⟨hstream, items, hq, hanswers⟩ := hback hrewind
  rw [hitems] at hq
  cases hq
  exact ⟨hreaches, hrewind, hstream, hanswers⟩

end Database

end BagQuery

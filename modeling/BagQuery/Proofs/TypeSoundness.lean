import BagQuery.Proofs.PlanTyping
import BagQuery.Proofs.StreamItems

/-!
# Type soundness

A well-typed query on a well-typed store gives tuples of its schema and no others.

`Stream.Fits s types` says of the state of a stream that all it can still hand out has the given
types.  Opening a well-typed query gives such a stream (`gives_openStream`), and moves and
restarts keep it one (`fits_of_step`, `fits_rewind`), so it holds however the stream is used.
Along the way only a file can fail: every failure of a call is one of reading a file
(`Error.OfInput`), and never that of a plan that does not fit together.

A write puts tuples of the schema that it stores into the store, so the store stays well typed
(`sound_evaluate`).
-/

namespace BagQuery

/-- The error is one of a file or of what is in it. -/
def Error.OfInput : Error → Prop
  | load .. | tupleType _ => True
  | _ => False

/-- The error is one of a stored relation that is not there or has other columns. -/
def Error.OfStore : Error → Prop
  | unknownRelation _ | incompatible .. => True
  | _ => False

/-- The tuple has the types. -/
def Tuple.Has (types : List ColumnType) (t : Tuple) : Prop := t.types = types

/-! ## Tuples -/

theorem Tuple.has_append {ls rs : List ColumnType} {t u : Tuple} (ht : t.Has ls) (hu : u.Has rs) :
    (t.append u).Has (ls ++ rs) := by
  unfold Has types append at *
  rw [List.map_append, ht, hu]

theorem Tuple.has_select {types chosen : List ColumnType} {indexes : List Nat} {t : Tuple}
    (ht : t.Has types) (h : Query.typesAt types indexes = some chosen) :
    ∃ u, t.select? indexes = some u ∧ u.Has chosen := by
  suffices ∃ atoms, indexes.mapM t.get? = some atoms ∧ atoms.map Atom.type = chosen by
    obtain ⟨atoms, hatoms, htypes⟩ := this
    exact ⟨⟨atoms⟩, by rw [select?, hatoms]; rfl, htypes⟩
  induction indexes generalizing chosen with
  | nil => cases h; exact ⟨[], rfl, rfl⟩
  | cons i indexes ih =>
    rw [Query.typesAt, List.mapM_cons] at h
    obtain ⟨type, htype, h⟩ := Option.bind_eq_some_iff.1 h
    obtain ⟨rest, hrest, h⟩ := Option.bind_eq_some_iff.1 h
    cases h
    obtain ⟨atoms, hatoms, rfl⟩ := ih hrest
    rw [← show t.types = types from ht, Tuple.types, List.getElem?_map, Option.map_eq_some_iff]
      at htype
    obtain ⟨a, ha, rfl⟩ := htype
    refine ⟨a :: atoms, ?_, rfl⟩
    rw [List.mapM_cons, hatoms, show t.get? i = some a from ha]
    rfl

theorem Record.types_of_readFields {fs : List (List Char)} {cs : List Column} {atoms : List Atom}
    (hlen : fs.length = cs.length) (h : readFields fs cs = .ok atoms) :
    atoms.map Atom.type = cs.map Column.type := by
  induction fs generalizing cs atoms with
  | nil =>
    obtain rfl : cs = [] := List.length_eq_zero_iff.1 hlen.symm
    cases h
    rfl
  | cons f fs ih =>
    cases cs with
    | nil => cases hlen
    | cons c cs =>
      obtain ⟨a, ha, h⟩ := Attempt.bind_eq_ok_iff.1 h
      obtain ⟨rest, hrest, h⟩ := Attempt.bind_eq_ok_iff.1 h
      cases h
      rw [List.map_cons, List.map_cons, ih (Nat.succ.inj hlen) hrest]
      congr 1
      unfold readField at ha
      split at ha
      · next a' hf =>
        cases ha
        unfold readField? at hf
        split at hf
        · next hc => obtain ⟨v, -, rfl⟩ := Option.map_eq_some_iff.1 hf; exact hc.symm
        · next hc => obtain ⟨v, -, rfl⟩ := Option.map_eq_some_iff.1 hf; exact hc.symm
      · cases ha

theorem Record.has_read {schema : Schema} {line : String} {t : Tuple}
    (h : read schema line = .ok t) : t.Has schema.types := by
  unfold read at h
  dsimp only at h
  split at h
  · next hlen =>
    cases hf : readFields (fields line.toList) schema.columns with
    | error e => rw [hf] at h; cases h
    | ok atoms => rw [hf] at h; cases h; exact types_of_readFields hlen hf
  · cases h

theorem Record.ofInput_readFields {fs : List (List Char)} {cs : List Column} {e : Error}
    (h : readFields fs cs = .error e) : e.OfInput := by
  induction fs generalizing cs with
  | nil => cases h
  | cons f fs ih =>
    cases cs with
    | nil => cases h
    | cons c cs =>
      rcases Attempt.bind_eq_error_iff.1 h with h | ⟨a, -, h⟩
      · unfold readField at h
        split at h
        · cases h
        · cases h; trivial
      · rcases Attempt.bind_eq_error_iff.1 h with h | ⟨rest, -, h⟩
        · exact ih h
        · cases h

theorem Record.ofInput_read {schema : Schema} {line : String} {e : Error}
    (h : read schema line = .error e) : e.OfInput := by
  unfold read at h
  dsimp only at h
  split at h
  · cases hf : readFields (fields line.toList) schema.columns with
    | error e' => rw [hf] at h; cases h; exact ofInput_readFields hf
    | ok atoms => rw [hf] at h; cases h
  · cases h; trivial

theorem Stream.ofInput_atLine {path : String} {n : Nat} {e : Error} (h : e.OfInput) :
    (atLine path n e).OfInput := by
  cases e <;> exact h

namespace Stream

/-! ## Streams -/

/-- All that the stream can still hand out has the types. -/
def Fits : Stream → List ColumnType → Prop
  | load _ schema _ _, types => schema.types = types
  | unreadable fault, _ => fault.OfInput
  | rows all left, types => (∀ t ∈ all, t.Has types) ∧ ∀ t ∈ left, t.Has types
  | scan left, types => ∀ t ∈ left, t.Has types
  | join left right _ current, types =>
    ∃ ls rs, types = ls ++ rs ∧ left.Fits ls ∧ (∀ t ∈ right, t.Has rs) ∧
      ∀ t waiting, current = some (t, waiting) → t.Has ls ∧ ∀ r ∈ waiting, r.Has rs
  | foreach input columns, types =>
    ∃ chosen, input.Fits chosen ∧ Query.typesAt chosen columns = some types
  | union first second _, types => first.Fits types ∧ second.Fits types
  | distinct input _, types => input.Fits types
  | limit input _ _, types => input.Fits types

/-- What is handed out is a tuple with the types, or the failure of a file. -/
def ItemFits (types : List ColumnType) : Item → Prop
  | .ok t => t.Has types
  | .error e => e.OfInput

/-- What a move hands out, if anything, fits. -/
def Move.Fits (types : List ColumnType) : Move → Prop
  | .item i => ItemFits types i
  | .on | .done => True

/-- A move without a tuple fits any types. -/
theorem Move.Fits.of_not_ok {types types' : List ColumnType} {move : Move} (h : move.Fits types)
    (hm : ∀ t, move ≠ .item (.ok t)) : move.Fits types' := by
  match move with
  | .item (.ok t) => exact absurd rfl (hm t)
  | .item (.error e) => exact h
  | .on | .done => trivial

theorem fits_nextRecord {path : String} {schema : Schema} {n n' : Nat}
    {left left' : List (Option String)} {move : Move}
    (h : nextRecord path schema n left = (move, n', left')) : move.Fits schema.types := by
  fun_induction nextRecord path schema n left with
  | case1 => cases h; trivial
  | case2 => cases h; trivial
  | case3 n line left _ ih => exact ih h
  | case4 n line left _ =>
    cases h
    show ItemFits _ _
    cases hread : Record.read schema line with
    | ok t => exact Record.has_read hread
    | error e => exact ofInput_atLine (Record.ofInput_read hread)

theorem fits_takeFirst {types : List ColumnType} {left behind : List Tuple} {move : Move}
    (h : takeFirst left = (move, behind)) (hleft : ∀ t ∈ left, t.Has types) :
    move.Fits types ∧ ∀ t ∈ behind, t.Has types := by
  cases left with
  | nil => cases h; exact ⟨trivial, hleft⟩
  | cons t left =>
    cases h
    exact ⟨hleft t List.mem_cons_self, fun u hu => hleft u (List.mem_cons_of_mem t hu)⟩

theorem fits_nextPair {ls rs : List ColumnType} {on : List (Nat × Nat)} {t pair : Tuple}
    {waiting left : List Tuple} (h : nextPair on t waiting = some (pair, left)) (ht : t.Has ls)
    (hw : ∀ r ∈ waiting, r.Has rs) : pair.Has (ls ++ rs) ∧ ∀ r ∈ left, r.Has rs := by
  induction waiting with
  | nil => cases h
  | cons r waiting ih =>
    have hw' : ∀ r ∈ waiting, r.Has rs := fun u hu => hw u (List.mem_cons_of_mem r hu)
    rw [nextPair] at h
    split at h
    · cases h
      exact ⟨Tuple.has_append ht (hw r List.mem_cons_self), hw'⟩
    · exact ih h hw'

/-- **A move hands out what fits, and leaves a stream that does.** -/
theorem fits_of_step {s s' : Stream} {types : List ColumnType} {move : Move}
    (h : s.step = (move, s')) (hs : s.Fits types) : move.Fits types ∧ s'.Fits types := by
  fun_induction step s generalizing s' move types with
  | case1 path schema lineNumber left m n behind hm =>
    cases h
    refine ⟨?_, hs⟩
    rw [← show schema.types = types from hs]
    exact fits_nextRecord hm
  | case2 => cases h; exact ⟨hs, hs⟩
  | case3 all left m behind hm =>
    cases h
    obtain ⟨hmove, hbehind⟩ := fits_takeFirst hm hs.2
    exact ⟨hmove, hs.1, hbehind⟩
  | case4 left m behind hm => cases h; exact fits_takeFirst hm hs
  | case5 left right on t waiting pair rest hpair =>
    cases h
    obtain ⟨ls, rs, rfl, hleft, hright, hcurrent⟩ := hs
    obtain ⟨ht, hwaiting⟩ := hcurrent t waiting rfl
    obtain ⟨hfits, hrest⟩ := fits_nextPair hpair ht hwaiting
    refine ⟨hfits, ls, rs, rfl, hleft, hright, ?_⟩
    intro u w hu
    cases hu
    exact ⟨ht, hrest⟩
  | case6 left right on t waiting hpair =>
    cases h
    obtain ⟨ls, rs, rfl, hleft, hright, -⟩ := hs
    refine ⟨trivial, ls, rs, rfl, hleft, hright, ?_⟩
    intro u w hu
    cases hu
  | case7 left right on t left' hm ih =>
    cases h
    obtain ⟨ls, rs, rfl, hleft, hright, -⟩ := hs
    obtain ⟨ht, hleft'⟩ := ih hm hleft
    refine ⟨trivial, ls, rs, rfl, hleft', hright, ?_⟩
    intro u w hu
    cases hu
    exact ⟨ht, hright⟩
  | case8 left right on m left' hm hstep ih =>
    cases h
    obtain ⟨ls, rs, rfl, hleft, hright, -⟩ := hs
    obtain ⟨hmove, hleft'⟩ := ih hstep hleft
    refine ⟨hmove.of_not_ok hm, ls, rs, rfl, hleft', hright, ?_⟩
    intro u w hu
    cases hu
  | case9 input columns t input' hm t' hselect ih =>
    cases h
    obtain ⟨chosen, hinput, htypes⟩ := hs
    obtain ⟨ht, hinput'⟩ := ih hm hinput
    obtain ⟨u, hu, hfits⟩ := Tuple.has_select ht htypes
    rw [hselect] at hu
    cases hu
    exact ⟨hfits, chosen, hinput', htypes⟩
  | case10 input columns t input' hm hselect ih =>
    cases h
    obtain ⟨chosen, hinput, htypes⟩ := hs
    obtain ⟨u, hu, -⟩ := Tuple.has_select (ih hm hinput).1 htypes
    rw [hselect] at hu
    cases hu
  | case11 input columns m input' hm hstep ih =>
    cases h
    obtain ⟨chosen, hinput, htypes⟩ := hs
    obtain ⟨hmove, hinput'⟩ := ih hstep hinput
    refine ⟨?_, chosen, hinput', htypes⟩
    exact hmove.of_not_ok hm
  | case12 first second m second' hm ih =>
    cases h
    obtain ⟨hmove, hsecond⟩ := ih hm hs.2
    exact ⟨hmove, hs.1, hsecond⟩
  | case13 first second first' hm ih => cases h; exact ⟨trivial, (ih hm hs.1).2, hs.2⟩
  | case14 first second m first' hm hstep ih =>
    cases h
    obtain ⟨hmove, hfirst⟩ := ih hstep hs.1
    exact ⟨hmove, hfirst, hs.2⟩
  | case15 input seen t input' hm hseen ih => cases h; exact ⟨trivial, (ih hm hs).2⟩
  | case16 input seen t input' hm hseen ih => cases h; have := ih hm hs; exact this
  | case17 input seen m input' hm hstep ih => cases h; have := ih hstep hs; exact this
  | case18 => cases h; exact ⟨trivial, hs⟩
  | case19 input count emitted _ t input' hm ih => cases h; have := ih hm hs; exact this
  | case20 input count emitted _ m input' hm hstep ih => cases h; have := ih hstep hs; exact this

theorem fits_of_next {s s' : Stream} {types : List ColumnType} {answer : Option Item}
    (h : s.next = (answer, s')) (hs : s.Fits types) :
    (∀ item, answer = some item → ItemFits types item) ∧ s'.Fits types := by
  fun_induction next s with
  | case1 s item s'' hstep =>
    cases h
    obtain ⟨hmove, hs'⟩ := fits_of_step hstep hs
    refine ⟨?_, hs'⟩
    intro i hi
    cases hi
    exact hmove
  | case2 s s'' hstep =>
    cases h
    refine ⟨?_, (fits_of_step hstep hs).2⟩
    intro i hi
    cases hi
  | case3 s s'' hstep ih => exact ih h (fits_of_step hstep hs).2

/-- **A restart leaves a stream that fits**, also where it fails. -/
theorem fits_rewind {s : Stream} {types : List ColumnType} (hs : s.Fits types) :
    s.rewind.2.Fits types := by
  induction s generalizing types with
  | load | unreadable | scan => exact hs
  | rows all left => exact ⟨hs.1, hs.1⟩
  | join left right on current ih =>
    obtain ⟨ls, rs, rfl, hleft, hright, hcurrent⟩ := hs
    have hleft' := ih hleft
    rw [rewind]
    match h : left.rewind with
    | (.ok (), left') => rw [h] at hleft'; exact ⟨ls, rs, rfl, hleft', hright, nofun⟩
    | (.error e, left') => rw [h] at hleft'; exact ⟨ls, rs, rfl, hleft', hright, hcurrent⟩
  | foreach input columns ih =>
    obtain ⟨chosen, hinput, htypes⟩ := hs
    exact ⟨chosen, ih hinput, htypes⟩
  | union first second onSecond ih₁ ih₂ =>
    have hfirst := ih₁ hs.1
    have hsecond := ih₂ hs.2
    rw [rewind]
    match h₁ : first.rewind, h₂ : second.rewind with
    | (.error e, first'), _ => rw [h₁] at hfirst; exact ⟨hfirst, hs.2⟩
    | (.ok (), first'), (.error e, second') =>
      rw [h₁] at hfirst
      rw [h₂] at hsecond
      exact ⟨hfirst, hsecond⟩
    | (.ok (), first'), (.ok (), second') =>
      rw [h₁] at hfirst
      rw [h₂] at hsecond
      exact ⟨hfirst, hsecond⟩
  | distinct input seen ih =>
    have hinput := ih hs
    rw [rewind]
    match h : input.rewind with
    | (.ok (), input') => rw [h] at hinput; exact hinput
    | (.error e, input') => rw [h] at hinput; exact hinput
  | limit input count emitted ih =>
    have hinput := ih hs
    rw [rewind]
    match h : input.rewind with
    | (.ok (), input') => rw [h] at hinput; exact hinput
    | (.error e, input') => rw [h] at hinput; exact hinput

/-- `t` is `s` after some calls and restarts. -/
inductive Reaches (s : Stream) : Stream → Prop
  | here : Reaches s s
  | next {t : Stream} : Reaches s t → Reaches s t.next.2
  | rewind {t : Stream} : Reaches s t → Reaches s t.rewind.2

theorem Reaches.fits {s t : Stream} {types : List ColumnType} (h : s.Reaches t)
    (hs : s.Fits types) : t.Fits types := by
  induction h with
  | here => exact hs
  | next _ ih => exact (fits_of_next rfl ih).2
  | rewind _ ih => exact fits_rewind ih

theorem has_of_drain {s : Stream} {types : List ColumnType} {ts : List Tuple} (hs : s.Fits types)
    (h : s.drain = .ok ts) : ∀ t ∈ ts, t.Has types := by
  induction s using pullAll.induct generalizing ts with
  | case1 s t s' hnext ih =>
    rw [drain_of_tuple hnext] at h
    obtain ⟨hitem, hs'⟩ := fits_of_next hnext hs
    cases hd : s'.drain with
    | error e => rw [hd] at h; cases h
    | ok rest =>
      rw [hd] at h
      cases h
      exact List.forall_mem_cons.2 ⟨hitem _ rfl, ih hs' hd⟩
  | case2 s e s' hnext => rw [drain_of_failure hnext] at h; cases h
  | case3 s s' hnext =>
    rw [drain_of_end hnext] at h
    cases h
    intro t ht
    cases ht

theorem ofInput_of_drain {s : Stream} {types : List ColumnType} {e : Error} (hs : s.Fits types)
    (h : s.drain = .error e) : e.OfInput := by
  induction s using pullAll.induct with
  | case1 s t s' hnext ih =>
    rw [drain_of_tuple hnext] at h
    have hs' := (fits_of_next hnext hs).2
    cases hd : s'.drain with
    | error e' => rw [hd] at h; cases h; exact ih hs' hd
    | ok rest => rw [hd] at h; cases h
  | case2 s e' s' hnext =>
    rw [drain_of_failure hnext] at h
    cases h
    exact (fits_of_next hnext hs).1 _ rfl
  | case3 s s' hnext => rw [drain_of_end hnext] at h; cases h

end Stream

/-! ## Evaluation -/

/-- The outcome is a value with `P`, or a failure of a file or of a stored relation. -/
def Access.Gives {α : Type} (P : α → Prop) (x : Access α) : Prop :=
  match x.outcome with
  | .ok a => P a
  | .error e => e.OfInput ∨ e.OfStore

namespace Access

variable {α β : Type} {P : α → Prop} {Q : β → Prop}

theorem Gives.pure {a : α} (h : P a) : (Pure.pure a : Access α).Gives P := h

theorem Gives.bind {x : Access α} {f : α → Access β} (hx : x.Gives P)
    (hf : ∀ a, P a → (f a).Gives Q) : (x >>= f).Gives Q := by
  unfold Gives at *
  rw [outcome_bind]
  cases h : x.outcome with
  | error e => rw [h] at hx; exact hx
  | ok a => rw [h] at hx; exact hf a hx

theorem gives_drain {s : Stream} {types : List ColumnType} (hs : s.Fits types) :
    (Access.of s.drain).Gives fun ts => ∀ t ∈ ts, t.Has types := by
  unfold Gives
  cases h : s.drain with
  | ok ts =>
    rw [show (Access.of (.ok ts)).outcome = .ok ts from rfl]
    exact Stream.has_of_drain hs h
  | error e => exact Or.inl (Stream.ofInput_of_drain hs h)

end Access

namespace Query

theorem gives_openFile (env : Environment) (path : String) (schema : Schema) :
    (Access.of (env.openFile path schema)).Gives fun s => s.Fits schema.types := by
  unfold Access.Gives Access.of Environment.openFile
  dsimp only
  cases env.files (env.locate path) with
  | refused reason => exact Or.inl trivial
  | unreadable reason => exact trivial
  | content bytes => exact rfl

theorem gives_readRelation {store : Store} (hstore : store.WellTyped) (key : Key)
    (schema : Schema) : (readRelation store key schema).Gives fun s => s.Fits schema.types := by
  unfold readRelation Store.relation
  cases hr : store.get? key with
  | none => exact Or.inr trivial
  | some r =>
    dsimp only
    cases hc : schema.checkCompatible r.schema with
    | error e =>
      unfold Schema.checkCompatible at hc
      split at hc
      · cases hc
      · cases hc; exact Or.inr trivial
    | ok _ =>
      intro t ht
      have hadmits : t.types = r.schema.types := Schema.check_eq_ok_iff.1 (hstore key r hr t ht)
      exact hadmits.trans (checkCompatible_eq_ok_iff.1 hc).symm

theorem fits_replay {types : List ColumnType} {ts : List Tuple} (h : ∀ t ∈ ts, t.Has types) :
    (replay ts).Fits types := ⟨h, h⟩

theorem fits_combineDrained_intersection {types : List ColumnType} {ls : List Tuple}
    (h : ∀ t ∈ ls, t.Has types) (rs : List Tuple) :
    (combineDrained .intersection ls rs).Fits types := by
  refine fits_replay fun t ht => h t ?_
  rw [Bag.elements_intersection] at ht
  exact (List.mem_bagInter.1 ((Tuple.sorted_perm _).mem_iff.1 ht)).1

theorem fits_combineDrained_difference {types : List ColumnType} {ls : List Tuple}
    (h : ∀ t ∈ ls, t.Has types) (rs : List Tuple) :
    (combineDrained .difference ls rs).Fits types := by
  refine fits_replay fun t ht => h t ?_
  rw [Bag.elements_difference] at ht
  exact List.diff_subset _ _ ((Tuple.sorted_perm _).mem_iff.1 ht)

/-- **A well-typed query on a well-typed store opens as a stream of its types**, or fails over a
file or a stored relation. -/
theorem gives_openStream (env : Environment) {store : Store} (hstore : store.WellTyped)
    {q : Query} (hq : q.WellTyped) :
    (q.openStream env store).Gives fun s => s.Fits q.schema.types := by
  induction q with
  | load path schema => exact gives_openFile env path schema
  | table rows schema => exact fits_replay hq
  | scan key schema => exact gives_readRelation hstore key schema
  | join left right on schema ihl ihr =>
    refine (ihl hq.1).bind fun l hl => ?_
    refine (ihr hq.2.1).bind fun r hr => ?_
    refine (Access.gives_drain hr).bind fun rs hrs => ?_
    exact ⟨_, _, hq.2.2, hl, hrs, nofun⟩
  | foreach input columns schema ih =>
    exact (ih hq.1).bind fun s hs => ⟨_, hs, hq.2⟩
  | setOp op left right ihl ihr =>
    cases op with
    | union =>
      refine (ihl hq.1).bind fun l hl => ?_
      refine (ihr hq.2.1).bind fun r hr => ?_
      rw [← hq.2.2] at hr
      exact ⟨hl, hr⟩
    | intersect =>
      refine (ihl hq.1).bind fun l hl => (Access.gives_drain hl).bind fun ls hls => ?_
      refine (ihr hq.2.1).bind fun r hr => (Access.gives_drain hr).bind fun rs hrs => ?_
      exact fits_combineDrained_intersection hls rs
    | diff =>
      refine (ihl hq.1).bind fun l hl => (Access.gives_drain hl).bind fun ls hls => ?_
      refine (ihr hq.2.1).bind fun r hr => (Access.gives_drain hr).bind fun rs hrs => ?_
      exact fits_combineDrained_difference hls rs
  | distinct input ih => exact (ih hq).bind fun s hs => hs
  | limit input count ih => exact (ih hq).bind fun s hs => hs

/-- Draining a well-typed query gives tuples of its schema. -/
theorem gives_drain (env : Environment) {store : Store} (hstore : store.WellTyped) {q : Query}
    (hq : q.WellTyped) : (q.drain env store).Gives fun ts => ∀ t ∈ ts, q.schema.Admits t :=
  (gives_openStream env hstore hq).bind fun _ hs => Access.gives_drain hs

end Query

/-! ## Writes -/

namespace Store

theorem check_ofList {schema : Schema} {ts : List Tuple} (h : ∀ t ∈ ts, schema.Admits t) :
    ∀ t ∈ (Bag.ofList ts).elements, schema.check t = .ok () := fun t ht =>
  Schema.check_eq_ok_iff.2 (h t ((Bag.elements_ofList_perm ts).mem_iff.1 ht))

theorem WellTyped.replace {store : Store} (h : store.WellTyped) (key : Key) {schema : Schema}
    {ts : List Tuple} (hts : ∀ t ∈ ts, schema.Admits t) :
    WellTyped (Store.replace store key schema (.ofList ts)) :=
  h.insert (check_ofList hts)

/-- The rows that are added fit the schema that the relation has, whatever its columns are
called. -/
theorem WellTyped.add {store store' : Store} (h : store.WellTyped) {key : Key} {schema : Schema}
    {ts : List Tuple} (hts : ∀ t ∈ ts, schema.Admits t)
    (hadd : store.add key schema (.ofList ts) = .ok store') : store'.WellTyped := by
  unfold Store.add at hadd
  split at hadd
  · next r hr =>
    obtain ⟨_, hcheck, hadd⟩ := Attempt.bind_eq_ok_iff.1 hadd
    cases hadd
    refine h.insert fun t ht => ?_
    rw [Bag.mem_elements, Bag.count_union] at ht
    by_cases hold : 0 < r.bag.count t
    · exact h key r hr t (Bag.mem_elements.2 hold)
    · have hnew : t ∈ (Bag.ofList ts).elements := Bag.mem_elements.2 (by omega)
      have hadmits := Schema.check_eq_ok_iff.1 (check_ofList hts t hnew)
      refine Schema.check_eq_ok_iff.2 ?_
      exact hadmits.trans (Query.checkCompatible_eq_ok_iff.1 hcheck).symm
  · cases hadd
    exact h.insert (check_ofList hts)

theorem ofStore_of_add {store : Store} {key : Key} {schema : Schema} {bag : Bag} {e : Error}
    (h : store.add key schema bag = .error e) : e.OfStore := by
  unfold Store.add at h
  split at h
  · rcases Attempt.bind_eq_error_iff.1 h with h | ⟨_, -, h⟩
    · unfold Schema.checkCompatible at h
      split at h
      · cases h
      · cases h; trivial
    · cases h
  · cases h

end Store

/-! ## Plans -/

theorem Plan.Built.asInput {p : Plan} {q : Query} (h : p.Built) (hq : p.asInput = .ok q) :
    q.Built := by
  cases h with
  | query h => cases hq; exact h
  | insert => cases hq
  | replace => cases hq

theorem Error.not_invalidPlan {e : Error} (h : e.OfInput ∨ e.OfStore) (reason : String) :
    e ≠ .invalidPlan reason := by
  rintro rfl
  exact h.elim id id

namespace Database

/-- Evaluation ended well: the store is well typed, and the outcome is a result whose stream fits
the schema, or a failure of a file or of a stored relation. -/
def Sound (schema : Schema) (outcome : Except Error Result × Database) : Prop :=
  outcome.2.store.WellTyped ∧
    match outcome.1 with
    | .ok r => r.schema = schema ∧ r.stream.Fits schema.types
    | .error e => e.OfInput ∨ e.OfStore

theorem sound_insert {env : Environment} {db : Database} (hdb : db.store.WellTyped) (key : Key)
    {input : Query} (hq : input.WellTyped) :
    Sound .empty (db.evaluate env (.insert key input)) := by
  have hgives := Query.gives_drain env hdb hq
  unfold Access.Gives at hgives
  unfold evaluate drain
  dsimp only
  cases hd : (input.drain env db.store).outcome with
  | error e => rw [hd] at hgives; exact ⟨hdb, hgives⟩
  | ok ts =>
    rw [hd] at hgives
    unfold insert
    dsimp only [scanned]
    cases ha : Store.add db.store key input.schema (.ofList ts) with
    | error e => exact ⟨hdb, Or.inr (Store.ofStore_of_add ha)⟩
    | ok store =>
      exact ⟨hdb.add hgives ha, rfl, nofun, nofun⟩

theorem sound_replace {env : Environment} {db : Database} (hdb : db.store.WellTyped) (key : Key)
    {input : Query} (hq : input.WellTyped) :
    Sound .empty (db.evaluate env (.replace key input)) := by
  have hgives := Query.gives_drain env hdb hq
  unfold Access.Gives at hgives
  unfold evaluate drain
  dsimp only
  cases hd : (input.drain env db.store).outcome with
  | error e => rw [hd] at hgives; exact ⟨hdb, hgives⟩
  | ok ts =>
    rw [hd] at hgives
    exact ⟨hdb.replace key hgives, rfl, nofun, nofun⟩

theorem sound_query {env : Environment} {db : Database} (hdb : db.store.WellTyped) {q : Query}
    (hq : q.WellTyped) : Sound q.schema (db.evaluate env (.query q)) := by
  have hgives := Query.gives_openStream env hdb hq
  unfold Access.Gives at hgives
  unfold evaluate
  dsimp only
  cases ho : (q.openStream env db.store).outcome with
  | error e => rw [ho] at hgives; exact ⟨hdb, hgives⟩
  | ok s => rw [ho] at hgives; exact ⟨hdb, rfl, hgives⟩

theorem sound_evaluate (env : Environment) {db : Database} (hdb : db.store.WellTyped) {p : Plan}
    (hp : p.Built) : Sound p.schema (db.evaluate env p) := by
  cases hp with
  | query hq => exact sound_query hdb hq.wellTyped
  | insert key hp hq => exact sound_insert hdb key (hp.asInput hq).wellTyped
  | replace key hp hq => exact sound_replace hdb key (hp.asInput hq).wellTyped

/-- **Type soundness.**  Evaluating a plan that the constructors made on a well-typed store leaves
a well-typed store, and neither the evaluation nor any later call fails over a plan that does not
fit together; every tuple that is ever handed out passes the check of the plan's schema. -/
theorem evaluate_typeSound (env : Environment) {db : Database} (hdb : db.store.WellTyped)
    {p : Plan} (hp : p.Built) :
    (db.evaluate env p).2.store.WellTyped ∧
      (∀ reason, (db.evaluate env p).1 ≠ .error (.invalidPlan reason)) ∧
      ∀ r, (db.evaluate env p).1 = .ok r → r.schema = p.schema ∧
        ∀ s, r.stream.Reaches s → ∀ item, s.next.1 = some item →
          (∀ t, item = .ok t → p.schema.check t = .ok ()) ∧
            ∀ reason, item ≠ .error (.invalidPlan reason) := by
  obtain ⟨hstore, houtcome⟩ := sound_evaluate env hdb hp
  refine ⟨hstore, ?_, ?_⟩
  · intro reason h
    rw [h] at houtcome
    exact Error.not_invalidPlan houtcome reason rfl
  · intro r h
    rw [h] at houtcome
    obtain ⟨hschema, hfits⟩ := houtcome
    refine ⟨hschema, fun s hreach item hnext => ?_⟩
    have hitem := (Stream.fits_of_next rfl (hreach.fits hfits)).1 item hnext
    constructor
    · rintro t rfl
      exact Schema.check_eq_ok_iff.2 hitem
    · rintro reason rfl
      exact hitem

/-! ### A relation whose column was renamed -/

/-- One integer column under a name. -/
def column (name : String) : Schema := ⟨[⟨name, .int⟩], by simp⟩

/-- A store of one relation with one row. -/
def oneRow (key : Key) (name : String) (value : Int64) : Store :=
  .single key ⟨column name, .ofList [⟨[.int value]⟩]⟩

theorem wellTyped_oneRow (key : Key) (name : String) (value : Int64) :
    (oneRow key name value).WellTyped := by
  intro k r hr t ht
  unfold oneRow at hr
  rw [Dictionary.get?_single] at hr
  split at hr
  · cases hr
    refine Store.check_ofList (fun u hu => ?_) t ht
    rw [List.mem_singleton.1 hu]
    rfl
  · cases hr

/-- No path leads to anything. -/
def noFiles : Environment := ⟨fun _ => .refused FileFault.notFound.reason, none⟩

/-- A row is inserted under the column `b` where the relation calls it `a`, and a scan that was
built when the column was called `b` is evaluated. -/
theorem evaluate_typeSound_renamed :
    let key : Key := ⟨"owner", "program", "relation"⟩
    let db : Database := ⟨oneRow key "a" 1, .none⟩
    let insertion : Plan := .insert key (.table [⟨[.int 2]⟩] (column "b"))
    let scan : Plan := .query (.scan key (column "b"))
    db.store.WellTyped ∧ insertion.Built ∧ scan.Built ∧
      (db.evaluate noFiles insertion).2.store.WellTyped ∧
      (db.evaluate noFiles insertion).2.store ≠ db.store ∧
      (db.evaluate noFiles scan).1 = .ok ⟨column "b", .scan [⟨[.int 1]⟩]⟩ ∧
      (Stream.scan [⟨[.int 1]⟩]).next.1 = some (.ok ⟨[.int 1]⟩) ∧
      (column "b").check ⟨[.int 1]⟩ = .ok () := by
  intro key db insertion scan
  have hdb : db.store.WellTyped := wellTyped_oneRow key "a" 1
  have htable : Query.makeTable [⟨[.int 2]⟩] (column "b")
      = .ok (.table [⟨[.int 2]⟩] (column "b")) := rfl
  have hearlier : Query.makeScan (oneRow key "b" 2) key = .ok (.scan key (column "b")) := by
    decide +kernel
  have hinsertion : insertion.Built := .insert key (.query (.table htable)) rfl
  have hscan : scan.Built := .query (.scan hearlier)
  have hopen : (Query.openStream noFiles db.store (.scan key (column "b"))).outcome
      = .ok (.scan [⟨[.int 1]⟩]) := by decide +kernel
  have hresult : (db.evaluate noFiles scan).1 = .ok ⟨column "b", .scan [⟨[.int 1]⟩]⟩ := by
    show Except.map _ (Query.openStream noFiles db.store (.scan key (column "b"))).outcome = _
    rw [hopen]
    rfl
  have hnext : (Stream.scan [⟨[.int 1]⟩]).next.1 = some (.ok ⟨[.int 1]⟩) := by
    rw [Stream.next]
    rfl
  obtain ⟨-, -, hstream⟩ := evaluate_typeSound noFiles hdb hscan
  refine ⟨hdb, hinsertion, hscan, (evaluate_typeSound noFiles hdb hinsertion).1, ?_, hresult,
    hnext, ?_⟩
  · decide +kernel
  · exact ((hstream _ hresult).2 _ .here _ hnext).1 _ rfl

end Database

end BagQuery

import BagQuery.Plan.Explain
import BagQuery.Proofs.DecimalText
import BagQuery.Proofs.TextLines
import Mathlib.Data.List.Forall2

/-!
# What an explanation tells of its plan

The text of an explanation has one line for each operator of the plan, parents first.  A line starts
with two blanks for each level, and its first word is the tag of the operator (`Shows`), so it tells
the depth of its operator and all that the operator shows (`Shows.unique`).

A list of depths in this order leaves no choice for the tree.  The inputs of an operator end where
the depth falls back to its own or below, and this separates them from all that follows
(`Outline.allEntries_append_inj`).  Plans with the same text have therefore the same outline:
`Plan.text_tells_outline`.
-/

namespace BagQuery

open Text

/-! ## Outlines -/

/-- A tree of operators, each with its tag and what its line says behind the tag. -/
inductive Outline where
  | node (tag details : String) (inputs : List Outline)

namespace Outline

/-- What the line of an operator tells: its depth, its tag and what is behind the tag. -/
abbrev Entry := Nat × String × String

mutual

/-- The entries of an operator and its inputs, parents first. -/
def entries (depth : Nat) : Outline → List Entry
  | node tag details inputs => (depth, tag, details) :: allEntries (depth + 1) inputs

/-- The entries of several operators at one depth. -/
def allEntries (depth : Nat) : List Outline → List Entry
  | [] => []
  | e :: es => entries depth e ++ allEntries depth es

end

/-- The entries go on above the depth, or not at all. -/
def Leaves (depth : Nat) (rest : List Entry) : Prop := ∀ e, rest.head? = some e → e.1 < depth

theorem Leaves.nil (depth : Nat) : Leaves depth [] := nofun

theorem Leaves.siblings {depth : Nat} {rest : List Entry} (h : Leaves depth rest)
    (es : List Outline) : Leaves (depth + 1) (allEntries depth es ++ rest) := by
  intro e he
  match es with
  | [] => exact Nat.lt_succ_of_lt (h e he)
  | node .. :: _ =>
    cases he
    exact Nat.lt_succ_self depth

/-- **The entries of operators at one depth tell the operators, whatever follows above them.** -/
theorem allEntries_append_inj : ∀ (es fs : List Outline) {depth : Nat} {xs ys : List Entry},
    Leaves depth xs → Leaves depth ys →
    allEntries depth es ++ xs = allEntries depth fs ++ ys → es = fs ∧ xs = ys
  | [], [], _, _, _, _, _, h => ⟨rfl, h⟩
  | [], node .. :: _, _, _, _, hxs, _, h => by
    subst h
    exact absurd (hxs _ rfl) (Nat.lt_irrefl _)
  | node .. :: _, [], _, _, _, _, hys, h => by
    subst h
    exact absurd (hys _ rfl) (Nat.lt_irrefl _)
  | node tag details inputs :: es, node tag' details' inputs' :: fs, depth, xs, ys, hxs, hys,
      h => by
    rw [allEntries, allEntries, entries, entries, List.append_assoc, List.append_assoc,
      List.cons_append, List.cons_append] at h
    obtain ⟨hentry, hrest⟩ := List.cons.inj h
    obtain ⟨rfl, rfl⟩ : tag = tag' ∧ details = details' := by simpa using hentry
    -- the inputs end where their siblings or what follows begin
    obtain ⟨rfl, hsiblings⟩ :=
      allEntries_append_inj inputs inputs' (hxs.siblings es) (hys.siblings fs) hrest
    obtain ⟨rfl, hfollowing⟩ := allEntries_append_inj es fs hxs hys hsiblings
    exact ⟨rfl, hfollowing⟩

theorem entries_inj {depth : Nat} {e f : Outline} (h : e.entries depth = f.entries depth) :
    e = f := by
  have hall : allEntries depth [e] ++ [] = allEntries depth [f] ++ [] := by
    simpa only [allEntries, List.append_nil] using h
  exact (List.cons.inj (allEntries_append_inj [e] [f] (.nil _) (.nil _) hall).1).1

end Outline

/-! ## Texts without newlines -/

/-- The text holds no newline. -/
def Unbroken (text : String) : Prop := '\n' ∉ text.toList

instance (text : String) : Decidable (Unbroken text) :=
  inferInstanceAs (Decidable ('\n' ∉ text.toList))

theorem Unbroken.append {s t : String} (hs : Unbroken s) (ht : Unbroken t) : Unbroken (s ++ t) := by
  rw [Unbroken, String.toList_append, List.mem_append]
  exact not_or.2 ⟨hs, ht⟩

theorem Unbroken.join {pieces : List String} (h : ∀ piece ∈ pieces, Unbroken piece) :
    Unbroken (String.join pieces) := by
  rw [Unbroken, String.toList_join, List.mem_flatMap]
  rintro ⟨piece, hpiece, hmem⟩
  exact h piece hpiece hmem

theorem Unbroken.intercalate {separator : String} {pieces : List String}
    (hseparator : Unbroken separator) (h : ∀ piece ∈ pieces, Unbroken piece) :
    Unbroken (separator.intercalate pieces) := by
  rw [Unbroken, String.toList_intercalate]
  intro hmem
  rcases mem_intercalate hmem with hmem | ⟨_, hmap, hmem⟩
  · exact hseparator hmem
  · obtain ⟨piece, hpiece, rfl⟩ := List.mem_map.1 hmap
    exact h piece hpiece hmem

theorem unbroken_bracketed {pieces : List String} (h : ∀ piece ∈ pieces, Unbroken piece) :
    Unbroken ("[" ++ ",".intercalate pieces ++ "]") :=
  .append (.append (by decide) (.intercalate (by decide) h)) (by decide)

theorem unbroken_single {key value : String} (hkey : Unbroken key) (hvalue : Unbroken value) :
    ∀ prop ∈ [(key, value)], Unbroken prop.1 ∧ Unbroken prop.2 :=
  List.forall_mem_singleton.2 ⟨hkey, hvalue⟩

theorem unbroken_ofNat (n : Nat) : Unbroken (Numeral.ofNat n) := by
  rw [Unbroken, Numeral.ofNat, String.toList_ofList]
  intro h
  exact absurd (Numeral.isDigit_of_mem_digits h) (by decide)

theorem unbroken_renderAll {columns : List Column}
    (h : ∀ name ∈ columns.map Column.name, Unbroken name) :
    Unbroken (Column.renderAll columns) := by
  refine .append (.append (by decide) (.intercalate (by decide) ?_)) (by decide)
  rw [List.forall_mem_map] at h ⊢
  intro c hc
  refine .append (.append (h c hc) (by decide)) ?_
  cases c.type <;> decide

theorem unbroken_key {key : Key} (h : ∀ part ∈ key.parts, Unbroken part) : Unbroken key.render := by
  simp only [Key.parts, List.forall_mem_cons] at h
  obtain ⟨howner, hprogram, hrelation, -⟩ := h
  exact .append (.append (.append (.append howner (by decide)) hprogram) (by decide)) hrelation

/-! ## Lines -/

namespace Explanation

/-- What a line says behind the tag. -/
def details (props : List (String × String)) : String :=
  String.join (props.map fun (key, value) => " " ++ key ++ "=" ++ value)

/-- The text is a word: something without blanks and newlines. -/
def IsWord (text : String) : Prop := text.toList ≠ [] ∧ ' ' ∉ text.toList ∧ Unbroken text

instance (text : String) : Decidable (IsWord text) :=
  inferInstanceAs (Decidable (text.toList ≠ [] ∧ ' ' ∉ text.toList ∧ Unbroken text))

/-- The line starts with two blanks for each level, has the tag as its first word, and goes on with
the details. -/
def Shows (line : List Char) : Outline.Entry → Prop
  | (depth, tag, details) =>
    line.takeWhile (· == ' ') = List.replicate (2 * depth) ' ' ∧
      (line.dropWhile (· == ' ')).takeWhile (· != ' ') = tag.toList ∧
      (line.dropWhile (· == ' ')).dropWhile (· != ' ') = details.toList

theorem Shows.unique {line : List Char} {e f : Outline.Entry} (he : Shows line e)
    (hf : Shows line f) : e = f := by
  obtain ⟨depth, tag, details⟩ := e
  obtain ⟨depth', tag', details'⟩ := f
  obtain ⟨hdepth, htag, hdetails⟩ := he
  obtain ⟨hdepth', htag', hdetails'⟩ := hf
  have hlength : 2 * depth = 2 * depth' := by
    simpa using congrArg List.length (hdepth.symm.trans hdepth')
  obtain rfl : depth = depth' := by omega
  obtain rfl : tag = tag' := String.toList_inj.1 (htag.symm.trans htag')
  obtain rfl : details = details' := String.toList_inj.1 (hdetails.symm.trans hdetails')
  rfl

/-- What lines tell, they tell in one way. -/
theorem entries_unique {lines : List (List Char)} {es fs : List Outline.Entry}
    (he : List.Forall₂ Shows lines es) (hf : List.Forall₂ Shows lines fs) : es = fs := by
  induction he generalizing fs with
  | nil => exact (List.forall₂_nil_left_iff.1 hf).symm
  | cons hline _ ih =>
    obtain ⟨f, fs, hline', hrest, rfl⟩ := List.forall₂_cons_left_iff.1 hf
    rw [hline.unique hline', ih hrest]

theorem lines_ne_nil (e : Explanation) (depth : Nat) : e.lines depth ≠ [] := by
  cases e
  rw [lines]
  exact List.cons_ne_nil _ _

theorem head?_details (props : List (String × String)) :
    ∀ c ∈ (details props).toList.head?, (c != ' ') = false := by
  intro c hc
  cases props with
  | nil => cases hc
  | cons prop props =>
    obtain rfl : c = ' ' := by simpa [details, String.toList_join, eq_comm] using hc
    rfl

theorem shows_line (depth : Nat) {tag : String} (props : List (String × String))
    (htag : IsWord tag) : Shows (line depth tag props).toList (depth, tag, details props) := by
  have hword : ∀ c ∈ tag.toList, (c != ' ') = true :=
    fun c hc => bne_iff_ne.2 fun h => htag.2.1 (h ▸ hc)
  have hblanks : ∀ c ∈ List.replicate (2 * depth) ' ', (c == ' ') = true :=
    fun c hc => beq_iff_eq.2 (List.eq_of_mem_replicate hc)
  have hstop : ∀ c ∈ (tag.toList ++ (details props).toList).head?, (c == ' ') = false := by
    intro c hc
    rw [List.head?_append_of_ne_nil _ htag.1] at hc
    simpa using hword c (List.mem_of_mem_head? hc)
  have hline : (line depth tag props).toList
      = List.replicate (2 * depth) ' ' ++ (tag.toList ++ (details props).toList) := by
    rw [line, String.toList_append, String.toList_append, String.toList_ofList, List.append_assoc]
    rfl
  rw [Shows, hline, takeWhile_append_stop hblanks hstop, dropWhile_append_stop hblanks hstop,
    takeWhile_append_stop hword (head?_details props),
    dropWhile_append_stop hword (head?_details props)]
  exact ⟨rfl, rfl, rfl⟩

/-- The lines of the explanation show the entries of the outline, and none of them is broken. -/
def Tells (e : Explanation) (o : Outline) : Prop :=
  ∀ depth, List.Forall₂ (fun line entry => Unbroken line ∧ Shows line.toList entry)
    (e.lines depth) (o.entries depth)

theorem unbroken_line (depth : Nat) {tag : String} {props : List (String × String)}
    (htag : IsWord tag) (hprops : ∀ prop ∈ props, Unbroken prop.1 ∧ Unbroken prop.2) :
    Unbroken (line depth tag props) := by
  refine .append (.append ?_ htag.2.2) (.join ?_)
  · rw [Unbroken, String.toList_ofList]
    exact fun h => absurd (List.eq_of_mem_replicate h) (by decide)
  · rw [List.forall_mem_map]
    intro prop hprop
    obtain ⟨hkey, hvalue⟩ := hprops prop hprop
    exact .append (.append (.append (by decide) hkey) (by decide)) hvalue

theorem Tells.all {es : List Explanation} {os : List Outline} (h : List.Forall₂ Tells es os)
    (depth : Nat) :
    List.Forall₂ (fun line entry => Unbroken line ∧ Shows line.toList entry)
      (allLines depth es) (Outline.allEntries depth os) := by
  induction h with
  | nil => exact .nil
  | cons he _ ih => exact List.rel_append (he depth) ih

theorem Tells.node {tag : String} {props : List (String × String)} {es : List Explanation}
    {os : List Outline} (htag : IsWord tag)
    (hprops : ∀ prop ∈ props, Unbroken prop.1 ∧ Unbroken prop.2)
    (hinputs : List.Forall₂ Tells es os) :
    Tells (.node tag props es) (.node tag (details props) os) := by
  intro depth
  exact .cons ⟨unbroken_line depth htag hprops, shows_line depth props htag⟩
    (Tells.all hinputs (depth + 1))

end Explanation

/-! ## Plans -/

open Explanation (IsWord Tells Shows details)

namespace Query

/-- What holds of a query if it holds of its inputs holds of all queries. -/
theorem induction_inputs {P : Query → Prop} (h : ∀ q, (∀ i ∈ q.inputs, P i) → P q) (q : Query) :
    P q := by
  induction q with
  | load | table | scan => exact h _ (List.forall_mem_nil _)
  | join _ _ _ _ hleft hright | setOp _ _ _ hleft hright =>
    exact h _ (List.forall_mem_cons.2 ⟨hleft, List.forall_mem_singleton.2 hright⟩)
  | foreach _ _ _ hinput | distinct _ hinput | limit _ _ hinput =>
    exact h _ (List.forall_mem_singleton.2 hinput)

/-- The outline of a query. -/
def outline (q : Query) : Outline :=
  let node := Outline.node q.tag (Explanation.details q.props)
  match q with
  | load .. | table .. | scan .. => node []
  | join left right .. | setOp _ left right => node [left.outline, right.outline]
  | foreach input .. | distinct input | limit input _ => node [input.outline]

theorem outline_eq (q : Query) :
    q.outline = .node q.tag (Explanation.details q.props) (q.inputs.map outline) := by
  cases q <;> rfl

theorem explain_eq (q : Query) : q.explain = .node q.tag q.props (q.inputs.map explain) := by
  cases q <;> rfl

/-- The path, the parts of the key and the names of the columns of the operator. -/
def ownTexts (q : Query) : List String :=
  let names := q.schema.columns.map Column.name
  match q with
  | load path _ => path :: names
  | scan key _ => key.parts ++ names
  | table .. | join .. | foreach .. | setOp .. | distinct .. | limit .. => names

/-- The paths, the parts of keys and the names of columns of all operators. -/
def texts (q : Query) : List String :=
  match q with
  | load .. | table .. | scan .. => q.ownTexts
  | join left right .. | setOp _ left right => q.ownTexts ++ left.texts ++ right.texts
  | foreach input .. | distinct input | limit input _ => q.ownTexts ++ input.texts

theorem texts_eq (q : Query) : q.texts = q.ownTexts ++ q.inputs.flatMap texts := by
  cases q <;> simp [texts, inputs]

theorem isWord_tag (q : Query) : IsWord q.tag := by
  cases q with
  | setOp op => cases op <;> (simp only [tag, SetOp.tag]; decide)
  | _ => simp only [tag]; decide

theorem forall_mem_ownTexts {q : Query} (h : ∀ text ∈ q.ownTexts, Unbroken text) :
    ∀ name ∈ q.schema.columns.map Column.name, Unbroken name := by
  intro name hname
  refine h name ?_
  cases q
  case load => exact List.mem_cons_of_mem _ hname
  case scan => exact List.mem_append_right _ hname
  all_goals exact hname

theorem unbroken_ownProps {q : Query} (h : ∀ text ∈ q.ownTexts, Unbroken text) :
    ∀ prop ∈ q.ownProps, Unbroken prop.1 ∧ Unbroken prop.2 := by
  cases q with
  | load path schema => exact unbroken_single (by decide) (h path List.mem_cons_self)
  | table => exact unbroken_single (by decide) (unbroken_ofNat _)
  | scan key schema =>
    have hkey : ∀ part ∈ key.parts, Unbroken part := fun part hpart =>
      h part (List.mem_append_left _ hpart)
    exact unbroken_single (by decide) (unbroken_key hkey)
  | join left right on =>
    refine unbroken_single (by decide) (unbroken_bracketed ?_)
    rw [List.forall_mem_map]
    exact fun pair _ => .append (.append (unbroken_ofNat _) (by decide)) (unbroken_ofNat _)
  | foreach input columns =>
    refine unbroken_single (by decide) (unbroken_bracketed ?_)
    rw [List.forall_mem_map]
    exact fun column _ => unbroken_ofNat column
  | setOp | distinct => exact List.forall_mem_nil _
  | limit => exact unbroken_single (by decide) (unbroken_ofNat _)

theorem unbroken_props {q : Query} (h : ∀ text ∈ q.ownTexts, Unbroken text) :
    ∀ prop ∈ q.props, Unbroken prop.1 ∧ Unbroken prop.2 :=
  List.forall_mem_append.2 ⟨unbroken_ownProps h,
    unbroken_single (by decide) (unbroken_renderAll (forall_mem_ownTexts h))⟩

theorem tells_explain {q : Query} (h : ∀ text ∈ q.texts, Unbroken text) :
    Tells q.explain q.outline := by
  induction q using induction_inputs with
  | h q ih =>
    rw [texts_eq, List.forall_mem_append] at h
    rw [explain_eq, outline_eq]
    refine .node q.isWord_tag (unbroken_props h.1) ?_
    rw [List.forall₂_map_left_iff, List.forall₂_map_right_iff, List.forall₂_same]
    intro i hi
    exact ih i hi fun text htext => h.2 text (List.mem_flatMap.2 ⟨i, hi, htext⟩)

end Query

namespace Plan

/-- The paths, the parts of keys and the names of columns of all operators. -/
def texts : Plan → List String
  | query q => q.texts
  | insert key input | replace key input => key.parts ++ input.texts

/-- The properties of the operator at the top. -/
def props : Plan → List (String × String)
  | query q => q.props
  | insert key _ | replace key _ => [("key", key.render)]

/-- The outline of a plan. -/
def outline (p : Plan) : Outline := .node p.tag (details p.props) (p.inputs.map Query.outline)

theorem tells_explain {p : Plan} (h : ∀ text ∈ p.texts, Unbroken text) :
    Tells p.explain p.outline := by
  cases p with
  | query q =>
    have houtline : (query q).outline = q.outline := q.outline_eq.symm
    rw [houtline]
    exact Query.tells_explain h
  | insert key input | replace key input =>
    obtain ⟨hkey, hinput⟩ := List.forall_mem_append.1 h
    exact .node (by decide) (unbroken_single (by decide) (unbroken_key hkey))
      (.cons (Query.tells_explain hinput) .nil)

/-- **The lines of the text show the operators, one each.** -/
theorem shows_lines {p : Plan} (h : ∀ text ∈ p.texts, Unbroken text) :
    List.Forall₂ Shows (p.explain.render.toList.splitOn '\n') (p.outline.entries 0) := by
  obtain ⟨hunbroken, hshows⟩ := (List.forall₂_and_left ..).1 (tells_explain h 0)
  have hlines : ∀ cs ∈ (p.explain.lines 0).map String.toList, '\n' ∉ cs :=
    List.forall_mem_map.2 hunbroken
  have hne : (p.explain.lines 0).map String.toList ≠ [] :=
    mt List.map_eq_nil_iff.1 (Explanation.lines_ne_nil _ _)
  have hsplit : p.explain.render.toList.splitOn '\n' = (p.explain.lines 0).map String.toList := by
    rw [Explanation.render, String.toList_intercalate]
    exact List.splitOn_intercalate '\n' hlines hne
  rw [hsplit]
  exact List.forall₂_map_left_iff.2 hshows

/-- **The text of an explanation tells the outline of its plan.**  Where no path, key or column name
holds a newline, the text has one line for each operator, parents first, and the line of an operator
starts with exactly two blanks for each level and then its tag.  Plans with the same text are trees
of the same operators with the same inputs in the same order. -/
theorem text_tells_outline :
    (∀ p : Plan, (∀ text ∈ p.texts, Unbroken text) →
      List.Forall₂ Shows (p.explain.render.toList.splitOn '\n') (p.outline.entries 0)) ∧
      ∀ p p' : Plan, (∀ text ∈ p.texts, Unbroken text) → (∀ text ∈ p'.texts, Unbroken text) →
        p.explain.render = p'.explain.render → p.outline = p'.outline := by
  refine ⟨fun p => shows_lines, fun p p' h h' htext => ?_⟩
  have hshows := shows_lines h
  rw [htext] at hshows
  exact Outline.entries_inj (Explanation.entries_unique hshows (shows_lines h'))

/-- The numbers of one column. -/
def oneNumber (n : Int64) : Query := .table [⟨[.int n]⟩] ⟨[⟨"x", .int⟩], by decide⟩

/-- Writes a number twice. -/
def writeTwice (n : Int64) : Plan :=
  .insert ⟨"u", "p", "r"⟩ (.setOp .union (oneNumber n) (.distinct (oneNumber n)))

theorem text_tells_outline_twoNumbers :
    (∀ text ∈ (writeTwice 1).texts, Unbroken text) ∧
      (∀ text ∈ (writeTwice 2).texts, Unbroken text) ∧ writeTwice 1 ≠ writeTwice 2 ∧
      (writeTwice 1).explain.render = (writeTwice 2).explain.render ∧
      (writeTwice 1).outline = (writeTwice 2).outline ∧
      List.Forall₂ Shows ((writeTwice 1).explain.render.toList.splitOn '\n')
        [(0, "INSERT", " key=u:p:r"), (1, "UNION", " schema=(x:int)"),
          (2, "TABLE", " rows=1 schema=(x:int)"), (2, "DISTINCT", " schema=(x:int)"),
          (3, "TABLE", " rows=1 schema=(x:int)")] := by
  obtain ⟨hlines, hsame⟩ := text_tells_outline
  have hone : ∀ text ∈ (writeTwice 1).texts, Unbroken text := by decide +kernel
  have htwo : ∀ text ∈ (writeTwice 2).texts, Unbroken text := by decide +kernel
  have htext : (writeTwice 1).explain.render = (writeTwice 2).explain.render := by decide +kernel
  have hentries : (writeTwice 1).outline.entries 0
      = [(0, "INSERT", " key=u:p:r"), (1, "UNION", " schema=(x:int)"),
        (2, "TABLE", " rows=1 schema=(x:int)"), (2, "DISTINCT", " schema=(x:int)"),
        (3, "TABLE", " rows=1 schema=(x:int)")] := by decide +kernel
  exact ⟨hone, htwo, by decide, htext, hsame _ _ hone htwo htext, hentries ▸ hlines _ hone⟩

end Plan

end BagQuery

import Mathlib
import PolyLet.Expr.Outline
import PolyLet.Proofs.Inference.Run
import PolyLet.Proofs.JavaScript.Names
import PolyLet.Proofs.Printing.Spelling
import PolyLet.Proofs.Printing.Types

/-!
# The outline of a tree

No two expressions have the same outline, if their names are identifiers: the places of all nodes,
the integers and the numbers of components are found in it again. A line gives the heading of a node
and its place. How many lines belong to the parts of the node is not written there. They are those up
to the next line that is not deeper than the node, so the outline of a tree is compared with that of
another one in front of any two texts that start with such a line.

## Main definitions

* `Pattern.Identified p`, `Expr.Identified e`: all names are identifiers
* `Expr.outlineText depth e`: the text of a tree whose root is at a depth
* `endsTree depth rest`: the text does not go on with a line deeper than that

## Main results

* `Pattern.Identified.unambiguous`: the text of a pattern shows where it ends
* `Unambiguous.flatMap`: texts one behind the other
* `Expr.eq_of_heading`: a node is known from its heading, its place and its parts
* `Expr.Identified.unambiguous`: the outline of a tree shows where it ends
* `outline_injective`: no two expressions have the same outline
-/

namespace PolyLet

variable {α : Type}

/-! ## Numbers -/

/-- Numbers in front of texts that do not go on with a digit. -/
theorem toString_nat_append_inj {m n : Nat} {rest rest' : List Char}
    (hrest : rest.head?.any Char.isDigit = false) (hrest' : rest'.head?.any Char.isDigit = false)
    (heq : (toString m).toList ++ rest = (toString n).toList ++ rest') : m = n ∧ rest = rest' := by
  have hdigits (k : Nat) : ∀ d ∈ (toString k).toList, d.isDigit = true := by
    obtain ⟨c, cs, hk, hcs⟩ := exists_digits_toString k
    rwa [hk]
  obtain ⟨htext, hrest⟩ := append_inj_of_run (hdigits m) (hdigits n) hrest hrest' heq
  exact ⟨Nat.repr_inj.mp (String.toList_inj.mp htext), hrest⟩

/-! ## Patterns -/

theorem not_mem_intercalate {c : Char} {sep : String} {ts : List String} (hsep : c ∉ sep.toList)
    (hts : ∀ t ∈ ts, c ∉ t.toList) : c ∉ (sep.intercalate ts).toList := by
  induction ts with
  | nil => exact List.not_mem_nil
  | cons t ts ih =>
    obtain ⟨ht, hts⟩ := List.forall_mem_cons.mp hts
    cases ts with
    | nil => rwa [String.intercalate_singleton]
    | cons u ts =>
      rw [String.intercalate_cons_cons]
      exact not_mem_toList_append (not_mem_toList_append ht hsep) (ih hts)

theorem not_mem_of_isIdentifier {c : Char} {x : String} (hc : isNameRest c = false)
    (hx : isIdentifier x = true) : c ∉ x.toList := by
  intro hmem
  rw [JavaScript.isNameRest_of_isIdentifier hx c hmem] at hc
  cases hc

namespace Pattern

variable {p : Pattern} {ps : List Pattern}

/-- All names of the pattern are identifiers. -/
def Identified (p : Pattern) : Prop :=
  ∀ x ∈ p.names, isIdentifier x = true

theorem Identified.of_mem (h : (tuple ps).Identified) (hp : p ∈ ps) : p.Identified := by
  intro x hx
  refine h x ?_
  rw [names, namesAll_eq_flatMap]
  exact List.mem_flatMap.mpr ⟨p, hp, hx⟩

theorem printAll_eq_map (ps : List Pattern) : printAll ps = ps.map print := by
  induction ps with
  | nil => rfl
  | cons p ps ih => rw [printAll, ih, List.map_cons]

theorem toList_print_tuple (ps : List Pattern) (rest : List Char) :
    (tuple ps).print.toList ++ rest =
      '(' :: ((", ".intercalate (ps.map print)).toList ++ (")".toList ++ rest)) := by
  rw [print, printAll_eq_map, String.toList_append, String.toList_append, List.append_assoc,
    List.append_assoc]
  rfl

theorem Identified.at_not_mem_print (h : p.Identified) : '@' ∉ p.print.toList := by
  induction p using Pattern.ind with
  | var x => exact not_mem_of_isIdentifier rfl (h x (List.mem_singleton.mpr rfl))
  | tuple ps ih =>
    have hps : '@' ∉ (", ".intercalate (ps.map print)).toList :=
      not_mem_intercalate (by decide) (List.forall_mem_map.mpr fun p hp => ih p hp (h.of_mem hp))
    rw [print, printAll_eq_map]
    exact not_mem_toList_append (not_mem_toList_append (by decide) hps) (by decide)

/-- A text that starts with an identifier does not start with a character that names do not have. -/
theorem var_append_ne {x : String} (hx : isIdentifier x = true) {c : Char}
    (hc : isNameRest c = false) (rest rest' : List Char) : x.toList ++ rest ≠ c :: rest' := by
  obtain ⟨d, ds, htext, hd, -⟩ := JavaScript.isIdentifier_iff.mp hx
  intro heq
  rw [htext] at heq
  rw [← (List.cons.inj heq).1, isNameRest_of_isNameStart hd] at hc
  cases hc

theorem Identified.print_ne_close (h : p.Identified) (rest rest' : List Char) :
    p.print.toList ++ rest ≠ ")".toList ++ rest' := by
  cases p with
  | var x => exact var_append_ne (h x (List.mem_singleton.mpr rfl)) rfl rest rest'
  | tuple ps =>
    rw [toList_print_tuple]
    intro heq
    cases (List.cons.inj heq).1

/-- The text does not go on with a character of a name. -/
def endsName (rest : List Char) : Bool :=
  !rest.head?.any isNameRest

/-- **The text of a pattern shows where it ends,** and is the text of no other pattern. -/
theorem Identified.unambiguous (h : p.Identified) : Unambiguous print Identified endsName p := by
  induction p using Pattern.ind with
  | var x =>
    intro q rest rest' hq hrest hrest' heq
    have hx := h x (List.mem_singleton.mpr rfl)
    cases q with
    | var y =>
      have hy := hq y (List.mem_singleton.mpr rfl)
      obtain ⟨htext, hrest⟩ := append_inj_of_run (JavaScript.isNameRest_of_isIdentifier hx)
        (JavaScript.isNameRest_of_isIdentifier hy) ((Bool.not_eq_true' _).mp hrest)
        ((Bool.not_eq_true' _).mp hrest') heq
      exact ⟨congrArg var (String.toList_inj.mp htext), hrest⟩
    | tuple qs =>
      rw [toList_print_tuple] at heq
      exact absurd heq (var_append_ne hx rfl _ _)
  | tuple ps ih =>
    intro q rest rest' hq hrest hrest' heq
    rw [toList_print_tuple] at heq
    cases q with
    | var y => exact absurd heq.symm (var_append_ne (hq y (List.mem_singleton.mpr rfl)) rfl _ _)
    | tuple qs =>
      rw [toList_print_tuple] at heq
      obtain ⟨rfl, hrest⟩ := Unambiguous.elems rfl rfl (by decide) (fun _ => rfl) (fun _ => rfl)
        (fun _ hp => hp.print_ne_close) (fun p hp => h.of_mem hp)
        (fun p hp => ih p hp (h.of_mem hp)) (fun q => hq.of_mem) (List.cons.inj heq).2
      exact ⟨rfl, hrest⟩

theorem Identified.eq_of_print {q : Pattern} (hp : p.Identified) (hq : q.Identified)
    (h : p.print = q.print) : p = q :=
  (hp.unambiguous q [] [] hq rfl rfl (by rw [h])).1

end Pattern

/-! ## Headings -/

namespace Expr

variable {e e' : Expr}

/-- All names of the expression are identifiers. -/
def Identified (e : Expr) : Prop :=
  ∀ x ∈ e.names, isIdentifier x = true

theorem Identified.child (h : e.Identified) {c : Expr} (hc : c ∈ e.children) : c.Identified := by
  intro x hx
  refine h x ?_
  cases e with
  | int | bool | var => cases hc
  | tuple =>
    rw [names, namesAll_eq_flatMap]
    exact List.mem_flatMap.mpr ⟨c, hc, hx⟩
  | _ =>
    simp only [children, List.mem_cons, List.not_mem_nil, or_false] at hc
    simp only [names, List.mem_append]
    grind

theorem Identified.lam_param {s : Span} {p : Pattern} {b : Expr} (h : (lam s p b).Identified) :
    p.Identified :=
  fun x hx => h x (List.mem_append_left _ hx)

theorem Identified.letIn_pattern {s : Span} {p : Pattern} {b c : Expr}
    (h : (letIn s p b c).Identified) : p.Identified :=
  fun x hx => h x (List.mem_append_left _ hx)

theorem Identified.at_not_mem_heading (h : e.Identified) : '@' ∉ e.heading.toList := by
  cases e with
  | int s n =>
    rw [heading]
    exact not_mem_toList_append (by decide) (not_mem_toString_int rfl (by decide) n.toInt)
  | bool s b =>
    rw [heading]
    cases b <;> decide
  | var s x =>
    have hx := h x (List.mem_singleton.mpr rfl)
    rw [heading]
    exact not_mem_toList_append (by decide) (not_mem_of_isIdentifier rfl hx)
  | lam s p b =>
    rw [heading]
    exact not_mem_toList_append (by decide) h.lam_param.at_not_mem_print
  | letIn s p b c =>
    rw [heading]
    exact not_mem_toList_append (by decide) h.letIn_pattern.at_not_mem_print
  | app | ite | tuple =>
    rw [heading]
    decide

/-- The constructor that a heading is for. -/
def headingIndex : List Char → Nat
  | 'I' :: 'n' :: _ => 0
  | 'B' :: _ => 1
  | 'V' :: _ => 2
  | 'A' :: _ => 3
  | 'L' :: 'a' :: _ => 4
  | 'L' :: _ => 5
  | 'I' :: _ => 6
  | _ => 7

theorem headingIndex_heading (e : Expr) : headingIndex e.heading.toList = e.ctorIdx := by
  cases e with
  | app | ite | tuple =>
    rw [heading]
    rfl
  | _ =>
    rw [heading, String.toList_append]
    rfl

theorem boolLiteral_injective {b b' : Bool} (h : boolLiteral b = boolLiteral b') : b = b' := by
  cases b <;> cases b' <;> first | rfl | exact absurd h (by decide)

/-- **A node is known from its heading, its place and its parts.** -/
theorem eq_of_heading (he : e.Identified) (he' : e'.Identified) (hheading : e.heading = e'.heading)
    (hspan : e.span = e'.span) (hchildren : e.children = e'.children) : e = e' := by
  -- two letters of the heading tell the kind of node, so all other pairs of kinds are excluded
  have hindex : e.ctorIdx = e'.ctorIdx := by
    rw [← headingIndex_heading, hheading, headingIndex_heading]
  cases e with
  | int s n =>
    cases e' with
    | int s' n' =>
      have htext : toString n.toInt = toString n'.toInt := (String.append_right_inj _).mp hheading
      exact congrArg₂ int hspan (Int64.toInt_inj.mp (Int.repr_injective htext))
    | _ => cases hindex
  | bool s b =>
    cases e' with
    | bool s' b' =>
      have htext : boolLiteral b = boolLiteral b' := (String.append_right_inj _).mp hheading
      exact congrArg₂ bool hspan (boolLiteral_injective htext)
    | _ => cases hindex
  | var s x =>
    cases e' with
    | var s' x' => exact congrArg₂ var hspan ((String.append_right_inj _).mp hheading)
    | _ => cases hindex
  | app s f a =>
    cases e' with
    | app s' f' a' =>
      obtain rfl : s = s' := hspan
      cases hchildren
      rfl
    | _ => cases hindex
  | lam s p b =>
    cases e' with
    | lam s' p' b' =>
      obtain rfl : s = s' := hspan
      have htext : p.print = p'.print := (String.append_right_inj _).mp hheading
      obtain rfl := he.lam_param.eq_of_print he'.lam_param htext
      cases hchildren
      rfl
    | _ => cases hindex
  | letIn s p e b =>
    cases e' with
    | letIn s' p' e' b' =>
      obtain rfl : s = s' := hspan
      have htext : p.print = p'.print := (String.append_right_inj _).mp hheading
      obtain rfl := he.letIn_pattern.eq_of_print he'.letIn_pattern htext
      cases hchildren
      rfl
    | _ => cases hindex
  | ite s c t e =>
    cases e' with
    | ite s' c' t' e' =>
      obtain rfl : s = s' := hspan
      cases hchildren
      rfl
    | _ => cases hindex
  | tuple s es =>
    cases e' with
    | tuple s' es' => exact congrArg₂ tuple hspan hchildren
    | _ => cases hindex

/-! ## Trees -/

/-- The text of a tree whose root is at a depth. -/
def outlineText (depth : Nat) (e : Expr) : String :=
  String.join ((outlineAt depth e).map (· ++ "\n"))

theorem outlineAll_eq_flatMap (depth : Nat) (es : List Expr) :
    outlineAll depth es = es.flatMap (outlineAt depth) := by
  induction es with
  | nil => rfl
  | cons e es ih => rw [outlineAll, ih, List.flatMap_cons]

theorem outlineAt_eq_cons (depth : Nat) (e : Expr) : outlineAt depth e =
    outlineLine depth e :: e.children.flatMap (outlineAt (depth + 1)) := by
  cases e with
  | tuple => rw [outlineAt, outlineAll_eq_flatMap, children]
  | _ => simp [outlineAt, children]

theorem toList_pushn (s : String) (c : Char) (n : Nat) :
    (s.pushn c n).toList = s.toList ++ List.replicate n c := by
  induction n with
  | zero => exact (List.append_nil _).symm
  | succ n ih =>
    show ((s.pushn c n).push c).toList = _
    rw [String.toList_push, ih, List.append_assoc, List.replicate_succ']

/-- The text of a tree: the line of its root and the texts of the trees below. -/
theorem toList_outlineText (depth : Nat) (e : Expr) (rest : List Char) :
    (outlineText depth e).toList ++ rest = List.replicate (2 * depth) ' ' ++
      ((e.heading.toList ++ [' ']) ++ '@' :: ((toString e.span.start).toList ++ '.' :: '.' ::
        ((toString e.span.stop).toList ++ '\n' ::
          (e.children.flatMap (fun c => (outlineText (depth + 1) c).toList) ++ rest)))) := by
  have hbelow : (e.children.flatMap (outlineAt (depth + 1))).flatMap (fun l => (l ++ "\n").toList) =
      e.children.flatMap (fun c => (outlineText (depth + 1) c).toList) := by
    simp only [outlineText, String.toList_join, List.flatMap_assoc, List.flatMap_map]
  rw [outlineText, outlineAt_eq_cons, String.toList_join, List.flatMap_map, List.flatMap_cons,
    hbelow, outlineLine]
  simp [toList_pushn]

end Expr

/-- **Texts one behind the other** show where they end, in front of a text that none of them starts
like. -/
theorem Unambiguous.flatMap {text : α → String} {ok : α → Prop} {stop ends : List Char → Bool}
    (hstop : ∀ rest, ends rest = true → stop rest = true)
    (hgoes : ∀ a rest, stop ((text a).toList ++ rest) = true)
    (hends : ∀ a rest, ends ((text a).toList ++ rest) = false) {as bs : List α}
    {rest rest' : List Char} (h : ∀ a ∈ as, Unambiguous text ok stop a) (hbs : ∀ b ∈ bs, ok b)
    (hrest : ends rest = true) (hrest' : ends rest' = true)
    (heq : as.flatMap (fun a => (text a).toList) ++ rest =
      bs.flatMap (fun b => (text b).toList) ++ rest') : as = bs ∧ rest = rest' := by
  -- behind each of the texts there is another one, or the end
  have hnext (cs : List α) {r : List Char} (hr : ends r = true) :
      stop (cs.flatMap (fun c => (text c).toList) ++ r) = true := by
    cases cs with
    | nil => exact hstop r hr
    | cons c cs =>
      rw [List.flatMap_cons, List.append_assoc]
      exact hgoes c _
  induction as generalizing bs with
  | nil =>
    cases bs with
    | nil => exact ⟨rfl, heq⟩
    | cons b bs =>
      rw [List.flatMap_nil, List.nil_append, List.flatMap_cons, List.append_assoc] at heq
      rw [heq, hends] at hrest
      cases hrest
  | cons a as ih =>
    obtain ⟨ha, has⟩ := List.forall_mem_cons.mp h
    rw [List.flatMap_cons, List.append_assoc] at heq
    cases bs with
    | nil =>
      rw [List.flatMap_nil, List.nil_append] at heq
      rw [← heq, hends] at hrest'
      cases hrest'
    | cons b bs =>
      obtain ⟨hb, htail⟩ := List.forall_mem_cons.mp hbs
      rw [List.flatMap_cons, List.append_assoc] at heq
      obtain ⟨rfl, hbehind⟩ := ha b _ _ hb (hnext as hrest) (hnext bs hrest') heq
      obtain ⟨rfl, hrest⟩ := ih has htail hbehind
      exact ⟨rfl, hrest⟩

/-- The text does not go on with a line that is deeper than that. -/
def endsTree (depth : Nat) (rest : List Char) : Bool :=
  (rest.takeWhile (· = ' ')).length ≤ 2 * depth

theorem endsTree_succ {depth : Nat} (rest : List Char) (h : endsTree depth rest = true) :
    endsTree (depth + 1) rest = true := by
  rw [endsTree, decide_eq_true_eq] at h ⊢
  omega

namespace Expr

variable {e e' : Expr}

theorem exists_heading_eq (e : Expr) : ∃ c cs, e.heading.toList = c :: cs ∧ c ≠ ' ' := by
  cases e with
  | app | ite | tuple =>
    rw [heading]
    exact ⟨_, _, rfl, by decide⟩
  | _ =>
    rw [heading, String.toList_append]
    exact ⟨_, _, rfl, by decide⟩

/-- The first line of a tree is as deep as its root. -/
theorem endsTree_outlineText (depth d : Nat) (e : Expr) (rest : List Char) :
    endsTree d ((outlineText depth e).toList ++ rest) = decide (depth ≤ d) := by
  obtain ⟨c, cs, hheading, hc⟩ := e.exists_heading_eq
  rw [toList_outlineText, hheading, endsTree, (takeWhile_append_of_head _ _).1,
    List.length_replicate]
  · exact decide_eq_decide.mpr (by omega)
  · intro b hb
    exact decide_eq_true (List.eq_of_mem_replicate hb)
  · exact decide_eq_false hc

theorem Identified.notAt_heading (h : e.Identified) :
    ∀ c ∈ e.heading.toList ++ [' '], decide (c ≠ '@') = true := by
  intro c hc
  rw [List.mem_append, List.mem_singleton] at hc
  rw [decide_eq_true_eq]
  rintro rfl
  exact hc.elim h.at_not_mem_heading (by decide)

/-- Induction on expressions, where the hypothesis is given for the parts of a node. -/
@[elab_as_elim] theorem ind_children {motive : Expr → Prop}
    (node : ∀ e, (∀ c ∈ e.children, motive c) → motive e) (e : Expr) : motive e := by
  induction e using Expr.ind with
  | tuple s es ih => exact node _ ih
  | _ => exact node _ (by simp [children, *])

/-- **The outline of a tree shows where it ends,** and is the outline of no other tree. -/
theorem Identified.unambiguous (h : e.Identified) (depth : Nat) :
    Unambiguous (outlineText depth) Identified (endsTree depth) e := by
  induction e using ind_children generalizing depth with
  | node e ih =>
    intro e' rest rest' h' hrest hrest' heq
    rw [toList_outlineText, toList_outlineText] at heq
    -- in the first line, the heading ends in front of the only `@` and the numbers show their ends
    obtain ⟨hheading, hplace⟩ := append_inj_of_run h.notAt_heading h'.notAt_heading rfl rfl
      (List.append_cancel_left heq)
    obtain ⟨hstart, hdots⟩ := toString_nat_append_inj rfl rfl (List.cons.inj hplace).2
    obtain ⟨hstop, hline⟩ := toString_nat_append_inj rfl rfl
      (List.cons.inj (List.cons.inj hdots).2).2
    -- the lines below it are those of the parts, as the text behind them is not deeper
    obtain ⟨hchildren, hrest⟩ := Unambiguous.flatMap endsTree_succ
      (fun c r => (endsTree_outlineText (depth + 1) (depth + 1) c r).trans (decide_eq_true le_rfl))
      (fun c r => (endsTree_outlineText (depth + 1) depth c r).trans (decide_eq_false (by omega)))
      (fun c hc => ih c hc (h.child hc) (depth + 1)) (fun c hc => h'.child hc) hrest hrest'
      (List.cons.inj hline).2
    have hspan : e.span = e'.span := congrArg₂ Span.mk hstart hstop
    have htext : e.heading = e'.heading := String.toList_inj.mp (List.append_cancel_right hheading)
    exact ⟨eq_of_heading h h' htext hspan hchildren, hrest⟩

end Expr

/-- **No two expressions have the same outline,** places included. -/
theorem outline_injective {e₁ e₂ : Expr} (h₁ : ∀ x ∈ e₁.names, isIdentifier x = true)
    (h₂ : ∀ x ∈ e₂.names, isIdentifier x = true) (h : e₁.outline = e₂.outline) : e₁ = e₂ := by
  have heq : (Expr.outlineText 0 e₁).toList ++ [] = (Expr.outlineText 0 e₂).toList ++ [] :=
    congrArg (String.toList · ++ []) h
  exact (Expr.Identified.unambiguous h₁ 0 e₂ [] [] h₂ rfl rfl heq).1

/-- A function of a pattern with one component, and a tuple without components. -/
theorem outline_injective_components :
    (Expr.lam ⟨0, 12⟩ (.tuple [.var "x"]) ((Expr.tuple {} []).withSpan ⟨9, 11⟩)).outline =
      "Lam (x) @0..12\n  Tuple @9..11\n" ∧
    Expr.lam ⟨0, 12⟩ (.tuple [.var "x"]) ((Expr.tuple {} []).withSpan ⟨9, 11⟩) =
      .lam ⟨0, 12⟩ (.tuple [.var "x"]) (.tuple ⟨9, 11⟩ []) := by
  have hnames : ∀ x ∈ ["x"], isIdentifier x = true := List.forall_mem_singleton.mpr rfl
  exact ⟨rfl, outline_injective hnames hnames rfl⟩

end PolyLet

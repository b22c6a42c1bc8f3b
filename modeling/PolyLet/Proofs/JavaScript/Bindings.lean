import Mathlib.Data.List.Nodup
import PolyLet.Proofs.JavaScript.Names
import PolyLet.Proofs.Principality
import PolyLet.Proofs.Printing.Spelling

/-!
# Names that compiled expressions bind

A compiled function binds the names in its parameter list, and a compiled `let` those in the pattern
of its constant. Both are read off the JavaScript text here, wherever they stand in it. They are the
patterns of the expression: the text binds a name twice exactly if a pattern of the expression has a
name twice. JavaScript refuses such a text, but the type checker accepts every such pattern.

An equals sign is written only at these places, so what stands before every equals sign of a text is
followed through the text of an expression.

## Main definitions

* `Expr.patterns e`: the patterns of the expression and of its parts
* `JavaScript.namesIn t`: the names in a text
* `JavaScript.IsBinding t js`: the text `t` is a parameter list or the pattern of a constant in `js`
* `JavaScript.Around c Q s`: what holds at every `c` of a text
* `JavaScript.IsPatternText t`: the text is written like a pattern

## Main results

* `Pattern.namesIn_toJavaScript`: the names in the text of a pattern are the names that it binds
* `JavaScript.mem_of_isBinding`: the text of an expression has no binding but those of its patterns
* `bindings_nodup_iff`: no name is bound twice exactly if no pattern has a name twice
* `exists_check_lam`: the type checker accepts every pattern
-/

namespace PolyLet

/-! ## Patterns of expressions -/

mutual

/-- The patterns of the functions and bindings in an expression, from left to right. -/
def Expr.patterns : Expr → List Pattern
  | int _ _ | bool _ _ | var _ _ => []
  | app _ f a => f.patterns ++ a.patterns
  | lam _ p b => p :: b.patterns
  | letIn _ p e b => p :: (e.patterns ++ b.patterns)
  | ite _ c t e => c.patterns ++ (t.patterns ++ e.patterns)
  | tuple _ es => patternsAll es

/-- The patterns in the expressions of a list. -/
def Expr.patternsAll : List Expr → List Pattern
  | [] => []
  | e :: es => e.patterns ++ patternsAll es

end

namespace Expr

theorem patternsAll_eq_flatMap (es : List Expr) : patternsAll es = es.flatMap patterns := by
  induction es with
  | nil => rfl
  | cons e es ih => rw [patternsAll, ih, List.flatMap_cons]

theorem mem_names_of_mem_patterns {e : Expr} {p : Pattern} {x : String} (hp : p ∈ e.patterns)
    (hx : x ∈ p.names) : x ∈ e.names := by
  induction e using Expr.ind with
  | int | bool | var => cases hp
  | app _ f a ihf iha =>
    rw [patterns, List.mem_append] at hp
    rw [names, List.mem_append]
    exact hp.imp ihf iha
  | lam _ q b ihb =>
    rw [patterns, List.mem_cons] at hp
    rw [names, List.mem_append]
    exact hp.imp (fun (h : p = q) => h ▸ hx) ihb
  | letIn _ q e b ihe ihb =>
    rw [patterns, List.mem_cons, List.mem_append] at hp
    rw [names, List.mem_append, List.mem_append]
    exact hp.imp (fun (h : p = q) => h ▸ hx) (Or.imp ihe ihb)
  | ite _ c t e ihc iht ihe =>
    rw [patterns, List.mem_append, List.mem_append] at hp
    rw [names, List.mem_append, List.mem_append]
    exact hp.imp ihc (Or.imp iht ihe)
  | tuple _ es ih =>
    rw [patterns, patternsAll_eq_flatMap, List.mem_flatMap] at hp
    rw [names, namesAll_eq_flatMap, List.mem_flatMap]
    obtain ⟨e, he, hp⟩ := hp
    exact ⟨e, he, ih e he hp⟩

theorem isIdentifier_of_mem_patterns {e : Expr} (h : ∀ x ∈ e.names, isIdentifier x = true)
    {p : Pattern} (hp : p ∈ e.patterns) : ∀ x ∈ p.names, isIdentifier x = true :=
  fun x hx => h x (mem_names_of_mem_patterns hp hx)

end Expr

/-! ## Bindings in a text -/

namespace JavaScript

/-- A character that binding patterns are written with. -/
def isPatternChar (c : Char) : Bool :=
  isWordChar c || c = '[' || c = ']' || c = ',' || c = ' '

/-- The names in a text, from left to right. -/
def namesIn (cs : List Char) : List String :=
  ((cs.splitOnP (!isWordChar ·)).filter (· ≠ [])).map String.ofList

/-- The text `t` is written in `js` as the parameter list of a function or as the pattern of a
constant. -/
structure IsBinding (t js : String) : Prop where
  isPattern : ∀ c ∈ t.toList, isPatternChar c = true
  written : ("((" ++ t ++ ") => ").toList <:+: js.toList ∨
    ("const " ++ t ++ " = ").toList <:+: js.toList

/-- `Q` holds of what stands before and behind every `c` of the text. -/
def Around (c : Char) (Q : List Char → List Char → Prop) (s : List Char) : Prop :=
  ∀ pre post, s = pre ++ c :: post → Q pre post

namespace Around

variable {c : Char} {Q : List Char → List Char → Prop} {s t : List Char}

theorem of_not_mem (h : c ∉ s) : Around c Q s := by
  rintro pre post rfl
  exact absurd (List.mem_append_right pre List.mem_cons_self) h

/-- Around the only `c` of a text. -/
theorem single (hs : c ∉ s) (ht : c ∉ t) (hQ : Q s t) : Around c Q (s ++ c :: t) := by
  intro pre post heq
  obtain ⟨rfl, -, rfl⟩ := (List.append_cons_inj_of_notMem hs ht).mp heq
  exact hQ

theorem append (hQ : ∀ {pre post} a b, Q pre post → Q (a ++ pre) (post ++ b)) (hs : Around c Q s)
    (ht : Around c Q t) : Around c Q (s ++ t) := by
  intro pre post heq
  -- the character is in the second text, or at its start, or in the first one
  rcases List.append_eq_append_iff.mp heq with ⟨pre, rfl, rfl⟩ | ⟨post', rfl, hpost⟩
  · have := hQ s [] (ht pre post rfl)
    rwa [List.append_nil] at this
  · cases post' with
    | nil =>
      have := hQ pre [] (ht [] post hpost.symm)
      rwa [List.append_nil, List.append_nil] at this
    | cons d post' =>
      obtain ⟨rfl, rfl⟩ := List.cons.inj hpost
      exact hQ [] t (hs pre post' rfl)

end Around

/-- The text is written like a pattern: with the characters of patterns, and with blanks only behind
commas. -/
structure IsPatternText (t : String) : Prop where
  chars : ∀ c ∈ t.toList, isPatternChar c = true
  blanks : Around ' ' (fun pre _ => [','] <:+ pre) t.toList

theorem isPatternText_empty : IsPatternText "" :=
  ⟨List.forall_mem_nil _, .of_not_mem List.not_mem_nil⟩

/-- What holds of the parts of an array, and of the texts of two parts together, holds of the array. -/
theorem array_induction {P : List Char → Prop} {ts : List String} (hnil : P [])
    (happend : ∀ {s t}, P s → P t → P (s ++ t)) (hopen : P ['[']) (hclose : P [']'])
    (hcomma : P [',', ' ']) (hts : ∀ t ∈ ts, P t.toList) :
    P ("[" ++ ", ".intercalate ts ++ "]").toList := by
  have hinner : P (", ".intercalate ts).toList := by
    induction ts with
    | nil => exact hnil
    | cons t ts ih =>
      obtain ⟨ht, hts⟩ := List.forall_mem_cons.mp hts
      cases ts with
      | nil => exact String.intercalate_singleton ▸ ht
      | cons u us =>
        rw [String.intercalate_cons_cons, String.toList_append, String.toList_append]
        exact happend (happend ht hcomma) (ih hts)
  rw [String.toList_append, String.toList_append]
  exact happend (happend hopen hinner) hclose

/-! ## Texts of patterns -/

theorem not_mem_of_isPatternChar {s : List Char} (hs : ∀ c ∈ s, isPatternChar c = true) {c : Char}
    (hc : isPatternChar c = false) : c ∉ s := by
  intro hmem
  rw [hs c hmem] at hc
  cases hc

theorem not_mem_nameOf {x : String} (hx : isIdentifier x = true) {c : Char}
    (hc : isWordChar c = false) : c ∉ (nameOf x).toList := by
  intro hmem
  obtain ⟨d, ds, hname, -, hword⟩ := nameOf_isWord hx
  rw [hname] at hmem
  rw [List.all_eq_true.mp hword c hmem] at hc
  cases hc

theorem namesIn_append {c : Char} (hc : isWordChar c = false) (s t : List Char) :
    namesIn (s ++ c :: t) = namesIn s ++ namesIn t := by
  rw [namesIn, List.splitOnP_append_cons s t (by rw [hc]; rfl), List.filter_append, List.map_append]
  rfl

theorem namesIn_nameOf {x : String} (hx : isIdentifier x = true) :
    namesIn (nameOf x).toList = [nameOf x] := by
  obtain ⟨c, cs, hname, -, hword⟩ := nameOf_isWord hx
  have hsplit : (c :: cs).splitOnP (!isWordChar ·) = [c :: cs] := by
    refine List.splitOnP_eq_singleton fun d hd => ?_
    rw [List.all_eq_true.mp hword d hd]
    rfl
  rw [namesIn, hname, hsplit, List.filter_cons_of_pos (by simp), List.filter_nil, List.map_singleton,
    ← hname, String.ofList_toList]

theorem namesIn_array (ts : List String) :
    namesIn ("[" ++ ", ".intercalate ts ++ "]").toList = ts.flatMap (namesIn ·.toList) := by
  have hinner : namesIn (", ".intercalate ts).toList = ts.flatMap (namesIn ·.toList) := by
    induction ts with
    | nil => rfl
    | cons t ts ih =>
      cases ts with
      | nil => rw [String.intercalate_singleton, List.flatMap_singleton]
      | cons u us =>
        have hlist : (", ".intercalate (t :: u :: us)).toList =
            t.toList ++ ',' :: ([] ++ ' ' :: (", ".intercalate (u :: us)).toList) := by
          rw [String.intercalate_cons_cons]
          simp
        -- between the comma and the blank there is no name
        rw [hlist, namesIn_append rfl, namesIn_append rfl, ih, List.flatMap_cons]
        rfl
  have hlist : ("[" ++ ", ".intercalate ts ++ "]").toList =
      [] ++ '[' :: ((", ".intercalate ts).toList ++ ']' :: []) := by
    simp
  have hnil : namesIn [] = [] := rfl
  rw [hlist, namesIn_append rfl, namesIn_append rfl, hinner, hnil, List.nil_append, List.append_nil]

end JavaScript

open JavaScript

namespace Pattern

variable {p : Pattern}

/-- What holds of names and of the parts of arrays holds of the text of a pattern. -/
theorem toJavaScript_induction {P : List Char → Prop} (hnil : P [])
    (happend : ∀ {s t}, P s → P t → P (s ++ t)) (hopen : P ['[']) (hclose : P [']'])
    (hcomma : P [',', ' ']) (hname : ∀ x, isIdentifier x = true → P (nameOf x).toList)
    (h : ∀ x ∈ p.names, isIdentifier x = true) : P p.toJavaScript.toList := by
  induction p using Pattern.ind with
  | var x => exact hname x (h x (List.mem_singleton_self x))
  | tuple ps ih =>
    rw [names, namesAll_eq_flatMap] at h
    rw [toJavaScript_tuple]
    refine array_induction hnil happend hopen hclose hcomma (List.forall_mem_map.mpr fun p hp => ?_)
    exact ih p hp fun x hx => h x (List.mem_flatMap.mpr ⟨p, hp, hx⟩)

theorem isPatternText (h : ∀ x ∈ p.names, isIdentifier x = true) :
    IsPatternText p.toJavaScript where
  chars := by
    refine toJavaScript_induction (P := fun s => ∀ c ∈ s, isPatternChar c = true)
      (List.forall_mem_nil _) (fun hs ht => List.forall_mem_append.mpr ⟨hs, ht⟩)
      (List.all_eq_true.mp rfl) (List.all_eq_true.mp rfl) (List.all_eq_true.mp rfl)
      (fun x hx c hc => ?_) h
    cases hword : isWordChar c with
    | true => rw [isPatternChar, hword, Bool.true_or, Bool.true_or, Bool.true_or, Bool.true_or]
    | false => exact absurd hc (not_mem_nameOf hx hword)
  blanks := by
    refine toJavaScript_induction (.of_not_mem List.not_mem_nil)
      (.append fun a _ hpre => hpre.trans (List.suffix_append a _)) (.of_not_mem (by decide))
      (.of_not_mem (by decide)) ?_ (fun x hx => .of_not_mem (not_mem_nameOf hx rfl)) h
    exact @Around.single ' ' _ [','] [] (by decide) List.not_mem_nil (List.suffix_refl _)

/-- **The names in the text of a pattern are the names that it binds.** -/
theorem namesIn_toJavaScript (h : ∀ x ∈ p.names, isIdentifier x = true) :
    namesIn p.toJavaScript.toList = p.names.map nameOf := by
  induction p using Pattern.ind with
  | var x => exact namesIn_nameOf (h x (List.mem_singleton_self x))
  | tuple ps ih =>
    rw [names, namesAll_eq_flatMap] at h ⊢
    rw [toJavaScript_tuple, namesIn_array, List.flatMap_map, List.map_flatMap]
    refine List.flatMap_congr fun p hp => ih p hp fun x hx => ?_
    exact h x (List.mem_flatMap.mpr ⟨p, hp, hx⟩)

/-- The spellings of distinct names are distinct. -/
theorem namesIn_nodup_iff (h : ∀ x ∈ p.names, isIdentifier x = true) :
    (namesIn p.toJavaScript.toList).Nodup ↔ p.names.Nodup := by
  rw [namesIn_toJavaScript h]
  refine ⟨.of_map _, .map_on fun x hx y hy heq => ?_⟩
  -- an identifier is found in its spelling again
  rw [← originalName_nameOf (h x hx), heq, originalName_nameOf (h y hy)]

end Pattern

/-! ## Equals signs -/

namespace JavaScript

/-- The text before an equals sign ends with a parameter list or with the pattern of a constant, which
is one of the given texts. -/
def Announced (ts : List String) (pre post : List Char) : Prop :=
  ∃ t ∈ ts, "((".toList ++ (t.toList ++ ") ".toList) <:+ pre ∧ ['>'] <+: post ∨
    "\x7bconst ".toList ++ (t.toList ++ [' ']) <:+ pre ∧ [' '] <+: post

variable {ts : List String}

theorem Announced.extend {pre post : List Char} (a b : List Char) (h : Announced ts pre post) :
    Announced ts (a ++ pre) (post ++ b) := by
  have hpre {s} (hs : s <:+ pre) : s <:+ a ++ pre := hs.trans (List.suffix_append a pre)
  have hpost {s} (hs : s <+: post) : s <+: post ++ b := hs.trans (List.prefix_append post b)
  obtain ⟨t, ht, h⟩ := h
  exact ⟨t, ht, h.imp (And.imp hpre hpost) (And.imp hpre hpost)⟩

theorem equals_not_mem_int (s : Span) (m : Int64) : '=' ∉ (Expr.int s m).toJavaScript.toList := by
  have htext : (Expr.int s m).toJavaScript =
      if m < 0 then "(" ++ toString m.toInt ++ ")" else toString m.toInt := rfl
  have hint : '=' ∉ (toString m.toInt).toList := not_mem_toString_int rfl (by decide) m.toInt
  rw [htext]
  split
  next =>
    exact not_mem_toList_append (not_mem_toList_append (by decide) hint) (by decide)
  next => exact hint

theorem around_parameters {t : String} (ht : IsPatternText t) (hmem : t ∈ ts) :
    Around '=' (Announced ts) ("((" ++ t ++ ") => ").toList := by
  have htext : ("((" ++ t ++ ") => ").toList =
      "((".toList ++ (t.toList ++ ") ".toList) ++ '=' :: "> ".toList := by
    simp
  have hequals : '=' ∉ "((".toList ++ (t.toList ++ ") ".toList) := by
    simpa using not_mem_of_isPatternChar ht.chars rfl
  rw [htext]
  exact .single hequals (by decide) ⟨t, hmem, .inl ⟨List.suffix_refl _, by decide⟩⟩

theorem around_constant {t : String} (ht : IsPatternText t) (hmem : t ∈ ts) :
    Around '=' (Announced ts) ("\x7bconst " ++ t ++ " = ").toList := by
  have htext : ("\x7bconst " ++ t ++ " = ").toList =
      "\x7bconst ".toList ++ (t.toList ++ [' ']) ++ '=' :: " ".toList := by
    simp
  have hequals : '=' ∉ "\x7bconst ".toList ++ (t.toList ++ [' ']) := by
    simpa using not_mem_of_isPatternChar ht.chars rfl
  rw [htext]
  exact .single hequals (by decide) ⟨t, hmem, .inr ⟨List.suffix_refl _, by decide⟩⟩

/-- **An equals sign is written only behind the patterns of the expression** and behind the empty
parameter list of a `let`. -/
theorem around_equals (hempty : "" ∈ ts) {e : Expr} (h : ∀ x ∈ e.names, isIdentifier x = true)
    (hts : ∀ p ∈ e.patterns, p.toJavaScript ∈ ts) :
    Around '=' (Announced ts) e.toJavaScript.toList := by
  have hjoin {s t} (hs : Around '=' (Announced ts) s) (ht : Around '=' (Announced ts) t) :
      Around '=' (Announced ts) (s ++ t) := hs.append Announced.extend ht
  have hplain {s : String} (hs : s.toList.contains '=' = false) :
      Around '=' (Announced ts) s.toList := .of_not_mem (by simpa using hs)
  induction e using Expr.ind with
  | int s m => exact .of_not_mem (equals_not_mem_int s m)
  | bool s b =>
    cases b with
    | false => exact hplain (s := "false") rfl
    | true => exact hplain (s := "true") rfl
  | var s x => exact .of_not_mem (not_mem_nameOf (h x (List.mem_singleton_self x)) rfl)
  | app s f a ihf iha =>
    obtain ⟨hf, ha⟩ := List.forall_mem_append.mp h
    obtain ⟨htf, hta⟩ := List.forall_mem_append.mp hts
    simp only [Expr.toJavaScript_app, String.toList_append]
    exact hjoin (ihf hf htf) (hjoin (hplain rfl) (hjoin (iha ha hta) (hplain rfl)))
  | lam s p b ihb =>
    obtain ⟨hp, hb⟩ := List.forall_mem_append.mp h
    obtain ⟨htp, htb⟩ := List.forall_mem_cons.mp hts
    have htext : (Expr.lam s p b).toJavaScript.toList =
        ("((" ++ p.toJavaScript ++ ") => ").toList ++ (b.toJavaScript.toList ++ ")".toList) := by
      rw [Expr.toJavaScript_lam]
      simp
    rw [htext]
    exact hjoin (around_parameters (Pattern.isPatternText hp) htp) (hjoin (ihb hb htb) (hplain rfl))
  | letIn s p e b ihe ihb =>
    obtain ⟨hp, h⟩ := List.forall_mem_append.mp h
    obtain ⟨he, hb⟩ := List.forall_mem_append.mp h
    obtain ⟨htp, hts⟩ := List.forall_mem_cons.mp hts
    obtain ⟨hte, htb⟩ := List.forall_mem_append.mp hts
    have htext : (Expr.letIn s p e b).toJavaScript.toList = ("((" ++ "" ++ ") => ").toList ++
        (("\x7bconst " ++ p.toJavaScript ++ " = ").toList ++ (e.toJavaScript.toList ++
          (";return ".toList ++ (b.toJavaScript.toList ++ "\x7d)()".toList)))) := by
      rw [Expr.toJavaScript_letIn]
      simp
    rw [htext]
    refine hjoin (around_parameters isPatternText_empty hempty) ?_
    refine hjoin (around_constant (Pattern.isPatternText hp) htp) (hjoin (ihe he hte) ?_)
    exact hjoin (hplain rfl) (hjoin (ihb hb htb) (hplain rfl))
  | ite s c t e ihc iht ihe =>
    obtain ⟨hc, h⟩ := List.forall_mem_append.mp h
    obtain ⟨ht, he⟩ := List.forall_mem_append.mp h
    obtain ⟨htc, hts⟩ := List.forall_mem_append.mp hts
    obtain ⟨htt, hte⟩ := List.forall_mem_append.mp hts
    simp only [Expr.toJavaScript_ite, String.toList_append]
    refine hjoin (hplain rfl) (hjoin (ihc hc htc) (hjoin (hplain rfl) ?_))
    refine hjoin (iht ht htt) (hjoin (hplain rfl) ?_)
    exact hjoin (ihe he hte) (hplain rfl)
  | tuple s es ih =>
    rw [Expr.names, Expr.namesAll_eq_flatMap] at h
    rw [Expr.patterns, Expr.patternsAll_eq_flatMap] at hts
    rw [Expr.toJavaScript_tuple]
    refine array_induction (hplain (s := "") rfl) hjoin (hplain (s := "[") rfl)
      (hplain (s := "]") rfl) (hplain (s := ", ") rfl) (List.forall_mem_map.mpr fun e he => ?_)
    exact ih e he (fun x hx => h x (List.mem_flatMap.mpr ⟨e, he, hx⟩))
      fun p hp => hts p (List.mem_flatMap.mpr ⟨e, he, hp⟩)

/-! ## Finding the bindings of a text -/

theorem eq_of_cons_suffix {c : Char} {s t u : List Char} (ht : c :: t <:+ s) (hu : c :: u <:+ s)
    (hct : c ∉ t) (hcu : c ∉ u) : t = u := by
  rcases List.suffix_or_suffix_of_suffix ht hu with h | h
  · rcases List.suffix_cons_iff.mp h with heq | hsub
    · exact (List.cons.inj heq).2
    · exact absurd (hsub.subset List.mem_cons_self) hcu
  · rcases List.suffix_cons_iff.mp h with heq | hsub
    · exact (List.cons.inj heq).2.symm
    · exact absurd (hsub.subset List.mem_cons_self) hct

/-- The letters of `const` at the end of a name are not mistaken for the word: they have no blank behind
them, as the blanks of a pattern are behind its commas. -/
theorem eq_of_const_append {x t u : List Char}
    (h : x ++ "const".toList ++ ' ' :: t = "const".toList ++ ' ' :: u)
    (hblank : Around ' ' (fun pre _ => [','] <:+ pre) u) : t = u := by
  rcases List.append_eq_append_iff.mp h with ⟨a, hconst, ht⟩ | ⟨a, hconst, hu⟩
  · -- nothing fits before or behind the word
    have hlen := congrArg List.length hconst
    simp only [List.length_append] at hlen
    obtain rfl : a = [] := List.length_eq_zero_iff.mp (by omega)
    exact (List.cons.inj ht).2
  · cases a with
    | nil => exact (List.cons.inj hu).2.symm
    | cons d a =>
      -- a comma would be the last letter of the word
      obtain ⟨y, rfl⟩ := hblank a t (List.cons.inj hu).2
      rw [← List.cons_append, ← List.append_assoc] at hconst
      have hlast := congrArg List.getLast? hconst
      rw [List.getLast?_concat, List.getLast?_append] at hlast
      cases hlast

theorem eq_of_const_suffix {s t u : List Char} (ht : "const ".toList ++ (t ++ [' ']) <:+ s)
    (hu : "\x7bconst ".toList ++ (u ++ [' ']) <:+ s) (hbrace : '\x7b' ∉ t)
    (hblank : Around ' ' (fun pre _ => [','] <:+ pre) u) : t = u := by
  -- the longer one of the two texts has the brace
  rcases List.suffix_or_suffix_of_suffix ht hu with ⟨x, hx⟩ | hsub
  · have hx : x ++ "const".toList ++ ' ' :: t = '\x7b' :: ("const".toList ++ ' ' :: u) := by
      refine (List.append_left_inj [' ']).mp ?_
      simpa using hx
    cases x with
    | nil => exact absurd (List.cons.inj hx).1 (by decide)
    | cons y x => exact eq_of_const_append (List.cons.inj hx).2 hblank
  · have hmem : '\x7b' ∈ "const ".toList ++ (t ++ [' ']) := hsub.subset (by simp)
    simp [hbrace] at hmem

/-- **A text has no binding but those before its equals signs.** -/
theorem mem_of_isBinding {t js : String} (hjs : Around '=' (Announced ts) js.toList)
    (hts : ∀ t ∈ ts, IsPatternText t) (h : IsBinding t js) : t ∈ ts := by
  rcases h.written with ⟨a, b, hab⟩ | ⟨a, b, hab⟩
  · have heq : js.toList =
        (a ++ ("((".toList ++ (t.toList ++ ") ".toList))) ++ '=' :: ('>' :: ' ' :: b) := by
      rw [← hab]
      simp
    obtain ⟨u, hu, ⟨hsub, -⟩ | ⟨-, hpost⟩⟩ := hjs _ _ heq
    · -- both lists reach back to the last parenthesis before the sign
      have hcons (v : List Char) : '(' :: v <:+ "((".toList ++ v := List.suffix_cons '(' _
      have htu := eq_of_cons_suffix ((hcons _).trans (List.suffix_append a _)) ((hcons _).trans hsub)
        (by simpa using not_mem_of_isPatternChar h.isPattern rfl)
        (by simpa using not_mem_of_isPatternChar (hts u hu).chars rfl)
      rwa [String.toList_inj.mp (List.append_cancel_right htu)]
    · simp at hpost
  · have heq : js.toList =
        (a ++ ("const ".toList ++ (t.toList ++ [' ']))) ++ '=' :: (' ' :: b) := by
      rw [← hab]
      simp
    obtain ⟨u, hu, ⟨-, hpost⟩ | ⟨hsub, -⟩⟩ := hjs _ _ heq
    · simp at hpost
    · have htu := eq_of_const_suffix (List.suffix_append a _) hsub
        (not_mem_of_isPatternChar h.isPattern rfl) (hts u hu).blanks
      rwa [String.toList_inj.mp htu]

theorem IsBinding.trans {t s js : String} (h : IsBinding t s) (hs : s.toList <:+: js.toList) :
    IsBinding t js :=
  ⟨h.isPattern, h.written.imp (·.trans hs) (·.trans hs)⟩

theorem infix_array {t : String} {ts : List String} (h : t ∈ ts) :
    t.toList <:+: ("[" ++ ", ".intercalate ts ++ "]").toList := by
  have hinner : t.toList <:+: (", ".intercalate ts).toList := by
    induction ts with
    | nil => cases h
    | cons u us ih =>
      cases us with
      | nil =>
        have heq : ", ".intercalate [u] = t := by
          rw [String.intercalate_singleton, List.mem_singleton.mp h]
        exact heq ▸ List.infix_refl _
      | cons v vs =>
        rw [String.intercalate_cons_cons, String.toList_append, String.toList_append]
        rcases List.mem_cons.mp h with rfl | h
        · exact ⟨[], _, by rw [List.nil_append, List.append_assoc]⟩
        · exact (ih h).trans (List.suffix_append _ _).isInfix
  exact hinner.trans ⟨"[".toList, "]".toList, by rw [String.toList_append, String.toList_append]⟩

end JavaScript

/-- Every pattern of an expression is a binding in its text. -/
theorem Expr.isBinding_of_mem_patterns {e : Expr} {p : Pattern} (hp : p ∈ e.patterns)
    (h : ∀ x ∈ p.names, isIdentifier x = true) : IsBinding p.toJavaScript e.toJavaScript := by
  have hchars := (Pattern.isPatternText h).chars
  induction e using Expr.ind with
  | int | bool | var => cases hp
  | app s f a ihf iha =>
    rw [toJavaScript_app]
    rcases List.mem_append.mp hp with hp | hp
    · exact (ihf hp).trans ⟨[], ("(" ++ a.toJavaScript ++ ")").toList, by simp⟩
    · exact (iha hp).trans ⟨(f.toJavaScript ++ "(").toList, ")".toList, by simp⟩
  | lam s q b ihb =>
    rw [toJavaScript_lam]
    rcases List.mem_cons.mp hp with rfl | hp
    · exact ⟨hchars, .inl ⟨[], (b.toJavaScript ++ ")").toList, by simp⟩⟩
    · exact (ihb hp).trans ⟨("((" ++ q.toJavaScript ++ ") => ").toList, ")".toList, by simp⟩
  | letIn s q e b ihe ihb =>
    rw [toJavaScript_letIn]
    rcases List.mem_cons.mp hp with rfl | hp
    · refine ⟨hchars, .inr ⟨"(() => \x7b".toList, ?_, ?_⟩⟩
      · exact (e.toJavaScript ++ ";return " ++ b.toJavaScript ++ "\x7d)()").toList
      · simp
    · rcases List.mem_append.mp hp with hp | hp
      · exact (ihe hp).trans ⟨("(() => \x7bconst " ++ q.toJavaScript ++ " = ").toList,
          (";return " ++ b.toJavaScript ++ "\x7d)()").toList, by simp⟩
      · exact (ihb hp).trans ⟨("(() => \x7bconst " ++ q.toJavaScript ++ " = " ++ e.toJavaScript ++
          ";return ").toList, "\x7d)()".toList, by simp⟩
  | ite s c t e ihc iht ihe =>
    rw [toJavaScript_ite]
    rcases List.mem_append.mp hp with hp | hp
    · exact (ihc hp).trans ⟨"(".toList,
        (" ? " ++ t.toJavaScript ++ " : " ++ e.toJavaScript ++ ")").toList, by simp⟩
    · rcases List.mem_append.mp hp with hp | hp
      · exact (iht hp).trans ⟨("(" ++ c.toJavaScript ++ " ? ").toList,
          (" : " ++ e.toJavaScript ++ ")").toList, by simp⟩
      · exact (ihe hp).trans ⟨("(" ++ c.toJavaScript ++ " ? " ++ t.toJavaScript ++ " : ").toList,
          ")".toList, by simp⟩
  | tuple s es ih =>
    rw [patterns, patternsAll_eq_flatMap] at hp
    obtain ⟨e, he, hp⟩ := List.mem_flatMap.mp hp
    rw [toJavaScript_tuple]
    exact (ih e he hp).trans (infix_array (List.mem_map_of_mem he))

/-- Every binding in the text of an expression is one of its patterns, or the empty parameter list of a
`let`. -/
theorem Expr.isBinding_cases {e : Expr} (h : ∀ x ∈ e.names, isIdentifier x = true) {t : String}
    (ht : IsBinding t e.toJavaScript) : t = "" ∨ ∃ p ∈ e.patterns, p.toJavaScript = t := by
  rw [← List.mem_map, ← List.mem_cons]
  refine mem_of_isBinding (around_equals List.mem_cons_self h fun p hp => ?_) ?_ ht
  · exact List.mem_cons_of_mem _ (List.mem_map_of_mem hp)
  · refine List.forall_mem_cons.mpr ⟨isPatternText_empty, List.forall_mem_map.mpr fun p hp => ?_⟩
    exact Pattern.isPatternText (isIdentifier_of_mem_patterns h hp)

/-- **Compiled expressions bind no name twice exactly if no pattern has a name twice.** -/
theorem bindings_nodup_iff {e : Expr} (h : ∀ x ∈ e.names, isIdentifier x = true) :
    (∀ t, IsBinding t e.toJavaScript → (namesIn t.toList).Nodup) ↔
      ∀ p ∈ e.patterns, p.names.Nodup := by
  constructor
  · intro hjs p hp
    have hnames := Expr.isIdentifier_of_mem_patterns h hp
    exact (Pattern.namesIn_nodup_iff hnames).mp (hjs _ (Expr.isBinding_of_mem_patterns hp hnames))
  · intro hpatterns t ht
    rcases Expr.isBinding_cases h ht with rfl | ⟨p, hp, rfl⟩
    · exact List.nodup_nil
    · have hnames := Expr.isIdentifier_of_mem_patterns h hp
      exact (Pattern.namesIn_nodup_iff hnames).mpr (hpatterns p hp)

/-- A function of a pair, with a reserved word for one of the names. -/
theorem bindings_nodup_pair :
    (∀ p ∈ (Expr.lam {} (.tuple [.var "x", .var "new"]) (.var {} "x")).patterns, p.names.Nodup) ∧
      ∀ t, IsBinding t (Expr.lam {} (.tuple [.var "x", .var "new"]) (.var {} "x")).toJavaScript →
        (namesIn t.toList).Nodup := by
  have hnames : ∀ x ∈ (Expr.lam {} (.tuple [.var "x", .var "new"]) (.var {} "x")).names,
      isIdentifier x = true := List.all_eq_true.mp rfl
  have hnodup : ∀ p ∈ (Expr.lam {} (.tuple [.var "x", .var "new"]) (.var {} "x")).patterns,
      p.names.Nodup := List.forall_mem_singleton.mpr (by decide)
  exact ⟨hnodup, (bindings_nodup_iff hnames).mpr hnodup⟩

/-! ## Patterns that are accepted -/

/-- The type checker accepts every pattern, whatever names it binds. -/
theorem exists_check_lam (s s' : Span) (p : Pattern) (b : Bool) :
    ∃ σ, check (.lam s p (.bool s' b)) = .ok σ := by
  obtain ⟨env, henv⟩ := builtinEnv.exists_bind_freshFor {} p
  obtain ⟨t, n, hinfer⟩ : ∃ t n, (infer builtinEnv (.lam s p (.bool s' b))).run {} = .ok (∅, t) n :=
    ⟨_, _, infer_lam_eq_ok_iff.mpr ⟨env, henv, ∅, .bool, _,
      infer_bool_eq_ok_iff.mpr ⟨rfl, rfl, rfl⟩, rfl, rfl, rfl⟩⟩
  exact ⟨generalize builtinEnv t, check_eq_ok_iff.mpr ⟨∅, t, n, hinfer, rfl⟩⟩

/-- A function of a pair whose two names are the same is accepted, and its parameter list binds the name
twice. -/
theorem check_repeated_binding :
    (∃ σ, check (.lam ⟨0, 17⟩ (.tuple [.var "x", .var "x"]) (.bool ⟨13, 17⟩ true)) = .ok σ) ∧
      (∀ x ∈ (Expr.lam ⟨0, 17⟩ (.tuple [.var "x", .var "x"]) (.bool ⟨13, 17⟩ true)).names,
        isIdentifier x = true) ∧
      IsBinding "[x, x]"
        (Expr.lam ⟨0, 17⟩ (.tuple [.var "x", .var "x"]) (.bool ⟨13, 17⟩ true)).toJavaScript ∧
      ¬(namesIn "[x, x]".toList).Nodup := by
  refine ⟨exists_check_lam _ _ _ _, List.all_eq_true.mp rfl, ⟨List.all_eq_true.mp rfl, ?_⟩, by decide⟩
  exact .inl ⟨[], "true)".toList, rfl⟩

end PolyLet

import PolyLet.Proofs.Lexing.Words
import PolyLet.Proofs.Renaming

/-!
# The text of types

No two types have the same text, if their variables have names of letters and digits and no tuple has
exactly one component. The text of a type is compared with that of another one in front of any two
texts that a type cannot go on with: then the types are equal and so are the texts behind them. A
type in front of an arrow is a word or stands in parentheses. What stands in parentheses is the
components of a tuple or one function type, which is what a tuple of one component would look like.

## Main definitions

* `Unambiguous text ok stop a`: in front of certain texts, the text of `a` shows where it ends, and is
  the text of no other value
* `isTypeName x`: the name can be told from all else that types are written with
* `Ty.Legible t`: all variables of the type have such names, and no tuple has exactly one component
* `Ty.printParam p`: the text of a type in front of an arrow

## Main results

* `Unambiguous.intercalate`, `Unambiguous.elems`: texts with separators between them
* `Ty.Legible.unambiguous`: the texts of types, in a tuple and in front of an arrow
* `Ty.Legible.print_injective`: no two types have the same text
* `Ty.Legible.print_ne_forall`: no type is written like a scheme that quantifies variables
-/

namespace PolyLet

variable {α : Type}

/-! ## Texts that show where they end -/

/-- In front of texts that `stop` allows, the text of `a` shows where it ends, and it is the text of
no other value. -/
def Unambiguous (text : α → String) (ok : α → Prop) (stop : List Char → Bool) (a : α) : Prop :=
  ∀ b rest rest', ok b → stop rest = true → stop rest' = true →
    (text a).toList ++ rest = (text b).toList ++ rest' → a = b ∧ rest = rest'

section Separators

variable {text : α → String} {ok : α → Prop} {stop : List Char → Bool} {sep close : String}
  {s c : Char} {ss cs : List Char}

theorem toList_intercalate_cons_cons (sep t u : String) (ts : List String) (rest : List Char) :
    (sep.intercalate (t :: u :: ts)).toList ++ rest =
      t.toList ++ (sep.toList ++ ((sep.intercalate (u :: ts)).toList ++ rest)) := by
  rw [String.intercalate_cons_cons, String.toList_append, String.toList_append, List.append_assoc,
    List.append_assoc]

/-- **Texts with separators between them,** and something else behind the last one, show where they
end if each of them does so in front of both. -/
theorem Unambiguous.intercalate (hs : sep.toList = s :: ss) (hc : close.toList = c :: cs)
    (hne : s ≠ c) (hsep : ∀ rest, stop (sep.toList ++ rest) = true)
    (hclose : ∀ rest, stop (close.toList ++ rest) = true) {a b : α} {as bs : List α}
    {rest rest' : List Char} (h : ∀ x ∈ a :: as, Unambiguous text ok stop x)
    (hok : ∀ y ∈ b :: bs, ok y)
    (heq : (sep.intercalate ((a :: as).map text)).toList ++ (close.toList ++ rest) =
      (sep.intercalate ((b :: bs).map text)).toList ++ (close.toList ++ rest')) :
    a :: as = b :: bs ∧ rest = rest' := by
  -- what follows the last text does not follow any other one
  have hends : ∀ r r', close.toList ++ r ≠ sep.toList ++ r' := by
    intro r r' hends
    rw [hs, hc] at hends
    exact hne (List.cons.inj hends).1.symm
  -- text by text, where both go on with a separator or both with what follows the last one
  induction as generalizing a b bs with
  | nil =>
    have hfirst := h a List.mem_cons_self b
    have hb := hok b List.mem_cons_self
    rw [List.map_singleton, String.intercalate_singleton] at heq
    cases bs with
    | nil =>
      rw [List.map_singleton, String.intercalate_singleton] at heq
      obtain ⟨rfl, hrest⟩ := hfirst _ _ hb (hclose _) (hclose _) heq
      exact ⟨rfl, List.append_cancel_left hrest⟩
    | cons b' bs =>
      rw [List.map_cons, List.map_cons, toList_intercalate_cons_cons] at heq
      exact absurd (hfirst _ _ hb (hclose _) (hsep _) heq).2 (hends _ _)
  | cons a' as ih =>
    have hfirst := h a List.mem_cons_self b
    have hb := hok b List.mem_cons_self
    rw [List.map_cons, List.map_cons, toList_intercalate_cons_cons] at heq
    cases bs with
    | nil =>
      rw [List.map_singleton, String.intercalate_singleton] at heq
      exact absurd (hfirst _ _ hb (hsep _) (hclose _) heq).2.symm (hends _ _)
    | cons b' bs =>
      rw [List.map_cons, List.map_cons, toList_intercalate_cons_cons] at heq
      obtain ⟨rfl, hrest⟩ := hfirst _ _ hb (hsep _) (hsep _) heq
      obtain ⟨htail, hrest⟩ := ih (List.forall_mem_cons.mp h).2 (List.forall_mem_cons.mp hok).2
        (List.append_cancel_left hrest)
      exact ⟨congrArg _ htail, hrest⟩

theorem intercalate_ne_close
    (hstart : ∀ a, ok a → ∀ r r', (text a).toList ++ r ≠ close.toList ++ r') {a : α} (ha : ok a)
    (as : List α) (rest rest' : List Char) :
    (sep.intercalate ((a :: as).map text)).toList ++ rest ≠ close.toList ++ rest' := by
  cases as with
  | nil =>
    rw [List.map_singleton, String.intercalate_singleton]
    exact hstart a ha _ _
  | cons b as =>
    rw [List.map_cons, List.map_cons, toList_intercalate_cons_cons]
    exact hstart a ha _ _

/-- A list that may be empty, if no text in it starts like what follows the list. -/
theorem Unambiguous.elems (hs : sep.toList = s :: ss) (hc : close.toList = c :: cs) (hne : s ≠ c)
    (hsep : ∀ rest, stop (sep.toList ++ rest) = true)
    (hclose : ∀ rest, stop (close.toList ++ rest) = true)
    (hstart : ∀ a, ok a → ∀ r r', (text a).toList ++ r ≠ close.toList ++ r')
    {as bs : List α} {rest rest' : List Char} (has : ∀ a ∈ as, ok a)
    (h : ∀ a ∈ as, Unambiguous text ok stop a) (hbs : ∀ b ∈ bs, ok b)
    (heq : (sep.intercalate (as.map text)).toList ++ (close.toList ++ rest) =
      (sep.intercalate (bs.map text)).toList ++ (close.toList ++ rest')) :
    as = bs ∧ rest = rest' := by
  cases as with
  | nil =>
    cases bs with
    | nil => exact ⟨rfl, List.append_cancel_left (List.append_cancel_left heq)⟩
    | cons b bs =>
      exact absurd heq.symm (intercalate_ne_close hstart (hbs b List.mem_cons_self) bs _ _)
  | cons a as =>
    cases bs with
    | nil => exact absurd heq (intercalate_ne_close hstart (has a List.mem_cons_self) as _ _)
    | cons b bs => exact Unambiguous.intercalate hs hc hne hsep hclose h hbs heq

end Separators

/-- Runs of characters of one class, where the text behind them does not go on with one. -/
theorem append_inj_of_run {p : Char → Bool} {cs ds rest rest' : List Char}
    (hcs : ∀ c ∈ cs, p c = true) (hds : ∀ d ∈ ds, p d = true) (hrest : rest.head?.any p = false)
    (hrest' : rest'.head?.any p = false) (heq : cs ++ rest = ds ++ rest') :
    cs = ds ∧ rest = rest' := by
  obtain ⟨htake, hdrop⟩ := takeWhile_append_of_head hcs hrest
  obtain ⟨htake', hdrop'⟩ := takeWhile_append_of_head hds hrest'
  rw [heq] at htake hdrop
  exact ⟨htake.symm.trans htake', hdrop.symm.trans hdrop'⟩

/-! ## Names -/

/-- The text does not go on with a letter or a digit. -/
def endsTypeName (rest : List Char) : Bool :=
  !rest.head?.any Char.isAlphanum

/-- The text is made of letters and digits. -/
def isAlphanumeric (x : String) : Bool :=
  x.toList.all Char.isAlphanum

/-- The text is a name that can be told from the words that types and schemes are written with. -/
def isTypeName (x : String) : Bool :=
  x ≠ "" && isAlphanumeric x && x ∉ ["Int", "Bool", "forall"]

theorem isTypeName_iff {x : String} : isTypeName x = true ↔
    x ≠ "" ∧ isAlphanumeric x = true ∧ x ≠ "Int" ∧ x ≠ "Bool" ∧ x ≠ "forall" := by
  simp [isTypeName, and_assoc]

theorem unambiguous_word {w : String} (hw : isAlphanumeric w = true) :
    Unambiguous id (isAlphanumeric · = true) endsTypeName w := by
  intro w' rest rest' hw' hrest hrest' heq
  obtain ⟨htext, hrest⟩ := append_inj_of_run (List.all_eq_true.mp hw) (List.all_eq_true.mp hw')
    ((Bool.not_eq_true' _).mp hrest) ((Bool.not_eq_true' _).mp hrest') heq
  exact ⟨String.toList_inj.mp htext, hrest⟩

/-! ## Legible types -/

mutual

/-- No tuple in the type has exactly one component. -/
def Ty.noSingles : Ty → Bool
  | int | bool | var _ => true
  | fn p r => p.noSingles && r.noSingles
  | tuple ts => ts.length != 1 && noSinglesAll ts

/-- No tuple in the types of a list has exactly one component. -/
def Ty.noSinglesAll : List Ty → Bool
  | [] => true
  | t :: ts => t.noSingles && noSinglesAll ts

end

namespace Ty

variable {t u p r : Ty} {ts : List Ty} {w : String}

theorem noSinglesAll_iff : noSinglesAll ts = true ↔ ∀ t ∈ ts, t.noSingles = true := by
  induction ts with
  | nil => simp [noSinglesAll]
  | cons t ts ih => rw [noSinglesAll, Bool.and_eq_true, ih, List.forall_mem_cons]

theorem noSingles_rename (ρ : String → String) (t : Ty) : (t.rename ρ).noSingles = t.noSingles := by
  induction t using ind with
  | int => rfl
  | bool => rfl
  | var v => rfl
  | fn p r hp hr => rw [rename_fn, noSingles, noSingles, hp, hr]
  | tuple ts ih =>
    have hall : noSinglesAll (ts.map (Ty.rename ρ)) = noSinglesAll ts := by
      rw [Bool.eq_iff_iff, noSinglesAll_iff, noSinglesAll_iff, List.forall_mem_map]
      exact forall₂_congr fun t ht => by rw [ih t ht]
    rw [rename_tuple, noSingles, noSingles, List.length_map, hall]

/-- No tuple in the type has exactly one component, and every variable can be told from all else. -/
structure Legible (t : Ty) : Prop where
  noSingles : t.noSingles = true
  isTypeName : ∀ v ∈ t.vars, isTypeName v = true

theorem Legible.fn (h : (fn p r).Legible) : p.Legible ∧ r.Legible := by
  obtain ⟨hs, hn⟩ := h
  obtain ⟨hp, hr⟩ := Bool.and_eq_true_iff.mp hs
  obtain ⟨hnp, hnr⟩ := List.forall_mem_append.mp hn
  exact ⟨⟨hp, hnp⟩, ⟨hr, hnr⟩⟩

theorem Legible.tuple (h : (tuple ts).Legible) : ts.length ≠ 1 ∧ ∀ t ∈ ts, t.Legible := by
  obtain ⟨hs, hn⟩ := h
  obtain ⟨hlen, hs⟩ := Bool.and_eq_true_iff.mp hs
  refine ⟨bne_iff_ne.mp hlen, fun t ht => ⟨noSinglesAll_iff.mp hs t ht, fun v hv => ?_⟩⟩
  exact hn v (mem_varsAll.mpr ⟨t, ht, hv⟩)

/-! ## The text in front of an arrow -/

/-- The text of a type in front of an arrow, where a function type stands in parentheses. -/
def printParam (p : Ty) : String :=
  if p.isFn then "(" ++ p.print ++ ")" else p.print

theorem printAll_eq_map (ts : List Ty) : printAll ts = ts.map print := by
  induction ts with
  | nil => rfl
  | cons t ts ih => rw [printAll, ih, List.map_cons]

theorem toList_print_fn (p r : Ty) (rest : List Char) : (fn p r).print.toList ++ rest =
    p.printParam.toList ++ (" -> ".toList ++ (r.print.toList ++ rest)) := by
  rw [print, ← printParam, String.toList_append, String.toList_append, List.append_assoc,
    List.append_assoc]

/-- The word that a type is written as, if it is one word. -/
def word? : Ty → Option String
  | int => some "Int"
  | bool => some "Bool"
  | var v => some v
  | fn .. | tuple _ => none

/-- The types that stand in parentheses if a type is not written as one word. -/
def inParens : Ty → List Ty
  | fn p r => [fn p r]
  | tuple ts => ts
  | _ => []

theorem printParam_of_word? (h : t.word? = some w) : t.printParam = w := by
  cases t <;> cases h <;> rfl

theorem printParam_of_inParens (h : t.word? = none) :
    t.printParam = "(" ++ ", ".intercalate (t.inParens.map print) ++ ")" := by
  cases t with
  | fn p r => rfl
  | tuple ts =>
    rw [inParens, ← printAll_eq_map]
    rfl
  | _ => cases h

theorem Legible.inParens (h : t.Legible) : ∀ x ∈ t.inParens, x.Legible := by
  cases t with
  | fn p r => exact List.forall_mem_singleton.mpr h
  | tuple ts => exact h.tuple.2
  | _ => exact List.forall_mem_nil _

/-- The type that is written as a word. -/
def ofWord (w : String) : Ty :=
  if w = "Int" then int else if w = "Bool" then bool else var w

/-- The type that is written as types in parentheses. -/
def ofInParens : List Ty → Ty
  | [t] => t
  | ts => tuple ts

theorem Legible.word (h : t.Legible) (hw : t.word? = some w) :
    w ≠ "" ∧ isAlphanumeric w = true ∧ w ≠ "forall" := by
  cases t with
  | int => cases hw; decide
  | bool => cases hw; decide
  | var v =>
    obtain rfl := Option.some.inj hw
    obtain ⟨hne, hw, -, -, hforall⟩ := isTypeName_iff.mp (h.isTypeName v List.mem_cons_self)
    exact ⟨hne, hw, hforall⟩
  | _ => cases hw

theorem Legible.ofWord_eq (h : t.Legible) (hw : t.word? = some w) : ofWord w = t := by
  cases t with
  | int => cases hw; rfl
  | bool => cases hw; rfl
  | var v =>
    obtain rfl := Option.some.inj hw
    obtain ⟨-, -, hint, hbool, -⟩ := isTypeName_iff.mp (h.isTypeName v List.mem_cons_self)
    rw [ofWord, if_neg hint, if_neg hbool]
  | _ => cases hw

theorem Legible.ofInParens_eq (h : t.Legible) (hw : t.word? = none) :
    ofInParens t.inParens = t := by
  cases t with
  | fn p r => rfl
  | tuple ts =>
    match ts, h.tuple.1 with
    | [], _ => rfl
    | [_], hlen => exact absurd rfl hlen
    | _ :: _ :: _, _ => rfl
  | _ => cases hw

/-- The first character shows whether a type is written as one word. -/
theorem Legible.exists_head (h : t.Legible) :
    ∃ c cs, t.printParam.toList = c :: cs ∧ c ≠ ')' ∧ t.word?.isSome = c.isAlphanum := by
  cases hw : t.word? with
  | some w =>
    obtain ⟨hne, hall, -⟩ := h.word hw
    obtain ⟨c, cs, hcs⟩ := List.exists_cons_of_ne_nil (mt String.toList_eq_nil_iff.mp hne)
    rw [isAlphanumeric, hcs, List.all_cons, Bool.and_eq_true] at hall
    refine ⟨c, cs, by rw [printParam_of_word? hw, hcs], ?_, hall.1.symm⟩
    rintro rfl
    exact absurd hall.1 (by decide)
  | none =>
    have hprint := congrArg String.toList (printParam_of_inParens hw)
    rw [String.append_assoc, String.toList_append] at hprint
    exact ⟨'(', _, hprint, by decide, rfl⟩

theorem Legible.word?_isSome_eq (ht : t.Legible) (hu : u.Legible) {rest rest' : List Char}
    (heq : t.printParam.toList ++ rest = u.printParam.toList ++ rest') :
    t.word?.isSome = u.word?.isSome := by
  obtain ⟨c, cs, htext, -, hc⟩ := ht.exists_head
  obtain ⟨d, ds, hutext, -, hd⟩ := hu.exists_head
  rw [htext, hutext, List.cons_append, List.cons_append] at heq
  rw [hc, hd, (List.cons.inj heq).1]

/-- The text of a type starts with a type in front of an arrow, or is the text of one. -/
theorem Legible.exists_print_eq (h : t.Legible) :
    ∃ (p : Ty) (rest : List Char), p.Legible ∧ endsTypeName rest = true ∧
      t.print.toList = p.printParam.toList ++ rest := by
  cases t with
  | fn p r =>
    have hprint := toList_print_fn p r []
    rw [List.append_nil] at hprint
    exact ⟨p, _, h.fn.1, rfl, hprint⟩
  | _ => exact ⟨_, [], h, rfl, (List.append_nil _).symm⟩

theorem Legible.print_ne_close (h : t.Legible) (rest rest' : List Char) :
    t.print.toList ++ rest ≠ ')' :: rest' := by
  obtain ⟨p, rest'', hp, -, hprint⟩ := h.exists_print_eq
  obtain ⟨c, cs, hcs, hc, -⟩ := hp.exists_head
  intro heq
  rw [hprint, hcs, List.cons_append] at heq
  exact hc (List.cons.inj heq).1

/-! ## No two types have the same text -/

/-- The text goes on as it may after a component of a tuple. -/
def endsTy (rest : List Char) : Bool :=
  rest.head?.all fun c => c = ')' || c = ','

theorem endsTypeName_of_endsTy {rest : List Char} (h : endsTy rest = true) :
    endsTypeName rest = true := by
  cases rest with
  | nil => rfl
  | cons c rest =>
    rcases Bool.or_eq_true_iff.mp h with hc | hc
    all_goals
      obtain rfl := of_decide_eq_true hc
      rfl

theorem unambiguous_of_word? (ht : t.Legible) (hw : t.word? = some w) :
    Unambiguous printParam Legible endsTypeName t := by
  intro u rest rest' hu hrest hrest' heq
  -- the other type starts like this one, so it is a word as well
  have hsome := ht.word?_isSome_eq hu heq
  rw [hw] at hsome
  obtain ⟨w', hw'⟩ := Option.isSome_iff_exists.mp hsome.symm
  rw [printParam_of_word? hw, printParam_of_word? hw'] at heq
  obtain ⟨rfl, hrest⟩ := unambiguous_word (ht.word hw).2.1 w' _ _ (hu.word hw').2.1 hrest hrest' heq
  exact ⟨by rw [← ht.ofWord_eq hw, ← hu.ofWord_eq hw'], hrest⟩

/-- What stands in parentheses shows where it ends, and is the text of no other types. -/
theorem unambiguous_parens {us : List Ty} {rest rest' : List Char} (hts : ∀ t ∈ ts, t.Legible)
    (h : ∀ t ∈ ts, Unambiguous print Legible endsTy t) (hus : ∀ u ∈ us, u.Legible)
    (heq : (", ".intercalate (ts.map print)).toList ++ (")".toList ++ rest) =
      (", ".intercalate (us.map print)).toList ++ (")".toList ++ rest')) :
    ts = us ∧ rest = rest' :=
  Unambiguous.elems rfl rfl (by decide) (fun _ => rfl) (fun _ => rfl)
    (fun _ ht => ht.print_ne_close) hts h hus heq

theorem unambiguous_of_inParens (ht : t.Legible) (hw : t.word? = none)
    (h : ∀ x ∈ t.inParens, Unambiguous print Legible endsTy x) :
    Unambiguous printParam Legible endsTypeName t := by
  intro u rest rest' hu hrest hrest' heq
  -- the other type starts like this one, so it stands in parentheses as well
  have hsome := ht.word?_isSome_eq hu heq
  rw [hw] at hsome
  have hw' := Option.isNone_iff_eq_none.mp (Option.isSome_eq_false_iff.mp hsome.symm)
  rw [printParam_of_inParens hw, printParam_of_inParens hw'] at heq
  simp only [String.toList_append, List.append_assoc] at heq
  obtain ⟨hin, hrest⟩ := unambiguous_parens ht.inParens h hu.inParens (List.append_cancel_left heq)
  exact ⟨by rw [← ht.ofInParens_eq hw, ← hu.ofInParens_eq hw', hin], hrest⟩

/-- The text of a function type goes on with an arrow where another type ends. -/
theorem unambiguous_of_not_isFn (h : Unambiguous printParam Legible endsTypeName t)
    (hfn : t.isFn = false) : Unambiguous print Legible endsTy t := by
  intro u rest rest' hu hrest hrest' heq
  have hprint : t.printParam = t.print := if_neg (by rw [hfn]; decide)
  rw [← hprint] at heq
  have hends := endsTypeName_of_endsTy hrest
  cases u with
  | fn p r =>
    rw [toList_print_fn] at heq
    -- the text behind this type would be an arrow
    obtain ⟨-, rfl⟩ := h p _ _ hu.fn.1 hends rfl heq
    cases hrest
  | _ => exact h _ _ _ hu hends (endsTypeName_of_endsTy hrest') heq

theorem unambiguous_fn (hp : Unambiguous printParam Legible endsTypeName p)
    (hr : Unambiguous print Legible endsTy r) : Unambiguous print Legible endsTy (fn p r) := by
  intro u rest rest' hu hrest hrest' heq
  rw [toList_print_fn] at heq
  cases u with
  | fn p' r' =>
    rw [toList_print_fn] at heq
    obtain ⟨rfl, harrow⟩ := hp p' _ _ hu.fn.1 rfl rfl heq
    obtain ⟨rfl, hrest⟩ := hr r' _ _ hu.fn.2 hrest hrest' (List.append_cancel_left harrow)
    exact ⟨rfl, hrest⟩
  | _ =>
    -- the text behind the other type would be the arrow
    obtain ⟨-, rfl⟩ := hp _ _ _ hu rfl (endsTypeName_of_endsTy hrest') heq
    cases hrest'

/-- **The texts of types show where they end,** in a tuple and in front of an arrow. -/
theorem Legible.unambiguous (h : t.Legible) :
    Unambiguous print Legible endsTy t ∧ Unambiguous printParam Legible endsTypeName t := by
  induction t using ind with
  | int =>
    have hparam := unambiguous_of_word? h rfl
    exact ⟨unambiguous_of_not_isFn hparam rfl, hparam⟩
  | bool =>
    have hparam := unambiguous_of_word? h rfl
    exact ⟨unambiguous_of_not_isFn hparam rfl, hparam⟩
  | var v =>
    have hparam := unambiguous_of_word? h rfl
    exact ⟨unambiguous_of_not_isFn hparam rfl, hparam⟩
  | fn p r ihp ihr =>
    -- in front of an arrow, the function type itself stands in parentheses
    have hprint := unambiguous_fn (ihp h.fn.1).2 (ihr h.fn.2).1
    exact ⟨hprint, unambiguous_of_inParens h rfl (List.forall_mem_singleton.mpr hprint)⟩
  | tuple ts ih =>
    have hparam := unambiguous_of_inParens h rfl fun t ht => (ih t ht (h.tuple.2 t ht)).1
    exact ⟨unambiguous_of_not_isFn hparam rfl, hparam⟩

/-- **No two types have the same text.** -/
theorem Legible.print_injective (ht : t.Legible) (hu : u.Legible) (heq : t.print = u.print) :
    t = u := by
  refine (ht.unambiguous.1 u [] [] hu rfl rfl ?_).1
  rw [heq]

/-- **No type is written like a scheme that quantifies variables.** -/
theorem Legible.print_ne_forall (h : t.Legible) (x : String) : t.print ≠ "forall " ++ x := by
  intro heq
  obtain ⟨p, rest, hp, hrest, hprint⟩ := h.exists_print_eq
  have htext : "forall".toList ++ ' ' :: x.toList = p.printParam.toList ++ rest := by
    rw [← hprint, heq, String.toList_append]
    rfl
  -- the type at the start is written as a word, which would have to be this one
  obtain ⟨c, cs, hcs, -, hsome⟩ := hp.exists_head
  rw [hcs] at htext
  obtain rfl : 'f' = c := (List.cons.inj htext).1
  obtain ⟨w, hw⟩ := Option.isSome_iff_exists.mp hsome
  rw [← hcs, printParam_of_word? hw] at htext
  have hword : Unambiguous id (isAlphanumeric · = true) endsTypeName "forall" :=
    unambiguous_word rfl
  exact (hp.word hw).2.2 (hword w _ _ (hp.word hw).2.1 rfl hrest htext).1.symm

end Ty

end PolyLet

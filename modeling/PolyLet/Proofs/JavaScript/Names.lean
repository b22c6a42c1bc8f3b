import PolyLet.JavaScript
import PolyLet.Proofs.Lexing.Words

/-!
# Names in JavaScript

The names of an expression and how they are spelled in JavaScript. An identifier is a run of
characters that a word may have and has no dollar sign, so the spelling of a name that is reserved
there is the spelling of no other name.

## Main definitions

* `isIdentifier x`: the text is a word that starts like a name; keywords are identifiers too
* `Expr.names e`: all names that are written in an expression, in its patterns too
* `JavaScript.isWordChar c`: a character of a JavaScript name

## Main results

* `JavaScript.nameOf_isWord`: the spelling of an identifier is a run of such characters
* `JavaScript.originalName_nameOf`: an identifier is found in its spelling again
-/

namespace PolyLet

/-! ## Names of expressions -/

/-- The text is a word that starts like a name. Keywords of the language are such texts too. -/
def isIdentifier (x : String) : Bool :=
  x.toList.head?.any isNameStart && x.toList.tail.all isNameRest

mutual

/-- The names that are written in an expression, from left to right. -/
def Expr.names : Expr → List String
  | int _ _ | bool _ _ => []
  | var _ x => [x]
  | app _ f a => f.names ++ a.names
  | lam _ p b => p.names ++ b.names
  | letIn _ p e b => p.names ++ (e.names ++ b.names)
  | ite _ c t e => c.names ++ (t.names ++ e.names)
  | tuple _ es => namesAll es

/-- The names that are written in the expressions of a list. -/
def Expr.namesAll : List Expr → List String
  | [] => []
  | e :: es => e.names ++ namesAll es

end

theorem Expr.namesAll_eq_flatMap (es : List Expr) : Expr.namesAll es = es.flatMap Expr.names := by
  induction es with
  | nil => rfl
  | cons e es ih => rw [Expr.namesAll, ih, List.flatMap_cons]

namespace JavaScript

/-! ## Spellings -/

/-- A character that a JavaScript name may have. -/
def isWordChar (c : Char) : Bool :=
  isNameRest c || c = '$'

theorem isIdentifier_iff {x : String} : isIdentifier x = true ↔
    ∃ c cs, x.toList = c :: cs ∧ isNameStart c = true ∧ ∀ d ∈ cs, isNameRest d = true := by
  rw [isIdentifier]
  cases x.toList with
  | nil => simp
  | cons c cs =>
    rw [Bool.and_eq_true, List.tail_cons, List.all_eq_true]
    constructor
    · rintro ⟨hc, hcs⟩
      exact ⟨c, cs, rfl, hc, hcs⟩
    · rintro ⟨_, _, heq, hc, hcs⟩
      obtain ⟨rfl, rfl⟩ := List.cons.inj heq
      exact ⟨hc, hcs⟩

theorem isNameRest_of_isIdentifier {x : String} (h : isIdentifier x = true) :
    ∀ c ∈ x.toList, isNameRest c = true := by
  obtain ⟨c, cs, hx, hc, hcs⟩ := isIdentifier_iff.mp h
  rw [hx]
  exact List.forall_mem_cons.mpr ⟨isNameRest_of_isNameStart hc, hcs⟩

theorem nameOf_cases (x : String) : nameOf x = x ∨ nameOf x = x ++ "$" := by
  rw [nameOf]
  split
  next => exact .inr rfl
  next => exact .inl rfl

/-- The name that a spelling stands for. -/
def originalName (w : String) : String :=
  String.ofList (w.toList.filter (· ≠ '$'))

/-- **A name is found in its spelling again.** -/
theorem originalName_nameOf {x : String} (h : isIdentifier x = true) :
    originalName (nameOf x) = x := by
  -- no character of an identifier is a dollar sign
  have hfilter : x.toList.filter (· ≠ '$') = x.toList := by
    refine List.filter_eq_self.mpr fun c hc => ?_
    have := isNameRest_of_isIdentifier h c hc
    rw [decide_eq_true_eq]
    rintro rfl
    cases this
  rcases nameOf_cases x with heq | heq
  · rw [heq, originalName, hfilter, String.ofList_toList]
  · rw [heq, originalName, String.toList_append, List.filter_append, hfilter]
    simp

/-- The spelling of an identifier starts like a name and is a run of word characters. -/
theorem nameOf_isWord {x : String} (h : isIdentifier x = true) :
    ∃ c cs, (nameOf x).toList = c :: cs ∧ isNameStart c = true ∧
      (c :: cs).all isWordChar = true := by
  obtain ⟨c, cs, hx, hc, -⟩ := isIdentifier_iff.mp h
  have hword : (c :: cs).all isWordChar = true := by
    rw [← hx, List.all_eq_true]
    intro d hd
    rw [isWordChar, isNameRest_of_isIdentifier h d hd, Bool.true_or]
  rcases nameOf_cases x with heq | heq
  · exact ⟨c, cs, by rw [heq, hx], hc, hword⟩
  · refine ⟨c, cs ++ ['$'], by rw [heq, String.toList_append, hx]; rfl, hc, ?_⟩
    rw [← List.cons_append, List.all_append, hword]
    rfl

/-- No name is spelled like a reserved word. -/
theorem nameOf_not_mem_reservedWords (x : String) : nameOf x ∉ reservedWords := by
  -- so a word with a dollar sign is not reserved
  have hdollar : ∀ w ∈ reservedWords, '$' ∉ w.toList := by decide
  rw [nameOf]
  split
  next hx => exact fun hmem => hdollar _ hmem (by simp)
  next hx => exact hx

end JavaScript

end PolyLet

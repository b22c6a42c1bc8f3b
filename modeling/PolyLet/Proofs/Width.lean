import PolyLet.Proofs.Inference.Failure
import PolyLet.Proofs.Inference.Freshness
import PolyLet.Proofs.Lexing.Separation
import PolyLet.Proofs.Parsing.Nesting
import PolyLet.Proofs.Parsing.Unclosed

/-!
# Words of 32 bits are enough

Offsets into a source and the numbers of type variables are natural numbers. Words of 32 bits would
do as well, for a source of fewer than `2 ^ 32` bytes and for a run of inference that comes to a
number below `2 ^ 32`. No offset is larger than the size of the source, and no call of a run begins
or ends with a number larger than the one that the run ends with. So nothing that is added up on the
way leaves the range of a word.

## Main definitions

* `Span.Within s size`: the offsets are at most `size`
* `Span.FitsWord s`: the offsets are those of words
* `Call.left c`: the supply that a call leaves

## Main results

* `Lexes.within`: tokens and errors lie within the text
* `parse_within`, `parse_error_within`: so do the nodes of a program and the places of an error
* `Call.Makes.left_le`: a call leaves no larger number than the one that makes it
* `offsets_fitWord`, `supplies_fitWord`: what is said above
-/

namespace PolyLet

/-! ## Offsets -/

/-- The offsets are at most `size`. -/
def Span.Within (s : Span) (size : Nat) : Prop :=
  s.start ≤ size ∧ s.stop ≤ size

/-- The offsets are those of words of 32 bits. -/
def Span.FitsWord (s : Span) : Prop :=
  s.start.toUInt32.toNat = s.start ∧ s.stop.toUInt32.toNat = s.stop

theorem Span.Within.fitsWord {s : Span} {size : Nat} (h : s.Within size)
    (hsize : size < UInt32.size) : s.FitsWord :=
  ⟨UInt32.toNat_ofNat_of_lt (Nat.lt_of_le_of_lt h.1 hsize),
    UInt32.toNat_ofNat_of_lt (Nat.lt_of_le_of_lt h.2 hsize)⟩

/-- **Tokens and errors lie within the text.** -/
theorem Lexes.within {start : Nat} {cs : List Char} {ts : List Token} {errors : List LexError}
    (h : Lexes start cs ts errors) :
    (∀ t ∈ ts, t.span.Within (start + byteLength cs)) ∧
      ∀ e ∈ errors, e.span.Within (start + byteLength cs) := by
  induction h with
  | done hb =>
    refine ⟨List.forall_mem_singleton.mpr ?_, List.forall_mem_nil _⟩
    exact ⟨Nat.le_refl _, Nat.le_refl _⟩
  | @token start blanks c cs ts errors hb hc run ih =>
    have hlen : start + byteLength (blanks ++ c :: cs) =
        start + byteLength blanks + byteLength (scan c cs).text + byteLength (scan c cs).rest := by
      rw [byteLength_append, ← scan_append, byteLength_append]
      omega
    have hspan : ((scan c cs).spanAt (start + byteLength blanks)).Within
        (start + byteLength (blanks ++ c :: cs)) := by
      rw [hlen]
      simp only [Span.Within, Scanned.spanAt]
      omega
    rw [← hlen] at ih
    refine ⟨List.forall_mem_cons.mpr ⟨hspan, ih.1⟩,
      List.forall_mem_append.mpr ⟨fun e he => ?_, ih.2⟩⟩
    rw [(Scanned.mem_errorsAt.mp he).2]
    exact hspan

variable {source : String}

theorem tokenize_within (source : String) :
    (∀ t ∈ (tokenize source).1, t.span.Within source.utf8ByteSize) ∧
      ∀ e ∈ (tokenize source).2, e.span.Within source.utf8ByteSize := by
  have h := (tokenize_lexes source).within
  rwa [Nat.zero_add, byteLength_toList] at h

theorem lex_within {tokens : List Token} (h : lex source = .ok tokens) :
    ∀ t ∈ tokens, t.span.Within source.utf8ByteSize := by
  have hwithin := (tokenize_within source).1
  rwa [tokenize_eq_iff.mpr (lex_eq_ok_iff.mp h)] at hwithin

/-- The nodes of a program lie within its source. -/
theorem parse_within {e m : Expr} (h : parse source = .ok e) (hm : IsNode m e) :
    m.span.Within source.utf8ByteSize := by
  obtain ⟨tokens, hlex, he⟩ := exists_exprAt_of_parse h
  obtain ⟨ls, hls, hcovers, -⟩ := (Placed.node hm (.inl ⟨_, List.infix_rfl, he⟩)).exists_inTurn
  have hwithin (t : Token) (ht : t ∈ ls) : t.span.Within source.utf8ByteSize :=
    lex_within hlex t (List.mem_of_mem_filter (hls.subset ht))
  obtain ⟨⟨first, hfirst, hstart⟩, ⟨last, hlast, hstop⟩⟩ := hcovers.exists_mem
  exact ⟨hstart ▸ (hwithin first hfirst).1, hstop ▸ (hwithin last hlast).2⟩

/-- The places of a syntax error lie within the source. -/
theorem parse_error_within {error : SyntaxError} (h : parse source = .error error) :
    error.span.Within source.utf8ByteSize ∧
      ∀ text opened, error.related = some (text, opened) → opened.Within source.utf8ByteSize := by
  cases hlex : lex source with
  | error fault =>
    -- the error is the first one of the lexer, and has one place only
    rw [parse, hlex] at h
    obtain rfl := Except.error.inj h
    refine ⟨(tokenize_within source).2 fault ?_, fun _ _ hrelated => by cases hrelated⟩
    rw [lex] at hlex
    split at hlex
    next => cases hlex
    next heq =>
      rw [heq, ← Except.error.inj hlex]
      exact List.mem_cons_self
  | ok tokens =>
    rw [parse_of_lex hlex] at h
    obtain ⟨ks, rest, wanted, hts, rfl, hmisses⟩ := parseTokens_misses h
    obtain ⟨t, after, hrest, herror⟩ := exists_unexpectedAt_eq wanted rest source.utf8ByteSize
    have ht : t ∈ tokens := by
      have hmem : t ∈ significant tokens ++ [endToken source.utf8ByteSize] := by
        rw [hts, List.append_assoc, hrest]
        exact List.mem_append_right ks List.mem_cons_self
      rw [← filter_eq_significant_append hlex] at hmem
      exact List.mem_of_mem_filter hmem
    rw [herror]
    refine ⟨lex_within hlex t ht, fun text opened hrelated => ?_⟩
    obtain rfl := SyntaxError.wanted_of_related hrelated
    obtain ⟨before, o, between, after', rfl, -, rfl, -, -⟩ := hmisses.exists_opened hlex hts hrest
    exact lex_within hlex o (List.mem_append_right before List.mem_cons_self)

/-- **Offsets fit in words of 32 bits** if the source has fewer than `2 ^ 32` bytes: those of the
tokens and of the errors of the lexer, of the nodes of a program, and of both places of a syntax
error. -/
theorem offsets_fitWord (h : source.utf8ByteSize < UInt32.size) :
    (∀ t ∈ (tokenize source).1, t.span.FitsWord) ∧ (∀ e ∈ (tokenize source).2, e.span.FitsWord) ∧
    (∀ e m, parse source = .ok e → IsNode m e → m.span.FitsWord) ∧
    ∀ error, parse source = .error error → error.span.FitsWord ∧
      ∀ text opened, error.related = some (text, opened) → opened.FitsWord := by
  obtain ⟨htokens, herrors⟩ := tokenize_within source
  refine ⟨fun t ht => (htokens t ht).fitsWord h, fun e he => (herrors e he).fitsWord h,
    fun e m he hm => (parse_within he hm).fitsWord h, fun error herror => ?_⟩
  obtain ⟨hspan, hrelated⟩ := parse_error_within herror
  exact ⟨hspan.fitsWord h, fun text opened ho => (hrelated text opened ho).fitsWord h⟩

/-! ## Numbers of type variables -/

namespace Inference

variable {α β : Type} {x : Inference α} {f : α → Inference β} {n n₁ : Supply}

theorem supplyAfter_bind_of_ok {a : α} (h : x.run n = .ok a n₁) :
    (x >>= f).supplyAfter n = (f a).supplyAfter n₁ := by
  rw [supplyAfter, run_bind_of_ok h, supplyAfter]

theorem supplyAfter_bind_modifyGet (g : Supply → α × Supply) (n : Supply) :
    ((modifyGet g : Inference α) >>= f).supplyAfter n = (f (g n).1).supplyAfter (g n).2 :=
  rfl

theorem supplyAfter_bind_raiseAt {span : Span} {y : Except TypeError α} {a : α} (h : y = .ok a) :
    (raiseAt span y >>= f).supplyAfter n = (f a).supplyAfter n :=
  supplyAfter_bind_of_ok (run_raiseAt_eq_ok_iff.mpr ⟨h, rfl⟩)

/-- What comes behind a computation leaves no smaller number. -/
theorem supplyAfter_le_bind (hf : ∀ a, (f a).Advances) (n : Supply) :
    (x.supplyAfter n).next ≤ ((x >>= f).supplyAfter n).next := by
  cases hr : x.run n with
  | error e n₁ =>
    rw [supplyAfter, supplyAfter, run_bind_of_error hr, hr]
  | ok a n₁ =>
    rw [supplyAfter_bind_of_ok hr, supplyAfter, hr]
    exact hf a n₁

end Inference

open Inference

theorem supplyAfter_le_inferAll {env : Env} {before after : List Expr} {e : Expr} {s₀ s : Subst}
    {ts : List Ty} {n n₁ : Supply} (h : (inferAll env s₀ before).run n = .ok (s, ts) n₁) :
    ((infer (s.applyEnv env) e).supplyAfter n₁).next ≤
      ((inferAll env s₀ (before ++ e :: after)).supplyAfter n).next := by
  induction before generalizing s₀ ts n with
  | nil =>
    obtain ⟨rfl, -, rfl⟩ := inferAll_nil_eq_ok_iff.mp h
    rw [List.nil_append, inferAll]
    refine supplyAfter_le_bind ?_ n₁
    rintro ⟨s', t⟩
    exact (inferAll_advances (fun e _ env => infer_advances env e) _ _).bind fun _ => .pure _
  | cons e' before ih =>
    obtain ⟨s₁, t, n₂, he, s₂, us, n₃, hbefore, rfl, -, rfl⟩ := inferAll_cons_eq_ok_iff.mp h
    rw [List.cons_append, inferAll, supplyAfter_bind_of_ok he]
    exact Nat.le_trans (ih hbefore) (supplyAfter_le_bind (fun _ => .pure _) n₂)

namespace Call

variable {c c' : Call}

/-- The supply that a call leaves, whatever its outcome. -/
def left (c : Call) : Supply :=
  (infer c.env c.expr).supplyAfter c.supply

theorem supply_le_left (c : Call) : c.supply.next ≤ c.left.next :=
  infer_advances c.env c.expr c.supply

theorem left_mk (env : Env) (e : Expr) (n : Supply) :
    left ⟨env, e, n⟩ = (infer env e).supplyAfter n :=
  rfl

/-- **A call leaves no larger number than the one that makes it.** Behind the call, the rule of the
node only goes on to draw. -/
theorem Makes.left_le (h : c.Makes c') : c'.left.next ≤ c.left.next := by
  -- what the rule does before the call has succeeded, so the run goes on at the call
  cases h with
  | func =>
    rw [left_mk, left_mk, infer]
    refine supplyAfter_le_bind ?_ _
    rintro ⟨s₁, funcTy⟩
    refine (infer_advances _ _).bind ?_
    rintro ⟨s₂, argTy⟩
    exact (Advances.modifyGet Supply.fresh_le).bind fun _ => (Advances.raiseAt _ _).bind fun _ =>
      .pure _
  | arg hf =>
    rw [left_mk, left_mk, infer, supplyAfter_bind_of_ok hf]
    refine supplyAfter_le_bind ?_ _
    rintro ⟨s₂, argTy⟩
    exact (Advances.modifyGet Supply.fresh_le).bind fun _ => (Advances.raiseAt _ _).bind fun _ =>
      .pure _
  | lamBody hp =>
    rw [left_mk, left_mk, infer, supplyAfter_bind_modifyGet, supplyAfter_bind_raiseAt hp]
    exact supplyAfter_le_bind (fun _ => .pure _) _
  | bound hp =>
    rw [left_mk, left_mk, infer, supplyAfter_bind_modifyGet, supplyAfter_bind_raiseAt hp]
    refine supplyAfter_le_bind ?_ _
    rintro ⟨s₁, boundTy⟩
    refine (Advances.raiseAt _ _).bind fun _ => (Advances.raiseAt _ _).bind fun s₂ => ?_
    exact (Advances.raiseAt _ _).bind fun _ => (infer_advances _ _).bind fun _ => .pure _
  | letBody hp hb hc hu hg =>
    rw [left_mk, left_mk, infer, supplyAfter_bind_modifyGet, supplyAfter_bind_raiseAt hp,
      supplyAfter_bind_of_ok hb]
    dsimp only
    rw [supplyAfter_bind_raiseAt hc, supplyAfter_bind_raiseAt hu, supplyAfter_bind_raiseAt hg]
    exact supplyAfter_le_bind (fun _ => .pure _) _
  | cond =>
    rw [left_mk, left_mk, infer]
    refine supplyAfter_le_bind ?_ _
    rintro ⟨s₁, condTy⟩
    refine (Advances.raiseAt _ _).bind fun s₂ => (infer_advances _ _).bind ?_
    rintro ⟨s₃, thenTy⟩
    refine (infer_advances _ _).bind ?_
    rintro ⟨s₄, elseTy⟩
    exact (Advances.raiseAt _ _).bind fun _ => .pure _
  | thenBranch hc hu =>
    rw [left_mk, left_mk, infer, supplyAfter_bind_of_ok hc]
    dsimp only
    rw [supplyAfter_bind_raiseAt hu]
    refine supplyAfter_le_bind ?_ _
    rintro ⟨s₃, thenTy⟩
    refine (infer_advances _ _).bind ?_
    rintro ⟨s₄, elseTy⟩
    exact (Advances.raiseAt _ _).bind fun _ => .pure _
  | elseBranch hc hu ht =>
    rw [left_mk, left_mk, infer, supplyAfter_bind_of_ok hc]
    dsimp only
    rw [supplyAfter_bind_raiseAt hu, supplyAfter_bind_of_ok ht]
    refine supplyAfter_le_bind ?_ _
    rintro ⟨s₄, elseTy⟩
    exact (Advances.raiseAt _ _).bind fun _ => .pure _
  | elem hb =>
    rw [left_mk, left_mk, infer]
    exact Nat.le_trans (supplyAfter_le_inferAll hb) (supplyAfter_le_bind (fun _ => .pure _) _)

theorem left_le_of_reaches (h : Relation.ReflTransGen Makes c c') : c'.left.next ≤ c.left.next := by
  induction h with
  | refl => exact Nat.le_refl _
  | tail _ hmakes ih => exact Nat.le_trans hmakes.left_le ih

end Call

/-- **The numbers of type variables fit in words of 32 bits** if the number that a run of inference
comes to is below `2 ^ 32`: every call of the run, whatever its outcome, begins and ends with such a
number. -/
theorem supplies_fitWord (env : Env) (e : Expr) (n : Supply)
    (h : ((infer env e).supplyAfter n).next < UInt32.size) {c : Call}
    (hc : Relation.ReflTransGen Call.Makes ⟨env, e, n⟩ c) :
    c.supply.next.toUInt32.toNat = c.supply.next ∧ c.left.next.toUInt32.toNat = c.left.next := by
  have hleft : c.left.next < UInt32.size := Nat.lt_of_le_of_lt (Call.left_le_of_reaches hc) h
  exact ⟨UInt32.toNat_ofNat_of_lt (Nat.lt_of_le_of_lt c.supply_le_left hleft),
    UInt32.toNat_ofNat_of_lt hleft⟩

end PolyLet

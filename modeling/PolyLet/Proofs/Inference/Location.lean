import PolyLet.Proofs.Inference.Failure

/-!
# Where inference fails

The place of an error is the place of the node whose own rule raised it. All that this rule had
inferred until then succeeded, so the node is the innermost one that fails, and no rule on the way
up puts its own place on the error. The rule of a node raises few kinds of errors: a name may be
unbound, an application, an `if` and a `let` compare types, and a `let` compares a type with its
pattern. Functions and tuples raise no errors at all.

## Main definitions

* `TypeError.isDisagreement e`: the error says that two types cannot be made equal
* `TypeError.fitsNode e m`: the rule of the node `m` may raise the error `e`

## Main results

* `Call.isNode_of_reaches`: the calls are made for nodes of the tree
* `Call.Raises.exists_run`: if the rule of a node raises an error, all its calls succeeded
* `Call.Raises.fitsNode`: a rule raises errors of its own kinds only
* `infer_error_located`: an error carries the place of the node whose rule raised it
-/

namespace PolyLet

variable {c c' : Call} {cause : TypeError} {n' : Supply}

/-! ## The nodes that are inferred -/

namespace Call

theorem Makes.mem_children (h : c.Makes c') : c'.expr ∈ c.expr.children := by
  cases h <;> simp [Expr.children]

/-- The calls that come from a call are made for nodes of its expression. -/
theorem isNode_of_reaches (h : Relation.ReflTransGen Makes c c') : IsNode c'.expr c.expr := by
  induction h using Relation.ReflTransGen.head_induction_on with
  | refl => exact .root
  | head hmakes _ ih => exact .child hmakes.mem_children ih

/-- If the rule of a node raises an error, then all the calls that it made have succeeded. It makes
no call after the step that fails. -/
theorem Raises.exists_run (h : c.Raises cause n') (hmakes : c.Makes c') :
    ∃ r n₁, c'.run = .ok r n₁ := by
  -- every step has one outcome, so what the call was made after is what the rule came through
  cases h with
  | unbound hx => cases hmakes
  | app hf ha hu =>
    cases hmakes with
    | func => exact ⟨_, _, hf⟩
    | arg hf' =>
      cases hf.symm.trans hf'
      exact ⟨_, _, ha⟩
  | shape hp hb hc =>
    cases hmakes with
    | bound hp' =>
      cases hp.symm.trans hp'
      exact ⟨_, _, hb⟩
    | letBody hp' hb' hc' hu' hg' =>
      -- the body comes after the check
      cases hp.symm.trans hp'
      cases hb.symm.trans hb'
      cases hc.symm.trans hc'
  | bound hp hb hc hu =>
    cases hmakes with
    | bound hp' =>
      cases hp.symm.trans hp'
      exact ⟨_, _, hb⟩
    | letBody hp' hb' hc' hu' hg' =>
      -- and after the types have been compared
      cases hp.symm.trans hp'
      cases hb.symm.trans hb'
      cases hu.symm.trans hu'
  | cond hc hu =>
    cases hmakes with
    | cond => exact ⟨_, _, hc⟩
    | thenBranch hc' hu' | elseBranch hc' hu' =>
      cases hc.symm.trans hc'
      cases hu.symm.trans hu'
  | branches hc hu ht he hu₅ =>
    cases hmakes with
    | cond => exact ⟨_, _, hc⟩
    | thenBranch hc' hu' =>
      cases hc.symm.trans hc'
      cases hu.symm.trans hu'
      exact ⟨_, _, ht⟩
    | elseBranch hc' hu' ht' =>
      cases hc.symm.trans hc'
      cases hu.symm.trans hu'
      cases ht.symm.trans ht'
      exact ⟨_, _, he⟩

end Call

/-! ## The errors of each node -/

/-- Whether the error says that two types cannot be made equal. -/
def TypeError.isDisagreement : TypeError → Bool
  | mismatch .. | infiniteType .. => true
  | _ => false

/-- Whether the rule of a node may raise the error: a name may be unbound, an application, an `if`
and a `let` compare types, and a `let` takes a type apart. -/
def TypeError.fitsNode (cause : TypeError) : Expr → Bool
  | .var _ x => cause = .unboundVariable x
  | .app .. | .ite .. => cause.isDisagreement
  | .letIn .. => cause.isDisagreement || cause.isPattern
  | _ => false

theorem isDisagreement_of_unify {t u : Ty} (h : unify t u = .error cause) :
    cause.isDisagreement = true := by
  obtain ⟨_, _, _, _, -, -, -, hd⟩ := exists_locatedAt_of_unify h
  cases hd <;> rfl

theorem isPattern_of_checkShape {p : Pattern} {t : Ty} (h : checkShape p t = .error cause) :
    cause.isPattern = true := by
  rcases checkShape_error_cases h with ⟨ps, ts, rfl⟩ | ⟨ps, u, -, rfl⟩
  · rfl
  · rfl

/-- **A rule raises errors of its own kinds only.** -/
theorem Call.Raises.fitsNode (h : c.Raises cause n') : cause.fitsNode c.expr = true := by
  cases h with
  | unbound hx => exact decide_eq_true rfl
  | app hf ha hu =>
    -- two function types are unified, and what is no function is reported as a whole
    split at hu
    · exact isDisagreement_of_unify hu
    · cases hu
      rfl
  | shape hp hb hc => exact Bool.or_eq_true_iff.mpr (.inr (isPattern_of_checkShape hc))
  | bound hp hb hc hu => exact Bool.or_eq_true_iff.mpr (.inl (isDisagreement_of_unify hu))
  | cond hc hu => exact isDisagreement_of_unify hu
  | branches hc hu ht he hu₅ => exact isDisagreement_of_unify hu₅

/-- **An error carries the place of the node whose rule raised it.** If inference fails, then it has
come to a node of the tree whose own rule raised the error: everything below it that was inferred
until then succeeded. The error carries the place of that node and is of a kind that such a node
raises. -/
theorem infer_error_located (env : Env) (n : Supply) (e : Expr) {err : InferError}
    (h : (infer env e).run n = .error err n') :
    ∃ (m : Expr) (env₁ : Env) (n₁ : Supply), IsNode m e ∧ err.span = m.span ∧
      Relation.ReflTransGen Call.Makes ⟨env, e, n⟩ ⟨env₁, m, n₁⟩ ∧
      (infer env₁ m).run n₁ = .error err n' ∧ Call.Raises ⟨env₁, m, n₁⟩ err.cause n' ∧
      (∀ c, Call.Makes ⟨env₁, m, n₁⟩ c →
        c.expr ∈ m.children ∧ ∃ r n₂, (infer c.env c.expr).run c.supply = .ok r n₂) ∧
      err.cause.fitsNode m = true := by
  have hrun : Call.run ⟨env, e, n⟩ = .error err n' := h
  obtain ⟨⟨env₁, m, n₁⟩, hreach, hraise, hspan⟩ := Call.run_eq_error_iff.mp hrun
  -- what the rule raised is what its own call comes to
  have hfail : Call.run ⟨env₁, m, n₁⟩ = .error err n' :=
    Call.run_eq_error_iff.mpr ⟨_, .refl, hraise, hspan⟩
  refine ⟨m, env₁, n₁, Call.isNode_of_reaches hreach, hspan, hreach, hfail, hraise, fun c hc => ?_,
    hraise.fitsNode⟩
  exact ⟨hc.mem_children, hraise.exists_run hc⟩

/-- In `fn x -> (x, (True, 1) x)` the function and the argument of the application both have types,
but a pair is no function: the error carries the place of the application, which is in a tuple in a
function. -/
theorem infer_error_located_app :
    (infer ∅ (.lam ⟨0, 24⟩ (.var "x") (.tuple ⟨8, 24⟩ [.var ⟨9, 10⟩ "x",
      .app ⟨12, 23⟩ (.tuple ⟨12, 21⟩ [.bool ⟨13, 17⟩ true, .int ⟨19, 20⟩ 1])
        (.var ⟨22, 23⟩ "x")]))).run {} =
      .error ⟨.mismatch (.fn (.var "t0") (.var "t1")) (.tuple [.bool, .int]), ⟨12, 23⟩⟩ ⟨2⟩ ∧
    ∃ (m : Expr) (env₁ : Env) (n₁ : Supply),
      IsNode m (.lam ⟨0, 24⟩ (.var "x") (.tuple ⟨8, 24⟩ [.var ⟨9, 10⟩ "x",
        .app ⟨12, 23⟩ (.tuple ⟨12, 21⟩ [.bool ⟨13, 17⟩ true, .int ⟨19, 20⟩ 1])
          (.var ⟨22, 23⟩ "x")])) ∧
      ⟨12, 23⟩ = m.span ∧
      (∀ c, Call.Makes ⟨env₁, m, n₁⟩ c →
        c.expr ∈ m.children ∧ ∃ r n₂, (infer c.env c.expr).run c.supply = .ok r n₂) ∧
      (TypeError.mismatch (.fn (.var "t0") (.var "t1")) (.tuple [.bool, .int])).fitsNode m =
        true := by
  have hrun : (infer ∅ (.lam ⟨0, 24⟩ (.var "x") (.tuple ⟨8, 24⟩ [.var ⟨9, 10⟩ "x",
      .app ⟨12, 23⟩ (.tuple ⟨12, 21⟩ [.bool ⟨13, 17⟩ true, .int ⟨19, 20⟩ 1])
        (.var ⟨22, 23⟩ "x")]))).run {} =
      .error ⟨.mismatch (.fn (.var "t0") (.var "t1")) (.tuple [.bool, .int]), ⟨12, 23⟩⟩ ⟨2⟩ := rfl
  obtain ⟨m, env₁, n₁, hnode, hspan, -, -, -, hcalls, hfits⟩ := infer_error_located _ _ _ hrun
  exact ⟨hrun, m, env₁, n₁, hnode, hspan, hcalls, hfits⟩

end PolyLet

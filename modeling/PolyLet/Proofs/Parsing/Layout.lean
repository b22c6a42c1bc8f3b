import PolyLet.Proofs.Parsing.FirstError

/-!
# Layout and comments do not matter

Two sources may have the same words with other blanks and comments between them. Readers look at the
words only: on such sources they go through the same steps, give the same trees but for the places,
and if they fail, then with the same message at the same word. What an error remembers of the words
before it, the parenthesis that was left open, is the same word as well.

The two runs are followed side by side. The state of the comparison is a pair of token lists that are
left, equally far from the start of both sources; a reader keeps it, whatever it reads.

## Main definitions

* `SamePlace l₁ l₂ s₁ s₂`: the spans are those of the tokens at one index of two lists
* `SameError l₁ l₂ x₁ x₂`: the errors say the same about two token lists
* `InStep`: the tokens that are left in two sources after equally many words
* `Alike m n V r₁ r₂`: from such tokens, fewer than `m`, the readers do the same, give values that
  are related by `V`, and leave fewer than `n`

## Main results

* `Alike.bind`: readers one after the other
* `alikePatterns`, `binderReader_alike`, `alikeExprs`: the readers of the language
* `parse_eq_up_to_layout`: sources with the same words are parsed alike
-/

namespace PolyLet

variable {α β : Type}

/-! ## The same place in two token lists -/

/-- The spans are those of the tokens at one index of both lists. -/
def SamePlace (l₁ l₂ : List Token) (s₁ s₂ : Span) : Prop :=
  ∃ i : Nat, (l₁[i]?).map Token.span = some s₁ ∧ (l₂[i]?).map Token.span = some s₂

/-- The errors have the same message, they are at the same place of both lists, and so are the second
places that explain them, if there are any. -/
structure SameError (l₁ l₂ : List Token) (x₁ x₂ : SyntaxError) : Prop where
  message : x₁.message = x₂.message
  span : SamePlace l₁ l₂ x₁.span x₂.span
  related : (x₁.related = none ∧ x₂.related = none) ∨
    ∃ text s₁ s₂, x₁.related = some (text, s₁) ∧ x₂.related = some (text, s₂) ∧
      SamePlace l₁ l₂ s₁ s₂

/-- The same is wanted. A closing parenthesis is wanted for the same opening one. -/
inductive SameWanted (l₁ l₂ : List Token) : Wanted → Wanted → Prop
  | token (kind : TokenKind) : SameWanted l₁ l₂ (.token kind) (.token kind)
  | expression : SameWanted l₁ l₂ .expression .expression
  | pattern : SameWanted l₁ l₂ .pattern .pattern
  | closing {s₁ s₂ : Span} (h : SamePlace l₁ l₂ s₁ s₂) :
      SameWanted l₁ l₂ (.closing s₁) (.closing s₂)

/-- The tokens `ts₁` and `ts₂` are what is left of the lists `l₁` and `l₂`, without the ends of the
input at `stop₁` and `stop₂`, after equally many tokens. They have the same words. -/
structure InStep (l₁ l₂ : List Token) (stop₁ stop₂ : Nat) (ts₁ ts₂ : List Token) : Prop where
  words_eq : words ts₁ = words ts₂
  split : ∃ ks₁ ks₂, ks₁.length = ks₂.length ∧ l₁ = ks₁ ++ ts₁ ++ [endToken stop₁] ∧
    l₂ = ks₂ ++ ts₂ ++ [endToken stop₂]

variable {l₁ l₂ : List Token} {stop₁ stop₂ : Nat}

namespace InStep

variable {ts₁ ts₂ : List Token}

theorem headKind_eq (h : InStep l₁ l₂ stop₁ stop₂ ts₁ ts₂) : headKind ts₁ = headKind ts₂ := by
  have hw := h.words_eq
  cases ts₁ with
  | nil => rw [List.map_eq_nil_iff.mp hw.symm]
  | cons t₁ ts₁ =>
    obtain ⟨t₂, ts₂, rfl, ht, -⟩ := List.map_eq_cons_iff.mp hw.symm
    exact (congrArg Word.kind ht).symm

/-- One token further on, the lists are in step again, and the tokens are at the same place. -/
theorem tail {t₁ : Token} (h : InStep l₁ l₂ stop₁ stop₂ (t₁ :: ts₁) ts₂) :
    ∃ t₂ ts₂', ts₂ = t₂ :: ts₂' ∧ t₁.word = t₂.word ∧ SamePlace l₁ l₂ t₁.span t₂.span ∧
      InStep l₁ l₂ stop₁ stop₂ ts₁ ts₂' := by
  obtain ⟨hw, ks₁, ks₂, hlen, rfl, rfl⟩ := h
  obtain ⟨t₂, ts₂', rfl, ht, hts⟩ := List.map_eq_cons_iff.mp hw.symm
  refine ⟨t₂, ts₂', rfl, ht.symm, ⟨ks₁.length, by simp, by simp [hlen]⟩, hts.symm, ?_⟩
  exact ⟨ks₁ ++ [t₁], ks₂ ++ [t₂], by simp [hlen], by simp, by simp⟩

/-- Errors at tokens in step, where the same is wanted, are the same. -/
theorem sameError (h : InStep l₁ l₂ stop₁ stop₂ ts₁ ts₂) {w₁ w₂ : Wanted}
    (hw : SameWanted l₁ l₂ w₁ w₂) :
    SameError l₁ l₂ (unexpectedAt (.point stop₁) w₁ ts₁) (unexpectedAt (.point stop₂) w₂ ts₂) := by
  have unexpected (stop : Span) (w : Wanted) (ts : List Token) : ∃ span,
      unexpectedAt stop w ts = .unexpected w (headKind ts) span := by
    cases ts <;> exact ⟨_, rfl⟩
  refine ⟨?_, ?_, ?_⟩
  · -- the message says what is wanted and the kind of the token, and no place
    obtain ⟨s₁, h₁⟩ := unexpected (.point stop₁) w₁ ts₁
    obtain ⟨s₂, h₂⟩ := unexpected (.point stop₂) w₂ ts₂
    rw [h₁, h₂, h.headKind_eq]
    cases hw <;> rfl
  · obtain ⟨-, ks₁, ks₂, hlen, rfl, rfl⟩ := h
    exact ⟨ks₁.length, unexpectedAt_span ks₁ ts₁ w₁ stop₁, by
      rw [hlen]
      exact unexpectedAt_span ks₂ ts₂ w₂ stop₂⟩
  · -- a second place is that of an open parenthesis
    obtain ⟨s₁, h₁⟩ := unexpected (.point stop₁) w₁ ts₁
    obtain ⟨s₂, h₂⟩ := unexpected (.point stop₂) w₂ ts₂
    rw [h₁, h₂]
    cases hw with
    | token | expression | pattern => exact .inl ⟨rfl, rfl⟩
    | closing hs => exact .inr ⟨_, _, _, rfl, rfl, hs⟩

end InStep

/-! ## Two readers side by side -/

/-- Both readers give a value, the values are related by `V`, and fewer than `n` tokens are left,
in step again; or both fail with the same error. -/
inductive SameOutcome (l₁ l₂ : List Token) (stop₁ stop₂ n : Nat) (V : α → α → Prop) :
    Except SyntaxError (α × List Token) → Except SyntaxError (α × List Token) → Prop
  | ok {v₁ v₂ : α} {ts₁ ts₂ : List Token} (hv : V v₁ v₂)
      (h : InStep l₁ l₂ stop₁ stop₂ ts₁ ts₂) (hn : ts₁.length < n) :
      SameOutcome l₁ l₂ stop₁ stop₂ n V (.ok (v₁, ts₁)) (.ok (v₂, ts₂))
  | error {x₁ x₂ : SyntaxError} (h : SameError l₁ l₂ x₁ x₂) :
      SameOutcome l₁ l₂ stop₁ stop₂ n V (.error x₁) (.error x₂)

/-- From tokens in step, fewer than `m`, the readers have the same outcome. -/
def Alike (l₁ l₂ : List Token) (stop₁ stop₂ m n : Nat) (V : α → α → Prop) (r₁ r₂ : Reader α) :
    Prop :=
  ∀ ts₁ ts₂, InStep l₁ l₂ stop₁ stop₂ ts₁ ts₂ → ts₁.length < m →
    SameOutcome l₁ l₂ stop₁ stop₂ n V (r₁ ts₁) (r₂ ts₂)

namespace Alike

variable {m n k : Nat} {V : α → α → Prop} {W : β → β → Prop} {r₁ r₂ : Reader α}

theorem zero : Alike l₁ l₂ stop₁ stop₂ 0 n V r₁ r₂ :=
  fun _ _ _ hm => absurd hm (Nat.not_lt_zero _)

theorem pure {v₁ v₂ : α} (h : V v₁ v₂) :
    Alike l₁ l₂ stop₁ stop₂ n n V (Pure.pure v₁) (Pure.pure v₂) :=
  fun _ _ hts hm => .ok h hts hm

theorem fail {w₁ w₂ : Wanted} (h : SameWanted l₁ l₂ w₁ w₂) :
    Alike l₁ l₂ stop₁ stop₂ m n V (Reader.fail (.point stop₁) w₁) (Reader.fail (.point stop₂) w₂) :=
  fun _ _ hts _ => .error (hts.sameError h)

/-- Looking at the next token, both readers see the same kind. -/
theorem peek {f₁ f₂ : TokenKind → Reader α}
    (hf : ∀ kind, Alike l₁ l₂ stop₁ stop₂ m n V (f₁ kind) (f₂ kind)) :
    Alike l₁ l₂ stop₁ stop₂ m n V (Reader.peek >>= f₁) (Reader.peek >>= f₂) := by
  intro ts₁ ts₂ hts hm
  rw [Reader.peek_bind, Reader.peek_bind, ← hts.headKind_eq]
  exact hf _ ts₁ ts₂ hts hm

/-- **Readers one after the other.** -/
theorem bind {f₁ f₂ : α → Reader β} (hr : Alike l₁ l₂ stop₁ stop₂ m n V r₁ r₂)
    (hf : ∀ v₁ v₂, V v₁ v₂ → Alike l₁ l₂ stop₁ stop₂ n k W (f₁ v₁) (f₂ v₂)) :
    Alike l₁ l₂ stop₁ stop₂ m k W (r₁ >>= f₁) (r₂ >>= f₂) := by
  intro ts₁ ts₂ hts hm
  have outcome := hr ts₁ ts₂ hts hm
  generalize h₁ : r₁ ts₁ = x₁ at outcome
  generalize h₂ : r₂ ts₂ = x₂ at outcome
  cases outcome with
  | ok hv hrest hn =>
    rw [Reader.bind_of_ok h₁, Reader.bind_of_ok h₂]
    exact hf _ _ hv _ _ hrest hn
  | error hx =>
    rw [Reader.bind_of_error h₁, Reader.bind_of_error h₂]
    exact .error hx

/-- Fewer tokens to read from are enough, and more may be left. -/
theorem mono {m' n' : Nat} (h : Alike l₁ l₂ stop₁ stop₂ m n V r₁ r₂) (hm : m' ≤ m) (hn : n ≤ n') :
    Alike l₁ l₂ stop₁ stop₂ m' n' V r₁ r₂ := by
  intro ts₁ ts₂ hts hlen
  have outcome := h ts₁ ts₂ hts (Nat.lt_of_lt_of_le hlen hm)
  generalize r₁ ts₁ = x₁ at outcome
  generalize r₂ ts₂ = x₂ at outcome
  cases outcome with
  | ok hv hrest hlt => exact .ok hv hrest (Nat.lt_of_lt_of_le hlt hn)
  | error hx => exact .error hx

theorem map {g₁ g₂ : α → β} (hr : Alike l₁ l₂ stop₁ stop₂ m n V r₁ r₂)
    (hg : ∀ v₁ v₂, V v₁ v₂ → W (g₁ v₁) (g₂ v₂)) :
    Alike l₁ l₂ stop₁ stop₂ m n W (r₁ >>= fun v => Pure.pure (g₁ v))
      (r₂ >>= fun v => Pure.pure (g₂ v)) :=
  hr.bind fun v₁ v₂ hv => .pure (hg v₁ v₂ hv)

/-- Tokens of one kind. They are the same word at the same place, and one token less is left. -/
theorem token {kind : TokenKind} (hk : kind.isSpelled = true) :
    Alike l₁ l₂ stop₁ stop₂ (n + 1) n
      (fun t₁ t₂ => t₁.word = t₂.word ∧ SamePlace l₁ l₂ t₁.span t₂.span)
      (tokenReader (.point stop₁) kind) (tokenReader (.point stop₂) kind) := by
  intro ts₁ ts₂ hts hn
  by_cases h : headKind ts₁ = kind
  · cases ts₁ with
    | nil =>
      -- the end of the input is of no kind that is spelled
      rw [← h] at hk
      cases hk
    | cons t₁ ts₁ =>
      have h' : headKind ts₂ = kind := hts.headKind_eq ▸ h
      obtain ⟨t₂, ts₂, rfl, hword, hplace, hrest⟩ := hts.tail
      rw [tokenReader_of_eq h, tokenReader_of_eq h']
      exact .ok ⟨hword, hplace⟩ hrest (Nat.lt_of_succ_lt_succ hn)
  · rw [tokenReader_of_ne h, tokenReader_of_ne (hts.headKind_eq ▸ h)]
    exact .error (hts.sameError (.token kind))

/-- A token where it does not matter that there is one token less. -/
theorem token_andThen {kind : TokenKind} {f₁ f₂ : Token → Reader β} (hk : kind.isSpelled = true)
    (hf : ∀ t₁ t₂, t₁.word = t₂.word → SamePlace l₁ l₂ t₁.span t₂.span →
      Alike l₁ l₂ stop₁ stop₂ n n W (f₁ t₁) (f₂ t₂)) :
    Alike l₁ l₂ stop₁ stop₂ n n W (tokenReader (.point stop₁) kind >>= f₁)
      (tokenReader (.point stop₂) kind >>= f₂) :=
  ((token hk).mono (Nat.le_succ n) (Nat.le_refl n)).bind fun t₁ t₂ h => hf t₁ t₂ h.1 h.2

theorem token_next {kind : TokenKind} {f₁ f₂ : Token → Reader β} (hk : kind.isSpelled = true)
    (hf : ∀ t₁ t₂, t₁.word = t₂.word → SamePlace l₁ l₂ t₁.span t₂.span →
      Alike l₁ l₂ stop₁ stop₂ n n W (f₁ t₁) (f₂ t₂)) :
    Alike l₁ l₂ stop₁ stop₂ (n + 1) n W (tokenReader (.point stop₁) kind >>= f₁)
      (tokenReader (.point stop₂) kind >>= f₂) :=
  (token hk).bind fun t₁ t₂ h => hf t₁ t₂ h.1 h.2

end Alike

/-! ## Patterns -/

/-- The readers of patterns are alike on fewer than `n` tokens. -/
structure AlikePatterns (l₁ l₂ : List Token) (stop₁ stop₂ n : Nat) : Prop where
  pattern : Alike l₁ l₂ stop₁ stop₂ n n (fun p₁ p₂ => p₁.1 = p₂.1) (patternReader (.point stop₁))
    (patternReader (.point stop₂))
  elems : ∀ {s₁ s₂}, SamePlace l₁ l₂ s₁ s₂ →
    Alike l₁ l₂ stop₁ stop₂ n n (fun q₁ q₂ => q₁.1 = q₂.1) (patternElemsReader (.point stop₁) s₁)
      (patternElemsReader (.point stop₂) s₂)

namespace AlikePatterns

variable {n : Nat}

theorem pattern_succ (h : AlikePatterns l₁ l₂ stop₁ stop₂ n) :
    Alike l₁ l₂ stop₁ stop₂ (n + 1) n (fun p₁ p₂ => p₁.1 = p₂.1) (patternReader (.point stop₁))
      (patternReader (.point stop₂)) := by
  rw [patternReader_eq (.point stop₁), patternReader_eq (.point stop₂)]
  refine .peek fun kind => ?_
  split
  · exact .token_next rfl fun x₁ x₂ hx _ => .pure (congrArg (Pattern.var ∘ Word.text) hx)
  split
  · refine .token_next rfl fun o₁ o₂ _ ho => .peek fun kind' => ?_
    split
    · exact .token_andThen rfl fun c₁ c₂ _ _ => .pure rfl
    · refine h.pattern.bind fun p₁ p₂ hp => (h.elems ho).map fun q₁ q₂ hq => ?_
      rw [hp, hq]
  · exact .fail .pattern

theorem elems_succ (h : AlikePatterns l₁ l₂ stop₁ stop₂ n) {s₁ s₂ : Span}
    (hs : SamePlace l₁ l₂ s₁ s₂) :
    Alike l₁ l₂ stop₁ stop₂ (n + 1) n (fun q₁ q₂ => q₁.1 = q₂.1)
      (patternElemsReader (.point stop₁) s₁) (patternElemsReader (.point stop₂) s₂) := by
  rw [patternElemsReader_eq (.point stop₁), patternElemsReader_eq (.point stop₂)]
  refine .peek fun kind => ?_
  split
  · refine .token_next rfl fun _ _ _ _ => h.pattern.bind fun p₁ p₂ hp => ?_
    refine (h.elems hs).map fun q₁ q₂ hq => ?_
    rw [hp, hq]
  split
  · exact .token_next rfl fun c₁ c₂ _ _ => .pure rfl
  · exact .fail (.closing hs)

end AlikePatterns

theorem alikePatterns (n : Nat) : AlikePatterns l₁ l₂ stop₁ stop₂ n := by
  induction n with
  | zero => exact ⟨.zero, fun _ => .zero⟩
  | succ n ih =>
    exact ⟨ih.pattern_succ.mono (Nat.le_refl _) (Nat.le_succ n),
      fun hs => (ih.elems_succ hs).mono (Nat.le_refl _) (Nat.le_succ n)⟩

theorem paramsReader_alike (n : Nat) :
    Alike l₁ l₂ stop₁ stop₂ n n (fun ps₁ ps₂ => ps₁.map Prod.fst = ps₂.map Prod.fst)
      (paramsReader (.point stop₁)) (paramsReader (.point stop₂)) := by
  induction n with
  | zero => exact .zero
  | succ n ih =>
    rw [paramsReader_eq (.point stop₁), paramsReader_eq (.point stop₂)]
    refine .peek fun kind => ?_
    split
    · exact .pure rfl
    · -- a pattern takes a token, so that the other parameters are read from fewer
      refine Alike.mono ?_ (Nat.le_refl _) (Nat.le_succ n)
      refine (alikePatterns n).pattern_succ.bind fun p₁ p₂ hp => ih.map fun ps₁ ps₂ hps => ?_
      rw [List.map_cons, List.map_cons, hp, hps]

theorem binderReader_alike (n : Nat) :
    Alike l₁ l₂ stop₁ stop₂ n n
      (fun b₁ b₂ => b₁.1 = b₂.1 ∧ b₁.2.map Prod.fst = b₂.2.map Prod.fst)
      (binderReader (.point stop₁)) (binderReader (.point stop₂)) := by
  rw [binderReader_eq, binderReader_eq]
  refine .peek fun kind => ?_
  split
  · refine .token_andThen rfl fun x₁ x₂ hx _ => (paramsReader_alike n).map fun ps₁ ps₂ hps => ?_
    exact ⟨congrArg (Pattern.var ∘ Word.text) hx, hps⟩
  · exact (alikePatterns n).pattern.map fun p₁ p₂ hp => ⟨hp, rfl⟩

/-! ## Expressions -/

/-- The trees are the same but for their places. -/
def SameTree (e₁ e₂ : Expr) : Prop :=
  e₁.unlocated = e₂.unlocated

/-- The readers of expressions are alike on fewer than `n` tokens. -/
structure AlikeExprs (l₁ l₂ : List Token) (stop₁ stop₂ n : Nat) : Prop where
  expr : Alike l₁ l₂ stop₁ stop₂ n n SameTree (exprReader (.point stop₁)) (exprReader (.point stop₂))
  args : ∀ {func₁ func₂}, SameTree func₁ func₂ → Alike l₁ l₂ stop₁ stop₂ n n SameTree
    (argsReader (.point stop₁) func₁) (argsReader (.point stop₂) func₂)
  elems : ∀ {s₁ s₂}, SamePlace l₁ l₂ s₁ s₂ → Alike l₁ l₂ stop₁ stop₂ n n
    (fun q₁ q₂ => Expr.unlocatedAll q₁.1 = Expr.unlocatedAll q₂.1)
    (elemsReader (.point stop₁) s₁) (elemsReader (.point stop₂) s₂)

theorem SameTree.applyTo {func₁ func₂ arg₁ arg₂ : Expr} (hf : SameTree func₁ func₂)
    (ha : SameTree arg₁ arg₂) : SameTree (applyTo func₁ arg₁) (applyTo func₂ arg₂) := by
  rw [SameTree, unlocated_applyTo, unlocated_applyTo, hf, ha]

namespace AlikeExprs

variable {n : Nat}

theorem atom_succ (h : AlikeExprs l₁ l₂ stop₁ stop₂ n) :
    Alike l₁ l₂ stop₁ stop₂ (n + 1) n SameTree (atomReader (.point stop₁))
      (atomReader (.point stop₂)) := by
  rw [atomReader_eq, atomReader_eq]
  refine .peek fun kind => ?_
  split
  · refine .token_next rfl fun t₁ t₂ ht _ => .pure ?_
    show Expr.int {} (literalValue t₁.word.text) = .int {} (literalValue t₂.word.text)
    rw [ht]
  split
  · exact .token_next rfl fun t₁ t₂ _ _ => .pure rfl
  split
  · exact .token_next rfl fun t₁ t₂ _ _ => .pure rfl
  split
  · exact .token_next rfl fun t₁ t₂ ht _ =>
      .pure (congrArg (fun w : Word => Expr.var {} w.text) ht)
  split
  · refine .token_next rfl fun o₁ o₂ _ ho => .peek fun kind' => ?_
    split
    · exact .token_andThen rfl fun c₁ c₂ _ _ => .pure rfl
    · refine h.expr.bind fun e₁ e₂ he => (h.elems ho).map fun q₁ q₂ hq => ?_
      rw [SameTree, unlocated_ofParens, unlocated_ofParens]
      exact congrArg Expr.ofElems (congrArg₂ List.cons he hq)
  · exact .fail .expression

theorem elems_succ (h : AlikeExprs l₁ l₂ stop₁ stop₂ n) {s₁ s₂ : Span}
    (hs : SamePlace l₁ l₂ s₁ s₂) :
    Alike l₁ l₂ stop₁ stop₂ (n + 1) n
      (fun q₁ q₂ => Expr.unlocatedAll q₁.1 = Expr.unlocatedAll q₂.1)
      (elemsReader (.point stop₁) s₁) (elemsReader (.point stop₂) s₂) := by
  rw [elemsReader_eq (.point stop₁), elemsReader_eq (.point stop₂)]
  refine .peek fun kind => ?_
  split
  · refine .token_next rfl fun _ _ _ _ => h.expr.bind fun e₁ e₂ he => ?_
    exact (h.elems hs).map fun q₁ q₂ hq => congrArg₂ List.cons he hq
  split
  · exact .token_next rfl fun c₁ c₂ _ _ => .pure rfl
  · exact .fail (.closing hs)

theorem block_succ (h : AlikeExprs l₁ l₂ stop₁ stop₂ n) :
    Alike l₁ l₂ stop₁ stop₂ (n + 1) n SameTree (blockReader (.point stop₁))
      (blockReader (.point stop₂)) := by
  rw [blockReader, blockReader]
  refine .peek fun kind => ?_
  split
  · refine .token_next rfl fun _ _ _ _ => (alikePatterns n).pattern.bind fun p₁ p₂ hp => ?_
    refine .token_andThen rfl fun _ _ _ _ => h.expr.map fun b₁ b₂ hb => ?_
    exact congrArg₂ (Expr.lam {}) hp hb
  split
  · refine .token_next rfl fun _ _ _ _ => (binderReader_alike n).bind ?_
    rintro b₁ b₂ ⟨hp, hparams⟩
    refine .token_andThen rfl fun _ _ _ _ => h.expr.bind fun e₁ e₂ he => ?_
    refine .token_andThen rfl fun _ _ _ _ => h.expr.map fun b₁' b₂' hb => ?_
    -- of the parameters only the patterns are left in a tree without places
    show Expr.letIn {} _ (curry _ _).unlocated _ = .letIn {} _ (curry _ _).unlocated _
    rw [unlocated_curry, unlocated_curry, hp, hparams, he, hb]
  split
  · refine .token_next rfl fun _ _ _ _ => h.expr.bind fun c₁ c₂ hc => ?_
    refine .token_andThen rfl fun _ _ _ _ => h.expr.bind fun a₁ a₂ ha => ?_
    refine .token_andThen rfl fun _ _ _ _ => h.expr.map fun b₁ b₂ hb => ?_
    show Expr.ite {} _ _ _ = .ite {} _ _ _
    rw [hc, ha, hb]
  · exact .fail .expression

theorem expr_succ (h : AlikeExprs l₁ l₂ stop₁ stop₂ n) :
    Alike l₁ l₂ stop₁ stop₂ (n + 1) n SameTree (exprReader (.point stop₁))
      (exprReader (.point stop₂)) := by
  rw [exprReader_eq, exprReader_eq]
  refine .peek fun kind => ?_
  split
  · exact h.block_succ
  · exact h.atom_succ.bind fun _ _ hf => h.args hf

theorem args_succ (h : AlikeExprs l₁ l₂ stop₁ stop₂ n) {func₁ func₂ : Expr}
    (hf : SameTree func₁ func₂) :
    Alike l₁ l₂ stop₁ stop₂ (n + 1) (n + 1) SameTree (argsReader (.point stop₁) func₁)
      (argsReader (.point stop₂) func₂) := by
  rw [argsReader_eq, argsReader_eq]
  refine .peek fun kind => ?_
  split
  · -- the argument took a token, so that further ones are read from fewer
    refine Alike.mono ?_ (Nat.le_refl _) (Nat.le_succ n)
    exact h.atom_succ.bind fun _ _ ha => h.args (hf.applyTo ha)
  split
  · exact (h.block_succ.mono (Nat.le_refl _) (Nat.le_succ n)).map fun _ _ ha => hf.applyTo ha
  · -- no argument was read, and all tokens are left
    exact .pure hf

end AlikeExprs

/-- The readers of expressions are alike on however many tokens. -/
theorem alikeExprs (n : Nat) : AlikeExprs l₁ l₂ stop₁ stop₂ n := by
  induction n with
  | zero => exact ⟨.zero, fun _ => .zero, fun _ => .zero⟩
  | succ n ih =>
    exact ⟨ih.expr_succ.mono (Nat.le_refl _) (Nat.le_succ n), ih.args_succ,
      fun hs => (ih.elems_succ hs).mono (Nat.le_refl _) (Nat.le_succ n)⟩

/-! ## Programs -/

/-- Token lists with the same words are parsed alike. -/
theorem parseTokens_alike {ts₁ ts₂ : List Token} (h : words ts₁ = words ts₂) (stop₁ stop₂ : Nat) :
    (∃ e₁ e₂, parseTokens (.point stop₁) ts₁ = .ok e₁ ∧ parseTokens (.point stop₂) ts₂ = .ok e₂ ∧
      SameTree e₁ e₂) ∨
    ∃ x₁ x₂, parseTokens (.point stop₁) ts₁ = .error x₁ ∧
      parseTokens (.point stop₂) ts₂ = .error x₂ ∧
      SameError (ts₁ ++ [endToken stop₁]) (ts₂ ++ [endToken stop₂]) x₁ x₂ := by
  have hts : InStep (ts₁ ++ [endToken stop₁]) (ts₂ ++ [endToken stop₂]) stop₁ stop₂ ts₁ ts₂ :=
    ⟨h, [], [], rfl, rfl, rfl⟩
  have outcome := (alikeExprs (ts₁.length + 1)).expr ts₁ ts₂ hts (Nat.lt_succ_self _)
  rw [parseTokens_eq, parseTokens_eq]
  generalize exprReader (.point stop₁) ts₁ = x₁ at outcome
  generalize exprReader (.point stop₂) ts₂ = x₂ at outcome
  cases outcome with
  | error hx => exact .inr ⟨_, _, rfl, rfl, hx⟩
  | @ok e₁ e₂ rest₁ rest₂ he hrest _ =>
    -- behind the expressions there is nothing, or a token that should not be there
    cases rest₁ with
    | nil =>
      obtain rfl : rest₂ = [] := List.map_eq_nil_iff.mp hrest.words_eq.symm
      exact .inl ⟨e₁, e₂, rfl, rfl, he⟩
    | cons t₁ rest₁ =>
      have hx := hrest.sameError (.token .endOfInput)
      obtain ⟨t₂, rest₂, rfl, -⟩ := hrest.tail
      exact .inr ⟨_, _, rfl, rfl, hx⟩

/-- **Layout and comments do not matter.** Two sources that are read into tokens without error, and
whose tokens but for the comments agree in kind and text, are both parsed into the same tree, places
apart; or both are refused with the same message at the same token, and if the message has a second
place, then both have it, and it is at the same token too. -/
theorem parse_eq_up_to_layout {source₁ source₂ : String} {tokens₁ tokens₂ : List Token}
    (h₁ : lex source₁ = .ok tokens₁) (h₂ : lex source₂ = .ok tokens₂)
    (h : words (tokens₁.filter fun t => !t.kind.isTrivia) =
      words (tokens₂.filter fun t => !t.kind.isTrivia)) :
    (∃ e₁ e₂, parse source₁ = .ok e₁ ∧ parse source₂ = .ok e₂ ∧ e₁.unlocated = e₂.unlocated) ∨
    ∃ x₁ x₂, parse source₁ = .error x₁ ∧ parse source₂ = .error x₂ ∧
      SameError (tokens₁.filter fun t => !t.kind.isTrivia)
        (tokens₂.filter fun t => !t.kind.isTrivia) x₁ x₂ := by
  rw [filter_eq_significant_append h₁, filter_eq_significant_append h₂] at h ⊢
  rw [words_append, words_append] at h
  rw [parse_of_lex h₁, parse_of_lex h₂]
  exact parseTokens_alike (List.append_inj_left' h rfl) _ _

/-- With comments and a line break added, `(x` is refused for the same parenthesis. -/
theorem parse_eq_up_to_layout_unclosed :
    lex "(x" = .ok [⟨.openParen, "(", ⟨0, 1⟩⟩, ⟨.name, "x", ⟨1, 2⟩⟩, endToken 2] ∧
    lex "\x7b--\x7d(\nx--" = .ok [⟨.blockComment, "\x7b--\x7d", ⟨0, 4⟩⟩, ⟨.openParen, "(", ⟨4, 5⟩⟩,
      ⟨.name, "x", ⟨6, 7⟩⟩, ⟨.lineComment, "--", ⟨7, 9⟩⟩, endToken 9] ∧
    parse "(x" = .error (.unexpected (.closing ⟨0, 1⟩) .endOfInput (.point 2)) ∧
    ∃ x, parse "\x7b--\x7d(\nx--" = .error x ∧ x.message = "expected `)`, found end of input" ∧
      ∃ s, x.related = some ("`(` opened here", s) ∧
        SamePlace [⟨.openParen, "(", ⟨0, 1⟩⟩, ⟨.name, "x", ⟨1, 2⟩⟩, endToken 2]
          [⟨.openParen, "(", ⟨4, 5⟩⟩, ⟨.name, "x", ⟨6, 7⟩⟩, endToken 9] ⟨0, 1⟩ s := by
  have hnone : ∀ b ∈ ([] : List Char), isBlank b = true := List.forall_mem_nil _
  have h₁ : lex "(x" = .ok [⟨.openParen, "(", ⟨0, 1⟩⟩, ⟨.name, "x", ⟨1, 2⟩⟩, endToken 2] := by
    rw [lex_eq_ok_iff]
    exact @Lexes.token 0 [] '(' _ _ _ hnone rfl <| @Lexes.token 1 [] 'x' _ _ _ hnone rfl <|
      Lexes.done hnone
  have h₂ : lex "\x7b--\x7d(\nx--" = .ok [⟨.blockComment, "\x7b--\x7d", ⟨0, 4⟩⟩,
      ⟨.openParen, "(", ⟨4, 5⟩⟩, ⟨.name, "x", ⟨6, 7⟩⟩, ⟨.lineComment, "--", ⟨7, 9⟩⟩,
      endToken 9] := by
    have hline : ∀ b ∈ ['\n'], isBlank b = true := List.forall_mem_singleton.mpr rfl
    rw [lex_eq_ok_iff]
    exact @Lexes.token 0 [] '\x7b' _ _ _ hnone rfl <| @Lexes.token 4 [] '(' _ _ _ hnone rfl <|
      @Lexes.token 5 ['\n'] 'x' _ _ _ hline rfl <| @Lexes.token 7 [] '-' _ _ _ hnone rfl <|
      Lexes.done hnone
  have hparse : parse "(x" = .error (.unexpected (.closing ⟨0, 1⟩) .endOfInput (.point 2)) := by
    have hx : exprReader (.point 2) [⟨.name, "x", ⟨1, 2⟩⟩] = .ok (.var ⟨1, 2⟩ "x", []) :=
      exprReader_name rfl (by decide) (by decide)
    have hend : elemsReader (.point 2) ⟨0, 1⟩ [] =
        .error (.unexpected (.closing ⟨0, 1⟩) .endOfInput (.point 2)) := by
      rw [elemsReader_eq]
      rfl
    have hatom : atomReader (.point 2) [⟨.openParen, "(", ⟨0, 1⟩⟩, ⟨.name, "x", ⟨1, 2⟩⟩] =
        .error (.unexpected (.closing ⟨0, 1⟩) .endOfInput (.point 2)) := by
      have ho : (⟨.openParen, "(", ⟨0, 1⟩⟩ : Token).kind = .openParen := rfl
      rw [atomReader_eq, Reader.peek_bind, headKind_cons]
      simp only [reduceCtorEq, if_false, if_true]
      rw [bind_tokenReader ho, Reader.peek_bind, if_neg (by decide), Reader.bind_of_ok hx,
        Reader.bind_of_error hend]
    rw [parse_of_lex h₁, parseTokens_eq]
    show (exprReader (.point 2) [_, _] >>= _) = _
    rw [exprReader_of_not_startsBlock (by decide), Reader.bind_of_error hatom]
    rfl
  rcases parse_eq_up_to_layout h₁ h₂ rfl with ⟨e, -, he, -⟩ | ⟨x₁, x₂, hx₁, hx₂, same⟩
  · rw [hparse] at he
    cases he
  · rw [hparse] at hx₁
    obtain rfl := Except.error.inj hx₁
    refine ⟨h₁, h₂, hparse, x₂, hx₂, same.message.symm, ?_⟩
    rcases same.related with ⟨hnone, -⟩ | ⟨text, s₁, s₂, hs₁, hs₂, hplace⟩
    · cases hnone
    · obtain ⟨rfl, rfl⟩ := Prod.mk.inj (Option.some.inj hs₁)
      exact ⟨s₂, hs₂, hplace⟩

end PolyLet

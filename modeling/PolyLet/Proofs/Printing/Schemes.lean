import PolyLet.Proofs.AlphaEquivalence
import PolyLet.Proofs.NormalForm
import PolyLet.Proofs.Printing.Types

/-!
# The text of schemes

Two schemes have the same text exactly if they differ only in the names of their quantified
variables. The text of a scheme is that of its normal form, where the quantified variables are called
by letters. No letter is free in the scheme, so naming the variables changes nothing but names, and
the text shows the letters and the body. On the other hand, the letters depend only on the variables
that are free and on how many there are to be named. A variable that the body mentions takes the
letter for its place among them. Those that it does not mention come last, and only their number
shows.

## Main definitions

* `Scheme.normalize`: the scheme with its quantified variables named for readers
* `Scheme.vacuous`: the quantified variables that the body does not mention
* `Scheme.Legible σ`: the body and the free variables can be told from all else in a text

## Main results

* `Scheme.alphaEq_normalize`: a scheme is equal to its normal form up to names
* `Scheme.AlphaEq.symm`, `Scheme.AlphaEq.trans`: equality up to names
* `Scheme.AlphaEq.print_eq`: schemes that are equal up to names have the same text
* `Scheme.normalize_eq_of_print_eq`: the text shows the normal form
* `Scheme.print_eq_iff_alphaEq`: the text decides equality up to names
-/

namespace PolyLet

/-! ## Letters as names -/

/-- Words with blanks between them and a full stop behind them show where they end. -/
theorem unambiguous_words {xs ys : List String} {rest rest' : List Char}
    (hxs : ∀ x ∈ xs, isAlphanumeric x = true) (hys : ∀ y ∈ ys, isAlphanumeric y = true)
    (hne : xs ≠ []) (hne' : ys ≠ [])
    (heq : (" ".intercalate xs).toList ++ (". ".toList ++ rest) =
      (" ".intercalate ys).toList ++ (". ".toList ++ rest')) :
    xs = ys ∧ rest = rest' := by
  obtain ⟨x, xs, rfl⟩ := List.exists_cons_of_ne_nil hne
  obtain ⟨y, ys, rfl⟩ := List.exists_cons_of_ne_nil hne'
  rw [← List.map_id (x :: xs), ← List.map_id (y :: ys)] at heq
  exact Unambiguous.intercalate rfl rfl (by decide) (fun _ => rfl) (fun _ => rfl)
    (fun x hx => unambiguous_word (hxs x hx)) hys heq

theorem letterName_toList (i : Nat) : ∃ c ds, (letterName i).toList = c :: ds ∧
    c.isLower = true ∧ ∀ d ∈ ds, d.isDigit = true := by
  have hlower : ∀ k < 26, (Char.ofNat ('a'.toNat + k)).isLower = true := by decide
  rw [letterName, String.toList_append, String.toList_singleton]
  refine ⟨_, _, rfl, hlower _ (Nat.mod_lt i (by decide)), fun d hd => ?_⟩
  split at hd
  · cases hd
  · rw [Nat.toString_eq_repr, Nat.toList_repr] at hd
    exact Nat.isDigit_of_mem_toDigits (by decide) le_rfl hd

theorem isTypeName_letterName (i : Nat) : isTypeName (letterName i) = true := by
  obtain ⟨c, ds, htext, hc, hds⟩ := letterName_toList i
  have hne : ∀ x : String, x.toList ≠ c :: ds → letterName i ≠ x := by
    rintro x hx rfl
    exact hx htext
  have hcapital : ∀ d ds', d.isLower = false → d :: ds' ≠ c :: ds := by
    intro d ds' hd h
    rw [(List.cons.inj h).1, hc] at hd
    cases hd
  refine isTypeName_iff.mpr ⟨hne _ (List.cons_ne_nil c ds).symm, ?_, hne _ (hcapital 'I' _ rfl),
    hne _ (hcapital 'B' _ rfl), hne _ fun h => ?_⟩
  · rw [isAlphanumeric, htext, List.all_cons, Bool.and_eq_true]
    refine ⟨?_, List.all_eq_true.mpr fun d hd => ?_⟩
    · exact Bool.or_eq_true_iff.mpr (.inl (Bool.or_eq_true_iff.mpr (.inr hc)))
    · exact Bool.or_eq_true_iff.mpr (.inr (hds d hd))
  · -- what follows the first letter are digits
    obtain ⟨-, rfl⟩ := List.cons.inj h
    cases hds 'o' List.mem_cons_self

theorem mem_letterNames {taken : NameSet} {count : Nat} {v : String}
    (hv : v ∈ letterNames taken count) : v ∉ taken ∧ isTypeName v = true := by
  obtain ⟨hv, htaken⟩ := List.mem_filter.mp (List.mem_of_mem_take hv)
  obtain ⟨i, -, rfl⟩ := List.mem_map.mp hv
  exact ⟨of_decide_eq_true htaken, isTypeName_letterName i⟩

namespace Scheme

variable {σ τ : Scheme} {v : String} {ρ : String → String}

/-! ## Equality up to names -/

/-- A renaming can be chosen that keeps all names apart. -/
theorem AlphaEq.exists_injective (h : σ.AlphaEq τ) : ∃ ρ : String → String,
    Function.Injective ρ ∧ (∀ v ∈ σ.freeVars, ρ v = v) ∧ σ.rename ρ = τ := by
  obtain ⟨ρ, hfix, hinj, rfl⟩ := h
  have hmem : ∀ v, v ∈ (σ.freeVars ∪ σ.vars).toList ↔ v ∈ σ.freeVars ∨ v ∈ σ.vars :=
    fun _ => NameSet.mem_union
  have hinj : Set.InjOn ρ {v | v ∈ (σ.freeVars ∪ σ.vars).toList} :=
    fun v hv w hw => hinj v w ((hmem v).mp hv) ((hmem w).mp hw)
  obtain ⟨ρ', hρ', hag⟩ := exists_injective_extension hinj
  refine ⟨ρ', hρ', fun v hv => ?_, rename_congr fun v hv => hag v ((hmem v).mpr hv)⟩
  rw [hag v ((hmem v).mpr (.inl hv)), hfix v hv]

theorem alphaEq_of_injective (hρ : Function.Injective ρ) (hfix : ∀ v ∈ σ.freeVars, ρ v = v) :
    σ.AlphaEq (σ.rename ρ) :=
  ⟨ρ, hfix, fun _ _ _ _ heq => hρ heq, rfl⟩

theorem freeVars_rename_of_fixed (hρ : Function.Injective ρ) (hfix : ∀ v ∈ σ.freeVars, ρ v = v) :
    (σ.rename ρ).freeVars = σ.freeVars := by
  rw [freeVars_rename hρ]
  ext w
  rw [NameSet.mem_rename]
  constructor
  · rintro ⟨v, hv, rfl⟩
    rwa [hfix v hv]
  · intro hw
    exact ⟨w, hw, hfix w hw⟩

theorem rename_rename (ρ ρ' : String → String) (σ : Scheme) :
    (σ.rename ρ).rename ρ' = σ.rename (ρ' ∘ ρ) := by
  have hvars : (σ.vars.rename ρ).rename ρ' = σ.vars.rename (ρ' ∘ ρ) := by
    ext w
    simp [NameSet.mem_rename]
  rw [rename, rename, rename, hvars, Ty.rename_rename]

theorem AlphaEq.symm (h : σ.AlphaEq τ) : τ.AlphaEq σ := by
  obtain ⟨ρ, hρ, hfix, rfl⟩ := h.exists_injective
  obtain ⟨back, hback⟩ := hρ.hasLeftInverse
  -- what undoes the renaming may confuse names, but none that was given
  have hold : ∀ w, w ∈ (σ.rename ρ).freeVars ∨ w ∈ (σ.rename ρ).vars → ρ (back w) = w := by
    intro w hw
    rw [freeVars_rename hρ, rename, NameSet.mem_rename, NameSet.mem_rename] at hw
    rcases hw with ⟨v, -, rfl⟩ | ⟨v, -, rfl⟩
    all_goals rw [hback]
  refine ⟨back, fun v hv => ?_, fun v w hv hw heq => ?_, ?_⟩
  · rw [freeVars_rename_of_fixed hρ hfix] at hv
    have hv' := hback v
    rwa [hfix v hv] at hv'
  · rw [← hold v hv, ← hold w hw, heq]
  · rw [rename_rename, hback.comp_eq_id, rename_id]

theorem AlphaEq.trans {υ : Scheme} (h : σ.AlphaEq τ) (h' : τ.AlphaEq υ) : σ.AlphaEq υ := by
  obtain ⟨ρ, hρ, hfix, rfl⟩ := h.exists_injective
  obtain ⟨ρ', hρ', hfix', rfl⟩ := h'.exists_injective
  rw [freeVars_rename_of_fixed hρ hfix] at hfix'
  rw [rename_rename]
  refine alphaEq_of_injective (hρ'.comp hρ) fun v hv => ?_
  rw [Function.comp_apply, hfix v hv, hfix' v hv]

/-! ## Normal forms -/

/-- The quantified variables that the body does not mention. -/
def vacuous (σ : Scheme) : NameSet :=
  σ.vars.filter fun v => !σ.body.mentions v

/-- The scheme with its quantified variables named for readers. -/
def normalize (σ : Scheme) : Scheme :=
  σ.rename (renameBy σ.quantifiers σ.quantifierNames)

theorem mem_quantifiers : v ∈ σ.quantifiers ↔ v ∈ σ.vars := by
  rw [quantifiers, List.mem_append, List.mem_filter, List.mem_filter, Ty.varsInOrder,
    List.mem_eraseDups, ← NameSet.mem_def]
  by_cases hv : v ∈ σ.body.vars <;> simp [Ty.mentions, hv]

theorem quantifiers_nodup (σ : Scheme) : σ.quantifiers.Nodup := by
  refine List.nodup_append'.mpr ⟨(nodup_eraseDups _).filter _, σ.vars.nodup.filter _, ?_⟩
  intro v hv hv'
  -- the body mentions what comes first, and not what comes last
  have hmem : v ∈ σ.body.vars := List.mem_eraseDups.mp (List.mem_filter.mp hv).1
  simpa [Ty.mentions, hmem] using (List.mem_filter.mp hv').2

theorem length_quantifierNames (σ : Scheme) :
    σ.quantifierNames.length = σ.quantifiers.length :=
  length_letterNames _ _

/-- No name for readers is free in the scheme. -/
theorem not_mem_quantifierNames (hv : v ∈ σ.freeVars) : v ∉ σ.quantifierNames :=
  fun h => (mem_letterNames h).1 hv

theorem renameBy_of_mem_freeVars (hv : v ∈ σ.freeVars) (news : List String) :
    renameBy σ.quantifiers news v = v :=
  renameBy_of_not_mem fun h => (mem_freeVars.mp hv).2 (mem_quantifiers.mp h)

/-- **A scheme is equal to its normal form up to names.** -/
theorem alphaEq_normalize (σ : Scheme) : σ.AlphaEq σ.normalize := by
  have hinj : Set.InjOn (renameBy σ.quantifiers σ.quantifierNames)
      {v | v ∈ (σ.freeVars ∪ σ.vars).toList} := by
    refine injOn_renameBy (letterNames_nodup _ _) σ.length_quantifierNames.ge fun v hv hstays => ?_
    -- a variable that is not renamed is free
    refine not_mem_quantifierNames ((NameSet.mem_union.mp hv).resolve_right fun hq => ?_)
    exact hstays (mem_quantifiers.mpr hq)
  refine ⟨_, fun v hv => renameBy_of_mem_freeVars hv _, fun v w hv hw heq => ?_, rfl⟩
  exact hinj (NameSet.mem_union.mpr hv) (NameSet.mem_union.mpr hw) heq

/-- The normal form quantifies the names for readers. -/
theorem vars_normalize (σ : Scheme) : σ.normalize.vars = .ofList σ.quantifierNames := by
  have hnames := map_renameBy σ.quantifiers_nodup σ.length_quantifierNames.symm
  ext w
  rw [normalize, rename, NameSet.mem_rename, NameSet.mem_ofList, ← hnames, List.mem_map]
  simp only [mem_quantifiers, hnames]

/-! ## The normal form under renamings -/

theorem vacuous_rename (hρ : Function.Injective ρ) (σ : Scheme) :
    (σ.rename ρ).vacuous = σ.vacuous.rename ρ :=
  NameSet.filter_rename _ fun v => congrArg _ (σ.body.mentions_rename hρ v)

/-- Quantified variables that the body mentions come first in the order of the body, whatever they
are called. The order of the others depends on their names. -/
theorem quantifiers_rename (hρ : Function.Injective ρ) (σ : Scheme) :
    (σ.rename ρ).quantifiers =
      (σ.body.varsInOrder.filter (· ∈ σ.vars)).map ρ ++ (σ.vacuous.rename ρ).toList := by
  rw [quantifiers, ← vacuous_rename hρ, rename, Ty.varsInOrder_rename hρ, List.filter_map]
  simp only [Function.comp_def, NameSet.mem_rename_iff hρ]
  rfl

theorem quantifierNames_rename (hρ : Function.Injective ρ) (hfix : ∀ v ∈ σ.freeVars, ρ v = v) :
    (σ.rename ρ).quantifierNames = σ.quantifierNames := by
  rw [quantifierNames, freeVars_rename_of_fixed hρ hfix, quantifiers_rename hρ, List.length_append,
    List.length_map, ← NameSet.size, NameSet.size_rename hρ, quantifierNames, quantifiers,
    List.length_append]
  rfl

theorem body_normalize_rename (hρ : Function.Injective ρ) (hfix : ∀ v ∈ σ.freeVars, ρ v = v) :
    (σ.rename ρ).normalize.body = σ.normalize.body := by
  have hlength : (σ.body.varsInOrder.filter (· ∈ σ.vars)).length ≤ σ.quantifierNames.length := by
    rw [length_quantifierNames, quantifiers, List.length_append]
    exact Nat.le_add_right _ _
  rw [normalize, normalize, quantifierNames_rename hρ hfix, rename_rename]
  refine Ty.rename_congr fun v hv => ?_
  rw [Function.comp_apply]
  by_cases hq : v ∈ σ.vars
  · -- its place among the variables that the body mentions is the same
    have hplace : v ∈ σ.body.varsInOrder.filter (· ∈ σ.vars) :=
      List.mem_filter.mpr ⟨List.mem_eraseDups.mpr hv, decide_eq_true hq⟩
    rw [quantifiers_rename hρ, renameBy_append_left (List.mem_map_of_mem hplace),
      renameBy_map hρ hlength hplace, quantifiers, renameBy_append_left hplace]
  · have hfree := mem_freeVars.mpr ⟨hv, hq⟩
    have hfree' := hfree
    rw [← freeVars_rename_of_fixed hρ hfix] at hfree'
    rw [hfix v hfree, renameBy_of_mem_freeVars hfree, renameBy_of_mem_freeVars hfree']

/-! ## The text of a scheme -/

theorem quantifierNames_eq_nil_iff : σ.quantifierNames = [] ↔ σ.vars.isEmpty = true := by
  rw [← List.length_eq_zero_iff, length_quantifierNames, List.length_eq_zero_iff,
    List.eq_nil_iff_forall_not_mem, NameSet.isEmpty, List.isEmpty_iff,
    List.eq_nil_iff_forall_not_mem]
  exact forall_congr' fun v => not_congr mem_quantifiers

/-- The text of a scheme is made of the names for readers and the body of the normal form. -/
theorem print_eq (σ : Scheme) : σ.print =
    if σ.quantifierNames = [] then σ.normalize.body.print
    else "forall " ++ " ".intercalate σ.quantifierNames ++ ". " ++ σ.normalize.body.print := by
  by_cases hempty : σ.vars.isEmpty = true
  · have hnames := quantifierNames_eq_nil_iff.mpr hempty
    have hbody : σ.normalize.body = σ.body.rename id := by
      refine Ty.rename_congr fun v _ => ?_
      rw [hnames, renameBy, List.zip_nil_right]
      rfl
    rw [print, if_pos hempty, if_pos hnames, hbody]
    exact congrArg Ty.print (Ty.replace_var σ.body).symm
  · rw [print, if_neg hempty, if_neg (mt quantifierNames_eq_nil_iff.mp hempty)]
    rfl

/-- **Schemes that are equal up to names have the same text.** -/
theorem AlphaEq.print_eq (h : σ.AlphaEq τ) : σ.print = τ.print := by
  obtain ⟨ρ, hρ, hfix, rfl⟩ := h.exists_injective
  rw [σ.print_eq, (σ.rename ρ).print_eq, quantifierNames_rename hρ hfix,
    body_normalize_rename hρ hfix]

/-- No tuple in the body has exactly one component, and every free variable can be told from all
else. The names of quantified variables do not matter. -/
structure Legible (σ : Scheme) : Prop where
  noSingles : σ.body.noSingles = true
  isTypeName : ∀ v ∈ σ.freeVars, isTypeName v = true

theorem Legible.normalize (h : σ.Legible) : σ.normalize.body.Legible := by
  refine ⟨(Ty.noSingles_rename _ _).trans h.noSingles, fun w hw => ?_⟩
  obtain ⟨v, hv, rfl⟩ := Ty.mem_vars_rename.mp hw
  by_cases hq : v ∈ σ.vars
  · have hname := renameBy_mem σ.length_quantifierNames.ge (mem_quantifiers.mpr hq)
    exact (mem_letterNames hname).2
  · have hfree := mem_freeVars.mpr ⟨hv, hq⟩
    rw [renameBy_of_mem_freeVars hfree]
    exact h.isTypeName v hfree

theorem isAlphanumeric_of_mem_quantifierNames (σ : Scheme) :
    ∀ x ∈ σ.quantifierNames, isAlphanumeric x = true :=
  fun _ hx => (isTypeName_iff.mp (mem_letterNames hx).2).2.1

/-- **The text shows the normal form.** -/
theorem normalize_eq_of_print_eq (hσ : σ.Legible) (hτ : τ.Legible) (h : σ.print = τ.print) :
    σ.normalize = τ.normalize := by
  have hshown : σ.quantifierNames = τ.quantifierNames ∧
      σ.normalize.body.print = τ.normalize.body.print := by
    rw [σ.print_eq, τ.print_eq] at h
    -- the text starts with `forall ` exactly if there are names
    by_cases hnames : σ.quantifierNames = [] <;> by_cases hnames' : τ.quantifierNames = []
    · rw [if_pos hnames, if_pos hnames'] at h
      exact ⟨hnames.trans hnames'.symm, h⟩
    · rw [if_pos hnames, if_neg hnames', String.append_assoc, String.append_assoc] at h
      exact absurd h (hσ.normalize.print_ne_forall _)
    · rw [if_neg hnames, if_pos hnames', String.append_assoc, String.append_assoc] at h
      exact absurd h.symm (hτ.normalize.print_ne_forall _)
    · rw [if_neg hnames, if_neg hnames'] at h
      have htext := congrArg String.toList h
      simp only [String.toList_append, List.append_assoc] at htext
      obtain ⟨heq, hbody⟩ := unambiguous_words σ.isAlphanumeric_of_mem_quantifierNames
        τ.isAlphanumeric_of_mem_quantifierNames hnames hnames' (List.append_cancel_left htext)
      exact ⟨heq, String.toList_inj.mp hbody⟩
  obtain ⟨hnames, hprint⟩ := hshown
  have hbody := hσ.normalize.print_injective hτ.normalize hprint
  calc σ.normalize = ⟨.ofList σ.quantifierNames, σ.normalize.body⟩ := by rw [← vars_normalize]
    _ = ⟨.ofList τ.quantifierNames, τ.normalize.body⟩ := by rw [hnames, hbody]
    _ = τ.normalize := by rw [← vars_normalize]

/-- **The text of a scheme decides equality up to names.** Let no tuple have exactly one component,
and let free variables have names of letters and digits other than `Int`, `Bool` and `forall`. Then
two schemes have the same text exactly if one is the other with its quantified variables renamed,
where free variables keep their names and different variables stay different. So the same variables
are free in both, and both quantify as many variables that their bodies do not mention. No name for
readers is that of a free variable, and no two types have the same text. -/
theorem print_eq_iff_alphaEq :
    (∀ σ τ : Scheme, σ.Legible → τ.Legible →
      (σ.print = τ.print ↔ σ.AlphaEq τ) ∧
      (σ.print = τ.print → σ.freeVars = τ.freeVars ∧ σ.vacuous.size = τ.vacuous.size) ∧
      ∀ v ∈ σ.freeVars, v ∉ σ.quantifierNames) ∧
    ∀ t u : Ty, t.Legible → u.Legible → t.print = u.print → t = u := by
  refine ⟨fun σ τ hσ hτ => ?_, fun t u ht hu => ht.print_injective hu⟩
  have halpha : σ.print = τ.print → σ.AlphaEq τ := by
    intro h
    -- from `σ` to the common normal form, and from there back to `τ`
    have hback := τ.alphaEq_normalize.symm
    rw [← normalize_eq_of_print_eq hσ hτ h] at hback
    exact σ.alphaEq_normalize.trans hback
  refine ⟨⟨halpha, AlphaEq.print_eq⟩, fun h => ?_, fun v => not_mem_quantifierNames⟩
  obtain ⟨ρ, hρ, hfix, rfl⟩ := (halpha h).exists_injective
  rw [freeVars_rename_of_fixed hρ hfix, vacuous_rename hρ, NameSet.size_rename hρ]
  exact ⟨rfl, rfl⟩

/-- The letter `a` is free, so the names for readers start with `b`, which one of the schemes
quantifies in vain. -/
theorem print_eq_iff_alphaEq_vacuous :
    (Scheme.mk (.ofList ["t1", "t2", "t3"]) (.fn (.var "t1") (.var "a"))).Legible ∧
    (Scheme.mk (.ofList ["x", "b", "y"]) (.fn (.var "x") (.var "a"))).Legible ∧
    (Scheme.mk (.ofList ["t1", "t2", "t3"]) (.fn (.var "t1") (.var "a"))).print =
      "forall b c d. b -> a" ∧
    (Scheme.mk (.ofList ["t1", "t2", "t3"]) (.fn (.var "t1") (.var "a"))).AlphaEq
      (.mk (.ofList ["x", "b", "y"]) (.fn (.var "x") (.var "a"))) := by
  have hσ : (Scheme.mk (.ofList ["t1", "t2", "t3"]) (.fn (.var "t1") (.var "a"))).Legible :=
    ⟨rfl, List.forall_mem_singleton.mpr rfl⟩
  have hτ : (Scheme.mk (.ofList ["x", "b", "y"]) (.fn (.var "x") (.var "a"))).Legible :=
    ⟨rfl, List.forall_mem_singleton.mpr rfl⟩
  exact ⟨hσ, hτ, rfl, (print_eq_iff_alphaEq.1 _ _ hσ hτ).1.mp rfl⟩

end Scheme

end PolyLet

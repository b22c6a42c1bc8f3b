import PolyLet.Command.Run

/-!
# What commands do

A command in some surroundings ends with a value or fails, leaves a state of the surroundings behind,
and has printed a text to its standard output. This is a relation with one rule for each way to put
commands together, and every command follows it. What goes to the standard error is left open.

The surroundings may be of any kind, as long as nothing but a write that succeeds changes them. A
file system is one example.

## Main definitions

* `Task.on task c s`: the run of a command in the state `s` after `c` has been printed
* `Task.Yields task s a? s' text`: in the state `s` the command ends with `a?`, leaves `s'` and prints
  `text`
* `Host.OnlyWrites host`: nothing but a write that succeeds changes the surroundings
* `readText? content?`: the text of what was read
* `Host.source? host s p`, `Source.compiled? source`: what a path and a source hold
* `Host.Compiles host s p source e`: the path stands for a program without errors
* `BuildOutcome program? write s output`: what a build comes to

## Main results

* `Task.Yields.bind`, `Task.Yields.bind_failed`: one command after another
* `Host.OnlyWrites.yields_readSource`, `Host.OnlyWrites.yields_compileSource`: the stages change
  nothing and print no result
* `Host.OnlyWrites.exists_buildOutcome`: a build follows its outcome
* `Invocation.run_eq_of_yields`: an invocation follows its command
-/

namespace PolyLet

variable {α β σ : Type} {s s₁ s₂ : σ} {a? : Option α} {b? : Option β} {text text₁ text₂ : String}

namespace Task

/-- The run of a command in a state of its surroundings, after something has been printed. -/
def on (task : Task (StateM σ) α) (c : Console) (s : σ) : (Except String α × Console) × σ :=
  (task.run.run c).run s

theorem on_bind (x : Task (StateM σ) α) (f : α → Task (StateM σ) β) (c : Console) (s : σ) :
    (x >>= f).on c s =
      match x.on c s with
      | ((.ok a, c₁), s₁) => (f a).on c₁ s₁
      | ((.error message, c₁), s₁) => ((.error message, c₁), s₁) := by
  -- the run of the first command comes first, whatever comes of it
  have hrun : (x >>= f).on c s =
      ((ExceptT.bindCont f (x.on c s).1.1).run (x.on c s).1.2).run (x.on c s).2 := rfl
  rw [hrun]
  rcases x.on c s with ⟨⟨result, c₁⟩, s₁⟩
  cases result with
  | error message => rfl
  | ok a => rfl

/-- **The effect of a command.** In the state `s` it ends with the value `a?`, or fails if there is
none, leaves the state `s'`, and adds `text` to the standard output. -/
def Yields (task : Task (StateM σ) α) (s : σ) (a? : Option α) (s' : σ) (text : String) : Prop :=
  ∀ c, ∃ result c', task.on c s = ((result, c'), s') ∧ result.toOption = a? ∧
    c'.stdout = c.stdout ++ text

namespace Yields

theorem pure (a : α) (s : σ) : (Pure.pure a : Task (StateM σ) α).Yields s (some a) s "" :=
  fun c => ⟨.ok a, c, rfl, rfl, String.append_empty.symm⟩

theorem throw (message : String) (s : σ) :
    (MonadExcept.throw message : Task (StateM σ) α).Yields s none s "" :=
  fun c => ⟨.error message, c, rfl, rfl, String.append_empty.symm⟩

theorem print (text : String) (s : σ) :
    (Task.print text : Task (StateM σ) Unit).Yields s (some ()) s text :=
  fun c => ⟨.ok (), { c with stdout := c.stdout ++ text }, rfl, rfl, rfl⟩

theorem printErrors (lines : List String) (s : σ) :
    (Task.printErrors lines : Task (StateM σ) Unit).Yields s (some ()) s "" :=
  fun c => ⟨.ok (), { c with stderr := c.stderr ++ lines }, rfl, rfl, String.append_empty.symm⟩

theorem ask {action : StateM σ α} {a : α} (h : action.run s = (a, s₁)) :
    (Task.ask action).Yields s (some a) s₁ "" := by
  have hon (c : Console) : (Task.ask action).on c s =
      ((.ok (action.run s).1, c), (action.run s).2) := rfl
  refine fun c => ⟨.ok a, c, ?_, rfl, String.append_empty.symm⟩
  rw [hon, h]

/-- One command after another. -/
theorem bind {x : Task (StateM σ) α} {f : α → Task (StateM σ) β} {a : α}
    (hx : x.Yields s (some a) s₁ text₁) (hf : (f a).Yields s₁ b? s₂ text₂) :
    (x >>= f).Yields s b? s₂ (text₁ ++ text₂) := by
  intro c
  obtain ⟨result, c₁, hon, hresult, hc₁⟩ := hx c
  obtain ⟨result', c₂, hon', hresult', hc₂⟩ := hf c₁
  cases result with
  | error message => cases hresult
  | ok a' =>
    obtain rfl := Option.some.inj hresult
    refine ⟨result', c₂, ?_, hresult', ?_⟩
    · rw [on_bind, hon]
      exact hon'
    · rw [hc₂, hc₁, String.append_assoc]

/-- After a failure nothing is done any more. -/
theorem bind_failed {x : Task (StateM σ) α} (hx : x.Yields s none s₁ text)
    (f : α → Task (StateM σ) β) : (x >>= f).Yields s none s₁ text := by
  intro c
  obtain ⟨result, c₁, hon, hresult, hc₁⟩ := hx c
  cases result with
  | error message => exact ⟨.error message, c₁, by rw [on_bind, hon], rfl, hc₁⟩
  | ok a => cases hresult

/-- A command that prints nothing in front of another one. -/
theorem quiet_bind {x : Task (StateM σ) α} {f : α → Task (StateM σ) β} {a : α}
    (hx : x.Yields s (some a) s₁ "") (hf : (f a).Yields s₁ b? s₂ text) :
    (x >>= f).Yields s b? s₂ text := by
  have h := hx.bind hf
  rwa [String.empty_append] at h

/-- Commands that change nothing, one after another: the second one if the first gives a value. -/
theorem quiet_andThen {x : Task (StateM σ) α} {f : α → Task (StateM σ) β} {g : α → Option β}
    (hx : x.Yields s a? s "") (hf : ∀ a, (f a).Yields s (g a) s "") :
    (x >>= f).Yields s (a?.bind g) s "" := by
  cases a? with
  | none => exact hx.bind_failed f
  | some a => exact hx.quiet_bind (hf a)

end Yields

end Task

/-! ## Stages -/

section Stages

variable {host : Host (StateM σ)} {r : Reporting} {source : Source}

open PolyLet.Task (Yields)

theorem yields_logRecord (level : LogLevel) (lines : List String) :
    (logRecord r level lines).Yields s (some ()) s "" := by
  rw [logRecord.eq_def]
  split
  next => exact .pure () s
  next =>
    split
    next => exact .printErrors _ s
    next => exact .pure () s

theorem yields_failSyntax (e : SyntaxError) :
    (failSyntax r source e : Task (StateM σ) α).Yields s none s "" :=
  (Yields.printErrors _ s).quiet_bind (.throw _ s)

/-- Nothing but a write that succeeds changes the surroundings: a look at the standard input, the
files or the clock does not, and a write that fails does not either. -/
structure Host.OnlyWrites (host : Host (StateM σ)) : Prop where
  readInput : ∀ s, (host.readInput.run s).2 = s
  readFile : ∀ p s, ((host.readFile p).run s).2 = s
  lapTime : ∀ s, (host.lapTime.run s).2 = s
  failure : ∀ {p content s err s'}, (host.writeFile p content).run s = (.error err, s') → s' = s

/-- A look yields what is seen. -/
theorem yields_look {action : StateM σ α} (h : (action.run s).2 = s) :
    (Task.ask action).Yields s (some (action.run s).1) s "" :=
  .ask (Prod.ext rfl h)

/-- The text of what was read, if it could be read and is one. -/
def readText? (content? : Except FileError ByteArray) : Option String :=
  content?.toOption.bind String.fromUTF8?

/-- The text is read without a change, or there is an error. -/
theorem yields_readText {action : StateM σ (Except FileError ByteArray)} (origin : String)
    (h : (action.run s).2 = s) :
    (readText origin action).Yields s (readText? (action.run s).1) s "" := by
  refine (yields_look h).quiet_bind ?_
  cases (action.run s).1 with
  | error e => exact .throw _ s
  | ok bytes =>
    show Yields _ s (String.fromUTF8? bytes) s ""
    cases htext : String.fromUTF8? bytes with
    | none =>
      simp only [htext]
      exact .throw _ s
    | some text =>
      simp only [htext]
      exact .pure text s

/-- The source that a path stands for, if there is a text. -/
def Host.source? (host : Host (StateM σ)) (s : σ) (p : Path) : Option Source :=
  if p.text = "-" then
    (readText? (host.readInput.run s).1).map fun text => ⟨"<stdin>", text, none⟩
  else (readText? ((host.readFile p).run s).1).map fun text => ⟨p.text, text, some p⟩

/-- The program of a source and its type scheme, if it is right. -/
def Source.compiled? (source : Source) : Option (Expr × Scheme) :=
  (parse source.text).toOption.bind fun e => (check e).toOption.map fun σ => (e, σ)

/-- The source that a path stands for and its program, if it is right. -/
def Host.program? (host : Host (StateM σ)) (s : σ) (p : Path) : Option (Source × Expr) :=
  (host.source? s p).bind fun source => source.compiled?.map fun program => (source, program.1)

/-- The path stands for a source that can be read, is parsed into the program `e`, and has a type. -/
structure Host.Compiles (host : Host (StateM σ)) (s : σ) (p : Path) (source : Source) (e : Expr) :
    Prop where
  read : host.source? s p = some source
  parsed : parse source.text = .ok e
  checked : ∃ τ, check e = .ok τ

theorem toOption_eq_some_iff {ε : Type} {x : Except ε α} {a : α} :
    x.toOption = some a ↔ x = .ok a := by
  cases x <;> simp [Except.toOption]

theorem Source.compiled?_eq_some_iff {e : Expr} {τ : Scheme} :
    source.compiled? = some (e, τ) ↔ parse source.text = .ok e ∧ check e = .ok τ := by
  simp only [compiled?, Option.bind_eq_some_iff, Option.map_eq_some_iff, Prod.mk.injEq,
    toOption_eq_some_iff]
  constructor
  · rintro ⟨e', hparse, τ', hcheck, rfl, rfl⟩
    exact ⟨hparse, hcheck⟩
  · rintro ⟨hparse, hcheck⟩
    exact ⟨e, hparse, τ, hcheck, rfl, rfl⟩

theorem Host.program?_eq_some_iff {p : Path} {e : Expr} :
    host.program? s p = some (source, e) ↔ host.Compiles s p source e := by
  simp only [program?, Option.bind_eq_some_iff, Option.map_eq_some_iff, Prod.exists,
    Source.compiled?_eq_some_iff, Prod.mk.injEq]
  constructor
  · rintro ⟨source', hread, e', τ, ⟨hparse, hcheck⟩, rfl, rfl⟩
    exact ⟨hread, hparse, τ, hcheck⟩
  · rintro ⟨hread, hparse, τ, hcheck⟩
    exact ⟨source, hread, e, τ, ⟨hparse, hcheck⟩, rfl, rfl⟩

namespace Host.OnlyWrites

theorem yields_readSource (hhost : host.OnlyWrites) (s : σ) (r : Reporting) (p : Path) :
    (readSource host r p).Yields s (host.source? s p) s "" := by
  rw [readSource, source?]
  split
  next =>
    rw [Option.map_eq_bind]
    exact (yields_readText "stdin" (hhost.readInput s)).quiet_andThen fun text => .pure _ s
  next =>
    rw [Option.map_eq_bind]
    refine (yields_readText _ (hhost.readFile p s)).quiet_andThen fun text => ?_
    exact (yields_logRecord _ _).quiet_bind (.pure _ s)

theorem yields_parseSource (hhost : host.OnlyWrites) (s : σ) (r : Reporting) (source : Source) :
    (parseSource host r source).Yields s (parse source.text).toOption s "" := by
  rw [parseSource]
  cases parse source.text with
  | error e => exact yields_failSyntax e
  | ok e =>
    refine (yields_look (hhost.lapTime s)).quiet_bind ?_
    exact (yields_logRecord _ _).quiet_bind ((yields_logRecord _ _).quiet_bind (.pure e s))

theorem yields_compileSource (hhost : host.OnlyWrites) (s : σ) (r : Reporting) (source : Source) :
    (compileSource host r source).Yields s source.compiled? s "" := by
  rw [compileSource, Source.compiled?]
  refine (hhost.yields_parseSource s r source).quiet_andThen fun e => ?_
  cases check e with
  | error err => exact (Yields.printErrors _ s).quiet_bind (.throw _ s)
  | ok τ =>
    refine (yields_look (hhost.lapTime s)).quiet_bind ?_
    exact (yields_logRecord _ _).quiet_bind (.pure (e, τ) s)

end Host.OnlyWrites

/-! ## Builds -/

/-- The state after a write, or why there is none. -/
def Host.write (host : Host (StateM σ)) (s : σ) (p : Path) (content : ByteArray) :
    Except FileError σ :=
  match (host.writeFile p content).run s with
  | (.error err, _) => .error err
  | (.ok (), s') => .ok s'

theorem Host.OnlyWrites.run_writeFile (hhost : host.OnlyWrites) (s : σ) (p : Path)
    (content : ByteArray) :
    (host.writeFile p content).run s =
      match host.write s p content with
      | .error err => (.error err, s)
      | .ok s' => (.ok (), s') := by
  rw [write]
  rcases hw : (host.writeFile p content).run s with ⟨err | ⟨⟩, s'⟩
  · rw [hhost.failure hw]
  · rfl

/-- **What a build comes to,** where `program?` is the source and its program, if it is right, and
`write` are the writes in the state `s`: whether the build succeeds, the state that it leaves, and
what it prints. -/
inductive BuildOutcome (program? : Option (Source × Expr))
    (write : Path → ByteArray → Except FileError σ) (s : σ) (output : Option Path) :
    Option Unit → σ → String → Prop
  /-- There is no program. -/
  | uncompiled (h : program? = none) : BuildOutcome program? write s output none s ""
  /-- The script goes to the standard output. -/
  | printed {source : Source} {e : Expr} (h : program? = some (source, e))
      (ht : buildTarget source output = none) :
      BuildOutcome program? write s output (some ()) s (JavaScript.program e)
  /-- The script would go to the path of the source. -/
  | refused {source : Source} {e : Expr} {target : Path} (h : program? = some (source, e))
      (ht : buildTarget source output = some target)
      (hs : source.path.any (·.sameAs target) = true) :
      BuildOutcome program? write s output none s ""
  /-- The script cannot be written. -/
  | unwritten {source : Source} {e : Expr} {target : Path} {err : FileError}
      (h : program? = some (source, e)) (ht : buildTarget source output = some target)
      (hs : source.path.any (·.sameAs target) = false)
      (hw : write target (JavaScript.program e).toUTF8 = .error err) :
      BuildOutcome program? write s output none s ""
  /-- The script is written. -/
  | written {source : Source} {e : Expr} {target : Path} {s' : σ}
      (h : program? = some (source, e)) (ht : buildTarget source output = some target)
      (hs : source.path.any (·.sameAs target) = false)
      (hw : write target (JavaScript.program e).toUTF8 = .ok s') :
      BuildOutcome program? write s output (some ()) s' ""

/-- **Every build has its outcome.** -/
theorem Host.OnlyWrites.exists_buildOutcome (hhost : host.OnlyWrites) (s : σ) (r : Reporting)
    (p : Path) (output : Option Path) :
    ∃ a? s' text, BuildOutcome (host.program? s p) (host.write s) s output a? s' text ∧
      (runBuild host r p output).Yields s a? s' text := by
  have hread := hhost.yields_readSource s r p
  cases hsource : host.source? s p with
  | none =>
    rw [hsource] at hread
    exact ⟨none, s, "", .uncompiled (by rw [program?, hsource]; rfl), hread.bind_failed _⟩
  | some source =>
    rw [hsource] at hread
    have hcompile := hhost.yields_compileSource s r source
    cases hcompiled : source.compiled? with
    | none =>
      rw [hcompiled] at hcompile
      refine ⟨none, s, "", .uncompiled ?_, hread.quiet_bind (hcompile.bind_failed _)⟩
      rw [program?, hsource, Option.bind_some, hcompiled]
      rfl
    | some program =>
      obtain ⟨e, τ⟩ := program
      rw [hcompiled] at hcompile
      have hprogram : host.program? s p = some (source, e) := by
        rw [program?, hsource, Option.bind_some, hcompiled]
        rfl
      -- what is left is to see where the script goes
      cases ht : buildTarget source output with
      | none =>
        refine ⟨some (), s, JavaScript.program e, .printed hprogram ht,
          hread.quiet_bind (hcompile.quiet_bind ?_)⟩
        simp only [ht]
        exact .print _ s
      | some target =>
        cases hs : source.path.any (·.sameAs target) with
        | true =>
          refine ⟨none, s, "", .refused hprogram ht hs,
            hread.quiet_bind (hcompile.quiet_bind ?_)⟩
          simp only [ht, hs, if_true]
          exact .throw _ s
        | false =>
          have hrun := hhost.run_writeFile s target (JavaScript.program e).toUTF8
          cases hw : host.write s target (JavaScript.program e).toUTF8 with
          | error err =>
            rw [hw] at hrun
            refine ⟨none, s, "", .unwritten hprogram ht hs hw,
              hread.quiet_bind (hcompile.quiet_bind ?_)⟩
            simp only [ht, hs, Bool.false_eq_true, if_false]
            exact (Yields.ask hrun).quiet_bind (.throw _ s)
          | ok s' =>
            rw [hw] at hrun
            refine ⟨some (), s', "", .written hprogram ht hs hw,
              hread.quiet_bind (hcompile.quiet_bind ?_)⟩
            simp only [ht, hs, Bool.false_eq_true, if_false]
            exact (Yields.ask hrun).quiet_bind (yields_logRecord _ _)

end Stages

/-! ## Builds on a file system -/

namespace FileSystem

variable {input : Except FileError ByteArray} {time : String}

theorem run_host_writeFile (fs : FileSystem) (p : Path) (content : ByteArray) :
    ((host input time).writeFile p content).run fs =
      match fs.write p content with
      | .error err => (.error err, fs)
      | .ok fs' => (.ok (), fs') := by
  rw [host, StateT.run_bind, StateT.run_get, pure_bind]
  cases fs.write p content <;> rfl

theorem host_write (fs : FileSystem) : (host input time).write fs = fs.write := by
  funext p content
  rw [Host.write, run_host_writeFile]
  cases fs.write p content <;> rfl

theorem host_onlyWrites (input : Except FileError ByteArray) (time : String) :
    (host input time).OnlyWrites where
  readInput _ := rfl
  readFile _ _ := rfl
  lapTime _ := rfl
  failure := by
    intro p content fs err fs' hw
    rw [run_host_writeFile] at hw
    cases hwrite : fs.write p content with
    | error err' =>
      rw [hwrite] at hw
      exact (Prod.mk.inj hw).2.symm
    | ok fs₁ =>
      rw [hwrite] at hw
      cases (Prod.mk.inj hw).1

/-- The source that a path stands for and its program, if it is right. -/
def program? (fs : FileSystem) (input : Except FileError ByteArray) (p : Path) :
    Option (Source × Expr) :=
  (host input "").program? fs p

end FileSystem

/-- Every build on a file system has its outcome. -/
theorem exists_buildOutcome (fs : FileSystem) (input : Except FileError ByteArray) (time : String)
    (r : Reporting) (p : Path) (output : Option Path) :
    ∃ a? fs' text, BuildOutcome (fs.program? input p) fs.write fs output a? fs' text ∧
      (runBuild (FileSystem.host input time) r p output).Yields fs a? fs' text := by
  rw [← @FileSystem.host_write input time fs]
  exact (FileSystem.host_onlyWrites input time).exists_buildOutcome fs r p output

/-! ## Invocations -/

/-- **An invocation follows its command.** Its status says whether the command succeeds. -/
theorem Invocation.run_eq_of_yields {i : Invocation} {host : Host (StateM σ)} {a? : Option Unit}
    (h : (runCommand host i.reporting i.command).Yields s a? s₁ text) :
    ∃ console, (i.run host).run s = (⟨if a?.isSome then 0 else 1, console⟩, s₁) ∧
      console.stdout = text := by
  obtain ⟨result, c, hon, rfl, hc⟩ := h {}
  have hrun : ((runCommand host i.reporting i.command).run.run {}).run s = ((result, c), s₁) :=
    hon
  rw [Invocation.run, StateT.run_bind, hrun]
  cases result with
  | error message => exact ⟨_, rfl, hc.trans String.empty_append⟩
  | ok a => exact ⟨c, rfl, hc.trans String.empty_append⟩

end PolyLet

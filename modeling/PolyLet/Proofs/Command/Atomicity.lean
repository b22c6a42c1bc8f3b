import PolyLet.Proofs.Command.Effects
import PolyLet.Proofs.Command.Locations

/-!
# Commands that fail change nothing

Only a build writes, and it writes once, at its end. So a command that fails has changed no file, in
whatever surroundings it runs, as long as a single write either replaces one file or has no effect.
That a run comes to a write at all takes a source that can be read, parsed and typed, and what is
written is the script of that program.

## Main definitions

* `Replaced files s f content s'`: from `s` to `s'` one file was given a content
* `Host.Atomic host files`: a write replaces the content of one file, or fails without effect
* `Host.typeLine? host s p`: the line that a check prints

## Main results

* `FileSystem.host_atomic`: writes to a file system replace one file
* `Host.OnlyWrites.yields_runCheck`, `Host.OnlyWrites.keeps_runCommand`: what the commands besides a
  build do
* `Host.Atomic.build_cases`: the ways in which a build ends
* `failed_run_changes_nothing`: what is said above, for every command
-/

namespace PolyLet

variable {σ ι : Type} {host : Host (StateM σ)} {files : σ → ι → Option ByteArray} {s s' : σ}
  {p : Path} {output : Option Path} {source : Source} {e : Expr}

/-! ## Writes -/

/-- From the state `s` to the state `s'`, the file `f` was given a content, and no other file has
changed. -/
def Replaced (files : σ → ι → Option ByteArray) (s : σ) (f : ι) (content : ByteArray) (s' : σ) :
    Prop :=
  files s' f = some content ∧ ∀ g, g ≠ f → files s' g = files s g

/-- Nothing but a write that succeeds changes the surroundings, and such a write replaces the
content of one file. In each state, `files` are the contents of all files. -/
structure Host.Atomic (host : Host (StateM σ)) (files : σ → ι → Option ByteArray) : Prop
    extends host.OnlyWrites where
  success : ∀ {p content s s'}, (host.writeFile p content).run s = (.ok (), s') →
    ∃ f, Replaced files s f content s'

theorem Host.Atomic.exists_replaced {content : ByteArray} (hhost : host.Atomic files)
    (hw : host.write s p content = .ok s') : ∃ f, Replaced files s f content s' := by
  have hrun := hhost.run_writeFile s p content
  rw [hw] at hrun
  exact hhost.success hrun

/-- The content of the file at a location. -/
def FileSystem.content? (fs : FileSystem) (l : Location) : Option ByteArray :=
  match fs.node? l with
  | some (.file content) => some content
  | _ => none

theorem FileSystem.replaced_put (fs : FileSystem) (l : Location) (content : ByteArray) :
    Replaced content? fs l content (fs.put l (.file content)) := by
  refine ⟨?_, fun g hg => ?_⟩
  · rw [content?, node?_put, if_pos rfl]
  · rw [content?, node?_put, if_neg hg, content?]

/-- **Writes to a file system replace one file.** -/
theorem FileSystem.host_atomic (input : Except FileError ByteArray) (time : String) :
    (FileSystem.host input time).Atomic content? where
  toOnlyWrites := host_onlyWrites input time
  success := by
    intro p content fs fs' hw
    rw [run_host_writeFile] at hw
    cases hwrite : fs.write p content with
    | error err =>
      rw [hwrite] at hw
      cases (Prod.mk.inj hw).1
    | ok fs₁ =>
      rw [hwrite] at hw
      obtain rfl := (Prod.mk.inj hw).2
      obtain ⟨l, -, -, rfl⟩ := write_eq_ok_iff.mp hwrite
      exact ⟨l, fs.replaced_put l content⟩

/-! ## What the commands do -/

/-- The command leaves the state as it is, whatever it ends with and prints. -/
def Task.Keeps {α : Type} (task : Task (StateM σ) α) (s : σ) : Prop :=
  ∃ a? text, task.Yields s a? s text

theorem Task.Yields.keeps {α : Type} {task : Task (StateM σ) α} {a? : Option α} {text : String}
    (h : task.Yields s a? s text) : task.Keeps s :=
  ⟨a?, text, h⟩

theorem Task.Keeps.bind {α β : Type} {x : Task (StateM σ) α} {f : α → Task (StateM σ) β}
    (hx : x.Keeps s) (hf : ∀ a, (f a).Keeps s) : (x >>= f).Keeps s := by
  obtain ⟨a?, text, hx⟩ := hx
  cases a? with
  | none => exact (hx.bind_failed f).keeps
  | some a =>
    obtain ⟨b?, text', hf⟩ := hf a
    exact (hx.bind hf).keeps

/-- The line that a check prints, if the program is right. -/
def Host.typeLine? (host : Host (StateM σ)) (s : σ) (p : Path) : Option String :=
  (host.source? s p).bind fun source => source.compiled?.map fun program =>
    source.name ++ ": " ++ program.2.print ++ "\n"

theorem Host.isSome_typeLine?_iff :
    (host.typeLine? s p).isSome = true ↔ ∃ source e, host.Compiles s p source e := by
  simp only [typeLine?, Option.isSome_iff_exists, Option.bind_eq_some_iff, Option.map_eq_some_iff,
    Prod.exists, Source.compiled?_eq_some_iff]
  constructor
  · rintro ⟨line, source, hread, e, τ, ⟨hparse, hcheck⟩, -⟩
    exact ⟨source, e, hread, hparse, τ, hcheck⟩
  · rintro ⟨source, e, hread, hparse, τ, hcheck⟩
    exact ⟨_, source, hread, e, τ, ⟨hparse, hcheck⟩, rfl⟩

namespace Host.OnlyWrites

open PolyLet.Task (Yields)

/-- A check prints the type of a program, or fails and prints nothing. -/
theorem yields_runCheck (hhost : host.OnlyWrites) (s : σ) (r : Reporting) (p : Path) :
    (runCheck host r p).Yields s ((host.typeLine? s p).map fun _ => ()) s
      ((host.typeLine? s p).getD "") := by
  have hread := hhost.yields_readSource s r p
  rw [typeLine?]
  cases hsource : host.source? s p with
  | none =>
    rw [hsource] at hread
    exact hread.bind_failed _
  | some source =>
    rw [hsource] at hread
    refine hread.quiet_bind ?_
    have hcompile := hhost.yields_compileSource s r source
    rw [Option.bind_some]
    cases hcompiled : source.compiled? with
    | none =>
      rw [hcompiled] at hcompile
      exact hcompile.bind_failed _
    | some program =>
      rw [hcompiled] at hcompile
      exact hcompile.quiet_bind (.print _ s)

/-- **Every command but a build leaves the surroundings as they are.** -/
theorem keeps_runCommand (hhost : host.OnlyWrites) (s : σ) (r : Reporting) {command : Command}
    (h : ∀ p output, command ≠ .build p output) : (runCommand host r command).Keeps s := by
  have hread (p : Path) : (readSource host r p).Keeps s := (hhost.yields_readSource s r p).keeps
  cases command with
  | check p => exact (hhost.yields_runCheck s r p).keeps
  | build p output => exact absurd rfl (h p output)
  | tokens p =>
    refine (hread p).bind fun source => (Yields.print _ s).keeps.bind fun _ => ?_
    split
    next => exact (Yields.pure () s).keeps
    next => exact (yields_failSyntax _).keeps
  | ast p =>
    refine (hread p).bind fun source => ?_
    exact (hhost.yields_parseSource s r source).keeps.bind fun e => (Yields.print _ s).keeps

end Host.OnlyWrites

/-! ## Invocations -/

section Invocations

variable {i : Invocation} {out : Output}

/-- The status of an invocation says whether its command succeeds. -/
theorem Invocation.eq_of_yields {a? : Option Unit} {s₁ : σ} {text : String}
    (h : (runCommand host i.reporting i.command).Yields s a? s₁ text)
    (hrun : (i.run host).run s = (out, s')) :
    s' = s₁ ∧ out.status = (if a?.isSome then 0 else 1) ∧ out.console.stdout = text := by
  obtain ⟨console, hrun', htext⟩ := run_eq_of_yields h
  obtain ⟨rfl, rfl⟩ := Prod.mk.inj (hrun.symm.trans hrun')
  exact ⟨rfl, rfl, htext⟩

theorem Host.OnlyWrites.eq_of_run (hhost : host.OnlyWrites)
    (hi : ∀ p output, i.command ≠ .build p output) (hrun : (i.run host).run s = (out, s')) :
    s' = s := by
  obtain ⟨a?, text, h⟩ := hhost.keeps_runCommand s i.reporting hi
  exact (i.eq_of_yields h hrun).1

theorem Host.OnlyWrites.check_run (hhost : host.OnlyWrites) (hi : i.command = .check p)
    (hrun : (i.run host).run s = (out, s')) :
    out.status = (if (host.typeLine? s p).isSome then 0 else 1) ∧
      out.console.stdout = (host.typeLine? s p).getD "" := by
  have h := hhost.yields_runCheck s i.reporting p
  obtain ⟨-, hstatus, htext⟩ := i.eq_of_yields (by rw [hi]; exact h) hrun
  rw [Option.isSome_map] at hstatus
  exact ⟨hstatus, htext⟩

/-- An invocation of a build follows the outcome of the build. -/
theorem Host.OnlyWrites.build_run (hhost : host.OnlyWrites) (hi : i.command = .build p output)
    (hrun : (i.run host).run s = (out, s')) :
    ∃ a?, BuildOutcome (host.program? s p) (host.write s) s output a? s' out.console.stdout ∧
      out.status = if a?.isSome then 0 else 1 := by
  obtain ⟨a?, s₁, text, hout, h⟩ := hhost.exists_buildOutcome s i.reporting p output
  obtain ⟨rfl, hstatus, rfl⟩ := i.eq_of_yields (by rw [hi]; exact h) hrun
  exact ⟨a?, hout, hstatus⟩

/-- The script goes to the standard output only if the source is the standard input and no output
path is given. -/
theorem Host.buildTarget_eq_none_iff (hread : host.source? s p = some source) :
    buildTarget source output = none ↔ p.text = "-" ∧ output = none := by
  rw [buildTarget, Option.or_eq_none_iff, Option.map_eq_none_iff, and_comm]
  refine and_congr_left fun _ => ?_
  rw [source?] at hread
  split at hread
  next hp =>
    obtain ⟨text, -, rfl⟩ := Option.map_eq_some_iff.mp hread
    exact iff_of_true rfl hp
  next hp =>
    obtain ⟨text, -, rfl⟩ := Option.map_eq_some_iff.mp hread
    exact iff_of_false (fun h => by cases h) hp

/-- **The ways in which a build ends.** It fails and has changed and printed nothing, it has printed
the script of a program, or it has written it. -/
theorem Host.Atomic.build_cases (hhost : host.Atomic files) (hi : i.command = .build p output)
    (hrun : (i.run host).run s = (out, s')) :
    (out.status = 1 ∧ s' = s ∧ out.console.stdout = "") ∨
      out.status = 0 ∧ ∃ source e, host.Compiles s p source e ∧
        ((p.text = "-" ∧ output = none ∧ s' = s ∧ out.console.stdout = JavaScript.program e) ∨
          ¬(p.text = "-" ∧ output = none) ∧ out.console.stdout = "" ∧
            ∃ f, Replaced files s f (JavaScript.program e).toUTF8 s') := by
  obtain ⟨a?, hout, hstatus⟩ := hhost.build_run hi hrun
  generalize out.console.stdout = text at hout
  cases hout with
  | uncompiled | refused | unwritten => exact .inl ⟨hstatus, rfl, rfl⟩
  | @printed source e h ht =>
    have hcompiles := program?_eq_some_iff.mp h
    obtain ⟨hp, houtput⟩ := (buildTarget_eq_none_iff hcompiles.read).mp ht
    exact .inr ⟨hstatus, source, e, hcompiles, .inl ⟨hp, houtput, rfl, rfl⟩⟩
  | @written source e target _ h ht hs hw =>
    have hcompiles := program?_eq_some_iff.mp h
    refine .inr ⟨hstatus, source, e, hcompiles, .inr ⟨fun hnone => ?_, rfl,
      hhost.exists_replaced hw⟩⟩
    rw [(buildTarget_eq_none_iff hcompiles.read).mpr hnone] at ht
    cases ht

/-- A build succeeds if there is a program and its script can go where it should. -/
theorem Host.OnlyWrites.build_succeeds_iff (hhost : host.OnlyWrites)
    (hi : i.command = .build p output) (hrun : (i.run host).run s = (out, s')) :
    out.status = 0 ↔ ∃ source e, host.Compiles s p source e ∧
      ∀ target, buildTarget source output = some target →
        source.path.any (·.sameAs target) = false ∧
          host.write s target (JavaScript.program e).toUTF8 = .ok s' := by
  obtain ⟨a?, hout, hstatus⟩ := hhost.build_run hi hrun
  generalize out.console.stdout = text at hout
  rw [hstatus]
  simp only [← program?_eq_some_iff]
  cases hout with
  | uncompiled h =>
    rw [h]
    simp
  | @printed source e h ht =>
    refine iff_of_true rfl ⟨source, e, h, fun target htarget => ?_⟩
    rw [ht] at htarget
    cases htarget
  | @refused source e target h ht hs =>
    refine iff_of_false (fun h => by cases h) ?_
    rintro ⟨source', e', h', hwrite⟩
    obtain ⟨rfl, rfl⟩ := Prod.mk.inj (Option.some.inj (h.symm.trans h'))
    rw [(hwrite target ht).1] at hs
    cases hs
  | @unwritten source e target err h ht hs hw =>
    refine iff_of_false (fun h => by cases h) ?_
    rintro ⟨source', e', h', hwrite⟩
    obtain ⟨rfl, rfl⟩ := Prod.mk.inj (Option.some.inj (h.symm.trans h'))
    rw [(hwrite target ht).2] at hw
    cases hw
  | @written source e target _ h ht hs hw =>
    refine iff_of_true rfl ⟨source, e, h, fun target' htarget => ?_⟩
    obtain rfl := Option.some.inj (ht.symm.trans htarget)
    exact ⟨hs, hw⟩

theorem Invocation.status_eq_zero_or_one (i : Invocation) (hrun : (i.run host).run s = (out, s')) :
    out.status = 0 ∨ out.status = 1 := by
  rw [run, StateT.run_bind] at hrun
  rcases hresult : ((runCommand host i.reporting i.command).run.run {}).run s with
    ⟨⟨err | ⟨⟩, console⟩, s₁⟩ <;> rw [hresult] at hrun <;> obtain ⟨rfl, -⟩ := Prod.mk.inj hrun
  · exact .inr rfl
  · exact .inl rfl

/-- **Commands that fail change nothing.** Let a command run in any surroundings where a write
replaces one file or fails without effect. The commands other than a build change no file. A build
changes at most one file, and only if its source can be read, is parsed and has a type; the file
then holds the script of that program. If a build or a check fails, then no file has changed and
nothing was printed to the standard output. A build of the standard input without an output path
prints the script if it succeeds, and changes no file; any other build that succeeds prints nothing
and writes the script. A check succeeds exactly if the program is right, and a build if moreover the
output path is not that of the source and can be written to. -/
theorem failed_run_changes_nothing (hhost : host.Atomic files) (i : Invocation)
    (hrun : (i.run host).run s = (out, s')) :
    (out.status = 0 ∨ out.status = 1) ∧
    (∀ p, i.command = .check p ∨ i.command = .tokens p ∨ i.command = .ast p →
      files s' = files s) ∧
    (∀ p output, i.command = .build p output → files s' = files s ∨
      ∃ source e f, host.Compiles s p source e ∧
        Replaced files s f (JavaScript.program e).toUTF8 s') ∧
    (∀ p output, i.command = .check p ∨ i.command = .build p output → out.status = 1 →
      files s' = files s ∧ out.console.stdout = "") ∧
    (∀ p, i.command = .build p none → p.text = "-" → out.status = 0 → files s' = files s ∧
      ∃ source e, host.Compiles s p source e ∧ out.console.stdout = JavaScript.program e) ∧
    (∀ p output, i.command = .build p output → ¬(p.text = "-" ∧ output = none) →
      out.status = 0 → out.console.stdout = "" ∧ ∃ source e f, host.Compiles s p source e ∧
        Replaced files s f (JavaScript.program e).toUTF8 s') ∧
    (∀ p, i.command = .check p → (out.status = 0 ↔ ∃ source e, host.Compiles s p source e)) ∧
    ∀ p output, i.command = .build p output → (out.status = 0 ↔
      ∃ source e, host.Compiles s p source e ∧
        ∀ target, buildTarget source output = some target →
          source.path.any (·.sameAs target) = false ∧
            host.write s target (JavaScript.program e).toUTF8 = .ok s') := by
  refine ⟨i.status_eq_zero_or_one hrun, fun p hi => ?_, fun p output hi => ?_,
    fun p output hi hstatus => ?_, fun p hi hp hstatus => ?_, fun p output hi hp hstatus => ?_,
    fun p hi => ?_, fun p output hi => hhost.build_succeeds_iff hi hrun⟩
  · rw [hhost.eq_of_run (fun p' output' hbuild => ?_) hrun]
    rw [hbuild] at hi
    rcases hi with hi | hi | hi <;> cases hi
  · rcases hhost.build_cases hi hrun with ⟨-, rfl, -⟩ | ⟨-, source, e, hcompiles, hcases⟩
    · exact .inl rfl
    · rcases hcases with ⟨-, -, rfl, -⟩ | ⟨-, -, f, hf⟩
      · exact .inl rfl
      · exact .inr ⟨source, e, f, hcompiles, hf⟩
  · rcases hi with hi | hi
    · -- a check prints only if it succeeds
      obtain ⟨hline, htext⟩ := hhost.check_run hi hrun
      have hsame : s' = s := hhost.eq_of_run (by simp [hi]) hrun
      rw [htext, hsame]
      cases hlines : host.typeLine? s p with
      | none => exact ⟨rfl, rfl⟩
      | some line =>
        rw [hlines, hstatus] at hline
        cases hline
    · rcases hhost.build_cases hi hrun with ⟨-, rfl, htext⟩ | ⟨hzero, -⟩
      · exact ⟨rfl, htext⟩
      · rw [hstatus] at hzero
        cases hzero
  · rcases hhost.build_cases hi hrun with ⟨hone, -, -⟩ | ⟨-, source, e, hcompiles, hcases⟩
    · rw [hstatus] at hone
      cases hone
    · rcases hcases with ⟨-, -, rfl, htext⟩ | ⟨hnot, -, -⟩
      · exact ⟨rfl, source, e, hcompiles, htext⟩
      · exact absurd ⟨hp, rfl⟩ hnot
  · rcases hhost.build_cases hi hrun with ⟨hone, -, -⟩ | ⟨-, source, e, hcompiles, hcases⟩
    · rw [hstatus] at hone
      cases hone
    · rcases hcases with ⟨hdash, hnone, -, -⟩ | ⟨-, htext, f, hf⟩
      · exact absurd ⟨hdash, hnone⟩ hp
      · exact ⟨htext, source, e, f, hcompiles, hf⟩
  · rw [(hhost.check_run hi hrun).1, ← Host.isSome_typeLine?_iff]
    cases (host.typeLine? s p).isSome <;> simp

end Invocations

/-- The program `True` is right, but there is no directory for the output, so the build fails and
leaves all files as they were. -/
theorem failed_run_changes_nothing_missing_directory :
    (FileSystem.host ByteArray.empty "").Atomic FileSystem.content? ∧
    ∃ out fs', (Invocation.run (FileSystem.host ByteArray.empty "")
        ⟨.build ⟨"a.kes"⟩ (some ⟨"lib/a.js"⟩), false, false, .warn⟩).run
        (FileSystem.empty.addFile ⟨"a.kes"⟩ "True".toUTF8) = (out, fs') ∧
      out.status = 1 ∧ out.console.stdout = "" ∧
      fs'.content? = (FileSystem.empty.addFile ⟨"a.kes"⟩ "True".toUTF8).content? := by
  have hhost := FileSystem.host_atomic ByteArray.empty ""
  refine ⟨hhost, _, _, rfl, ?_⟩
  obtain ⟨hstatus, -, -, hfailed, -, -, -, hbuild⟩ :=
    failed_run_changes_nothing hhost
      ⟨.build ⟨"a.kes"⟩ (some ⟨"lib/a.js"⟩), false, false, .warn⟩
      (s := FileSystem.empty.addFile ⟨"a.kes"⟩ "True".toUTF8) rfl
  have hone := hstatus.resolve_left fun hzero => by
    obtain ⟨source, e, -, hwrite⟩ := (hbuild _ _ rfl).mp hzero
    have hw := (hwrite ⟨"lib/a.js"⟩ rfl).2
    rw [FileSystem.host_write] at hw
    obtain ⟨l, hl, -⟩ := FileSystem.write_eq_ok_iff.mp hw
    cases hl
  obtain ⟨hsame, htext⟩ := hfailed _ _ (.inr rfl) hone
  exact ⟨hone, htext, hsame⟩

end PolyLet

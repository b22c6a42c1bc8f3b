import PolyLet.Proofs.Command.Effects
import PolyLet.Proofs.Command.Locations
import PolyLet.Proofs.Parsing.Acceptance
import PolyLet.Proofs.Principality

/-!
# Builds and the files they read

A build refuses to write to the path of its source, but it compares paths as they are written. So
the source is safe from the default output, and from every given path that leads elsewhere or is
written the same. It is lost if another spelling of its path is given: what is written is a script,
and no script is a program.

## Main definitions

* `FileSystem.HoldsProgram fs p`: the file at the path holds a program without errors

## Main results

* `parse_program_ne`: a script is not a program
* `BuildOutcome.eq_put`: what a build does to the file that a given path leads to
* `build_keeps_source_iff`: when exactly a build leaves its source as it is
* `build_overwrites_source`: a source that is lost
-/

namespace PolyLet

variable {fs fs' : FileSystem} {input : Except FileError ByteArray} {p q : Path}
  {output : Option Path} {a? : Option Unit} {text : String} {l : Location}

/-! ## Scripts -/

theorem fromUTF8?_toUTF8 (s : String) : String.fromUTF8? s.toUTF8 = some s := by
  simp only [String.fromUTF8?, String.toUTF8_eq_toByteArray, dif_pos s.isValidUTF8]
  rfl

/-- A script begins with a quotation mark ... -/
theorem exists_toList_program (e : Expr) : ∃ cs, (JavaScript.program e).toList = '"' :: cs := by
  rw [JavaScript.program, String.toList_append, String.toList_append, String.toList_append,
    String.toList_join, JavaScript.preamble, List.map_cons, List.flatMap_cons, String.toList_append]
  exact ⟨_, rfl⟩

/-- ... and no token does, so **a script is not a program.** -/
theorem parse_program_ne (e e' : Expr) : parse (JavaScript.program e) ≠ .ok e' := by
  intro h
  obtain ⟨ts, hlex⟩ := exists_lex_of_parse h
  obtain ⟨cs, hcs⟩ := exists_toList_program e
  have hrun := lex_eq_ok_iff.mp hlex
  rw [hcs] at hrun
  generalize herrors : ([] : List LexError) = errors at hrun
  generalize htext : '"' :: cs = all at hrun
  cases hrun with
  | done hb => exact absurd (hb '"' (htext ▸ List.mem_cons_self)) (by decide)
  | @token start blanks c cs' ts errors hb hc run =>
    cases blanks with
    | cons b blanks =>
      obtain rfl : '"' = b := (List.cons.inj htext).1
      exact absurd (hb '"' List.mem_cons_self) (by decide)
    | nil =>
      obtain rfl : '"' = c := (List.cons.inj htext).1
      cases herrors

/-- What a build writes is not what it has read. -/
theorem toUTF8_program_ne {bytes : ByteArray} {e e' : Expr}
    (hb : String.fromUTF8? bytes = some text) (he : parse text = .ok e') :
    (JavaScript.program e).toUTF8 ≠ bytes := by
  rintro rfl
  rw [fromUTF8?_toUTF8, Option.some.injEq] at hb
  exact parse_program_ne e e' (hb ▸ he)

/-! ## Programs in files -/

/-- The path leads to a file that holds a program: a text that is parsed and has a type. -/
def FileSystem.HoldsProgram (fs : FileSystem) (p : Path) : Prop :=
  ∃ bytes text e σ, fs.read p = .ok bytes ∧ String.fromUTF8? bytes = some text ∧
    parse text = .ok e ∧ check e = .ok σ

theorem FileSystem.program?_eq_some_iff {source : Source} {e : Expr} (hp : p.text ≠ "-") :
    fs.program? input p = some (source, e) ↔
      ∃ bytes text σ, fs.read p = .ok bytes ∧ String.fromUTF8? bytes = some text ∧
        parse text = .ok e ∧ check e = .ok σ ∧ source = ⟨p.text, text, some p⟩ := by
  rw [program?, Host.program?_eq_some_iff]
  constructor
  · rintro ⟨hsource, hparse, σ, hcheck⟩
    rw [Host.source?, if_neg hp] at hsource
    obtain ⟨text, htext, rfl⟩ := Option.map_eq_some_iff.mp hsource
    obtain ⟨bytes, hread, htext⟩ := Option.bind_eq_some_iff.mp htext
    exact ⟨bytes, text, σ, toOption_eq_some_iff.mp hread, htext, hparse, hcheck, rfl⟩
  · rintro ⟨bytes, text, σ, hread, htext, hparse, hcheck, rfl⟩
    refine ⟨?_, hparse, σ, hcheck⟩
    rw [Host.source?, if_neg hp]
    refine Option.map_eq_some_iff.mpr ⟨text, ?_, rfl⟩
    exact Option.bind_eq_some_iff.mpr ⟨bytes, toOption_eq_some_iff.mpr hread, htext⟩

/-! ## What is overwritten -/

theorem Invocation.exists_buildOutcome {i : Invocation} (hi : i.command = .build p output)
    (fs : FileSystem) (input : Except FileError ByteArray) (time : String) :
    ∃ a? text, BuildOutcome (fs.program? input p) fs.write fs output a?
      ((i.run (FileSystem.host input time)).run fs).2 text := by
  obtain ⟨a?, fs', text, hout, hyields⟩ :=
    PolyLet.exists_buildOutcome fs input time i.reporting p output
  have hcommand : (runCommand (FileSystem.host input time) i.reporting i.command).Yields fs a? fs'
      text := by
    rw [hi]
    exact hyields
  obtain ⟨console, hrun, -⟩ := run_eq_of_yields hcommand
  rw [hrun]
  exact ⟨a?, text, hout⟩

/-- A program is written to the file that the output path leads to, unless the output path is
written like the path of the program. -/
theorem BuildOutcome.eq_put
    (h : BuildOutcome (fs.program? input p) fs.write fs (some q) a? fs' text) (hp : p.text ≠ "-")
    (hprogram : fs.HoldsProgram p) (hsame : p.sameAs q = false) (hl : fs.locate q = .ok l)
    (hn : fs.node? l ≠ some .directory) :
    ∃ e, fs' = fs.put l (.file (JavaScript.program e).toUTF8) := by
  obtain ⟨bytes, content, e, σ, hread, hcontent, hparse, hcheck⟩ := hprogram
  have hsome : fs.program? input p = some (⟨p.text, content, some p⟩, e) :=
    (FileSystem.program?_eq_some_iff hp).mpr
      ⟨bytes, content, σ, hread, hcontent, hparse, hcheck, rfl⟩
  have hwrite : fs.write q (JavaScript.program e).toUTF8 =
      .ok (fs.put l (.file (JavaScript.program e).toUTF8)) :=
    FileSystem.write_eq_ok_iff.mpr ⟨l, hl, hn, rfl⟩
  -- of all outcomes only the last one is possible
  cases h with
  | uncompiled h => rw [hsome] at h; cases h
  | printed h ht => cases ht
  | refused h ht hs =>
    rw [hsome] at h
    cases h
    cases ht
    rw [Option.any_some, hsame] at hs
    cases hs
  | unwritten h ht hs hw =>
    rw [hsome] at h
    cases h
    cases ht
    rw [hwrite] at hw
    cases hw
  | written h ht hs hw =>
    rw [hsome] at h
    cases h
    cases ht
    rw [hwrite] at hw
    exact ⟨e, (Except.ok.inj hw).symm⟩

/-- If the default output path leads to the source, then it is written like the path of the
source. -/
theorem FileSystem.sameAs_withExtension (hl : fs.locate p = .ok l)
    (hn : fs.node? l ≠ some .directory) (hl' : fs.locate (p.withExtension "js") = .ok l) :
    p.sameAs (p.withExtension "js") = true := by
  rw [withExtension_eq_self hl hn hl', Path.sameAs_self]

/-- **When a build leaves its source as it is.** The file that the source path leads to is
overwritten if and only if it holds a program, the output path leads to the same file, and the two
paths are written differently. Without an output path it is never overwritten. -/
theorem build_keeps_source_iff (i : Invocation) (hi : i.command = .build p output)
    (hp : p.text ≠ "-") (fs : FileSystem) (input : Except FileError ByteArray) (time : String)
    (hl : fs.locate p = .ok l) :
    ((i.run (FileSystem.host input time)).run fs).2.node? l = fs.node? l ↔
      ¬∃ q, output = some q ∧ fs.locate q = .ok l ∧ p.sameAs q = false ∧ fs.HoldsProgram p := by
  obtain ⟨a?, text, hout⟩ := i.exists_buildOutcome hi fs input time
  generalize ((i.run (FileSystem.host input time)).run fs).2 = fs' at hout ⊢
  constructor
  · rintro hkeep ⟨q, rfl, hq, hsame, hprogram⟩
    obtain ⟨bytes, content, e, σ, hread, hcontent, hparse, -⟩ := id hprogram
    obtain ⟨l', hl', hfile⟩ := FileSystem.read_eq_ok_iff.mp hread
    obtain rfl : l' = l := Except.ok.inj (hl'.symm.trans hl)
    obtain ⟨e', rfl⟩ := hout.eq_put hp hprogram hsame hq (by rw [hfile]; simp)
    -- the script is where the program was
    rw [FileSystem.node?_put, if_pos rfl, hfile, Option.some.injEq, Node.file.injEq] at hkeep
    exact toUTF8_program_ne hcontent hparse hkeep
  · intro hno
    cases hout with
    | uncompiled | printed | refused | unwritten => rfl
    | @written source e target _ h ht hs hw =>
      obtain ⟨l', hl', hn, rfl⟩ := FileSystem.write_eq_ok_iff.mp hw
      obtain ⟨bytes, content, σ, hread, hcontent, hparse, hcheck, rfl⟩ :=
        (FileSystem.program?_eq_some_iff hp).mp h
      rw [Option.any_some] at hs
      rw [FileSystem.node?_put, if_neg]
      rintro rfl
      -- the target leads to the source and is not written like it, so it was given
      cases output with
      | none =>
        obtain rfl : p.withExtension "js" = target := Option.some.inj ht
        rw [FileSystem.sameAs_withExtension hl hn hl'] at hs
        cases hs
      | some q =>
        obtain rfl : q = target := Option.some.inj ht
        exact hno ⟨q, rfl, hl', hs, bytes, content, e, σ, hread, hcontent, hparse, hcheck⟩

/-- The paths `./a.kes` and `.//./a.kes` are written the same apart from a needless slash and dot, so
the program stays. -/
theorem build_keeps_source_iff_needless_slash :
    (⟨"./a.kes"⟩ : Path).text ≠ "-" ∧
    (FileSystem.empty.addFile ⟨"a.kes"⟩ "True".toUTF8).locate ⟨"./a.kes"⟩ =
      .ok ["work", "a.kes"] ∧
    ((Invocation.run (FileSystem.host ByteArray.empty "")
      ⟨.build ⟨"./a.kes"⟩ (some ⟨".//./a.kes"⟩), false, false, .warn⟩).run
      (FileSystem.empty.addFile ⟨"a.kes"⟩ "True".toUTF8)).2.node? ["work", "a.kes"] =
      some (.file "True".toUTF8) := by
  have hp : (⟨"./a.kes"⟩ : Path).text ≠ "-" := by decide
  have hl : (FileSystem.empty.addFile ⟨"a.kes"⟩ "True".toUTF8).locate ⟨"./a.kes"⟩ =
      .ok ["work", "a.kes"] := rfl
  refine ⟨hp, hl, (build_keeps_source_iff _ rfl hp _ _ "" hl).mpr ?_⟩
  rintro ⟨q, heq, -, hsame, -⟩
  obtain rfl := Option.some.inj heq
  exact absurd hsame (by decide)

/-- The program `True` in a file. -/
theorem holdsProgram_true :
    (FileSystem.empty.addFile ⟨"a.kes"⟩ "True".toUTF8).HoldsProgram ⟨"a.kes"⟩ := by
  have hread : (FileSystem.empty.addFile ⟨"a.kes"⟩ "True".toUTF8).read ⟨"a.kes"⟩ =
      .ok "True".toUTF8 := FileSystem.read_eq_ok_iff.mpr ⟨["work", "a.kes"], rfl, rfl⟩
  have hlex : lex "True" = .ok [⟨.kwTrue, "True", ⟨0, 4⟩⟩, endToken 4] := by
    rw [lex_eq_ok_iff]
    exact @Lexes.token 0 [] 'T' _ _ _ nofun rfl (Lexes.done nofun)
  obtain ⟨e, hparse, he⟩ : ∃ e, parse "True" = .ok e ∧ e.unlocated = .bool {} true := by
    rw [parse_of_lex hlex]
    exact exists_parseTokens_iff.mpr (.atoms (.one (.boolTrue rfl)))
  obtain ⟨span, rfl⟩ : ∃ span, e = .bool span true := by
    cases e with
    | bool span b => exact ⟨span, by rw [(Expr.bool.inj he).2]⟩
    | _ => cases he
  have hcheck : check (.bool span true) = .ok (generalize builtinEnv .bool) :=
    check_eq_ok_iff.mpr ⟨∅, .bool, {}, infer_bool_eq_ok_iff.mpr ⟨rfl, rfl, rfl⟩, rfl⟩
  exact ⟨_, _, _, _, hread, fromUTF8?_toUTF8 "True", hparse, hcheck⟩

/-- With `./a.kes` as its output path, the build of `a.kes` overwrites the program. -/
theorem build_overwrites_source :
    (FileSystem.empty.addFile ⟨"a.kes"⟩ "True".toUTF8).locate ⟨"a.kes"⟩ = .ok ["work", "a.kes"] ∧
    (FileSystem.empty.addFile ⟨"a.kes"⟩ "True".toUTF8).node? ["work", "a.kes"] =
      some (.file "True".toUTF8) ∧
    ((Invocation.run (FileSystem.host ByteArray.empty "")
      ⟨.build ⟨"a.kes"⟩ (some ⟨"./a.kes"⟩), false, false, .warn⟩).run
      (FileSystem.empty.addFile ⟨"a.kes"⟩ "True".toUTF8)).2.node? ["work", "a.kes"] ≠
      some (.file "True".toUTF8) := by
  refine ⟨rfl, rfl, ?_⟩
  obtain ⟨a?, text, hout⟩ := Invocation.exists_buildOutcome
    (i := ⟨.build ⟨"a.kes"⟩ (some ⟨"./a.kes"⟩), false, false, .warn⟩) rfl
    (FileSystem.empty.addFile ⟨"a.kes"⟩ "True".toUTF8) ByteArray.empty ""
  obtain ⟨e, heq⟩ := hout.eq_put (by decide) holdsProgram_true (by decide)
    (l := ["work", "a.kes"]) rfl (fun h => by cases h)
  rw [heq, FileSystem.node?_put, if_pos rfl, ne_eq, Option.some.injEq, Node.file.injEq]
  intro hbytes
  have hscript : some (JavaScript.program e) = some "True" := by
    rw [← fromUTF8?_toUTF8, hbytes, fromUTF8?_toUTF8]
  -- a script begins with a quotation mark
  obtain ⟨cs, hcs⟩ := exists_toList_program e
  rw [Option.some.inj hscript] at hcs
  have hhead : some 'T' = some '"' := congrArg List.head? hcs
  exact absurd hhead (by decide)

end PolyLet

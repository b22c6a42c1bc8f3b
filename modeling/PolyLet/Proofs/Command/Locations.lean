import PolyLet.Command.FileSystem

/-!
# Paths and the locations they lead to

A path and its segments determine each other. The walk along the segments ends as the last segment
says: a name ends below the directory before it, two dots above it, and everything else stays in it.
So a path that leads to a file ends in no needless slash or dot, and writing to it changes the file
at its location and nothing else.

## Main results

* `Path.intercalate_segments`, `Path.segments_intercalate`: a path and its segments
* `FileSystem.walk_append`, `FileSystem.walk_singleton_eq_ok_iff`: the walk and its last step
* `FileSystem.write_eq_ok_iff`: when a content is written, and what is then changed
* `FileSystem.withExtension_eq_self`: a path with another extension leads to the same file only if
  it is the same path
-/

namespace PolyLet

/-! ## Segments -/

theorem splitAtSlashes_eq_splitOn (cs : List Char) : splitAtSlashes cs = cs.splitOn '/' := by
  induction cs with
  | nil => rfl
  | cons c cs ih =>
    rw [splitAtSlashes, List.splitOn_cons_eq_if_modifyHead, ih]
    by_cases hc : c = '/'
    · rw [if_pos hc, if_pos (beq_iff_eq.mpr hc)]
    · rw [if_neg hc, if_neg fun h => hc (beq_iff_eq.mp h)]
      cases hs : cs.splitOn '/' with
      | nil => exact absurd hs (List.splitOn_ne_nil _ _)
      | cons s ss => rfl

theorem not_mem_of_mem_splitAtSlashes {cs s : List Char} (h : s ∈ splitAtSlashes cs) :
    '/' ∉ s := by
  induction cs generalizing s with
  | nil =>
    obtain rfl := List.mem_singleton.mp h
    exact List.not_mem_nil
  | cons c cs ih =>
    rw [splitAtSlashes] at h
    split at h
    next =>
      rcases List.mem_cons.mp h with rfl | h
      · exact List.not_mem_nil
      · exact ih h
    next hc =>
      split at h
      next =>
        obtain rfl := List.mem_singleton.mp h
        simpa using Ne.symm hc
      next s' ss hs =>
        rcases List.mem_cons.mp h with rfl | h
        · have hs' : '/' ∉ s' := ih (hs ▸ List.mem_cons_self)
          exact List.not_mem_cons_of_ne_of_not_mem (Ne.symm hc) hs'
        · exact ih (hs ▸ List.mem_cons_of_mem _ h)

namespace Path

variable {p q : Path} {ss : List String} {s t : String}

/-- A path is the text of its segments. -/
theorem intercalate_segments (p : Path) : "/".intercalate p.segments = p.text := by
  rw [← String.toList_inj, String.toList_intercalate, segments, List.map_map]
  have hid : String.toList ∘ String.ofList = id := funext fun cs => String.toList_ofList
  rw [hid, List.map_id, splitAtSlashes_eq_splitOn]
  exact List.intercalate_splitOn '/'

theorem not_mem_of_mem_segments (h : s ∈ p.segments) : '/' ∉ s.toList := by
  obtain ⟨cs, hcs, rfl⟩ := List.mem_map.mp h
  rw [String.toList_ofList]
  exact not_mem_of_mem_splitAtSlashes hcs

theorem exists_segments_eq_concat (p : Path) : ∃ ss s, p.segments = ss ++ [s] := by
  have hne : p.segments ≠ [] := by
    rw [segments, splitAtSlashes_eq_splitOn]
    exact fun h => List.splitOn_ne_nil _ _ (List.map_eq_nil_iff.mp h)
  exact ⟨_, _, (List.dropLast_concat_getLast hne).symm⟩

/-- Texts without slashes are the segments of the path that is made of them. -/
theorem segments_intercalate (hne : ss ≠ []) (h : ∀ s ∈ ss, '/' ∉ s.toList) :
    (⟨"/".intercalate ss⟩ : Path).segments = ss := by
  have hsplit : ((['/'] : List Char).intercalate (ss.map String.toList)).splitOn '/' =
      ss.map String.toList := by
    refine List.splitOn_intercalate '/' (fun cs hcs => ?_) (by simpa using hne)
    obtain ⟨s, hs, rfl⟩ := List.mem_map.mp hcs
    exact h s hs
  have hid : String.ofList ∘ String.toList = id := funext fun s => String.ofList_toList
  rw [segments, String.toList_intercalate, splitAtSlashes_eq_splitOn]
  exact (congrArg (List.map String.ofList) hsplit).trans (by rw [List.map_map, hid, List.map_id])

/-- A path is absolute if nothing stands in front of its first slash. -/
theorem isAbsolute_iff : p.isAbsolute = true ↔ ∃ s ss, p.segments = "" :: s :: ss := by
  have hslash : ∀ s ∈ p.segments, '/' ∉ s.toList := fun s => not_mem_of_mem_segments
  rw [isAbsolute, decide_eq_true_iff, ← p.intercalate_segments]
  generalize p.segments = segments at hslash ⊢
  rcases segments with _ | ⟨s, _ | ⟨t, ss⟩⟩
  · simp
  · -- there is no slash at all
    refine iff_of_false (fun h => ?_) (by simp)
    rw [String.intercalate_singleton] at h
    exact hslash s List.mem_cons_self (List.mem_of_head? h)
  · have htext : ("/".intercalate (s :: t :: ss)).toList =
        s.toList ++ '/' :: ("/".intercalate (t :: ss)).toList := by
      rw [String.intercalate_cons_cons, String.toList_append, String.toList_append,
        List.append_assoc]
      rfl
    rw [htext]
    constructor
    · intro h
      cases hs : s.toList with
      | nil => exact ⟨t, ss, by rw [String.toList_eq_nil_iff.mp hs]⟩
      | cons c cs =>
        rw [hs] at h
        have hc : c = '/' := Option.some.inj h
        exact absurd (hs ▸ hc ▸ List.mem_cons_self) (hslash s List.mem_cons_self)
    · rintro ⟨t', ss', h⟩
      rw [(List.cons.inj h).1]
      rfl

/-- Whether a path is absolute does not depend on its last segment. -/
theorem isAbsolute_eq_of_concat (hp : p.segments = ss ++ [s]) (hq : q.segments = ss ++ [t]) :
    p.isAbsolute = q.isAbsolute := by
  rw [Bool.eq_iff_iff, isAbsolute_iff, isAbsolute_iff, hp, hq]
  rcases ss with _ | ⟨a, _ | ⟨b, ss⟩⟩ <;> simp

@[simp] theorem sameAs_self (p : Path) : p.sameAs p = true := by
  simp [sameAs]

/-! ### Other extensions -/

theorem not_mem_stem (h : '/' ∉ s.toList) : '/' ∉ (stem s).toList := by
  rw [stem]
  split
  next dot c cs heq =>
    intro hmem
    rw [String.toList_ofList, List.mem_reverse] at hmem
    have hsuffix : dot :: c :: cs <:+ s.toList.reverse := heq ▸ List.dropWhile_suffix _
    exact h (List.mem_reverse.mp (hsuffix.mem (List.mem_cons_of_mem _ hmem)))
  next => exact h

/-- What ends in an extension is the name of a file. -/
theorem leadsDown_append_extension (s : String) :
    isStay (s ++ "." ++ "js") = false ∧ s ++ "." ++ "js" ≠ ".." := by
  have hlast : (s ++ "." ++ "js").toList.getLast? = some 's' := by
    rw [String.toList_append]
    exact List.getLast?_append
  have hne : ∀ t : String, t.toList.getLast? ≠ some 's' → s ++ "." ++ "js" ≠ t := by
    rintro t ht rfl
    exact ht hlast
  refine ⟨?_, hne ".." (by decide)⟩
  rw [isStay, Bool.or_eq_false_iff]
  exact ⟨decide_eq_false (hne "" (by decide)), decide_eq_false (hne "." (by decide))⟩

theorem withExtension_of_segments (hp : p.segments = ss ++ [s]) (hs : isStay s = false)
    (extension : String) :
    p.withExtension extension = if s = ".." then p
      else if upToExtension s = ".." then ⟨"/".intercalate (ss ++ [".."])⟩
      else ⟨"/".intercalate (ss ++ [stem s ++ "." ++ extension])⟩ := by
  have hdrop : p.segments.reverse.dropWhile isStay = s :: ss.reverse := by
    rw [hp, List.reverse_append, List.reverse_singleton, List.singleton_append,
      List.dropWhile_cons_of_neg (by simp [hs])]
  rw [withExtension, hdrop]
  simp only [List.reverse_cons, List.reverse_reverse]

end Path

namespace FileSystem

variable {fs fs' : FileSystem} {l l' : Location} {ss : List String} {s : String} {p : Path}
  {content : ByteArray}

/-! ## Walks -/

theorem walk_append (fs : FileSystem) (l : Location) (ss ss' : List String) :
    fs.walk l (ss ++ ss') = fs.walk l ss >>= fun l' => fs.walk l' ss' := by
  induction ss generalizing l with
  | nil => rfl
  | cons s ss ih =>
    rw [List.cons_append, walk, walk]
    split
    next => rfl
    next => rfl
    next =>
      split
      next => exact ih l
      next =>
        split
        next => exact ih l.dropLast
        next =>
          split
          next => rfl
          next => exact ih (l ++ [s])

/-- A step starts from a directory. It stays there, goes up, or goes down to a name. -/
theorem walk_singleton_eq_ok_iff :
    fs.walk l [s] = .ok l' ↔ fs.node? l = some .directory ∧
      if Path.isStay s then l' = l else if s = ".." then l' = l.dropLast
      else s.utf8ByteSize ≤ maxNameSize ∧ l' = l ++ [s] := by
  rw [walk]
  cases hn : fs.node? l with
  | none => simp
  | some node =>
    cases node with
    | file content => simp
    | directory =>
      simp only [walk, true_and]
      split
      next => simp [eq_comm]
      next =>
        split
        next => simp [eq_comm]
        next =>
          split
          next h => simp [Nat.not_le.mpr h]
          next h => simp [Nat.not_lt.mp h, eq_comm]

/-- A name leads down. -/
theorem eq_append_of_walk (h : fs.walk l [s] = .ok l') (hs : Path.isStay s = false)
    (hup : s ≠ "..") : l' = l ++ [s] := by
  obtain ⟨-, hstep⟩ := walk_singleton_eq_ok_iff.mp h
  rw [if_neg (by simp [hs]), if_neg hup] at hstep
  exact hstep.2

theorem walk_concat_eq_ok_iff :
    fs.walk l (ss ++ [s]) = .ok l' ↔ ∃ l₁, fs.walk l ss = .ok l₁ ∧ fs.walk l₁ [s] = .ok l' := by
  rw [walk_append]
  cases fs.walk l ss with
  | error e => simp [bind, Except.bind]
  | ok l₁ => simp [bind, Except.bind]

theorem locate_eq_ok_iff :
    fs.locate p = .ok l ↔
      p.text.utf8ByteSize ≤ maxPathSize ∧ fs.walk (fs.start p) p.segments = .ok l := by
  rw [locate, follow]
  split
  next h => simp [Nat.not_le.mpr h]
  next h => simp [Nat.not_lt.mp h]

theorem exists_walk_of_locate (hl : fs.locate p = .ok l) (hp : p.segments = ss ++ [s]) :
    ∃ l₁, fs.walk (fs.start p) ss = .ok l₁ ∧ fs.walk l₁ [s] = .ok l := by
  obtain ⟨-, hwalk⟩ := locate_eq_ok_iff.mp hl
  rw [hp] at hwalk
  exact walk_concat_eq_ok_iff.mp hwalk

/-- A path that leads to no directory does not end in a needless slash or dot. -/
theorem isStay_eq_false_of_locate (hl : fs.locate p = .ok l) (hn : fs.node? l ≠ some .directory)
    (hp : p.segments = ss ++ [s]) : Path.isStay s = false := by
  obtain ⟨l₁, -, hstep⟩ := exists_walk_of_locate hl hp
  obtain ⟨hdir, hstep⟩ := walk_singleton_eq_ok_iff.mp hstep
  cases hs : Path.isStay s with
  | false => rfl
  | true =>
    -- the last step stayed in a directory
    rw [if_pos hs] at hstep
    exact absurd (hstep ▸ hdir) hn

/-! ## Reading and writing -/

theorem read_eq_ok_iff :
    fs.read p = .ok content ↔ ∃ l, fs.locate p = .ok l ∧ fs.node? l = some (.file content) := by
  rw [read]
  cases fs.locate p with
  | error e => simp [bind, Except.bind]
  | ok l =>
    simp only [bind, Except.bind, Except.ok.injEq, exists_eq_left']
    cases fs.node? l with
    | none => simp
    | some node => cases node <;> simp

theorem node?_put (fs : FileSystem) (l l' : Location) (node : Node) :
    (fs.put l node).node? l' = if l' = l then some node else fs.node? l' :=
  rfl

/-- **A content is written if the path leads to a place that is no directory,** and then the file
there is all that changes. A trailing slash leads to a directory only. -/
theorem write_eq_ok_iff :
    fs.write p content = .ok fs' ↔ ∃ l, fs.locate p = .ok l ∧ fs.node? l ≠ some .directory ∧
      fs.put l (.file content) = fs' := by
  rw [write]
  split
  next segments hseg =>
    have hp : p.segments = segments.reverse ++ [""] := by
      rw [← List.reverse_reverse p.segments, hseg, List.reverse_cons]
    refine iff_of_false ?_ ?_
    · simp only [bind, Except.bind]
      split <;> simp
    · rintro ⟨l, hl, hn, -⟩
      exact absurd (isStay_eq_false_of_locate hl hn hp) (by decide)
  next =>
    cases fs.locate p with
    | error e => simp [bind, Except.bind]
    | ok l =>
      simp only [bind, Except.bind, Except.ok.injEq, exists_eq_left']
      split
      next h => simp [h]
      next h =>
        have h : ¬fs.node? l = some .directory := h
        simp [h]

/-- Two paths that differ in their last segments share the walk up to it. -/
theorem exists_walk_of_locate_sibling {q : Path} {t : String} (hp : p.segments = ss ++ [s])
    (hq : q.segments = ss ++ [t]) (hl : fs.locate p = .ok l) (hl' : fs.locate q = .ok l') :
    ∃ l₁, fs.walk l₁ [s] = .ok l ∧ fs.walk l₁ [t] = .ok l' := by
  obtain ⟨l₁, hwalk, hstep⟩ := exists_walk_of_locate hl hp
  obtain ⟨l₂, hwalk', hstep'⟩ := exists_walk_of_locate hl' hq
  have hstart : fs.start q = fs.start p := by
    rw [start, start, Path.isAbsolute_eq_of_concat hp hq]
  rw [hstart] at hwalk'
  obtain rfl := Except.ok.inj (hwalk.symm.trans hwalk')
  exact ⟨l₁, hstep, hstep'⟩

/-- **A path with another extension leads to the same file only if it is the same path.** -/
theorem withExtension_eq_self (hl : fs.locate p = .ok l) (hn : fs.node? l ≠ some .directory)
    (hl' : fs.locate (p.withExtension "js") = .ok l) : p.withExtension "js" = p := by
  obtain ⟨ss, s, hp⟩ := p.exists_segments_eq_concat
  have hs : Path.isStay s = false := isStay_eq_false_of_locate hl hn hp
  have hslash : ∀ u ∈ ss ++ [s], '/' ∉ u.toList := fun u hu =>
    Path.not_mem_of_mem_segments (hp ▸ hu)
  have hsegments : ∀ t : String, '/' ∉ t.toList →
      (⟨"/".intercalate (ss ++ [t])⟩ : Path).segments = ss ++ [t] := by
    intro t ht
    refine Path.segments_intercalate (by simp) fun u hu => ?_
    rcases List.mem_append.mp hu with hu | hu
    · exact hslash u (List.mem_append_left _ hu)
    · exact List.mem_singleton.mp hu ▸ ht
  rw [Path.withExtension_of_segments hp hs] at hl' ⊢
  by_cases hup : s = ".."
  · rw [if_pos hup]
  rw [if_neg hup] at hl' ⊢
  by_cases hdots : Path.upToExtension s = ".."
  · -- one path leads down from a directory, and the other one up
    rw [if_pos hdots] at hl'
    obtain ⟨l₁, hstep, hstep'⟩ := exists_walk_of_locate_sibling hp (hsegments _ (by decide)) hl hl'
    obtain rfl := eq_append_of_walk hstep hs hup
    have hlen : (l₁ ++ [s]).length = l₁.dropLast.length :=
      congrArg List.length (walk_singleton_eq_ok_iff.mp hstep').2
    rw [List.length_append, List.length_dropLast, List.length_singleton] at hlen
    omega
  · -- both lead down, so their names are the same
    rw [if_neg hdots] at hl' ⊢
    have hname : '/' ∉ (Path.stem s ++ "." ++ "js").toList := by
      have hlast := hslash s (List.mem_append_right _ (List.mem_singleton_self s))
      have hstem := Path.not_mem_stem hlast
      simp [String.toList_append, hstem]
    obtain ⟨l₁, hstep, hstep'⟩ := exists_walk_of_locate_sibling hp (hsegments _ hname) hl hl'
    obtain ⟨hstay', hup'⟩ := Path.leadsDown_append_extension (Path.stem s)
    obtain rfl := eq_append_of_walk hstep hs hup
    have heq : s = Path.stem s ++ "." ++ "js" := by
      simpa using eq_append_of_walk hstep' hstay' hup'
    rw [← heq, ← hp, Path.intercalate_segments]

end FileSystem

end PolyLet

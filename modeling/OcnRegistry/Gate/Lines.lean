/-
  File:      OcnRegistry/Gate/Lines.lean
  Subject:   WHERE THE CHECK SAYS A KEY IS: `parseDiff` against git's rendering, with names and line
             numbers.

  A hunk header resets the line number, removed lines leave it, every other line counts. So a line
  is numbered as git numbers it -- unless git says between the removed and the added lines of a hunk
  that the old file had no newline at its end: that note is counted as a line. And a file is named
  as git names it, unless the name is in quotes or has a blank in it: then git adds a tab.

  * `hunkStart_header` -- the number of a header is read back;
  * `foldl_hunk`, `foldl_file`, `foldl_files` -- what the lines of plain files leave in the map;
  * `names_run` -- the names of the map, after any lines;
  * `diff_read_exactly` -- the map is the staged changes, each under its file's name and with its
    line's number, exactly when no file hides one; and then every key that is reported stands in the
    line it is reported for.
-/
import OcnRegistry.Gate.Leaks

namespace Ocn

namespace Gate

/-! ## 1. What is staged -/

/-- The texts at these line numbers, the blank ones left out. -/
def changesFrom : Nat → List Text → List Change
  | _, [] => []
  | n, text :: rest =>
      if trim text = [] then changesFrom (n + 1) rest else ⟨n, text⟩ :: changesFrom (n + 1) rest

/-- The added lines of a hunk, where the new file has them. -/
def Hunk.changes (hunk : Hunk) : List Change :=
  changesFrom hunk.newStart (hunk.added.map Subtype.val)

/-- **The staged changes**: each changed file with its added lines. -/
def staged (files : List StagedFile) : List (Text × List Change) :=
  (files.filter fun file => !file.hunks.isEmpty).map fun file =>
    (file.path, file.hunks.flatMap Hunk.changes)

/-- The note about the old file's end stands above added lines that are not all blank. -/
def Hunk.Shifted (hunk : Hunk) : Prop :=
  hunk.oldUnterminated = true ∧ ∃ line ∈ hunk.added, trim line.val ≠ []

/-- **The file hides nothing**: its name is written as it is, no added line looks like a name, and
    no note stands above an added line. -/
structure StagedFile.Clear (G : Git) (file : StagedFile) : Prop where
  plain : file.Plain G
  noBlank : ' ' ∉ file.path
  noNote : ∀ hunk ∈ file.hunks, ¬ hunk.Shifted

/-! ## 2. Numbers are read back -/

theorem parseInt_toDigits (n : Nat) : parseInt (Nat.toDigits 10 n) = n :=
  Nat.ofDigitChars_ten_toDigits

theorem isDigit_of_mem_toDigits {n : Nat} {c : Char} (h : c ∈ Nat.toDigits 10 n) :
    isDigit c = true := by
  have hc := Nat.isDigit_of_mem_toDigits (by decide) (by decide) h
  unfold Char.isDigit at hc
  unfold isDigit
  simp only [Bool.and_eq_true, decide_eq_true_eq, Char.le_def] at hc ⊢
  exact hc

/-- Digits end where no digit follows. -/
theorem takeWhile_toDigits {n : Nat} {c : Char} {rest : Text} (hc : isDigit c = false) :
    (Nat.toDigits 10 n ++ c :: rest).takeWhile isDigit = Nat.toDigits 10 n := by
  rw [List.takeWhile_append_of_pos fun c => isDigit_of_mem_toDigits, List.takeWhile_cons, hc]
  exact List.append_nil _

theorem dropWhile_toDigits {n : Nat} {c : Char} {rest : Text} (hc : isDigit c = false) :
    (Nat.toDigits 10 n ++ c :: rest).dropWhile isDigit = c :: rest := by
  rw [List.dropWhile_append_of_pos fun c => isDigit_of_mem_toDigits, List.dropWhile_cons, hc]
  rfl

/-- The header of a hunk. -/
def Hunk.header (hunk : Hunk) : Text :=
  "@@ -".toList ++ range hunk.oldStart hunk.removed.length ++ " +".toList ++
    range hunk.newStart hunk.added.length ++ " @@".toList ++
    if hunk.heading.val = [] then [] else ' ' :: hunk.heading.val

/-- What follows a range's length, if there is one. -/
def skipCount (text : Text) : Text :=
  match text with
  | ',' :: more => if more.takeWhile isDigit = [] then text else more.dropWhile isDigit
  | _ => text

theorem hunkStartHere_eq (rest : Text) : hunkStartHere ('@' :: '@' :: ' ' :: '-' :: rest) =
    match skipCount (rest.dropWhile isDigit) with
    | ' ' :: '+' :: more =>
        if rest.takeWhile isDigit = [] ∨ more.takeWhile isDigit = [] then none
        else some (parseInt (more.takeWhile isDigit))
    | _ => none := rfl

/-- A range that a blank follows: its start is read, and what follows it is found. -/
theorem range_read (start count : Nat) (rest : Text) :
    (range start count ++ ' ' :: rest).takeWhile isDigit = Nat.toDigits 10 start ∧
      skipCount ((range start count ++ ' ' :: rest).dropWhile isDigit) = ' ' :: rest := by
  unfold range
  by_cases hone : count = 1
  · rw [if_pos hone, List.append_nil]
    exact ⟨takeWhile_toDigits (by decide), by rw [dropWhile_toDigits (by decide)]; rfl⟩
  · rw [if_neg hone, List.append_assoc, List.cons_append]
    refine ⟨takeWhile_toDigits (by decide), ?_⟩
    rw [dropWhile_toDigits (by decide)]
    show (if (Nat.toDigits 10 count ++ ' ' :: rest).takeWhile isDigit = [] then _
      else (Nat.toDigits 10 count ++ ' ' :: rest).dropWhile isDigit) = ' ' :: rest
    rw [takeWhile_toDigits (by decide), if_neg Nat.toDigits_ne_nil, dropWhile_toDigits (by decide)]

theorem hunkStartHere_ranges (start count start' count' : Nat) (rest : Text) :
    hunkStartHere ('@' :: '@' :: ' ' :: '-' :: (range start count ++ ' ' :: '+' ::
      (range start' count' ++ ' ' :: rest))) = some start' := by
  obtain ⟨hread, hrest⟩ := range_read start count ('+' :: (range start' count' ++ ' ' :: rest))
  rw [hunkStartHere_eq, hrest, hread]
  show (if _ ∨ (range start' count' ++ ' ' :: rest).takeWhile isDigit = [] then none
    else some (parseInt ((range start' count' ++ ' ' :: rest).takeWhile isDigit))) = some start'
  rw [(range_read start' count' rest).1, parseInt_toDigits]
  exact if_neg (not_or.mpr ⟨Nat.toDigits_ne_nil, Nat.toDigits_ne_nil⟩)

theorem header_form (hunk : Hunk) : ∃ rest, hunk.header = '@' :: '@' :: ' ' :: '-' ::
    (range hunk.oldStart hunk.removed.length ++ ' ' :: '+' ::
      (range hunk.newStart hunk.added.length ++ ' ' :: rest)) := by
  refine ⟨"@@".toList ++ if hunk.heading.val = [] then [] else ' ' :: hunk.heading.val, ?_⟩
  unfold Hunk.header
  simp only [List.append_assoc]
  rfl

/-- **The number of a header is read back**, whatever stands behind it. -/
theorem hunkStart_header (hunk : Hunk) : hunkStart hunk.header = some hunk.newStart := by
  obtain ⟨rest, hform⟩ := header_form hunk
  rw [hform]
  unfold hunkStart
  show (_ :: _ : List Text).findSome? hunkStartHere = _
  rw [List.findSome?_cons, hunkStartHere_ranges]

/-! ## 3. What the lines of a hunk leave -/

/-- `get(file)?.push(change)`, for several changes. -/
def pushAll (fileChanges : List (Text × List Change)) (file : Text) (changes : List Change) :
    List (Text × List Change) :=
  fileChanges.map fun entry => if entry.1 = file then (entry.1, entry.2 ++ changes) else entry

/-- The added lines of a hunk, with the numbers `parseDiff` gives them. -/
def Hunk.read (hunk : Hunk) : List Change :=
  changesFrom (hunk.newStart + if hunk.oldUnterminated then 1 else 0)
    (hunk.added.map Subtype.val)

variable {s : Parse} {fileChanges : List (Text × List Change)} {name current : Text} {n : Nat}

theorem pushAll_nil : pushAll fileChanges name [] = fileChanges := by
  unfold pushAll
  simp

theorem pushAll_pushAll {changes more : List Change} :
    pushAll (pushAll fileChanges name changes) name more =
      pushAll fileChanges name (changes ++ more) := by
  unfold pushAll
  rw [List.map_map]
  refine List.map_congr_left fun entry _ => ?_
  by_cases h : entry.1 = name <;> simp [h]

/-- Changes of a file that has just got its entry. -/
theorem pushAll_last {changes more : List Change} (h : ∀ entry ∈ fileChanges, entry.1 ≠ name) :
    pushAll (fileChanges ++ [(name, changes)]) name more =
      fileChanges ++ [(name, changes ++ more)] := by
  unfold pushAll
  rw [List.map_append, List.map_singleton, if_pos rfl]
  refine congrArg (· ++ _) ?_
  exact (List.map_congr_left fun entry hentry => if_neg (h entry hentry)).trans
    (List.map_id' fileChanges)

theorem parseLine_header (hunk : Hunk) : parseLine ⟨fileChanges, current, n⟩ hunk.header =
    ⟨fileChanges, current, hunk.newStart⟩ := by
  obtain ⟨rest, hform⟩ := header_form hunk
  have hread := hunkStart_header hunk
  have hhunk : startsWith hunk.header "@@" = true := by rw [hform]; rfl
  have hname : startsWith hunk.header "+++ b/" = false := by rw [hform]; rfl
  unfold parseLine
  rw [hname, hhunk, hread]
  rfl

theorem foldl_removed (lines : List Line) :
    (lines.map fun line => '-' :: line.val).foldl parseLine s = s := by
  induction lines with
  | nil => rfl
  | cons line lines ih =>
      have hminus : parseLine s ('-' :: line.val) = s := by
        have h : startsWith ('-' :: line.val) "-" = true := by cases line.val <;> rfl
        unfold parseLine
        rw [h]
        rfl
      rw [List.map_cons, List.foldl_cons, hminus, ih]

theorem foldl_unterminated (here : Bool) :
    (unterminated here).foldl parseLine ⟨fileChanges, current, n⟩ =
      ⟨fileChanges, current, n + if here then 1 else 0⟩ := by
  cases here <;> rfl

/-- **Added lines** are recorded with consecutive numbers. -/
theorem foldl_added {lines : List Line} (hcurrent : current ≠ [])
    (h : ∀ line ∈ lines, startsWith line.val "++" = false) :
    (lines.map fun line => '+' :: line.val).foldl parseLine ⟨fileChanges, current, n⟩ =
      ⟨pushAll fileChanges current (changesFrom n (lines.map Subtype.val)), current,
        n + lines.length⟩ := by
  induction lines generalizing fileChanges n with
  | nil => simp [changesFrom, pushAll_nil]
  | cons line lines ih =>
      obtain ⟨hline, hlines⟩ := List.forall_mem_cons.mp h
      have hname : startsWith line.val "++ b/" = false :=
        Bool.eq_false_iff.mpr fun hname => Bool.false_ne_true
          (hline.symm.trans (startsWith_plus_of_name hname))
      rw [List.map_cons, List.foldl_cons, parseLine_plus, hname, hline, List.map_cons, changesFrom]
      by_cases hblank : trim line.val = []
      · simp only [hblank, if_pos, ne_eq, not_true_eq_false, and_false, if_false,
          Bool.false_eq_true]
        rw [ih hlines, List.length_cons]
        simp only [Parse.mk.injEq, true_and]
        omega
      · simp only [hblank, hcurrent, ne_eq, not_false_eq_true, and_self, if_true, if_false,
          Bool.false_eq_true]
        rw [ih hlines, List.length_cons]
        show Parse.mk (pushAll (pushAll fileChanges current [⟨n, line.val⟩]) current _) _ _ = _
        rw [pushAll_pushAll]
        simp only [Parse.mk.injEq, true_and, List.singleton_append]
        omega

/-- **The lines of a hunk** leave its added lines in the entry of the current file. -/
theorem foldl_hunk (fileChanges : List (Text × List Change)) (n : Nat) {hunk : Hunk}
    (hcurrent : current ≠ [])
    (h : ∀ line ∈ hunk.added, startsWith line.val "++" = false) :
    ∃ m, hunk.lines.foldl parseLine ⟨fileChanges, current, n⟩ =
      ⟨pushAll fileChanges current hunk.read, current, m⟩ := by
  have hlines : hunk.lines = hunk.header :: (hunk.removed.map fun line => '-' :: line.val) ++
      unterminated hunk.oldUnterminated ++ (hunk.added.map fun line => '+' :: line.val) ++
      unterminated hunk.newUnterminated := rfl
  rw [hlines, List.foldl_append, List.foldl_append, List.foldl_append, List.foldl_cons,
    parseLine_header, foldl_removed, foldl_unterminated hunk.oldUnterminated,
    foldl_added hcurrent h, foldl_unterminated]
  exact ⟨_, rfl⟩

/-- The hunks of a file, one after the other. -/
theorem foldl_hunks (fileChanges : List (Text × List Change)) (n : Nat) {hunks : List Hunk}
    (hcurrent : current ≠ [])
    (h : ∀ hunk ∈ hunks, ∀ line ∈ hunk.added, startsWith line.val "++" = false) :
    ∃ m, (hunks.flatMap Hunk.lines).foldl parseLine ⟨fileChanges, current, n⟩ =
      ⟨pushAll fileChanges current (hunks.flatMap Hunk.read), current, m⟩ := by
  induction hunks generalizing fileChanges n with
  | nil => exact ⟨n, by rw [List.flatMap_nil, List.flatMap_nil, pushAll_nil]; rfl⟩
  | cons hunk hunks ih =>
      obtain ⟨hhunk, hhunks⟩ := List.forall_mem_cons.mp h
      obtain ⟨m, hm⟩ := foldl_hunk fileChanges n hcurrent hhunk
      rw [List.flatMap_cons, List.foldl_append, hm, List.flatMap_cons, ← pushAll_pushAll]
      exact ih _ m hhunks

/-! ## 4. What a diff leaves -/

variable {G : Git} {file : StagedFile} {files : List StagedFile}

/-- The map for plain files: each changed file with its added lines, as they are read. -/
def readFiles (files : List StagedFile) : List (Text × List Change) :=
  (files.filter fun file => !file.hunks.isEmpty).map fun file =>
    (file.name, file.hunks.flatMap Hunk.read)

/-- Different paths are written differently, with the tab or without it. -/
theorem name_injective {file file' : StagedFile} (h : file.name = file'.name) :
    file.path = file'.path := by
  have hblank (file : StagedFile) : ' ' ∈ file.name ↔ ' ' ∈ "b/".toList ++ file.path := by
    unfold StagedFile.name
    by_cases h : ' ' ∈ "b/".toList ++ file.path <;> simp_all
  have hsame : ' ' ∈ "b/".toList ++ file.path ↔ ' ' ∈ "b/".toList ++ file'.path := by
    rw [← hblank, ← hblank, h]
  unfold StagedFile.name at h
  by_cases hb : ' ' ∈ "b/".toList ++ file.path
  · rw [if_pos hb, if_pos (hsame.mp hb)] at h
    exact List.append_cancel_right h
  · rw [if_neg hb, if_neg (mt hsame.mpr hb), List.append_nil, List.append_nil] at h
    exact h

theorem plusText_info (info : InfoLine) : plusText info.val = none := by
  obtain ⟨_, _, c, rest, rfl, hc⟩ := info
  show plusText (c :: rest) = none
  unfold plusText
  split
  · rename_i heq
    cases heq
    cases hc
  · rfl

/-- Lines that do not begin with a plus change nothing but the number. -/
theorem foldl_other (fileChanges : List (Text × List Change)) (current : Text) (n : Nat)
    {lines : List Text} (h : ∀ line ∈ lines, plusText line = none) :
    ∃ m, lines.foldl parseLine ⟨fileChanges, current, n⟩ = ⟨fileChanges, current, m⟩ := by
  induction lines generalizing n with
  | nil => exact ⟨n, rfl⟩
  | cons line lines ih =>
      obtain ⟨hline, hlines⟩ := List.forall_mem_cons.mp h
      obtain ⟨hcurrent, hchanges⟩ := parseLine_other (s := ⟨fileChanges, current, n⟩) hline
      have hstep : parseLine ⟨fileChanges, current, n⟩ line = ⟨fileChanges, current,
          (parseLine ⟨fileChanges, current, n⟩ line).currentLineNum⟩ := by
        generalize parseLine ⟨fileChanges, current, n⟩ line = s at hcurrent hchanges ⊢
        cases s
        cases hcurrent
        cases hchanges
        rfl
      rw [List.foldl_cons, hstep]
      exact ih _ hlines

theorem label_plain (h : file.Plain G) :
    "+++ ".toList ++ G.label file.path = '+' :: ("++ b/".toList ++ file.name) := by
  unfold Git.label Git.name StagedFile.name
  rw [h.unquoted, Option.getD_none]
  rfl

/-- The name of a plain file opens an entry for it. -/
theorem parseLine_name (h : file.Plain G) (hnew : ∀ entry ∈ fileChanges, entry.1 ≠ file.name) :
    parseLine ⟨fileChanges, current, n⟩ ("+++ ".toList ++ G.label file.path) =
      ⟨fileChanges ++ [(file.name, [])], file.name, n⟩ := by
  have hname : startsWith ("++ b/".toList ++ file.name) "++ b/" = true :=
    List.isPrefixOf_iff_prefix.mpr (List.prefix_append _ _)
  have hfile : hasFile fileChanges file.name = false :=
    List.any_eq_false.mpr fun entry hentry => by simpa using hnew entry hentry
  rw [label_plain h, parseLine_plus, if_pos hname]
  show (⟨if hasFile fileChanges file.name then _ else _, _, _⟩ : Parse) = _
  rw [hfile]
  rfl

/-- **The lines of a plain file** leave an entry with its added lines. -/
theorem foldl_file (current : Text) (n : Nat) (h : file.Plain G) (hhunks : file.hunks ≠ [])
    (hnew : ∀ entry ∈ fileChanges, entry.1 ≠ file.name) :
    ∃ m, (file.lines G).foldl parseLine ⟨fileChanges, current, n⟩ =
      ⟨fileChanges ++ [(file.name, file.hunks.flatMap Hunk.read)], file.name, m⟩ := by
  have hinfo : ∀ line ∈ file.info.map Subtype.val ++ ["--- ".toList ++ file.oldLabel.val],
      plusText line = none := by
    intro line hline
    rcases List.mem_append.mp hline with hline | hline
    · obtain ⟨info, _, rfl⟩ := List.mem_map.mp hline
      exact plusText_info info
    · rw [List.mem_singleton.mp hline]
      rfl
  have hplus : ∀ hunk ∈ file.hunks, ∀ line ∈ hunk.added, startsWith line.val "++" = false :=
    fun hunk hhunk line hline => h.noPlus _
      (List.mem_flatMap.mpr ⟨hunk, hhunk, List.mem_map_of_mem hline⟩)
  have hlines : file.lines G = (file.info.map Subtype.val ++
      ["--- ".toList ++ file.oldLabel.val]) ++ ("+++ ".toList ++ G.label file.path) ::
      file.hunks.flatMap Hunk.lines := by
    unfold StagedFile.lines StagedFile.header
    rw [List.isEmpty_eq_false_iff.mpr hhunks]
    simp
  obtain ⟨m, hm⟩ := foldl_other fileChanges current n hinfo
  obtain ⟨k, hk⟩ := foldl_hunks (fileChanges ++ [(file.name, [])]) m (name_ne_nil h) hplus
  rw [hlines, List.foldl_append, hm, List.foldl_cons, parseLine_name h hnew, hk,
    pushAll_last hnew, List.nil_append]
  exact ⟨k, rfl⟩

/-- **The diff of plain files.** -/
theorem foldl_files (fileChanges : List (Text × List Change)) (current : Text) (n : Nat)
    (h : ∀ file ∈ files, file.hunks ≠ [] → file.Plain G)
    (hdistinct : (files.map StagedFile.path).Nodup)
    (hnew : ∀ file ∈ files, ∀ entry ∈ fileChanges, entry.1 ≠ file.name) :
    ∃ last m, (files.flatMap fun file => file.lines G).foldl parseLine ⟨fileChanges, current, n⟩ =
      ⟨fileChanges ++ readFiles files, last, m⟩ := by
  induction files generalizing fileChanges current n with
  | nil =>
      refine ⟨current, n, ?_⟩
      rw [readFiles, List.filter_nil, List.map_nil, List.append_nil]
      rfl
  | cons file files ih =>
      obtain ⟨hfile, hfiles⟩ := List.forall_mem_cons.mp h
      obtain ⟨hnewFile, hnewFiles⟩ := List.forall_mem_cons.mp hnew
      obtain ⟨hfresh, hrest⟩ := List.nodup_cons.mp hdistinct
      rw [List.flatMap_cons, List.foldl_append]
      by_cases hhunks : file.hunks = []
      · have hother : ∀ line ∈ file.lines G, plusText line = none := by
          intro line hline
          unfold StagedFile.lines StagedFile.header at hline
          rw [hhunks] at hline
          simp only [List.isEmpty_nil, if_true, List.append_nil, List.flatMap_nil] at hline
          obtain ⟨info, _, rfl⟩ := List.mem_map.mp hline
          exact plusText_info info
        obtain ⟨m, hm⟩ := foldl_other fileChanges current n hother
        have hskip : readFiles (file :: files) = readFiles files := by
          unfold readFiles
          rw [List.filter_cons_of_neg (by simp [hhunks])]
        rw [hm, hskip]
        exact ih _ _ _ hfiles hrest hnewFiles
      · obtain ⟨m, hm⟩ := foldl_file current n (hfile hhunks) hhunks hnewFile
        have hread : readFiles (file :: files) =
            (file.name, file.hunks.flatMap Hunk.read) :: readFiles files := by
          unfold readFiles
          rw [List.filter_cons_of_pos (by simp [hhunks]), List.map_cons]
        rw [hm, hread, List.append_cons fileChanges _ (readFiles files)]
        refine ih _ _ _ hfiles hrest fun file' hfile' entry hentry => ?_
        rcases List.mem_append.mp hentry with hentry | hentry
        · exact hnewFiles file' hfile' entry hentry
        · rw [List.mem_singleton.mp hentry]
          intro hname
          refine hfresh ?_
          rw [name_injective hname]
          exact List.mem_map_of_mem hfile'

theorem lines_render (G : Git) (files : List StagedFile) :
    (render G files).splitOn '\n' = (files.flatMap fun file => file.lines G) ++ [[]] := by
  refine Fields.splitOn_unlines fun line hline => ?_
  obtain ⟨file, _, hmem⟩ := List.mem_flatMap.mp hline
  exact newline_not_mem_lines G file line hmem

theorem parseDiff_plain (h : ∀ file ∈ files, file.hunks ≠ [] → file.Plain G)
    (hdistinct : (files.map StagedFile.path).Nodup) :
    parseDiff (render G files) = readFiles files := by
  obtain ⟨last, m, hm⟩ := foldl_files [] [] 0 h hdistinct
    fun _ _ entry hentry => absurd hentry List.not_mem_nil
  unfold parseDiff
  rw [lines_render, List.foldl_append, hm, List.nil_append]
  rfl

/-! ## 5. The names of the map -/

/-- The texts in the form of a name. -/
def namesOf (texts : List Text) : List Text :=
  texts.filterMap fun text => if startsWith text "++ b/" then some (text.drop 5) else none

theorem namesOf_append (texts more : List Text) :
    namesOf (texts ++ more) = namesOf texts ++ namesOf more := List.filterMap_append

theorem namesOf_name (text : Text) : namesOf ["++ b/".toList ++ text] = [text] := by
  refine List.filterMap_cons_some (if_pos ?_)
  exact List.isPrefixOf_iff_prefix.mpr (List.prefix_append _ _)

/-- **The names of the map** are some of those that were read, in their order. -/
theorem names_run (lines : List Text) : ∃ more,
    (lines.foldl parseLine s).fileChanges.map Prod.fst = s.fileChanges.map Prod.fst ++ more ∧
      more.Sublist (namesOf (plusTexts lines)) := by
  induction lines generalizing s with
  | nil => exact ⟨[], (List.append_nil _).symm, List.Sublist.refl _⟩
  | cons line lines ih =>
      obtain ⟨more, hmore, hsub⟩ := ih (s := parseLine s line)
      rw [List.foldl_cons, hmore]
      cases hline : plusText line with
      | none =>
          have htexts : plusTexts (line :: lines) = plusTexts lines :=
            List.filterMap_cons_none hline
          rw [(parseLine_other hline).2, htexts]
          exact ⟨more, rfl, hsub⟩
      | some text =>
          have hplus : line = '+' :: text := by
            unfold plusText at hline
            split at hline
            · rw [Option.some.inj hline]
            · cases hline
          have htexts : plusTexts (line :: lines) = text :: plusTexts lines :=
            List.filterMap_cons_some hline
          have hpush (change : Change) : (pushChange s.fileChanges s.currentFile change).map
              Prod.fst = s.fileChanges.map Prod.fst := by
            unfold pushChange
            rw [List.map_map]
            refine List.map_congr_left fun entry _ => ?_
            show (if _ then _ else _ : Text × List Change).1 = entry.1
            split <;> rfl
          rw [htexts, hplus, parseLine_plus]
          cases hname : startsWith text "++ b/" with
          | true =>
              have hnames : namesOf (text :: plusTexts lines) =
                  text.drop 5 :: namesOf (plusTexts lines) :=
                List.filterMap_cons_some (if_pos hname)
              rw [if_pos rfl, hnames]
              dsimp only
              split
              · exact ⟨more, rfl, hsub.cons _⟩
              · rw [List.map_append, List.append_assoc]
                exact ⟨_, rfl, hsub.cons_cons _⟩
          | false =>
              have hnames : namesOf (text :: plusTexts lines) = namesOf (plusTexts lines) :=
                List.filterMap_cons_none (by rw [hname]; rfl)
              rw [if_neg Bool.false_ne_true, hnames]
              refine ⟨more, ?_, hsub⟩
              split
              · rfl
              · dsimp only
                split
                · rw [hpush]
                · rfl

/-- Git writes the name as it is. -/
def unquoted (G : Git) (file : StagedFile) : Bool := (G.quoted ("b/".toList ++ file.path)).isNone

/-- The names a file's lines write, if none of its added lines looks like one. -/
theorem namesOf_file (h : ∀ line ∈ file.added, startsWith line "++" = false) :
    namesOf (file.plusLines G) =
      if file.hunks.isEmpty = false ∧ G.quoted ("b/".toList ++ file.path) = none then [file.name]
      else [] := by
  have hadded : namesOf file.added = [] := by
    refine List.filterMap_eq_nil_iff.mpr fun line hline => if_neg fun hname => ?_
    exact Bool.false_ne_true ((h line hline).symm.trans (startsWith_plus_of_name hname))
  unfold StagedFile.plusLines
  cases hhunks : file.hunks.isEmpty with
  | true =>
      rw [if_pos rfl, List.nil_append, hadded]
      simp
  | false =>
      rw [if_neg Bool.false_ne_true, namesOf_append, hadded, List.append_nil]
      cases hquoted : G.quoted ("b/".toList ++ file.path) with
      | none =>
          have hlabel : "++ ".toList ++ G.label file.path = "++ b/".toList ++ file.name := by
            unfold Git.label Git.name StagedFile.name
            rw [hquoted, Option.getD_none]
            rfl
          rw [hlabel, namesOf_name, if_pos ⟨rfl, rfl⟩]
      | some q =>
          obtain ⟨rest, rfl⟩ := G.opens _ q hquoted
          have hlabel : startsWith ("++ ".toList ++ G.label file.path) "++ b/" = false := by
            unfold Git.label Git.name
            rw [hquoted, Option.getD_some]
            rfl
          rw [if_neg (by rintro ⟨_, ⟨⟩⟩)]
          exact List.filterMap_cons_none (by rw [hlabel]; rfl)

/-- The files with changes, of those whose names are written as they are. -/
theorem namesOf_files (h : ∀ file ∈ files, ∀ line ∈ file.added, startsWith line "++" = false) :
    namesOf (files.flatMap fun file => file.plusLines G) =
      ((files.filter fun file => !file.hunks.isEmpty).filter (unquoted G)).map
        StagedFile.name := by
  induction files with
  | nil => rfl
  | cons file files ih =>
      obtain ⟨hfile, hfiles⟩ := List.forall_mem_cons.mp h
      rw [List.flatMap_cons, namesOf_append, ih hfiles, namesOf_file hfile]
      by_cases hhunks : file.hunks.isEmpty = true
      · rw [List.filter_cons_of_neg (by simp [hhunks]), if_neg (by simp [hhunks])]
        rfl
      · rw [List.filter_cons_of_pos (by simp [hhunks])]
        by_cases hquoted : G.quoted ("b/".toList ++ file.path) = none
        · have hplain : unquoted G file = true := Option.isNone_iff_eq_none.mpr hquoted
          rw [List.filter_cons_of_pos hplain, List.map_cons,
            if_pos ⟨Bool.eq_false_iff.mpr hhunks, hquoted⟩]
          rfl
        · have hno : ¬ unquoted G file = true := fun h =>
            hquoted (Option.isNone_iff_eq_none.mp h)
          rw [List.filter_cons_of_neg hno, if_neg fun h => hquoted h.2]
          rfl

/-! ## 6. When the map is exact -/

theorem changesFrom_succ (n : Nat) (texts : List Text) : changesFrom (n + 1) texts =
    (changesFrom n texts).map fun change => { change with lineNum := change.lineNum + 1 } := by
  induction texts generalizing n with
  | nil => rfl
  | cons text texts ih =>
      rw [changesFrom, changesFrom]
      split
      · exact ih (n + 1)
      · rw [ih (n + 1), List.map_cons]

theorem changesFrom_eq_nil {texts : List Text} :
    changesFrom n texts = [] ↔ ∀ text ∈ texts, trim text = [] := by
  induction texts generalizing n with
  | nil => exact iff_of_true rfl fun _ h => absurd h List.not_mem_nil
  | cons text texts ih =>
      rw [changesFrom, List.forall_mem_cons]
      split
      · rename_i hblank
        rw [ih]
        exact (and_iff_right hblank).symm
      · rename_i hblank
        exact iff_of_false (List.cons_ne_nil _ _) fun h => hblank h.1

/-- **A recorded line** stands at the place its number says. -/
theorem mem_changesFrom {texts : List Text} {change : Change} : change ∈ changesFrom n texts ↔
    trim change.content ≠ [] ∧ ∃ i, texts[i]? = some change.content ∧ change.lineNum = n + i := by
  induction texts generalizing n with
  | nil => simp [changesFrom]
  | cons text texts ih =>
      have hsplit : (∃ i, (text :: texts)[i]? = some change.content ∧ change.lineNum = n + i) ↔
          (text = change.content ∧ change.lineNum = n) ∨
            ∃ i, texts[i]? = some change.content ∧ change.lineNum = n + 1 + i := by
        refine ⟨fun h => ?_, fun h => ?_⟩
        · obtain ⟨i, hi, hn⟩ := h
          cases i with
          | zero => exact .inl ⟨Option.some.inj hi, hn⟩
          | succ i => exact .inr ⟨i, hi, by omega⟩
        · rcases h with ⟨htext, hn⟩ | ⟨i, hi, hn⟩
          · exact ⟨0, congrArg some htext, hn⟩
          · exact ⟨i + 1, hi, by omega⟩
      rw [changesFrom, hsplit]
      split
      · rename_i hblank
        rw [ih]
        refine and_congr_right fun hchange => (or_iff_right fun h => hchange ?_).symm
        rw [← h.1]
        exact hblank
      · rename_i hblank
        rw [List.mem_cons, ih]
        refine ⟨fun h => ?_, fun h => ?_⟩
        · rcases h with rfl | ⟨hchange, h⟩
          · exact ⟨hblank, .inl ⟨rfl, rfl⟩⟩
          · exact ⟨hchange, .inr h⟩
        · obtain ⟨hchange, ⟨htext, hn⟩ | h⟩ := h
          · left
            cases change
            cases htext
            cases hn
            rfl
          · exact .inr ⟨hchange, h⟩

/-- The note moves the numbers of the lines below it. -/
theorem read_eq_changes_iff (hunk : Hunk) : hunk.read = hunk.changes ↔ ¬ hunk.Shifted := by
  unfold Hunk.read Hunk.changes Hunk.Shifted
  cases hunk.oldUnterminated with
  | false => exact iff_of_true rfl fun h => Bool.false_ne_true h.1
  | true =>
      rw [if_pos rfl, changesFrom_succ]
      have hblank : changesFrom hunk.newStart (hunk.added.map Subtype.val) = [] ↔
          ¬ ∃ line ∈ hunk.added, trim line.val ≠ [] := by
        rw [changesFrom_eq_nil]
        simp
      rw [and_iff_right rfl, ← hblank]
      cases changesFrom hunk.newStart (hunk.added.map Subtype.val) with
      | nil => exact iff_of_true rfl rfl
      | cons change rest =>
          refine iff_of_false (fun h => ?_) (List.cons_ne_nil _ _)
          have hnumber := congrArg Change.lineNum (List.cons.inj h).1
          exact absurd hnumber (Nat.succ_ne_self _)

theorem length_read (hunk : Hunk) : hunk.read.length = hunk.changes.length := by
  unfold Hunk.read Hunk.changes
  split
  · rw [changesFrom_succ, List.length_map]
  · rfl

theorem name_eq_path_iff : file.name = file.path ↔ ' ' ∉ file.path := by
  have hblank : ' ' ∈ "b/".toList ++ file.path ↔ ' ' ∈ file.path := by simp
  rw [← hblank]
  unfold StagedFile.name
  split
  · rename_i h
    exact iff_of_false (fun he => by simp at he) fun hno => hno h
  · rename_i h
    exact iff_of_true (List.append_nil _) h

/-- **For plain files**: what is read is what is staged if no name has a blank and no note stands
    above an added line. -/
theorem readFiles_eq_iff : readFiles files = staged files ↔ ∀ file ∈ files, file.hunks ≠ [] →
    ' ' ∉ file.path ∧ ∀ hunk ∈ file.hunks, ¬ hunk.Shifted := by
  unfold readFiles staged
  rw [List.map_inj_left]
  simp only [List.mem_filter, Prod.mk.injEq, and_imp, Bool.not_eq_true', List.isEmpty_eq_false_iff,
    name_eq_path_iff, ne_eq]
  refine forall_congr' fun file => forall_congr' fun _ => forall_congr' fun _ =>
    and_congr_right fun _ => ?_
  rw [Fields.flatMap_eq_iff fun hunk _ => length_read hunk]
  exact forall_congr' fun hunk => forall_congr' fun _ => read_eq_changes_iff hunk

/-- An added line that looks like a name is staged and not read. -/
theorem noPlus_of_exact (h : parseDiff (render G files) = staged files) :
    ∀ file ∈ files, ∀ line ∈ file.added, startsWith line "++" = false := by
  intro file hfile line hline
  refine Bool.eq_false_iff.mpr fun hplus => ?_
  have hnotBlank : trim line ≠ [] := by
    intro hblank
    have hmem : '+' ∈ line :=
      (List.isPrefixOf_iff_prefix.mp hplus).subset (by decide)
    exact absurd (isSpace_of_trim hblank '+' hmem) (by decide)
  obtain ⟨hunk, hhunk, hadded⟩ := List.mem_flatMap.mp hline
  obtain ⟨i, hi⟩ := List.mem_iff_getElem?.mp hadded
  have hentry : (file.path, file.hunks.flatMap Hunk.changes) ∈ staged files :=
    List.mem_map_of_mem (f := fun file : StagedFile =>
      (file.path, file.hunks.flatMap Hunk.changes)) (List.mem_filter.mpr ⟨hfile, by
        rw [List.isEmpty_eq_false_iff.mpr (List.ne_nil_of_mem hhunk)]
        rfl⟩)
  have hchange : (⟨hunk.newStart + i, line⟩ : Change) ∈ file.hunks.flatMap Hunk.changes :=
    List.mem_flatMap.mpr ⟨hunk, hhunk, mem_changesFrom.mpr ⟨hnotBlank, i, hi, rfl⟩⟩
  have hrecorded : Recorded (parseDiff (render G files)) file.path line := by
    rw [h]
    exact ⟨_, hentry, _, hchange, rfl⟩
  have hread := (recorded_render G files).mp hrecorded
  exact Bool.false_ne_true (hread.1.noPlus.symm.trans hplus)

/-- A name in quotes is not read, so its file has no entry. -/
theorem unquoted_of_exact (h : parseDiff (render G files) = staged files)
    (hfile : file ∈ files) (hhunks : file.hunks ≠ []) :
    G.quoted ("b/".toList ++ file.path) = none := by
  obtain ⟨more, hmore, hsub⟩ := names_run (s := ⟨[], [], 0⟩) ((render G files).splitOn '\n')
  have hnames : (staged files).map Prod.fst = more := by
    rw [← h]
    exact hmore
  have htexts : plusTexts ((render G files).splitOn '\n') =
      files.flatMap fun file => file.plusLines G := by
    rw [lines_render, plusTexts_append, show plusTexts [[]] = [] from rfl, List.append_nil]
    unfold plusTexts
    rw [List.filterMap_flatMap]
    exact List.flatMap_congr fun file _ => plusTexts_lines G file
  rw [htexts, namesOf_files (noPlus_of_exact h), ← hnames] at hsub
  have hlength := hsub.length_le
  unfold staged at hlength
  rw [List.length_map, List.length_map, List.length_map] at hlength
  have hall := List.filter_eq_self.mp
    (List.filter_sublist.eq_of_length (Nat.le_antisymm List.filter_sublist.length_le hlength))
  refine Option.isNone_iff_eq_none.mp (hall file (List.mem_filter.mpr ⟨hfile, ?_⟩))
  rw [List.isEmpty_eq_false_iff.mpr hhunks]
  rfl

/-- **When the map is exact**: when the changed files are clear. -/
theorem parseDiff_eq_staged_iff (hnamed : ∀ file ∈ files, file.path ≠ [])
    (hdistinct : (files.map StagedFile.path).Nodup) :
    parseDiff (render G files) = staged files ↔
      ∀ file ∈ files, file.hunks ≠ [] → file.Clear G := by
  refine ⟨fun h => ?_, fun h => ?_⟩
  · have hplain : ∀ file ∈ files, file.hunks ≠ [] → file.Plain G := fun file hfile hhunks =>
      ⟨hnamed file hfile, unquoted_of_exact h hfile hhunks, noPlus_of_exact h file hfile⟩
    rw [parseDiff_plain hplain hdistinct, readFiles_eq_iff] at h
    exact fun file hfile hhunks =>
      ⟨hplain file hfile hhunks, (h file hfile hhunks).1, (h file hfile hhunks).2⟩
  · rw [parseDiff_plain (fun file hfile hhunks => (h file hfile hhunks).plain) hdistinct,
      readFiles_eq_iff]
    exact fun file hfile hhunks => ⟨(h file hfile hhunks).noBlank, (h file hfile hhunks).noNote⟩

/-! ## 7. Where a key is reported -/

/-- All keys `main` prints. -/
def Outcome.keys : Outcome → List FoundKey
  | .noChanges => []
  | .realKeys test real => test ++ real
  | .envFiles test _ => test
  | .noKeys test => test
  | .failed test _ => test

/-- The key is a token of a recorded line, of its file and with its number. -/
def FoundIn (fileChanges : List (Text × List Change)) (key : FoundKey) : Prop :=
  ∃ entry ∈ fileChanges, entry.1 = key.file ∧ ∃ change ∈ entry.2, change.lineNum = key.line ∧
    key.key ∈ extractTokens change.content

/-- **The search** finds keys only where they are. -/
theorem foundIn_search (E : Ethers) (fileChanges : List (Text × List Change)) :
    ∀ key ∈ (fileChanges.foldl (checkFile E) ⟨[], []⟩).foundKeys, FoundIn fileChanges key := by
  let Sound (s : Search) : Prop := ∀ key ∈ s.foundKeys, FoundIn fileChanges key
  have htoken (entry : Text × List Change) (hentry : entry ∈ fileChanges) (change : Change)
      (hchange : change ∈ entry.2) (s : Search) (hs : Sound s) (token : Text)
      (htoken : token ∈ extractTokens change.content) :
      Sound (checkToken E entry.1 change.lineNum s token) := by
    intro key hkey
    unfold checkToken at hkey
    dsimp only at hkey
    split_ifs at hkey
    · exact hs key hkey
    · exact hs key hkey
    · rcases List.mem_append.mp hkey with hkey | hkey
      · exact hs key hkey
      · rw [List.mem_singleton.mp hkey]
        exact ⟨entry, hentry, rfl, change, hchange, rfl, htoken⟩
    · exact hs key hkey
  have hchange (entry : Text × List Change) (hentry : entry ∈ fileChanges) (s : Search)
      (hs : Sound s) (change : Change) (hchange : change ∈ entry.2) :
      Sound (checkChange E entry.1 s change) := by
    unfold checkChange
    split
    · exact hs
    · exact List.foldlRecOn _ _ hs fun s hs token htok =>
        htoken entry hentry change hchange s hs token htok
  refine List.foldlRecOn (motive := Sound) _ _ (fun _ h => absurd h List.not_mem_nil)
    fun s hs entry hentry => ?_
  unfold checkFile
  split
  · exact hs
  · exact List.foldlRecOn _ _ hs fun s hs change hmem => hchange entry hentry s hs change hmem

theorem keys_main {E : Ethers} {gitDiff gitNames : Text} {key : FoundKey}
    (h : key ∈ (main E gitDiff gitNames).keys) :
    FoundIn (parseDiff (getStagedDiff gitDiff)) key := by
  refine foundIn_search E _ key ?_
  unfold main at h
  generalize getStagedDiff gitDiff = diff at h ⊢
  dsimp only at h
  generalize ((parseDiff diff).foldl (checkFile E) ⟨[], []⟩).foundKeys = found at h ⊢
  have htest {key : FoundKey} (h : key ∈ found.filter fun k => k.isTestKey) : key ∈ found :=
    List.mem_of_mem_filter h
  split at h
  · cases h
  · split at h
    · rcases List.mem_append.mp h with h | h
      · exact htest h
      · exact List.mem_of_mem_filter h
    · split at h
      · exact htest h
      · split at h
        · exact htest h
        · exact htest h

end Gate

/-- **The diff is read exactly**: for files with different names the map is the staged changes, each
    file under its name with its added lines and their numbers, exactly when every changed file is
    clear. And then every key that is printed stands in an added line of the file it is printed for,
    at the line it is printed with. -/
theorem diff_read_exactly (G : Gate.Git) {files : List Gate.StagedFile}
    (hnamed : ∀ file ∈ files, file.path ≠ []) (hdistinct : (files.map Gate.StagedFile.path).Nodup) :
    (Gate.parseDiff (Gate.render G files) = Gate.staged files ↔
      ∀ file ∈ files, file.hunks ≠ [] → file.Clear G) ∧
    ((∀ file ∈ files, file.hunks ≠ [] → file.Clear G) →
      ∀ (E : Gate.Ethers), ∀ key ∈ (Gate.check E G files).keys,
        ∃ file ∈ files, file.path = key.file ∧ ∃ hunk ∈ file.hunks, ∃ i line,
          hunk.added[i]? = some line ∧ key.line = hunk.newStart + i ∧
            key.key ∈ Gate.extractTokens line.val) := by
  have hexact := Gate.parseDiff_eq_staged_iff (G := G) hnamed hdistinct
  refine ⟨hexact, fun hclear E key hkey => ?_⟩
  have hfound := Gate.keys_main hkey
  unfold Gate.getStagedDiff Gate.execSync at hfound
  by_cases hfits : (Utf8.encode (String.ofList (Gate.render G files))).length ≤ Gate.maxBuffer
  · rw [if_pos hfits] at hfound
    dsimp only at hfound
    rw [hexact.mpr hclear] at hfound
    obtain ⟨entry, hentry, hname, change, hchange, hline, htoken⟩ := hfound
    obtain ⟨file, hfile, rfl⟩ := List.mem_map.mp hentry
    obtain ⟨hunk, hhunk, hread⟩ := List.mem_flatMap.mp hchange
    obtain ⟨_, i, hi, hnumber⟩ := Gate.mem_changesFrom.mp hread
    rw [List.getElem?_map, Option.map_eq_some_iff] at hi
    obtain ⟨line, hi, hcontent⟩ := hi
    refine ⟨file, (List.mem_filter.mp hfile).1, hname, hunk, hhunk, i, line, hi, ?_, ?_⟩
    · rw [← hline, hnumber]
    · rw [hcontent]
      exact htoken
  · rw [if_neg hfits] at hfound
    obtain ⟨entry, hentry, _⟩ := hfound
    cases hentry

namespace Sample

/-- Two lines put in below the last line of a file: a blank one, and one with a key. -/
def appended : Gate.StagedFile where
  path := "notes.txt".toList
  info := []
  oldLabel := ⟨"a/notes.txt".toList, by decide⟩
  hunks := [{
    oldStart := 12
    newStart := 13
    heading := ⟨[], List.not_mem_nil⟩
    removed := []
    added := [⟨[], List.not_mem_nil⟩, ⟨"key: ".toList ++ leakedKey '2', by decide⟩]
    oldUnterminated := false
    newUnterminated := true }]

end Sample

/-- The blank line is left out, the key is in line 14. -/
theorem diff_read_exactly_appended :
    Gate.parseDiff (Gate.render Sample.git [Sample.appended]) =
      [("notes.txt".toList, [⟨14, "key: ".toList ++ Sample.leakedKey '2'⟩])] := by
  have hclear : ∀ file ∈ [Sample.appended], file.hunks ≠ [] → file.Clear Sample.git := by
    intro file hfile _
    rw [List.mem_singleton.mp hfile]
    refine ⟨⟨by decide, by decide, by decide +kernel⟩, by decide, fun hunk hhunk hshifted => ?_⟩
    rw [List.mem_singleton.mp hhunk] at hshifted
    exact Bool.false_ne_true hshifted.1
  exact (diff_read_exactly Sample.git (by decide) (by decide)).1.mpr hclear

end Ocn

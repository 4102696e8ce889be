/-
  File:      OcnRegistry/Gate/Diff.lean
  Subject:   WHAT THE CHECK READS OF A DIFF: git's rendering of the staged files, and the lines
             `parseDiff` makes of it.

  In a diff without context a file's name and its added lines are the lines that begin with `+`, and
  `parseDiff` looks at nothing else to tell files and lines apart. So the name `b/notes.txt` and an
  added line `++ b/notes.txt` are written alike and read alike.

  * `plusTexts_lines` -- the lines of a file that begin with `+`;
  * `parseLine_plus`, `parseLine_other` -- what one line changes;
  * `recorded_run` -- after any lines, what is recorded is what `scanned` says;
  * `mem_scanned` -- a line is scanned under the last text before it in the form of a name;
  * `recorded_render` -- so it is for the diff of any files.
-/
import OcnRegistry.Gate.Script

namespace Ocn

namespace Gate

/-! ## 1. Staged files -/

abbrev Line := { text : Text // '\n' ∉ text }

/-- A line git writes about a file before its changes. All of them begin with a letter. -/
abbrev InfoLine := { text : Text // '\n' ∉ text ∧ ∃ c rest, text = c :: rest ∧ c.isAlpha = true }

/-- One change of a file: lines taken out, lines put in at their place. -/
structure Hunk where
  oldStart : Nat
  newStart : Nat
  heading : Line
  removed : List Line
  added : List Line
  oldUnterminated : Bool
  newUnterminated : Bool

structure StagedFile where
  path : Text
  info : List InfoLine
  oldLabel : Line
  hunks : List Hunk

def StagedFile.added (file : StagedFile) : List Text :=
  file.hunks.flatMap fun hunk => hunk.added.map Subtype.val

/-- **How git writes names**: some in double quotes, and then no end of a line is left in them. -/
structure Git where
  quoted : Text → Option Text
  opens : ∀ name q, quoted name = some q → ∃ rest, q = '"' :: rest
  oneLine : ∀ name q, quoted name = some q → '\n' ∉ q
  plain : ∀ name, quoted name = none → '\n' ∉ name

def Git.name (G : Git) (name : Text) : Text := (G.quoted name).getD name

/-- The name of a file in its header: a tab follows if there is a blank in it. -/
def Git.label (G : Git) (path : Text) : Text :=
  G.name ("b/".toList ++ path) ++ if ' ' ∈ G.name ("b/".toList ++ path) then ['\t'] else []

/-- Where a hunk starts, and its length, unless it is one. -/
def range (start count : Nat) : Text :=
  Nat.toDigits 10 start ++ if count = 1 then [] else ',' :: Nat.toDigits 10 count

def unterminated (here : Bool) : List Text :=
  if here then ["\\ No newline at end of file".toList] else []

def Hunk.lines (hunk : Hunk) : List Text :=
  ("@@ -".toList ++ range hunk.oldStart hunk.removed.length ++ " +".toList ++
      range hunk.newStart hunk.added.length ++ " @@".toList ++
      if hunk.heading.val = [] then [] else ' ' :: hunk.heading.val) ::
    (hunk.removed.map fun line => '-' :: line.val) ++ unterminated hunk.oldUnterminated ++
    (hunk.added.map fun line => '+' :: line.val) ++ unterminated hunk.newUnterminated

/-- Names are written above the first hunk. -/
def StagedFile.header (G : Git) (file : StagedFile) : List Text :=
  if file.hunks.isEmpty then []
  else ["--- ".toList ++ file.oldLabel.val, "+++ ".toList ++ G.label file.path]

def StagedFile.lines (G : Git) (file : StagedFile) : List Text :=
  file.info.map Subtype.val ++ file.header G ++ file.hunks.flatMap Hunk.lines

/-- **`git diff --cached --diff-filter=d -U0`** -/
def render (G : Git) (files : List StagedFile) : Text :=
  Fields.unlines '\n' (files.flatMap fun file => file.lines G)

/-- `git diff --cached --name-only --diff-filter=d` -/
def renderNames (G : Git) (files : List StagedFile) : Text :=
  Fields.unlines '\n' (files.map fun file => G.name file.path)

/-! ## 2. Lines that begin with a plus -/

def plusText (line : Text) : Option Text :=
  match line with
  | '+' :: text => some text
  | _ => none

/-- What follows the plus. -/
def plusTexts (lines : List Text) : List Text := lines.filterMap plusText

/-- **A file's lines that begin with a plus**: its name, written `++ b/…`, and the added lines. -/
def StagedFile.plusLines (G : Git) (file : StagedFile) : List Text :=
  (if file.hunks.isEmpty then [] else ["++ ".toList ++ G.label file.path]) ++ file.added

theorem plusTexts_append (lines more : List Text) :
    plusTexts (lines ++ more) = plusTexts lines ++ plusTexts more := List.filterMap_append

theorem plusTexts_of_none {lines : List Text} (h : ∀ line ∈ lines, plusText line = none) :
    plusTexts lines = [] := List.filterMap_eq_nil_iff.mpr h

theorem plusTexts_unterminated (here : Bool) : plusTexts (unterminated here) = [] := by
  cases here <;> rfl

theorem plusTexts_hunk (hunk : Hunk) :
    plusTexts hunk.lines = hunk.added.map Subtype.val := by
  have hremoved : plusTexts (hunk.removed.map fun line => '-' :: line.val) = [] := by
    refine plusTexts_of_none fun line hline => ?_
    obtain ⟨_, _, rfl⟩ := List.mem_map.mp hline
    rfl
  have hadded : plusTexts (hunk.added.map fun line => '+' :: line.val) =
      hunk.added.map Subtype.val := by
    unfold plusTexts
    rw [List.filterMap_map]
    exact congrFun (List.filterMap_eq_map (f := Subtype.val)) hunk.added
  unfold Hunk.lines
  rw [plusTexts_append, plusTexts_append, plusTexts_append, plusTexts_unterminated,
    plusTexts_unterminated, hadded, List.append_nil, List.append_nil]
  show plusTexts (hunk.removed.map fun line => '-' :: line.val) ++ _ = _
  rw [hremoved, List.nil_append]

/-- **The lines of a file that begin with a plus** are its name and its added lines. -/
theorem plusTexts_lines (G : Git) (file : StagedFile) :
    plusTexts (file.lines G) = file.plusLines G := by
  have hinfo : plusTexts (file.info.map Subtype.val) = [] := by
    refine plusTexts_of_none fun line hline => ?_
    obtain ⟨⟨_, _, c, rest, rfl, hc⟩, _, rfl⟩ := List.mem_map.mp hline
    show plusText (c :: rest) = none
    unfold plusText
    split
    · rename_i heq
      cases heq
      cases hc
    · rfl
  have hheader : plusTexts (file.header G) =
      if file.hunks.isEmpty then [] else ["++ ".toList ++ G.label file.path] := by
    unfold StagedFile.header
    split
    · rfl
    · rfl
  have hhunks : plusTexts (file.hunks.flatMap Hunk.lines) = file.added := by
    unfold StagedFile.added
    induction file.hunks with
    | nil => rfl
    | cons hunk hunks ih =>
        rw [List.flatMap_cons, List.flatMap_cons, plusTexts_append, plusTexts_hunk, ih]
  unfold StagedFile.lines StagedFile.plusLines
  rw [plusTexts_append, plusTexts_append, hinfo, hheader, hhunks, List.nil_append]

/-! ## 3. What one line changes -/

/-- The line was read as an added line of the file. -/
def Recorded (fileChanges : List (Text × List Change)) (file content : Text) : Prop :=
  ∃ changes, (file, changes) ∈ fileChanges ∧ ∃ change ∈ changes, change.content = content

/-- The current file has an entry, unless there is no current file. -/
def Parse.Open (s : Parse) : Prop :=
  s.currentFile ≠ [] → hasFile s.fileChanges s.currentFile = true

variable {s : Parse} {text file content : Text}

/-- **Lines that do not begin with a plus** change no file. -/
theorem parseLine_other {line : Text} (h : plusText line = none) :
    (parseLine s line).currentFile = s.currentFile ∧
      (parseLine s line).fileChanges = s.fileChanges := by
  have hstart : ∀ start : List Char, ('+' :: start).isPrefixOf line = false := by
    intro start
    cases line with
    | nil => rfl
    | cons c rest =>
        have hc : ('+' == c) = false := by
          refine beq_eq_false_iff_ne.mpr fun hc => ?_
          rw [← hc] at h
          cases h
        rw [List.isPrefixOf_cons_cons, hc, Bool.false_and]
  have hheader : startsWith line "+++ b/" = false := hstart _
  have hplus : startsWith line "+" = false := hstart _
  unfold parseLine
  rw [hheader, hplus]
  cases startsWith line "@@" with
  | true =>
      cases hunkStart line with
      | none => exact ⟨rfl, rfl⟩
      | some n => exact ⟨rfl, rfl⟩
  | false =>
      cases startsWith line "-" with
      | true => exact ⟨rfl, rfl⟩
      | false => exact ⟨rfl, rfl⟩

/-- **Lines that begin with a plus**: a name, nothing, or an added line. -/
theorem parseLine_plus :
    parseLine s ('+' :: text) =
      if startsWith text "++ b/" then
        { s with
          currentFile := text.drop 5
          fileChanges :=
            if hasFile s.fileChanges (text.drop 5) then s.fileChanges
            else s.fileChanges ++ [(text.drop 5, [])] }
      else if startsWith text "++" then { s with currentLineNum := s.currentLineNum + 1 }
      else { s with
        fileChanges :=
          if s.currentFile ≠ [] ∧ trim text ≠ [] then
            pushChange s.fileChanges s.currentFile ⟨s.currentLineNum, text⟩
          else s.fileChanges
        currentLineNum := s.currentLineNum + 1 } := by
  have hheader : startsWith ('+' :: text) "+++ b/" = startsWith text "++ b/" := rfl
  have hhunk : startsWith ('+' :: text) "@@" = false := rfl
  have hplus : startsWith ('+' :: text) "+" = true := by cases text <;> rfl
  have hhidden : startsWith ('+' :: text) "+++" = startsWith text "++" := rfl
  have hminus : startsWith ('+' :: text) "-" = false := rfl
  unfold parseLine
  rw [hheader, hhunk, hplus, hhidden, hminus]
  cases startsWith text "++ b/" with
  | true => rfl
  | false =>
      cases startsWith text "++" with
      | true => rfl
      | false => rfl

/-! ## 4. What is recorded -/

theorem recorded_append_nil {fileChanges : List (Text × List Change)} {new : Text} :
    Recorded (fileChanges ++ [(new, [])]) file content ↔ Recorded fileChanges file content := by
  refine ⟨?_, fun ⟨changes, hmem, h⟩ => ⟨changes, List.mem_append_left _ hmem, h⟩⟩
  rintro ⟨changes, hmem, change, hchange, hcontent⟩
  rcases List.mem_append.mp hmem with hmem | hnew
  · exact ⟨changes, hmem, change, hchange, hcontent⟩
  · obtain ⟨rfl, rfl⟩ := Prod.mk.inj (List.mem_singleton.mp hnew)
    cases hchange

/-- A change is recorded under the file, if the file has an entry. -/
theorem recorded_pushChange {fileChanges : List (Text × List Change)} {current : Text}
    (h : hasFile fileChanges current = true) {n : Nat} :
    Recorded (pushChange fileChanges current ⟨n, text⟩) file content ↔
      Recorded fileChanges file content ∨ (file, content) = (current, text) := by
  unfold pushChange
  refine ⟨?_, ?_⟩
  · rintro ⟨changes, hmem, change, hchange, hcontent⟩
    obtain ⟨⟨file', changes'⟩, hentry, heq⟩ := List.mem_map.mp hmem
    by_cases hcurrent : file' = current
    · rw [if_pos hcurrent] at heq
      obtain ⟨rfl, rfl⟩ := Prod.mk.inj heq
      rcases List.mem_append.mp hchange with hold | hnew
      · exact Or.inl ⟨changes', hentry, change, hold, hcontent⟩
      · rw [List.mem_singleton.mp hnew] at hcontent
        exact Or.inr (Prod.ext hcurrent hcontent.symm)
    · rw [if_neg hcurrent] at heq
      obtain ⟨rfl, rfl⟩ := Prod.mk.inj heq
      exact Or.inl ⟨changes', hentry, change, hchange, hcontent⟩
  · rintro (⟨changes, hmem, change, hchange, hcontent⟩ | heq)
    · by_cases hcurrent : file = current
      · refine ⟨changes ++ [⟨n, text⟩], List.mem_map.mpr ⟨(file, changes), hmem, ?_⟩, change,
          List.mem_append_left _ hchange, hcontent⟩
        rw [if_pos hcurrent]
      · refine ⟨changes, List.mem_map.mpr ⟨(file, changes), hmem, ?_⟩, change, hchange, hcontent⟩
        rw [if_neg hcurrent]
    · obtain ⟨rfl, rfl⟩ := Prod.mk.inj heq
      obtain ⟨⟨file', changes⟩, hmem, hfile⟩ := List.any_eq_true.mp h
      have hsame : file' = file := of_decide_eq_true hfile
      refine ⟨changes ++ [⟨n, content⟩], List.mem_map.mpr ⟨(file', changes), hmem, ?_⟩,
        ⟨n, content⟩, List.mem_append_right _ (List.mem_singleton_self _), rfl⟩
      rw [if_pos hsame, hsame]

theorem hasFile_pushChange {fileChanges : List (Text × List Change)} {current : Text}
    {change : Change} :
    hasFile (pushChange fileChanges current change) file = hasFile fileChanges file := by
  unfold hasFile pushChange
  rw [List.any_map]
  refine congrArg (fun p => fileChanges.any p) (funext fun entry => ?_)
  show decide ((if _ then _ else _ : Text × List Change).1 = file) = _
  split
  · rfl
  · rfl

/-- **The lines `main` looks at**, each with the file it is taken to be of. A text in the form of a
    name is one, whoever wrote it, and other texts that begin with `++` are passed over. -/
def scanned (current : Text) (texts : List Text) : List (Text × Text) :=
  match texts with
  | [] => []
  | text :: rest =>
      if startsWith text "++ b/" then scanned (text.drop 5) rest
      else if startsWith text "++" || current.isEmpty || (trim text).isEmpty then
        scanned current rest
      else (current, text) :: scanned current rest

/-- One line that begins with a plus, and what is scanned after it. -/
theorem recorded_plus (hs : s.Open) (rest : List Text) :
    (parseLine s ('+' :: text)).Open ∧
      (Recorded (parseLine s ('+' :: text)).fileChanges file content ∨
          (file, content) ∈ scanned (parseLine s ('+' :: text)).currentFile rest ↔
        Recorded s.fileChanges file content ∨
          (file, content) ∈ scanned s.currentFile (text :: rest)) := by
  rw [parseLine_plus, scanned]
  cases hheader : startsWith text "++ b/" with
  | true =>
      rw [if_pos rfl, if_pos rfl]
      dsimp only
      by_cases hfile : hasFile s.fileChanges (text.drop 5) = true
      · rw [if_pos hfile]
        exact ⟨fun _ => hfile, Iff.rfl⟩
      · rw [if_neg hfile, recorded_append_nil]
        refine ⟨fun _ => ?_, Iff.rfl⟩
        exact List.any_eq_true.mpr ⟨_, List.mem_append_right _ (List.mem_singleton_self _),
          decide_eq_true rfl⟩
  | false =>
      rw [if_neg Bool.false_ne_true, if_neg Bool.false_ne_true]
      cases hhidden : startsWith text "++" with
      | true =>
          rw [if_pos rfl, Bool.true_or, Bool.true_or, if_pos rfl]
          exact ⟨hs, Iff.rfl⟩
      | false =>
          rw [if_neg Bool.false_ne_true, Bool.false_or]
          by_cases hread : s.currentFile ≠ [] ∧ trim text ≠ []
          · have hopen := hs hread.1
            have hskip : (s.currentFile.isEmpty || (trim text).isEmpty) = false := by
              rw [Bool.or_eq_false_iff, List.isEmpty_eq_false_iff, List.isEmpty_eq_false_iff]
              exact hread
            rw [if_pos hread, hskip, if_neg Bool.false_ne_true]
            dsimp only
            refine ⟨fun _ => hasFile_pushChange.trans hopen, ?_⟩
            rw [recorded_pushChange hopen, List.mem_cons, or_assoc]
          · have hskip : (s.currentFile.isEmpty || (trim text).isEmpty) = true := by
              by_contra hno
              rw [Bool.not_eq_true, Bool.or_eq_false_iff, List.isEmpty_eq_false_iff,
                List.isEmpty_eq_false_iff] at hno
              exact hread hno
            rw [if_neg hread, hskip, if_pos rfl]
            exact ⟨hs, Iff.rfl⟩

/-- **What is recorded** after any lines. -/
theorem recorded_run (hs : s.Open) (lines : List Text) :
    Recorded (lines.foldl parseLine s).fileChanges file content ↔
      Recorded s.fileChanges file content ∨
        (file, content) ∈ scanned s.currentFile (plusTexts lines) := by
  induction lines generalizing s with
  | nil => exact (or_iff_left List.not_mem_nil).symm
  | cons line lines ih =>
      rw [List.foldl_cons]
      cases hline : plusText line with
      | none =>
          obtain ⟨hcurrent, hchanges⟩ := parseLine_other (s := s) hline
          have hopen : (parseLine s line).Open := by
            unfold Parse.Open
            rw [hcurrent, hchanges]
            exact hs
          have htexts : plusTexts (line :: lines) = plusTexts lines :=
            List.filterMap_cons_none hline
          rw [ih hopen, hcurrent, hchanges, htexts]
      | some text =>
          have hplus : line = '+' :: text := by
            unfold plusText at hline
            split at hline
            · rw [Option.some.inj hline]
            · cases hline
          have htexts : plusTexts (line :: lines) = text :: plusTexts lines :=
            List.filterMap_cons_some hline
          obtain ⟨hopen, hstep⟩ := recorded_plus hs (plusTexts lines)
          rw [htexts, hplus, ih hopen]
          exact hstep

/-! ## 5. Under which name a line is read -/

/-- The line comes before any text in the form of a name. -/
def Ahead (texts : List Text) (line : Text) : Prop :=
  ∃ between after, texts = between ++ line :: after ∧
    ∀ text ∈ between, startsWith text "++ b/" = false

/-- **The line stands under the name**: no other text in the form of a name is between them. -/
def Under (texts : List Text) (file line : Text) : Prop :=
  ∃ before rest, texts = before ++ ("++ b/".toList ++ file) :: rest ∧ Ahead rest line

/-- What is read at all: lines that do not begin with `++` and are not blank, of some file. -/
structure Read (file line : Text) : Prop where
  named : file ≠ []
  noPlus : startsWith line "++" = false
  notBlank : trim line ≠ []

variable {texts : List Text} {line current : Text}

theorem ahead_cons : Ahead (text :: texts) line ↔
    line = text ∨ (startsWith text "++ b/" = false ∧ Ahead texts line) := by
  refine ⟨?_, ?_⟩
  · rintro ⟨between, after, heq, hbetween⟩
    cases between with
    | nil => exact Or.inl (List.cons.inj heq).1.symm
    | cons first between =>
        obtain ⟨rfl, rfl⟩ := List.cons.inj heq
        obtain ⟨hfirst, hbetween⟩ := List.forall_mem_cons.mp hbetween
        exact Or.inr ⟨hfirst, between, after, rfl, hbetween⟩
  · rintro (rfl | ⟨htext, between, after, rfl, hbetween⟩)
    · exact ⟨[], texts, rfl, fun _ h => absurd h List.not_mem_nil⟩
    · exact ⟨text :: between, after, rfl, List.forall_mem_cons.mpr ⟨htext, hbetween⟩⟩

theorem under_cons : Under (text :: texts) file line ↔
    (text = "++ b/".toList ++ file ∧ Ahead texts line) ∨ Under texts file line := by
  refine ⟨?_, ?_⟩
  · rintro ⟨before, rest, heq, hahead⟩
    cases before with
    | nil =>
        obtain ⟨rfl, rfl⟩ := List.cons.inj heq
        exact Or.inl ⟨rfl, hahead⟩
    | cons first before =>
        obtain ⟨rfl, rfl⟩ := List.cons.inj heq
        exact Or.inr ⟨before, rest, rfl, hahead⟩
  · rintro (⟨rfl, hahead⟩ | ⟨before, rest, rfl, hahead⟩)
    · exact ⟨[], texts, rfl, hahead⟩
    · exact ⟨text :: before, rest, rfl, hahead⟩

theorem startsWith_name :
    startsWith text "++ b/" = true ↔ text = "++ b/".toList ++ text.drop 5 := by
  unfold startsWith
  rw [List.isPrefixOf_iff_prefix, List.prefix_iff_eq_append]
  exact eq_comm

theorem startsWith_plus_of_name (h : startsWith text "++ b/" = true) :
    startsWith text "++" = true := by
  refine List.isPrefixOf_iff_prefix.mpr ?_
  exact List.IsPrefix.trans (by decide) (List.isPrefixOf_iff_prefix.mp h)

/-- **The scanned lines**: those read under the current name, and those under a later one. -/
theorem mem_scanned : (file, line) ∈ scanned current texts ↔
    Read file line ∧ ((file = current ∧ Ahead texts line) ∨ Under texts file line) := by
  induction texts generalizing current with
  | nil =>
      refine iff_of_false List.not_mem_nil ?_
      rintro ⟨_, ⟨_, between, _, h, _⟩ | ⟨before, _, h, _⟩⟩
      · exact absurd h.symm (List.append_ne_nil_of_right_ne_nil between (List.cons_ne_nil _ _))
      · exact absurd h.symm (List.append_ne_nil_of_right_ne_nil before (List.cons_ne_nil _ _))
  | cons text texts ih =>
      rw [scanned, ahead_cons, under_cons]
      cases hname : startsWith text "++ b/" with
      | true =>
          have hfile : text = "++ b/".toList ++ file ↔ file = text.drop 5 := by
            refine ⟨fun h => ?_, fun h => ?_⟩
            · rw [h]
              rfl
            · rw [h]
              exact startsWith_name.mp hname
          rw [if_pos rfl, ih]
          refine and_congr_right fun hread => ?_
          have hno : ¬ (file = current ∧ (line = text ∨ true = false ∧ Ahead texts line)) := by
            rintro ⟨_, rfl | ⟨h, _⟩⟩
            · exact Bool.false_ne_true (hread.noPlus.symm.trans (startsWith_plus_of_name hname))
            · cases h
          rw [or_iff_right hno, hfile]
      | false =>
          have hno : ¬ (text = "++ b/".toList ++ file ∧ Ahead texts line) := by
            rintro ⟨h, _⟩
            rw [h] at hname
            cases hname
          rw [if_neg Bool.false_ne_true, or_iff_right hno, and_iff_right rfl]
          cases hskip : startsWith text "++" || current.isEmpty || (trim text).isEmpty with
          | true =>
              rw [if_pos rfl, ih]
              refine and_congr_right fun hread => or_congr_left (and_congr_right fun hfile => ?_)
              refine (or_iff_right fun hline => ?_).symm
              rw [← hline, ← hfile, hread.noPlus, List.isEmpty_eq_false_iff.mpr hread.named,
                List.isEmpty_eq_false_iff.mpr hread.notBlank] at hskip
              cases hskip
          | false =>
              rw [Bool.or_eq_false_iff, Bool.or_eq_false_iff, List.isEmpty_eq_false_iff,
                List.isEmpty_eq_false_iff] at hskip
              obtain ⟨⟨hplus, hcurrent⟩, hblank⟩ := hskip
              rw [if_neg Bool.false_ne_true, List.mem_cons, ih, Prod.mk.injEq]
              refine ⟨?_, ?_⟩
              · rintro (⟨rfl, rfl⟩ | ⟨hread, ⟨hfile, hahead⟩ | hunder⟩)
                · exact ⟨⟨hcurrent, hplus, hblank⟩, Or.inl ⟨rfl, Or.inl rfl⟩⟩
                · exact ⟨hread, Or.inl ⟨hfile, Or.inr hahead⟩⟩
                · exact ⟨hread, Or.inr hunder⟩
              · rintro ⟨hread, ⟨hfile, hline | hahead⟩ | hunder⟩
                · exact Or.inl ⟨hfile, hline⟩
                · exact Or.inr ⟨hread, Or.inl ⟨hfile, hahead⟩⟩
                · exact Or.inr ⟨hread, Or.inr hunder⟩

/-! ## 6. Rendered diffs -/

theorem newline_not_mem_toDigits (n : Nat) : '\n' ∉ Nat.toDigits 10 n := by
  intro h
  have hdigit := Nat.isDigit_of_mem_toDigits (by decide) (by decide) h
  exact absurd hdigit (by decide)

theorem newline_not_mem_range (start count : Nat) : '\n' ∉ range start count := by
  unfold range
  intro h
  rcases List.mem_append.mp h with h | h
  · exact newline_not_mem_toDigits start h
  · split at h
    · cases h
    · rcases List.mem_cons.mp h with h | h
      · cases h
      · exact newline_not_mem_toDigits count h

theorem newline_not_mem_name (G : Git) (name : Text) : '\n' ∉ G.name name := by
  unfold Git.name
  cases hquoted : G.quoted name with
  | none => exact G.plain name hquoted
  | some q => exact G.oneLine name q hquoted

theorem newline_not_mem_label (G : Git) (path : Text) : '\n' ∉ G.label path := by
  intro h
  rcases List.mem_append.mp h with h | h
  · exact newline_not_mem_name G _ h
  · split at h
    · exact absurd h (by decide)
    · cases h

theorem newline_not_mem_unterminated (here : Bool) :
    ∀ line ∈ unterminated here, '\n' ∉ line := by
  cases here <;> decide

theorem newline_not_mem_hunk (hunk : Hunk) : ∀ line ∈ hunk.lines, '\n' ∉ line := by
  have hmarked : ∀ {c : Char} {lines : List Line}, c ≠ '\n' →
      ∀ line ∈ lines.map (fun line => c :: line.val), '\n' ∉ line := by
    intro c lines hc line hline
    obtain ⟨text, _, rfl⟩ := List.mem_map.mp hline
    exact List.not_mem_cons_of_ne_of_not_mem hc.symm text.property
  intro line hline
  rcases List.mem_append.mp hline with hline | hline
  · rcases List.mem_append.mp hline with hline | hline
    · rcases List.mem_append.mp hline with hline | hline
      · rcases List.mem_cons.mp hline with rfl | hline
        · have hrange := newline_not_mem_range
          have hheading : '\n' ∉ if hunk.heading.val = [] then [] else ' ' :: hunk.heading.val := by
            split
            · exact List.not_mem_nil
            · exact List.not_mem_cons_of_ne_of_not_mem (by decide) hunk.heading.property
          simp only [List.mem_append, not_or]
          exact ⟨⟨⟨⟨⟨by decide, hrange _ _⟩, by decide⟩, hrange _ _⟩, by decide⟩, hheading⟩
        · exact hmarked (by decide) line hline
      · exact newline_not_mem_unterminated _ line hline
    · exact hmarked (by decide) line hline
  · exact newline_not_mem_unterminated _ line hline

/-- The lines of a diff hold no end of a line. -/
theorem newline_not_mem_lines (G : Git) (file : StagedFile) :
    ∀ line ∈ file.lines G, '\n' ∉ line := by
  intro line hline
  rcases List.mem_append.mp hline with hline | hline
  · rcases List.mem_append.mp hline with hline | hline
    · obtain ⟨info, _, rfl⟩ := List.mem_map.mp hline
      exact info.property.1
    · unfold StagedFile.header at hline
      split at hline
      · cases hline
      · have hold : '\n' ∉ "--- ".toList ++ file.oldLabel.val := by
          rw [List.mem_append, not_or]
          exact ⟨by decide, file.oldLabel.property⟩
        have hnew : '\n' ∉ "+++ ".toList ++ G.label file.path := by
          rw [List.mem_append, not_or]
          exact ⟨by decide, newline_not_mem_label G file.path⟩
        rcases List.mem_cons.mp hline with rfl | hline
        · exact hold
        · rw [List.mem_singleton.mp hline]
          exact hnew
  · obtain ⟨hunk, _, hmem⟩ := List.mem_flatMap.mp hline
    exact newline_not_mem_hunk hunk line hmem

/-- **What is recorded of a diff**: the lines that are read, each under the name it stands under. -/
theorem recorded_render (G : Git) (files : List StagedFile) :
    Recorded (parseDiff (render G files)) file content ↔
      Read file content ∧ Under (files.flatMap fun file => file.plusLines G) file content := by
  have hlines : ∀ line ∈ files.flatMap fun file => file.lines G, '\n' ∉ line := by
    intro line hline
    obtain ⟨file, _, hmem⟩ := List.mem_flatMap.mp hline
    exact newline_not_mem_lines G file line hmem
  have htexts : plusTexts (files.flatMap (fun file => file.lines G) ++ [[]]) =
      files.flatMap fun file => file.plusLines G := by
    rw [plusTexts_append, show plusTexts [[]] = [] from rfl, List.append_nil]
    unfold plusTexts
    rw [List.filterMap_flatMap]
    exact List.flatMap_congr fun file _ => plusTexts_lines G file
  have hopen : (⟨[], [], 0⟩ : Parse).Open := fun h => absurd rfl h
  have hnothing : ¬ Recorded [] file content := fun ⟨_, h, _⟩ => absurd h List.not_mem_nil
  unfold parseDiff render
  rw [Fields.splitOn_unlines hlines, recorded_run hopen, htexts, or_iff_right hnothing, mem_scanned]
  exact and_congr_right fun hread => or_iff_right fun h => hread.named h.1

end Gate

end Ocn

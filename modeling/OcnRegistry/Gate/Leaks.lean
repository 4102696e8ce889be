/-
  File:      OcnRegistry/Gate/Leaks.lean
  Subject:   WHAT GETS PAST THE CHECK: the keys in the staged files, and those that `main` reports.

  A key leaks with a line that is added to a file, if it stands there between characters that are
  no letters or digits. The check finds less: it passes over added lines that begin with `++`, takes
  some of them for names of files, misses names that git writes in quotes, finds no key beside
  other characters than its delimiters and one quote, and sees nothing of a diff above the limit of
  `execSync`.

  * `reported_render` -- which staged files `main` reports;
  * `nothing_leaks_of_plain` -- files for which a check that ends well can be relied on;
  * `keys_get_through` -- two keys that get past it;
  * `nothing_leaks_iff` -- when a check that reports nothing has let nothing through.
-/
import OcnRegistry.Gate.Keys

namespace Ocn

namespace Gate

/-! ## 1. Leaks -/

/-- The key stands in the line, with no letter or digit beside it. -/
def Holds (line key : Text) : Prop :=
  ∃ before after, line = before ++ key ++ after ∧
    Fields.Bounded (fun c => c.isAlphanum = false) before after

/-- **A real key is staged**: in an added line, not of a safe field, of a file outside the excluded
    paths. -/
def Leaks (files : List StagedFile) : Prop :=
  ∃ file ∈ files, isExcluded file.path = false ∧ ∃ line ∈ file.added,
    isSafeHashFieldLine line = false ∧ ∃ key, Holds line key ∧ RealKey key

/-- What `main` does with the files. -/
def check (E : Ethers) (G : Git) (files : List StagedFile) : Outcome :=
  main E (render G files) (renderNames G files)

/-- The diff is not longer than `execSync` lets it be. -/
def FitsBuffer (G : Git) (files : List StagedFile) : Prop :=
  (Utf8.encode (String.ofList (render G files))).length ≤ maxBuffer

/-- **A real key is caught**: isolated in a line that is read, not of a safe field, and under a name
    outside the excluded paths. -/
def Caught (G : Git) (files : List StagedFile) : Prop :=
  ∃ name line, Read name line ∧ Under (files.flatMap fun file => file.plusLines G) name line ∧
    isExcluded name = false ∧ isSafeHashFieldLine line = false ∧
    ∃ key, Isolated line key ∧ RealKey key

variable {G : Git} {files : List StagedFile}

/-- **Which staged files are reported.** -/
theorem reported_render (E : Ethers) (G : Git) (files : List StagedFile) :
    (check E G files).reported ≠ [] ↔ FitsBuffer G files ∧ Caught G files := by
  unfold check Caught
  rw [reported_main]
  simp only [Reportable, realToken_iff_isolated]
  by_cases hfits : FitsBuffer G files
  · have hdiff : getStagedDiff (render G files) = render G files := by
      unfold getStagedDiff
      rw [show execSync (render G files) = .ok (render G files) from if_pos hfits]
    rw [and_iff_right hfits, hdiff]
    simp only [recorded_render, and_assoc]
  · have hdiff : getStagedDiff (render G files) = [] := by
      unfold getStagedDiff
      rw [show execSync (render G files) = .error .ENOBUFS from if_neg hfits]
    refine iff_of_false ?_ fun h => hfits h.1
    rintro ⟨file, content, hrecorded, _⟩
    rw [hdiff] at hrecorded
    exact not_recorded_of_blank rfl hrecorded

/-! ## 2. Plain files -/

/-- No line of the file looks like a name or hides its file's name. -/
structure StagedFile.Plain (G : Git) (file : StagedFile) : Prop where
  named : file.path ≠ []
  unquoted : G.quoted ("b/".toList ++ file.path) = none
  noPlus : ∀ line ∈ file.added, startsWith line "++" = false

/-- The name of a plain file as `parseDiff` keeps it. -/
def StagedFile.name (file : StagedFile) : Text :=
  file.path ++ if ' ' ∈ "b/".toList ++ file.path then ['\t'] else []

theorem name_ne_nil {file : StagedFile} (h : file.Plain G) : file.name ≠ [] :=
  fun hnil => h.named (List.append_eq_nil_iff.mp hnil).1

/-- **The added lines of a plain file stand under its name**, whatever the other files are. -/
theorem under_name {file : StagedFile} (h : file.Plain G) (hfile : file ∈ files) {line : Text}
    (hline : line ∈ file.added) :
    Under (files.flatMap fun file => file.plusLines G) file.name line := by
  obtain ⟨before, after, rfl⟩ := List.append_of_mem hfile
  obtain ⟨above, below, hadded⟩ := List.append_of_mem hline
  have hhunks : file.hunks.isEmpty = false := by
    rw [List.isEmpty_eq_false_iff]
    intro hnil
    rw [StagedFile.added, hnil] at hline
    cases hline
  have hlabel : "++ ".toList ++ G.label file.path = "++ b/".toList ++ file.name := by
    unfold Git.label Git.name StagedFile.name
    rw [h.unquoted, Option.getD_none]
    rfl
  have hlines : file.plusLines G = ("++ b/".toList ++ file.name) :: (above ++ line :: below) := by
    unfold StagedFile.plusLines
    rw [hhunks, hlabel, hadded]
    rfl
  refine ⟨before.flatMap fun file => file.plusLines G,
    above ++ line :: (below ++ after.flatMap fun file => file.plusLines G), ?_, above, _, rfl, ?_⟩
  · rw [List.flatMap_append, List.flatMap_cons, hlines, List.cons_append, List.append_assoc,
      List.cons_append]
  · intro text htext
    have hplus : startsWith text "++" = false := by
      refine h.noPlus text ?_
      rw [hadded]
      exact List.mem_append_left _ htext
    rw [← Bool.not_eq_true] at hplus ⊢
    exact fun hname => hplus (startsWith_plus_of_name hname)

/-- The tab after a name excludes no file and lets none in. -/
theorem isExcluded_name (file : StagedFile) : isExcluded file.name = isExcluded file.path := by
  have htab : ∀ p ∈ excludedPaths, '\t' ∉ p.toList := by decide
  unfold StagedFile.name
  split
  · unfold isExcluded
    rw [Bool.eq_iff_iff, List.any_eq_true, List.any_eq_true]
    refine exists_congr fun p => and_congr_right fun hp => ?_
    unfold startsWith
    rw [List.isPrefixOf_iff_prefix, List.isPrefixOf_iff_prefix, List.prefix_concat_iff]
    refine or_iff_right fun hwhole => htab p hp ?_
    rw [hwhole]
    exact List.mem_append_right _ (List.mem_singleton_self _)
  · rw [List.append_nil]

/-- A check that ends well has reported nothing. -/
theorem reported_of_exitCode {o : Outcome} (h : o.exitCode = 0) : o.reported = [] := by
  cases o with
  | realKeys => cases h
  | _ => rfl

/-- **Plain files are safe to check**: if the diff fits, and every real key stands between quotes
    and delimiters, a check that ends well has let nothing through. -/
theorem nothing_leaks_of_plain (E : Ethers) (hplain : ∀ file ∈ files, file.Plain G)
    (hfits : FitsBuffer G files)
    (hisolated : ∀ file ∈ files, ∀ line ∈ file.added, ∀ key, Holds line key → RealKey key →
      Isolated line key) (h : (check E G files).exitCode = 0) : ¬ Leaks files := by
  rintro ⟨file, hfile, hexcluded, line, hline, hsafe, key, hholds, hreal⟩
  have hnotBlank : trim line ≠ [] := by
    intro htrim
    obtain ⟨before, after, rfl, _⟩ := hholds
    obtain ⟨c, hc⟩ := List.exists_mem_of_ne_nil key hreal.1.keyText.ne_nil
    have hspace := isSpace_of_trim htrim c (List.mem_append_left _ (List.mem_append_right _ hc))
    have hdelimiter := (keyCharFacts (hreal.1.keyText.chars c hc)).noDelimiter
    rw [isDelimiter, hspace, Bool.true_or] at hdelimiter
    cases hdelimiter
  refine (reported_render E G files).mpr ⟨hfits, file.name, line, ?_, ?_, ?_, hsafe, key,
    hisolated file hfile line hline key hholds hreal, hreal⟩ (reported_of_exitCode h)
  · exact ⟨name_ne_nil (hplain file hfile), (hplain file hfile).noPlus line hline, hnotBlank⟩
  · exact under_name (hplain file hfile) hfile hline
  · rw [isExcluded_name, hexcluded]

end Gate

/-! ## 3. Two keys that get through -/

namespace Sample

/-- Names with an end of a line are written in quotes, without it. -/
def git : Gate.Git where
  quoted := fun name => if '\n' ∈ name then some ('"' :: name.filter (· ≠ '\n') ++ ['"']) else none
  opens := by
    intro name q h
    split at h
    · exact ⟨_, (Option.some.inj h).symm⟩
    · cases h
  oneLine := by
    intro name q h hmem
    split at h
    · rw [← Option.some.inj h] at hmem
      simp at hmem
    · cases h
  plain := by
    intro name h
    split at h
    · cases h
    · assumption

def ethers : Gate.Ethers where
  wallet := fun key => match key with
    | '0' :: 'x' :: digits => Gate.IsScalar digits
    | _ => false
  wallet_iff := fun _ => decide_eq_true_iff

def leakedKey (digit : Char) : Gate.Text := '0' :: 'x' :: List.replicate 64 digit

/-- A new file of two lines. The one begins with `++`, the other ends with a full stop. -/
def notes : Gate.StagedFile where
  path := "notes.txt".toList
  info := []
  oldLabel := ⟨"/dev/null".toList, by decide⟩
  hunks := [{
    oldStart := 0
    newStart := 1
    heading := ⟨[], by decide⟩
    removed := []
    added := [
      ⟨"++ ".toList ++ leakedKey '1', by decide⟩,
      ⟨"key: ".toList ++ leakedKey '2' ++ ".".toList, by decide⟩]
    oldUnterminated := false
    newUnterminated := false }]

end Sample

namespace Gate

theorem realKey_leakedKey : RealKey (Sample.leakedKey '1') ∧ RealKey (Sample.leakedKey '2') := by
  refine ⟨⟨⟨List.replicate 64 '1', by decide +kernel, Or.inr rfl⟩, ?_, ?_⟩,
    ⟨⟨List.replicate 64 '2', by decide +kernel, Or.inr rfl⟩, ?_, ?_⟩⟩
  all_goals decide +kernel

/-- Both lines hold a real key, the one between a blank and the end, the other between a blank and
    a full stop. -/
theorem holds_leakedKey : ∀ line ∈ Sample.notes.added, ∃ key, Holds line key ∧ RealKey key := by
  have hbounded : ∀ before after : Text, before.getLast? = some ' ' → after = [] ∨ after = ['.'] →
      Fields.Bounded (fun c => c.isAlphanum = false) before after := by
    intro before after hbefore hafter
    refine ⟨fun c hc => ?_, fun c hc => ?_⟩
    · rw [← Option.some.inj (hbefore.symm.trans hc)]
      decide
    · rcases hafter with rfl | rfl
      · cases hc
      · rw [← Option.some.inj hc]
        decide
  refine List.forall_mem_cons.mpr ⟨?_, List.forall_mem_singleton.mpr ?_⟩
  · exact ⟨Sample.leakedKey '1', ⟨"++ ".toList, [], (List.append_nil _).symm,
      hbounded _ _ (by decide) (Or.inl rfl)⟩, realKey_leakedKey.1⟩
  · exact ⟨Sample.leakedKey '2', ⟨"key: ".toList, ['.'], by decide +kernel,
      hbounded _ _ (by decide) (Or.inr rfl)⟩, realKey_leakedKey.2⟩

/-- **Two keys get through**: one in a line that begins with `++`, one in front of a full stop. -/
theorem keys_get_through :
    Leaks [Sample.notes] ∧ (∀ line ∈ Sample.notes.added, ∃ key, Holds line key ∧ RealKey key) ∧
      (check Sample.ethers Sample.git [Sample.notes]).reported = [] := by
  refine ⟨?_, holds_leakedKey, ?_⟩
  · exact ⟨Sample.notes, List.mem_singleton_self _, by decide, _, List.mem_cons_self,
      by decide +kernel, holds_leakedKey _ List.mem_cons_self⟩
  · by_contra hreported
    obtain ⟨_, name, line, hread, hunder, _, _, hkey⟩ := (reported_render _ _ _).mp hreported
    have hscanned : (name, line) ∈ scanned [] ([Sample.notes].flatMap fun file =>
        file.plusLines Sample.git) := mem_scanned.mpr ⟨hread, Or.inr hunder⟩
    have hline : scanned [] ([Sample.notes].flatMap fun file => file.plusLines Sample.git) =
        [("notes.txt".toList, "key: ".toList ++ Sample.leakedKey '2' ++ ".".toList)] := by
      decide +kernel
    rw [hline, List.mem_singleton] at hscanned
    -- the full stop stays at the key, and no token is a key
    have hnone : ∀ token ∈ extractTokens ("key: ".toList ++ Sample.leakedKey '2' ++ ".".toList),
        isValidPrivateKey Sample.ethers token = false := by decide +kernel
    rw [(Prod.mk.inj hscanned).2] at hkey
    obtain ⟨token, hmem, hreal⟩ := realToken_iff_isolated (E := Sample.ethers).mpr hkey
    have hvalid := hreal.1
    rw [hnone token hmem] at hvalid
    cases hvalid

/-- **When nothing is let through**: a check that reports no real key has let none through, if and
    only if no key leaks, or the diff fits and a key is caught. -/
theorem nothing_leaks_iff (E : Ethers) (G : Git) (files : List StagedFile) :
    ((check E G files).reported = [] → ¬ Leaks files) ↔
      (Leaks files → FitsBuffer G files ∧ Caught G files) := by
  rw [← reported_render E G files]
  exact imp_not_comm

end Gate

end Ocn

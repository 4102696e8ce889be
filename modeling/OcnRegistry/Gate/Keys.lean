/-
  File:      OcnRegistry/Gate/Keys.lean
  Subject:   WHAT THE CHECK FINDS: which tokens are keys, and which lines of a diff it reports.

  A private key is 64 hexadecimal digits that write a scalar of the curve, with `0x` before them or
  not. The check takes a line apart at its delimiters and drops one quote at each end of a part, so
  it finds a key if delimiters stand around it, or one quote and then a delimiter.

  * `isValidPrivateKey_iff` -- the tokens that are taken for keys;
  * `realToken_iff_isolated` -- a line has a token that is a real key if it holds one so isolated;
  * `reported_main` -- `main` reports a key if a recorded line has such a token: looking at each
    token once loses none.
-/
import OcnRegistry.Gate.Diff

namespace Ocn

namespace Gate

/-! ## 1. Characters of keys -/

/-- A hexadecimal digit, or the x of `0x`. -/
def isKeyChar (c : Char) : Bool := isHexDigit c || c = 'x'

structure KeyCharFacts (c : Char) : Prop where
  noQuote : isQuote c = false
  noDelimiter : isDelimiter c = false
  oneUnit : Utf8.units c = 1
  lower : isKeyChar c.toLower = true
  lowerTwice : c.toLower.toLower = c.toLower

theorem toNat_lt_of_isKeyChar {c : Char} (h : isKeyChar c = true) : c.toNat < 128 := by
  have hle : ∀ {d : Char}, (c ≤ d) = (c.toNat ≤ d.toNat) := by
    intro d
    exact propext UInt32.le_iff_toNat_le
  simp only [isKeyChar, isHexDigit, isDigit, Bool.or_eq_true, Bool.and_eq_true,
    decide_eq_true_eq, hle] at h
  rcases h with ((h | h) | h) | rfl
  · exact Nat.lt_of_le_of_lt h.2 (by decide)
  · exact Nat.lt_of_le_of_lt h.2 (by decide)
  · exact Nat.lt_of_le_of_lt h.2 (by decide)
  · decide

theorem keyCharFacts {c : Char} (h : isKeyChar c = true) : KeyCharFacts c := by
  have hall := Utf8.forall_ascii (P := fun c => isKeyChar c = true → isQuote c = false ∧
      isDelimiter c = false ∧ Utf8.units c = 1 ∧ isKeyChar c.toLower = true ∧
      c.toLower.toLower = c.toLower) (by decide +kernel) (toNat_lt_of_isKeyChar h)
  obtain ⟨hquote, hdelimiter, hunits, hlower, htwice⟩ := hall h
  exact ⟨hquote, hdelimiter, hunits, hlower, htwice⟩

variable {key token line : Text} {digits : Text} {E : Ethers}

/-- The characters of the text are those of keys, and there are some. -/
structure KeyText (text : Text) : Prop where
  ne_nil : text ≠ []
  chars : ∀ c ∈ text, isKeyChar c = true

theorem KeyText.length (h : KeyText key) : length key = key.length := by
  have hunits : key.map Utf8.units = List.replicate key.length 1 := by
    refine List.eq_replicate_iff.mpr ⟨List.length_map _, fun n hn => ?_⟩
    obtain ⟨c, hc, rfl⟩ := List.mem_map.mp hn
    exact (keyCharFacts (h.chars c hc)).oneUnit
  unfold Gate.length
  rw [hunits, List.sum_replicate_nat, Nat.mul_one]

theorem KeyText.toLowerCase (h : KeyText key) : KeyText (toLowerCase key) := by
  refine ⟨fun hnil => h.ne_nil (List.map_eq_nil_iff.mp hnil), fun c hc => ?_⟩
  obtain ⟨d, hd, rfl⟩ := List.mem_map.mp hc
  exact (keyCharFacts (h.chars d hd)).lower

theorem KeyText.toLowerCase_twice (h : KeyText key) :
    Gate.toLowerCase (Gate.toLowerCase key) = Gate.toLowerCase key := by
  unfold Gate.toLowerCase
  rw [List.map_map]
  exact List.map_congr_left fun c hc => (keyCharFacts (h.chars c hc)).lowerTwice

theorem IsScalar.keyText (h : IsScalar digits) : KeyText digits := by
  obtain ⟨hlen, hhex, _⟩ := h
  refine ⟨fun hnil => ?_, fun c hc => ?_⟩
  · rw [hnil] at hlen
    cases hlen
  · unfold isKeyChar
    rw [List.all_eq_true.mp hhex c hc, Bool.true_or]

theorem KeyText.prefixed (h : KeyText digits) : KeyText ('0' :: 'x' :: digits) :=
  ⟨List.cons_ne_nil _ _,
    List.forall_mem_cons.mpr ⟨rfl, List.forall_mem_cons.mpr ⟨rfl, h.chars⟩⟩⟩

/-! ## 2. Cleaned tokens -/

/-- One character of the kind, or nothing. -/
def AtMostOne (p : Char → Bool) (text : Text) : Prop := text = [] ∨ ∃ c, p c = true ∧ text = [c]

def QuoteOrNothing (text : Text) : Prop := AtMostOne isQuote text

theorem exists_dropFirst (p : Char → Bool) (text : Text) :
    ∃ dropped, AtMostOne p dropped ∧ text = dropped ++ dropFirstIf p text := by
  cases text with
  | nil => exact ⟨[], Or.inl rfl, rfl⟩
  | cons c rest =>
      unfold dropFirstIf
      dsimp only
      split
      · rename_i hc
        exact ⟨[c], Or.inr ⟨c, hc, rfl⟩, rfl⟩
      · exact ⟨[], Or.inl rfl, rfl⟩

theorem exists_dropLast (p : Char → Bool) (text : Text) :
    ∃ dropped, AtMostOne p dropped ∧ text = dropLastIf p text ++ dropped := by
  rcases List.eq_nil_or_concat text with rfl | ⟨front, c, rfl⟩
  · exact ⟨[], Or.inl rfl, rfl⟩
  · unfold dropLastIf
    rw [List.concat_eq_append, List.getLast?_concat]
    dsimp only
    split
    · rename_i hc
      exact ⟨[c], Or.inr ⟨c, hc, rfl⟩, by rw [List.dropLast_concat]⟩
    · exact ⟨[], Or.inl rfl, (List.append_nil _).symm⟩

theorem dropLastIf_of_not {p : Char → Bool} {text : Text} (h : ∀ c ∈ text, p c = false) :
    dropLastIf p text = text := by
  obtain ⟨dropped, hdropped | ⟨c, hc, hdropped⟩, htext⟩ := exists_dropLast p text
  · rw [hdropped, List.append_nil] at htext
    exact htext.symm
  · have hmem : c ∈ text := by
      rw [htext, hdropped]
      exact List.mem_append_right _ (List.mem_singleton_self c)
    rw [h c hmem] at hc
    cases hc

/-- Commas and semicolons are delimiters. -/
theorem isMark_eq_false {c : Char} (h : isDelimiter c = false) : isMark c = false := by
  rw [← Bool.not_eq_true]
  intro hmark
  unfold isMark at hmark
  rw [Bool.or_eq_true, decide_eq_true_eq, decide_eq_true_eq] at hmark
  rcases hmark with rfl | rfl
  · exact absurd h (by decide)
  · exact absurd h (by decide)

/-- **What cleaning drops**: a quote at each end, and a comma or semicolon. -/
theorem exists_quotes_of_clean (h : ∀ c ∈ token, isDelimiter c = false) :
    ∃ opening closing, QuoteOrNothing opening ∧ QuoteOrNothing closing ∧
      token = opening ++ clean token ++ closing := by
  obtain ⟨opening, hopening, hfirst⟩ := exists_dropFirst isQuote token
  obtain ⟨closing, hclosing, hlast⟩ := exists_dropLast isQuote (dropFirstIf isQuote token)
  have hmarks : clean token = dropLastIf isQuote (dropFirstIf isQuote token) := by
    refine dropLastIf_of_not fun c hc => isMark_eq_false (h c ?_)
    rw [hfirst, hlast]
    exact List.mem_append_right _ (List.mem_append_left _ hc)
  refine ⟨opening, closing, hopening, hclosing, ?_⟩
  rw [hmarks, List.append_assoc, ← hlast, ← hfirst]

/-- A key between quotes is cleaned to the key. -/
theorem clean_quoted (hkey : KeyText key) {opening closing : Text}
    (hopening : QuoteOrNothing opening) (hclosing : QuoteOrNothing closing) :
    clean (opening ++ key ++ closing) = key := by
  have hfirst : dropFirstIf isQuote (opening ++ key ++ closing) = key ++ closing := by
    rcases hopening with rfl | ⟨c, hc, rfl⟩
    · cases hkey' : key with
      | nil => exact absurd hkey' hkey.ne_nil
      | cons d rest =>
          have hd := (keyCharFacts (hkey.chars d (by rw [hkey']; exact List.mem_cons_self))).noQuote
          show (if isQuote d = true then rest ++ closing else d :: (rest ++ closing)) = _
          rw [hd]
          rfl
    · show (if isQuote c = true then key ++ closing else _) = _
      rw [if_pos hc]
  have hnoQuote : ∀ c ∈ key, isQuote c = false :=
    fun c hc => (keyCharFacts (hkey.chars c hc)).noQuote
  have hlast : dropLastIf isQuote (key ++ closing) = key := by
    rcases hclosing with rfl | ⟨c, hc, rfl⟩
    · rw [List.append_nil]
      exact dropLastIf_of_not hnoQuote
    · unfold dropLastIf
      rw [List.getLast?_concat]
      dsimp only
      rw [if_pos hc, List.dropLast_concat]
  unfold clean
  rw [hfirst, hlast]
  exact dropLastIf_of_not fun c hc =>
    isMark_eq_false (keyCharFacts (hkey.chars c hc)).noDelimiter

/-! ## 3. Tokens that are keys -/

/-- **A private key**, with `0x` or without. -/
def IsPrivateKey (key : Text) : Prop :=
  ∃ digits, IsScalar digits ∧ (key = digits ∨ key = '0' :: 'x' :: digits)

theorem IsPrivateKey.keyText (h : IsPrivateKey key) : KeyText key := by
  obtain ⟨digits, hscalar, rfl | rfl⟩ := h
  · exact hscalar.keyText
  · exact hscalar.keyText.prefixed

theorem startsWith_0x : startsWith key "0x" = true ↔ ∃ rest, key = '0' :: 'x' :: rest := by
  unfold startsWith
  rw [List.isPrefixOf_iff_prefix]
  exact ⟨fun ⟨rest, h⟩ => ⟨rest, h.symm⟩, fun ⟨rest, h⟩ => ⟨rest, h.symm⟩⟩

/-- **The tokens that are taken for keys.** -/
theorem isValidPrivateKey_iff : isValidPrivateKey E token = true ↔ IsPrivateKey (clean token) := by
  unfold isValidPrivateKey
  generalize clean token = cleaned
  refine ⟨fun h => ?_, ?_⟩
  · dsimp only at h
    split_ifs at h with hlength hdigits hprefix hprefix
    · exact ⟨cleaned, (E.wallet_iff cleaned).mp h, Or.inl rfl⟩
    · rw [not_or, Classical.not_not] at hprefix
      obtain ⟨digits, rfl⟩ := startsWith_0x.mp hprefix.1
      exact ⟨digits, (E.wallet_iff digits).mp h, Or.inr rfl⟩
  · rintro ⟨digits, hscalar, hcleaned⟩
    have hwallet := (E.wallet_iff digits).mpr hscalar
    have hdigits := hscalar.keyText.length.trans hscalar.1
    have hprefixed : length ('0' :: 'x' :: digits) = 66 := by
      rw [hscalar.keyText.prefixed.length, List.length_cons, List.length_cons, hscalar.1]
    have hend : ¬ (¬ startsWith ('0' :: 'x' :: digits) "0x" = true ∨
        length ('0' :: 'x' :: digits) ≠ 66) := by
      rw [not_or, Classical.not_not, Classical.not_not]
      exact ⟨startsWith_0x.mpr ⟨digits, rfl⟩, hprefixed⟩
    rcases hcleaned with rfl | rfl
    · have hhex : length cleaned = 64 ∧ cleaned.all isHexDigit = true :=
        ⟨hdigits, hscalar.2.1⟩
      rw [if_neg (by rw [hdigits]; decide), if_pos hhex]
      exact (if_neg hend).trans hwallet
    · have hno : ¬ (length ('0' :: 'x' :: digits) = 64 ∧
          ('0' :: 'x' :: digits).all isHexDigit = true) := by
        rw [hprefixed]
        exact fun h => absurd h.1 (by decide)
      rw [if_neg (by rw [hprefixed]; decide), if_neg hno, if_neg hend, hwallet]

/-- **A real key**: none of the known ones. -/
def RealKey (key : Text) : Prop :=
  IsPrivateKey key ∧ has knownTestKeys (normalizeKey key) = false ∧
    has knownPlaceholderKeys (normalizeKey key) = false

/-- A token that is reported as a real key. -/
def RealToken (E : Ethers) (token : Text) : Prop :=
  isValidPrivateKey E token = true ∧ has knownTestKeys (normalizeKey token) = false ∧
    isKnownPlaceholderKey (normalizeKey token) = false

theorem clean_self (h : KeyText key) : clean key = key := by
  have hclean := clean_quoted h (Or.inl rfl) (Or.inl rfl)
  rwa [List.nil_append, List.append_nil] at hclean

/-- A normalized key is a lower-case key with `0x`. -/
theorem normalizeKey_spec (h : IsPrivateKey (clean token)) : KeyText (normalizeKey token) ∧
    toLowerCase (normalizeKey token) = normalizeKey token ∧
      startsWith (normalizeKey token) "0x" = true := by
  have hkey := h.keyText
  have hlower := hkey.toLowerCase
  unfold normalizeKey
  dsimp only
  split_ifs with hbare
  · refine ⟨hlower.prefixed, ?_, startsWith_0x.mpr ⟨_, rfl⟩⟩
    show '0' :: 'x' :: toLowerCase (toLowerCase (clean token)) = _
    rw [hkey.toLowerCase_twice]
    rfl
  · refine ⟨hlower, hkey.toLowerCase_twice, ?_⟩
    obtain ⟨digits, hscalar, hdigits | hdigits⟩ := h
    · by_contra hstart
      refine hbare ⟨hstart, ?_⟩
      rw [hlower.length, toLowerCase, List.length_map, hdigits]
      exact hscalar.1
    · rw [hdigits]
      exact startsWith_0x.mpr ⟨toLowerCase digits, rfl⟩

theorem normalizeKey_twice (h : IsPrivateKey (clean token)) :
    normalizeKey (normalizeKey token) = normalizeKey token := by
  obtain ⟨hkey, hlower, hstart⟩ := normalizeKey_spec h
  have hno : ¬ (¬ startsWith (normalizeKey token) "0x" = true ∧
      length (normalizeKey token) = 64) := fun h => h.1 hstart
  rw [normalizeKey, clean_self hkey, hlower, if_neg hno]

/-- Known keys are looked up normalized, so quotes and case do not matter. -/
theorem realToken_iff : RealToken E token ↔ RealKey (clean token) := by
  unfold RealToken RealKey isKnownPlaceholderKey
  rw [isValidPrivateKey_iff]
  refine and_congr_right fun h => ?_
  have hsame : normalizeKey (clean token) = normalizeKey token := by
    unfold normalizeKey
    rw [clean_self h.keyText]
  rw [normalizeKey_twice h, hsame]

theorem noDelimiter_of_isQuote {c : Char} (h : isQuote c = true) : isDelimiter c = false := by
  have hall : ("\"'`".toList.all fun d => !isDelimiter d) = true := by decide
  exact Bool.not_eq_true' _ ▸ List.all_eq_true.mp hall c (List.contains_iff_mem.mp h)

/-- **The key stands alone in the line**: quotes may stand at its ends, and then delimiters, or the
    ends of the line. -/
def Isolated (line key : Text) : Prop :=
  ∃ before opening closing after, line = before ++ (opening ++ key ++ closing) ++ after ∧
    QuoteOrNothing opening ∧ QuoteOrNothing closing ∧
    Fields.Bounded (fun c => isDelimiter c = true) before after

/-- **Which lines have a token that is a real key.** -/
theorem realToken_iff_isolated : (∃ token ∈ extractTokens line, RealToken E token) ↔
    ∃ key, Isolated line key ∧ RealKey key := by
  unfold extractTokens
  refine ⟨?_, ?_⟩
  · rintro ⟨token, hmem, hreal⟩
    obtain ⟨_, hfield, before, after, hline, hbounded⟩ := Fields.mem_fields.mp hmem
    obtain ⟨opening, closing, hopening, hclosing, htoken⟩ := exists_quotes_of_clean hfield
    refine ⟨clean token, ⟨before, opening, closing, after, ?_, hopening, hclosing, hbounded⟩,
      realToken_iff.mp hreal⟩
    rw [← htoken]
    exact hline
  · rintro ⟨key, ⟨before, opening, closing, after, hline, hopening, hclosing, hbounded⟩, hreal⟩
    have hkey := hreal.1.keyText
    have hquote : ∀ {text : Text}, QuoteOrNothing text → ∀ c ∈ text, isDelimiter c = false := by
      rintro text (rfl | ⟨d, hd, rfl⟩) c hc
      · cases hc
      · rw [List.mem_singleton.mp hc]
        exact noDelimiter_of_isQuote hd
    refine ⟨opening ++ key ++ closing,
      Fields.mem_fields.mpr ⟨?_, ?_, before, after, hline, hbounded⟩, ?_⟩
    · intro hnil
      exact hkey.ne_nil (List.append_eq_nil_iff.mp (List.append_eq_nil_iff.mp hnil).1).2
    · intro c hc
      rcases List.mem_append.mp hc with hc | hc
      · rcases List.mem_append.mp hc with hc | hc
        · exact hquote hopening c hc
        · exact (keyCharFacts (hkey.chars c hc)).noDelimiter
      · exact hquote hclosing c hc
    · rw [realToken_iff, clean_quoted hkey hopening hclosing]
      exact hreal

/-! ## 4. The loops of `main` -/

/-- A real key was found. -/
def Search.Reported (s : Search) : Prop := ∃ found ∈ s.foundKeys, found.isTestKey = false

/-- Tokens that are not looked at again have been reported, if there was something to report. -/
def Search.Sound (E : Ethers) (s : Search) : Prop :=
  ∀ token ∈ s.checkedTokens, RealToken E token → s.Reported

variable {s : Search} {file : Text}

theorem checkToken_collects (E : Ethers) (file : Text) (n : Nat) (s : Search) (token : Text)
    (hs : s.Sound E) : (checkToken E file n s token).Sound E ∧
      ((checkToken E file n s token).Reported ↔ s.Reported ∨ RealToken E token) := by
  have hnew : ∀ s' : Search, s'.checkedTokens = s.checkedTokens ++ [token] →
      (s'.Reported ↔ s.Reported ∨ RealToken E token) →
      s'.Sound E ∧ (s'.Reported ↔ s.Reported ∨ RealToken E token) := by
    intro s' hchecked hreported
    refine ⟨fun t ht hreal => hreported.mpr ?_, hreported⟩
    rw [hchecked] at ht
    rcases List.mem_append.mp ht with ht | ht
    · exact Or.inl (hs t ht hreal)
    · rw [List.mem_singleton.mp ht] at hreal
      exact Or.inr hreal
  unfold checkToken
  dsimp only
  split_ifs with hchecked hvalid hplaceholder
  · exact ⟨hs, (or_iff_left_of_imp (hs token hchecked)).symm⟩
  · refine hnew _ rfl (or_iff_left fun hreal => ?_).symm
    rw [hreal.2.2] at hplaceholder
    cases hplaceholder
  · refine hnew _ rfl ?_
    have hreal : RealToken E token ↔ has knownTestKeys (normalizeKey token) = false :=
      ⟨fun h => h.2.1, fun h => ⟨hvalid, h, eq_false_of_ne_true hplaceholder⟩⟩
    unfold Search.Reported
    simp only [hreal, List.mem_append, List.mem_singleton, or_and_right, exists_or, exists_eq_left]
  · exact hnew _ rfl (or_iff_left fun hreal => hvalid hreal.1).symm

theorem checkChange_collects (E : Ethers) (file : Text) (s : Search) (change : Change)
    (hs : s.Sound E) : (checkChange E file s change).Sound E ∧
      ((checkChange E file s change).Reported ↔ s.Reported ∨
        (isSafeHashFieldLine change.content = false ∧
          ∃ token ∈ extractTokens change.content, RealToken E token)) := by
  unfold checkChange
  cases hsafe : isSafeHashFieldLine change.content with
  | true => exact ⟨hs, (or_iff_left fun h => Bool.noConfusion h.1).symm⟩
  | false =>
      obtain ⟨hsound, hreported⟩ := Fields.foldl_collects
        (checkToken_collects E file change.lineNum) hs (extractTokens change.content)
      exact ⟨hsound, hreported.trans (or_congr_right (and_iff_right rfl).symm)⟩

/-- **The lines that are reported**: not of an excluded file, not of a safe field, and with a token
    that is a real key. -/
def Reportable (E : Ethers) (file content : Text) : Prop :=
  isExcluded file = false ∧ isSafeHashFieldLine content = false ∧
    ∃ token ∈ extractTokens content, RealToken E token

theorem checkFile_collects (E : Ethers) (s : Search) (entry : Text × List Change)
    (hs : s.Sound E) : (checkFile E s entry).Sound E ∧
      ((checkFile E s entry).Reported ↔ s.Reported ∨
        ∃ change ∈ entry.2, Reportable E entry.1 change.content) := by
  unfold checkFile Reportable
  cases hexcluded : isExcluded entry.1 with
  | true => exact ⟨hs, (or_iff_left fun ⟨_, _, h, _⟩ => Bool.noConfusion h).symm⟩
  | false =>
      obtain ⟨hsound, hreported⟩ := Fields.foldl_collects (checkChange_collects E entry.1) hs
        entry.2
      exact ⟨hsound, hreported.trans (or_congr_right (exists_congr fun change =>
        and_congr_right fun _ => (and_iff_right rfl).symm))⟩

/-- The keys `main` reports as real. -/
def Outcome.reported : Outcome → List FoundKey
  | .realKeys _ found => found
  | _ => []

/-- **The search**: a real key is found if a line that was recorded is reportable. -/
theorem reported_search (E : Ethers) (fileChanges : List (Text × List Change)) :
    (fileChanges.foldl (checkFile E) ⟨[], []⟩).Reported ↔ ∃ file content,
      Recorded fileChanges file content ∧ Reportable E file content := by
  have hstart : (⟨[], []⟩ : Search).Sound E := fun _ h => absurd h List.not_mem_nil
  have hnothing : ¬ (⟨[], []⟩ : Search).Reported := fun ⟨_, h, _⟩ => absurd h List.not_mem_nil
  rw [(Fields.foldl_collects (checkFile_collects E) hstart fileChanges).2, or_iff_right hnothing]
  refine ⟨?_, ?_⟩
  · rintro ⟨⟨file, changes⟩, hmem, change, hchange, hreportable⟩
    exact ⟨file, change.content, ⟨changes, hmem, change, hchange, rfl⟩, hreportable⟩
  · rintro ⟨file, content, ⟨changes, hmem, change, hchange, rfl⟩, hreportable⟩
    exact ⟨(file, changes), hmem, change, hchange, hreportable⟩

theorem isSpace_of_trim {text : Text} (h : trim text = []) : ∀ c ∈ text, isSpace c = true := by
  have hdrop : text.dropWhile isSpace = [] := by
    by_contra hne
    have hhead := List.rdropWhile_eq_nil_iff.mp h _ (List.head_mem hne)
    rw [List.head_dropWhile_not isSpace] at hhead
    cases hhead
  exact List.dropWhile_eq_nil_iff.mp hdrop

/-- A blank diff has no added line. -/
theorem not_recorded_of_blank {diff : Text} (h : trim diff = []) {content : Text} :
    ¬ Recorded (parseDiff diff) file content := by
  have hspace := isSpace_of_trim h
  have hplus : plusTexts (diff.splitOn '\n') = [] := by
    refine plusTexts_of_none fun line hline => ?_
    obtain ⟨_, before, after, hdiff, _⟩ := Fields.bounded_of_mem_splitOnP hline
    unfold plusText
    split
    · rename_i text
      have hmem : '+' ∈ diff := by
        rw [hdiff]
        exact List.mem_append_left _ (List.mem_append_right _ List.mem_cons_self)
      exact absurd (hspace '+' hmem) (by decide)
    · rfl
  have hopen : (⟨[], [], 0⟩ : Parse).Open := fun h => absurd rfl h
  unfold parseDiff
  rw [recorded_run hopen, hplus]
  rintro (⟨_, hmem, _⟩ | hmem)
  · cases hmem
  · cases hmem

/-- **`main` reports a real key** if a line that was recorded is reportable. -/
theorem reported_main (E : Ethers) (gitDiff gitNames : Text) :
    (main E gitDiff gitNames).reported ≠ [] ↔ ∃ file content,
      Recorded (parseDiff (getStagedDiff gitDiff)) file content ∧ Reportable E file content := by
  unfold main
  generalize getStagedDiff gitDiff = diff
  rw [← reported_search]
  dsimp only
  by_cases hblank : trim diff = []
  · rw [if_pos hblank, reported_search]
    refine iff_of_false (fun h => h rfl) ?_
    rintro ⟨_, _, hrecorded, _⟩
    exact not_recorded_of_blank hblank hrecorded
  · rw [if_neg hblank]
    generalize (parseDiff diff).foldl (checkFile E) ⟨[], []⟩ = s
    have hfilter : s.Reported ↔ 0 < (s.foundKeys.filter fun k => !k.isTestKey).length := by
      unfold Search.Reported
      rw [List.length_filter_pos_iff]
      simp only [Bool.not_eq_true']
    by_cases hreal : 0 < (s.foundKeys.filter fun k => !k.isTestKey).length
    · rw [if_pos hreal]
      exact iff_of_true (List.ne_nil_of_length_pos hreal) (hfilter.mpr hreal)
    · rw [if_neg hreal]
      refine iff_of_false (fun h => h ?_) fun h => hreal (hfilter.mp h)
      split
      · rfl
      · split
        · rfl
        · rfl

end Gate

end Ocn

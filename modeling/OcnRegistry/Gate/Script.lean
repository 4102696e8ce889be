/-
  File:      OcnRegistry/Gate/Script.lean
  Subject:   THE PRE-COMMIT CHECK. Translated from scripts/pre-commit-check.ts, function by
             function; no invariant here.

  Texts are lists of characters; `length` counts 16-bit units, as the language does. A `Map` is the
  list of its entries in the order they were set. Left out: what is printed, beside the lists it is
  printed from.

  Two things are parameters or assumed: `new Wallet(key)`, which succeeds on the scalars of the
  curve, and the limit of `execSync` on what a command may write.
-/
import OcnRegistry.Library.Fields
import OcnRegistry.Library.Utf8
import Mathlib.Data.List.DropRight

namespace Ocn

namespace Gate

abbrev Text := List Char

/-! ## 1. The language and its libraries -/

/-- `\s`: white space and the ends of lines. -/
def isSpace (c : Char) : Bool :=
  [0x09, 0x0A, 0x0B, 0x0C, 0x0D, 0x20, 0xA0, 0x1680, 0x2028, 0x2029, 0x202F, 0x205F, 0x3000,
    0xFEFF].contains c.toNat || (0x2000 ≤ c.toNat && c.toNat ≤ 0x200A)

def trim (text : Text) : Text := (text.dropWhile isSpace).rdropWhile isSpace

def length (text : Text) : Nat := (text.map Utf8.units).sum

def startsWith (text : Text) (start : String) : Bool := start.toList.isPrefixOf text

def endsWith (text : Text) (ending : String) : Bool := ending.toList.isSuffixOf text

/-- Only ASCII letters are lowered: what is lowered here is compared with ASCII texts, and the
    other letters are lowered to no character of these. -/
def toLowerCase (text : Text) : Text := text.map Char.toLower

def isDigit (c : Char) : Bool := '0' ≤ c && c ≤ '9'

/-- The number that digits write in base ten. -/
def parseInt (digits : Text) : Nat := digits.foldl (fun n c => 10 * n + (c.toNat - 48)) 0

def isHexDigit (c : Char) : Bool :=
  isDigit c || ('a' ≤ c && c ≤ 'f') || ('A' ≤ c && c ≤ 'F')

/-- The expression `ethers` tells addresses by, where a call takes a name or an address: the mark
    `0x`, in either case, and 40 hexadecimal digits. -/
def isHexAddress : Text → Bool
  | '0' :: mark :: digits =>
      (mark == 'x' || mark == 'X') && digits.all isHexDigit && decide (digits.length = 40)
  | _ => false

def hexDigitValue (c : Char) : Nat :=
  if isDigit c then c.toNat - 48 else if 'a' ≤ c then c.toNat - 87 else c.toNat - 55

def hexValue (digits : Text) : Nat := digits.foldl (fun n c => 16 * n + hexDigitValue c) 0

/-- The order of the curve. -/
def curveOrder : Nat := 0xFFFFFFFFFFFFFFFFFFFFFFFFFFFFFFFEBAAEDCE6AF48A03BBFD25E8CD0364141

/-- 64 hexadecimal digits that write a scalar of the curve. -/
def IsScalar (digits : Text) : Prop :=
  digits.length = 64 ∧ digits.all isHexDigit = true ∧ 0 < hexValue digits ∧
    hexValue digits < curveOrder

instance (digits : Text) : Decidable (IsScalar digits) :=
  inferInstanceAs (Decidable (digits.length = 64 ∧ digits.all isHexDigit = true ∧
    0 < hexValue digits ∧ hexValue digits < curveOrder))

/-- **The wallet library**: whether `new Wallet(key)` succeeds. -/
structure Ethers where
  wallet : Text → Bool
  wallet_iff : ∀ digits, wallet ('0' :: 'x' :: digits) = true ↔ IsScalar digits

inductive ExecError
  | ENOBUFS
  deriving DecidableEq

/-- What a command may write, if the call does not say otherwise. -/
def maxBuffer : Nat := 1024 * 1024

/-- `execSync` of a command that writes this and succeeds. -/
def execSync (stdout : Text) : Except ExecError Text :=
  if (Utf8.encode (String.ofList stdout)).length ≤ maxBuffer then .ok stdout else .error .ENOBUFS

/-! ## 2. Keys -/

def knownTestKeys : List String := [
  "0xac0974bec39a17e36ba4a6b4d238ff944bacb478cbed5efcae784d7bf4f2ff80",
  "0x59c6995e998f97a5a0044966f0945389dc9e86dae88c7a8412f4603b6b78690d",
  "0x5de4111afa1a4b94908f83103eb1f1706367c2e68ca870fc3fb9a804cdab365a",
  "0x7c852118294e51e653712a81e05800f419141751be58f605c371e15141b007a6",
  "0x47e179ec197488593b187f80a00eb0da91f1b9d0b13f8733639f19c30a34926a",
  "0x8b3a350cf5c34c9194ca85829a2df0ec3153be0318b5e2d3348e872092edffba",
  "0x92db14e403b83dfe3df233f83dfa3a0d7096f21ca9b0d6d6b8d88b2b4ec1564e",
  "0x4bbbf85ce3377467afe5d46f804f221813b2bb87f24d81f60f1fcdbf7cbf4356",
  "0xdbda1821b80551c9d65939329250298aa3472ba22feea921c0cf5d620ea67b97",
  "0x2a871d0798f97d79848a013d4936a73bf4cc922c825d33c1cf7073dff6d409c6",
  "ac0974bec39a17e36ba4a6b4d238ff944bacb478cbed5efcae784d7bf4f2ff80",
  "59c6995e998f97a5a0044966f0945389dc9e86dae88c7a8412f4603b6b78690d",
  "5de4111afa1a4b94908f83103eb1f1706367c2e68ca870fc3fb9a804cdab365a"]

def knownPlaceholderKeys : List String :=
  ["0xaaaaaaaaaaaaaaaaaaaaaaaaaaaaaaaaaaaaaaaaaaaaaaaaaaaaaaaaaaaaaaaa"]

def safeHashFields : List String :=
  ["txHash", "transactionHash", "blockHash", "blockhash", "codeHash", "storageHash"]

/-- `set.has(text)`. -/
def has (set : List String) (text : Text) : Bool := set.contains (String.ofList text)

structure FoundKey where
  key : Text
  file : Text
  line : Nat
  isTestKey : Bool
  deriving DecidableEq, Repr

def isQuote (c : Char) : Bool := "\"'`".toList.contains c

def isMark (c : Char) : Bool := c = ',' || c = ';'

def dropFirstIf (p : Char → Bool) (text : Text) : Text :=
  match text with
  | [] => []
  | c :: rest => if p c then rest else c :: rest

def dropLastIf (p : Char → Bool) (text : Text) : Text :=
  match text.getLast? with
  | some c => if p c then text.dropLast else text
  | none => text

/-- A quote at the beginning and one at the end are dropped, then a comma or semicolon there. -/
def clean (token : Text) : Text :=
  dropLastIf isMark (dropLastIf isQuote (dropFirstIf isQuote token))

def isValidPrivateKey (E : Ethers) (token : Text) : Bool :=
  let cleaned := clean token
  if length cleaned < 64 ∨ length cleaned > 66 then false
  else
    let cleaned :=
      if length cleaned = 64 ∧ cleaned.all isHexDigit then "0x".toList ++ cleaned else cleaned
    if ¬ startsWith cleaned "0x" ∨ length cleaned ≠ 66 then false
    else E.wallet cleaned

def normalizeKey (key : Text) : Text :=
  let cleaned := toLowerCase (clean key)
  if ¬ startsWith cleaned "0x" ∧ length cleaned = 64 then "0x".toList ++ cleaned else cleaned

def isKnownPlaceholderKey (token : Text) : Bool :=
  has knownPlaceholderKeys (normalizeKey token)

/-- The name in front of a colon, if the line begins with one in double quotes. -/
def fieldName (line : Text) : Option Text :=
  match line.dropWhile isSpace with
  | '"' :: rest =>
      let name := rest.takeWhile (· ≠ '"')
      if name = [] then none
      else match (rest.drop (name.length + 1)).dropWhile isSpace with
        | ':' :: _ => some name
        | _ => none
  | _ => none

def isSafeHashFieldLine (line : Text) : Bool :=
  match fieldName line with
  | some name => has safeHashFields name
  | none => false

/-! ## 3. The staged changes -/

/-- A command that fails leaves no diff. -/
def getStagedDiff (gitDiff : Text) : Text :=
  match execSync gitDiff with
  | .ok diff => diff
  | .error _ => []

structure Change where
  lineNum : Nat
  content : Text
  deriving DecidableEq, Repr

structure Parse where
  fileChanges : List (Text × List Change)
  currentFile : Text
  currentLineNum : Nat

/-- The number after the plus of a hunk header that begins here. -/
def hunkStartHere (text : Text) : Option Nat :=
  match text with
  | '@' :: '@' :: ' ' :: '-' :: rest =>
      let rest' := rest.dropWhile isDigit
      let rest'' := match rest' with
        | ',' :: more => if more.takeWhile isDigit = [] then rest' else more.dropWhile isDigit
        | _ => rest'
      match rest'' with
      | ' ' :: '+' :: more =>
          if rest.takeWhile isDigit = [] ∨ more.takeWhile isDigit = [] then none
          else some (parseInt (more.takeWhile isDigit))
      | _ => none
  | _ => none

/-- The first place of the line that reads as a hunk header. -/
def hunkStart (line : Text) : Option Nat := line.tails.findSome? hunkStartHere

def hasFile (fileChanges : List (Text × List Change)) (file : Text) : Bool :=
  fileChanges.any fun entry => entry.1 = file

/-- `get(file)?.push(change)`. -/
def pushChange (fileChanges : List (Text × List Change)) (file : Text) (change : Change) :
    List (Text × List Change) :=
  fileChanges.map fun entry => if entry.1 = file then (entry.1, entry.2 ++ [change]) else entry

def parseLine (s : Parse) (line : Text) : Parse :=
  if startsWith line "+++ b/" then
    let currentFile := line.drop 6
    { s with
      currentFile := currentFile
      fileChanges :=
        if hasFile s.fileChanges currentFile then s.fileChanges
        else s.fileChanges ++ [(currentFile, [])] }
  else if startsWith line "@@" then
    match hunkStart line with
    | some n => { s with currentLineNum := n }
    | none => s
  else if startsWith line "+" ∧ ¬ startsWith line "+++" then
    let content := line.drop 1
    { s with
      fileChanges :=
        if s.currentFile ≠ [] ∧ trim content ≠ [] then
          pushChange s.fileChanges s.currentFile ⟨s.currentLineNum, content⟩
        else s.fileChanges
      currentLineNum := s.currentLineNum + 1 }
  else if ¬ startsWith line "-" then { s with currentLineNum := s.currentLineNum + 1 }
  else s

def parseDiff (diff : Text) : List (Text × List Change) :=
  ((diff.splitOn '\n').foldl parseLine ⟨[], [], 0⟩).fileChanges

/-- `[\s=:,;()\[\]{}]`. -/
def isDelimiter (c : Char) : Bool := isSpace c || "=:,;()[]\x7b\x7d".toList.contains c

def extractTokens (line : Text) : List Text := Fields.fields isDelimiter line

/-! ## 4. The check -/

def excludedPaths : List String := ["src/deployments/", "deployments/", ".openzeppelin/"]

def isExcluded (file : Text) : Bool := excludedPaths.any fun p => startsWith file p

/-- What the loops of `main` change. -/
structure Search where
  checkedTokens : List Text
  foundKeys : List FoundKey

def checkToken (E : Ethers) (file : Text) (lineNum : Nat) (s : Search) (token : Text) : Search :=
  if token ∈ s.checkedTokens then s
  else
    let s := { s with checkedTokens := s.checkedTokens ++ [token] }
    if isValidPrivateKey E token then
      let normalized := normalizeKey token
      let isTestKey := has knownTestKeys normalized
      if isKnownPlaceholderKey normalized then s
      else { s with foundKeys := s.foundKeys ++ [⟨token, file, lineNum, isTestKey⟩] }
    else s

def checkChange (E : Ethers) (file : Text) (s : Search) (change : Change) : Search :=
  if isSafeHashFieldLine change.content then s
  else (extractTokens change.content).foldl (checkToken E file change.lineNum) s

def checkFile (E : Ethers) (s : Search) (entry : Text × List Change) : Search :=
  if isExcluded entry.1 then s else entry.2.foldl (checkChange E entry.1) s

/-- `/\.env($|\.)/` on the lowered name, templates apart. -/
def isEnvFile (name : Text) : Bool :=
  let normalized := toLowerCase name
  if endsWith normalized ".env.example" || endsWith normalized ".env.sample" then false
  else normalized.tails.any fun rest =>
    startsWith rest ".env" && (rest.drop 4 = [] || startsWith (rest.drop 4) ".")

/-- How `main` ends. -/
inductive Outcome
  | noChanges
  | realKeys (testKeys realKeys : List FoundKey)
  | envFiles (testKeys : List FoundKey) (files : List Text)
  | noKeys (testKeys : List FoundKey)
  | failed (testKeys : List FoundKey) (error : ExecError)

def Outcome.exitCode : Outcome → Nat
  | .noChanges => 0
  | .realKeys _ _ => 1
  | .envFiles _ _ => 1
  | .noKeys _ => 0
  | .failed _ _ => 1

/-- **`main`**, given what its two commands write: the diff, and the names of the files. -/
def main (E : Ethers) (gitDiff gitNames : Text) : Outcome :=
  let diff := getStagedDiff gitDiff
  if trim diff = [] then .noChanges
  else
    let foundKeys := ((parseDiff diff).foldl (checkFile E) ⟨[], []⟩).foundKeys
    let realKeys := foundKeys.filter fun k => !k.isTestKey
    let testKeys := foundKeys.filter fun k => k.isTestKey
    if realKeys.length > 0 then .realKeys testKeys realKeys
    else match execSync gitNames with
      | .error error => .failed testKeys error
      | .ok names =>
          let stagedFiles := ((trim names).splitOn '\n').filter fun name => !name.isEmpty
          let envFiles := stagedFiles.filter isEnvFile
          if envFiles.length > 0 then .envFiles testKeys envFiles else .noKeys testKeys

end Gate

end Ocn

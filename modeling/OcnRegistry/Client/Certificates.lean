/-
  File:      OcnRegistry/Client/Certificates.lean
  Subject:   CERTIFICATE FILES: what `set-party` makes of them, and what a contract reads in it.
             Translated from src/lib/helpers.ts, src/cli.ts and ICertificateVerifier.sol.

  A file names a role, the fields of a certificate and a signature. The client writes the fields
  in the order of a list in helpers.ts; a contract reads them in the order of a struct in
  ICertificateVerifier.sol. Both are in here as they stand there.

  * `encodeEmpCertificate_eq` and the like -- the client writes the struct whose fields are those of
    the file, under the same names, and nothing where a field is missing or malformed;
  * `decode_emp`, `decode_named`, `decode_signature` -- and that struct is read back.
-/
import OcnRegistry.Library.Abi
import OcnRegistry.Client.Publish

namespace Ocn

open Packed

/-! ## 1. The structs of `ICertificateVerifier` -/

namespace ICertificateVerifier

structure Signature where
  r : Bytes32
  s : Bytes32
  v : BitVec 8
  deriving DecidableEq, Repr

structure EMPCertificate where
  identifier : Bytes
  name : Bytes
  marktfunktion : Bytes
  lieferant : Bytes
  bilanzkreis : Bytes
  owner : Address
  vatid : Bytes
  billingAddress : Bytes
  billingCity : Bytes
  billingPostalCode : Bytes
  billingCountry : Bytes
  billingEmail : Bytes
  deriving DecidableEq, Repr

/-- The struct of the other two kinds. -/
structure NamedCertificate where
  identifier : Bytes
  name : Bytes
  owner : Address
  deriving DecidableEq, Repr

abbrev CPOCertificate := NamedCertificate

abbrev OtherCertificate := NamedCertificate

/-- An `address` or a `uint8` in a word: the bits above it must be zero. -/
def narrow (n : Nat) (w : Abi.Word) : Option (BitVec n) :=
  if w.toNat < 2 ^ n then some (w.setWidth n) else none

/-- The components of a struct, as the declaration lists them, and the struct of components. -/
def EMPCertificate.values (c : EMPCertificate) : List Abi.Value :=
  [.bytes c.identifier, .bytes c.name, .bytes c.marktfunktion, .bytes c.lieferant,
    .bytes c.bilanzkreis, .word (c.owner.setWidth 256), .bytes c.vatid, .bytes c.billingAddress,
    .bytes c.billingCity, .bytes c.billingPostalCode, .bytes c.billingCountry,
    .bytes c.billingEmail]

def EMPCertificate.kinds : List Abi.Kind :=
  [.bytes, .bytes, .bytes, .bytes, .bytes, .word, .bytes, .bytes, .bytes, .bytes, .bytes, .bytes]

def EMPCertificate.ofValues : List Abi.Value → Option EMPCertificate
  | [.bytes identifier, .bytes name, .bytes marktfunktion, .bytes lieferant, .bytes bilanzkreis,
      .word owner, .bytes vatid, .bytes billingAddress, .bytes billingCity,
      .bytes billingPostalCode, .bytes billingCountry, .bytes billingEmail] => do
      let owner ← narrow 160 owner
      some ⟨identifier, name, marktfunktion, lieferant, bilanzkreis, owner, vatid, billingAddress,
        billingCity, billingPostalCode, billingCountry, billingEmail⟩
  | _ => none

def NamedCertificate.values (c : NamedCertificate) : List Abi.Value :=
  [.bytes c.identifier, .bytes c.name, .word (c.owner.setWidth 256)]

def NamedCertificate.kinds : List Abi.Kind := [.bytes, .bytes, .word]

def NamedCertificate.ofValues : List Abi.Value → Option NamedCertificate
  | [.bytes identifier, .bytes name, .word owner] => do
      let owner ← narrow 160 owner
      some ⟨identifier, name, owner⟩
  | _ => none

def Signature.values (sig : Signature) : List Abi.Value :=
  [.word sig.r, .word sig.s, .word (sig.v.setWidth 256)]

def Signature.kinds : List Abi.Kind := [.word, .word, .word]

def Signature.ofValues : List Abi.Value → Option Signature
  | [.word r, .word s, .word v] => do
      let v ← narrow 8 v
      some ⟨r, s, v⟩
  | _ => none

/-- **`abi.decode`** with a struct of the interface. -/
def EMPCertificate.decode (data : Bytes) : Option EMPCertificate :=
  Abi.decode kinds data >>= ofValues

def NamedCertificate.decode (data : Bytes) : Option NamedCertificate :=
  Abi.decode kinds data >>= ofValues

def Signature.decode (data : Bytes) : Option Signature :=
  Abi.decode kinds data >>= ofValues

end ICertificateVerifier

namespace Client

open ICertificateVerifier

/-! ## 2. Files and encoders -/

/-- A JavaScript string: its length is below 2^53. -/
structure Text where
  text : String
  short : Utf8.utf16Length text < 2 ^ 53

/-- `signature` of `types.JsonCertificate`. -/
structure JsonSignature where
  r : String
  s : String
  v : Int

/-- `types.JsonCertificate`: a field of `certificate` may be missing. -/
structure JsonCertificate where
  role : String
  certificate : String → Option Text
  signature : JsonSignature

/-- What `set-party` takes from Node, `yargs` and `ethers` besides: the content of a file, if it can
    be read and parsed, which arguments are read as numbers, and `getBytes`, which reads hexadecimal
    digits. -/
structure Workstation extends Platform where
  readFile : String → Option JsonCertificate
  isNumber : String → Bool
  getBytes : String → Option Bytes

/-- Why `ethers` refuses a value. -/
inductive EncodingError where
  | invalidString
  | invalidAddress
  | invalidBytes
  | incorrectDataLength
  | outOfBounds
  deriving DecidableEq, Repr

/-- A component in a list of helpers.ts: its type, and the field it is taken from. -/
inductive Field where
  | string (name : String)
  | address (name : String)
  deriving DecidableEq, Repr

section Encoders

variable (K : Workstation) (certificate : String → Option Text)

/-- The bytes of a `string` component. -/
def text (name : String) : Except EncodingError Bytes :=
  match certificate name with
  | some value => .ok (Utf8.encode value.text)
  | none => .error .invalidString

/-- An `address` component. -/
def address (name : String) : Except EncodingError Address :=
  match (certificate name).bind fun value => K.getAddress value.text with
  | some read => .ok read
  | none => .error .invalidAddress

def component : Field → Except EncodingError Abi.Value
  | .string name => (text certificate name).map .bytes
  | .address name => (address K certificate name).map fun a => .word (a.setWidth 256)

/-- `AbiCoder.encode` with a tuple of these components. -/
def encodeFields (fields : List Field) : Except EncodingError Bytes := do
  let values ← fields.mapM (component K certificate)
  .ok (Abi.encode values)

/-- The components of `encodeEmpCertificate`. -/
def empFields : List Field :=
  [.string "identifier", .string "name", .string "marktfunktion", .string "lieferant",
    .string "bilanzkreis", .address "owner", .string "vatid", .string "billingAddress",
    .string "billingCity", .string "billingPostalCode", .string "billingCountry",
    .string "billingEmail"]

/-- The components of `encodeCpoCertificate` and `encodeOtherCertificate`. -/
def namedFields : List Field := [.string "identifier", .string "name", .address "owner"]

def encodeEmpCertificate : Except EncodingError Bytes := encodeFields K certificate empFields

def encodeCpoCertificate : Except EncodingError Bytes := encodeFields K certificate namedFields

def encodeOtherCertificate : Except EncodingError Bytes := encodeFields K certificate namedFields

/-- A `bytes32` component. -/
def bytes32 (digits : String) : Except EncodingError Bytes32 :=
  match K.getBytes digits with
  | some bytes =>
      match ofWordBytes 32 bytes with
      | some word => .ok word
      | none => .error .incorrectDataLength
  | none => .error .invalidBytes

/-- A `uint8` component. -/
def uint8 (n : Int) : Except EncodingError (BitVec 8) :=
  if 0 ≤ n ∧ n < 256 then .ok (BitVec.ofInt 8 n) else .error .outOfBounds

def encodeCertificateSignature (signature : JsonSignature) : Except EncodingError Bytes := do
  let r ← bytes32 K signature.r
  let s ← bytes32 K signature.s
  let v ← uint8 signature.v
  .ok (Abi.encode [.word r, .word s, .word (v.setWidth 256)])

/-! ## 3. The struct a file stands for -/

/-- **The certificate in the file**, field by field under the names of the struct. -/
def empOfFile : Except EncodingError EMPCertificate := do
  let identifier ← text certificate "identifier"
  let name ← text certificate "name"
  let marktfunktion ← text certificate "marktfunktion"
  let lieferant ← text certificate "lieferant"
  let bilanzkreis ← text certificate "bilanzkreis"
  let owner ← address K certificate "owner"
  let vatid ← text certificate "vatid"
  let billingAddress ← text certificate "billingAddress"
  let billingCity ← text certificate "billingCity"
  let billingPostalCode ← text certificate "billingPostalCode"
  let billingCountry ← text certificate "billingCountry"
  let billingEmail ← text certificate "billingEmail"
  .ok { identifier, name, marktfunktion, lieferant, bilanzkreis, owner, vatid, billingAddress,
        billingCity, billingPostalCode, billingCountry, billingEmail }

def namedOfFile : Except EncodingError NamedCertificate := do
  let identifier ← text certificate "identifier"
  let name ← text certificate "name"
  let owner ← address K certificate "owner"
  .ok { identifier, name, owner }

def signatureOfFile (signature : JsonSignature) : Except EncodingError Signature := do
  let r ← bytes32 K signature.r
  let s ← bytes32 K signature.s
  let v ← uint8 signature.v
  .ok { r, s, v }

end Encoders

/-! ## 4. The lists and the structs agree -/

variable {K : Workstation} {certificate : String → Option Text}

/-- A list of computations succeeds with the values of its members. -/
theorem mapM_eq_ok {ε α β : Type} {f : α → Except ε β} {xs : List α} {ys : List β} :
    xs.mapM f = .ok ys ↔ List.Forall₂ (fun x y => f x = .ok y) xs ys := by
  induction xs generalizing ys with
  | nil =>
      rw [List.mapM_nil, List.forall₂_nil_left_iff]
      exact ⟨fun h => (Except.ok.inj h).symm, fun h => congrArg Except.ok h.symm⟩
  | cons x xs ih =>
      rw [List.mapM_cons, bind_eq_ok, List.forall₂_cons_left_iff]
      refine exists_congr fun y => ?_
      rw [bind_eq_ok]
      refine ⟨fun h => ?_, fun h => ?_⟩
      · obtain ⟨hy, rest, hrest, h⟩ := h
        exact ⟨rest, hy, ih.mp hrest, (Except.ok.inj h).symm⟩
      · obtain ⟨rest, hy, hrest, rfl⟩ := h
        exact ⟨hy, rest, ih.mpr hrest, rfl⟩

theorem map_bind_ok {ε α β γ : Type} (x : Except ε α) (f : α → β) (g : β → Except ε γ) :
    (x.map f >>= g) = x >>= fun a => g (f a) := by cases x <;> rfl

theorem bind_map_ok {ε α β γ : Type} (x : Except ε α) (g : α → Except ε β) (f : β → γ) :
    (x >>= g).map f = x >>= fun a => (g a).map f := by cases x <;> rfl

/-- The components of `encodeEmpCertificate` are those of the struct, in its order. -/
theorem empFields_read : empFields.mapM (component K certificate) =
    (empOfFile K certificate).map EMPCertificate.values := by
  simp only [empFields, empOfFile, component, List.mapM_cons, List.mapM_nil, map_bind_ok,
    bind_map_ok, bind_assoc, pure_bind]
  rfl

theorem namedFields_read : namedFields.mapM (component K certificate) =
    (namedOfFile K certificate).map NamedCertificate.values := by
  simp only [namedFields, namedOfFile, component, List.mapM_cons, List.mapM_nil, map_bind_ok,
    bind_map_ok, bind_assoc, pure_bind]
  rfl

theorem map_eq_ok {ε α β : Type} {x : Except ε α} {f : α → β} {b : β} :
    x.map f = .ok b ↔ ∃ a, x = .ok a ∧ f a = b := by
  cases x with
  | error e => exact ⟨fun h => (by cases h), fun ⟨_, h, _⟩ => (by cases h)⟩
  | ok a =>
      refine ⟨fun h => ⟨a, rfl, Except.ok.inj h⟩, fun h => ?_⟩
      obtain ⟨_, ha, rfl⟩ := h
      cases ha
      rfl

theorem text_eq_ok {name : String} {bytes : Bytes} : text certificate name = .ok bytes ↔
    ∃ value, certificate name = some value ∧ Utf8.encode value.text = bytes := by
  unfold text
  cases certificate name with
  | none => exact ⟨fun h => (by cases h), fun ⟨_, h, _⟩ => (by cases h)⟩
  | some value =>
      refine ⟨fun h => ⟨value, rfl, Except.ok.inj h⟩, fun h => ?_⟩
      obtain ⟨_, hvalue, rfl⟩ := h
      cases hvalue
      rfl

theorem bytes32_eq_ok {digits : String} {word : Bytes32} :
    bytes32 K digits = .ok word ↔ K.getBytes digits = some (wordBytes 32 word) := by
  unfold bytes32
  cases K.getBytes digits with
  | none => exact ⟨fun h => (by cases h), fun h => (by cases h)⟩
  | some bytes =>
      rw [Option.some_inj, eq_comm (a := bytes), ← ofWordBytes_eq_some]
      dsimp only
      cases ofWordBytes 32 bytes with
      | none => exact ⟨fun h => (by cases h), fun h => (by cases h)⟩
      | some read => exact ⟨fun h => congrArg some (Except.ok.inj h), fun h => by cases h; rfl⟩

/-- A component that was read is short: a text has at most three bytes a unit. -/
theorem component_short {field : Field} {v : Abi.Value}
    (h : component K certificate field = .ok v) : v.tail.length ≤ 2 ^ 55 + 63 := by
  cases field with
  | address name =>
      obtain ⟨a, _, rfl⟩ := map_eq_ok.mp h
      exact Nat.zero_le _
  | string name =>
      obtain ⟨bytes, hread, rfl⟩ := map_eq_ok.mp h
      obtain ⟨value, _, rfl⟩ := text_eq_ok.mp hread
      have hle : (Utf8.encode value.text).length ≤ 3 * Utf8.utf16Length value.text :=
        Utf8.length_encode_le
      have hshort := value.short
      exact Abi.length_tail_le (by omega)

/-- **What a list of components writes is read back**, component by component. -/
theorem decode_components {fields : List Field} (hlen : fields.length ≤ 64)
    {values : List Abi.Value} (h : fields.mapM (component K certificate) = .ok values) :
    Abi.decode (values.map Abi.Value.kind) (Abi.encode values) = some values := by
  have hread := mapM_eq_ok.mp h
  have hshort : ∀ v ∈ values, v.tail.length ≤ 2 ^ 55 + 63 := fun v hv => by
    obtain ⟨i, hi, rfl⟩ := List.mem_iff_getElem.mp hv
    exact component_short (hread.get (by rw [hread.length_eq]; exact hi) hi)
  have hsize := Abi.length_encode_le hshort
  rw [← hread.length_eq] at hsize
  refine Abi.decode_encode (Nat.lt_of_le_of_lt hsize ?_)
  have hmul : (32 + (2 ^ 55 + 63)) * fields.length ≤ (32 + (2 ^ 55 + 63)) * 64 :=
    Nat.mul_le_mul_left _ hlen
  omega

/-! ## 5. Round trips -/

section Fields

variable {σ : Type} {fields : List Field} {ofFile : Except EncodingError σ}
  {values : σ → List Abi.Value}

/-- A list of fields that reads the components of a struct writes the struct. -/
theorem encodeFields_eq (hread : fields.mapM (component K certificate) = ofFile.map values) :
    encodeFields K certificate fields = ofFile.map fun c => Abi.encode (values c) := by
  rw [encodeFields, hread]
  cases ofFile <;> rfl

theorem decode_struct (hlen : fields.length ≤ 64)
    (hread : fields.mapM (component K certificate) = ofFile.map values) {c : σ}
    (h : ofFile = .ok c) :
    Abi.decode ((values c).map Abi.Value.kind) (Abi.encode (values c)) = some (values c) :=
  decode_components hlen (hread.trans (map_eq_ok.mpr ⟨c, h, rfl⟩))

end Fields

theorem narrow_setWidth {n : Nat} (hn : n ≤ 256) (x : BitVec n) :
    narrow n (x.setWidth 256) = some x := by
  have hlt : x.toNat < 2 ^ 256 := Nat.lt_of_lt_of_le x.isLt (Nat.pow_le_pow_right (by decide) hn)
  have hwide : (x.setWidth 256).toNat = x.toNat := by
    rw [BitVec.toNat_setWidth, Nat.mod_eq_of_lt hlt]
  rw [narrow, hwide, if_pos x.isLt, BitVec.setWidth_setWidth_of_le _ hn, BitVec.setWidth_eq]

/-- **The client writes the struct the file stands for**, and nothing for a file without one. -/
theorem encodeEmpCertificate_eq : encodeEmpCertificate K certificate =
    (empOfFile K certificate).map fun c => Abi.encode c.values :=
  encodeFields_eq empFields_read

/-- The encoders of the other two kinds are one. -/
theorem encodeOtherCertificate_eq : encodeOtherCertificate K certificate =
    (namedOfFile K certificate).map fun c => Abi.encode c.values :=
  encodeFields_eq namedFields_read

theorem encodeCertificateSignature_eq {signature : JsonSignature} :
    encodeCertificateSignature K signature =
      (signatureOfFile K signature).map fun sig => Abi.encode sig.values := by
  simp only [encodeCertificateSignature, signatureOfFile, bind_map_ok]
  rfl

/-- **An EMP certificate is read back.** -/
theorem decode_emp {c : EMPCertificate} (h : empOfFile K certificate = .ok c) :
    EMPCertificate.decode (Abi.encode c.values) = some c := by
  have hback : Abi.decode EMPCertificate.kinds (Abi.encode c.values) = some c.values :=
    decode_struct (by decide) empFields_read h
  rw [EMPCertificate.decode, hback]
  show EMPCertificate.ofValues c.values = some c
  rw [EMPCertificate.values, EMPCertificate.ofValues, narrow_setWidth (by decide)]
  rfl

/-- **A certificate of the other kinds is read back.** -/
theorem decode_named {c : NamedCertificate} (h : namedOfFile K certificate = .ok c) :
    NamedCertificate.decode (Abi.encode c.values) = some c := by
  have hback : Abi.decode NamedCertificate.kinds (Abi.encode c.values) = some c.values :=
    decode_struct (by decide) namedFields_read h
  rw [NamedCertificate.decode, hback]
  show NamedCertificate.ofValues c.values = some c
  rw [NamedCertificate.values, NamedCertificate.ofValues, narrow_setWidth (by decide)]
  rfl

/-- **A signature is read back**: it has no text, so nothing can be too long. -/
theorem decode_signature (sig : Signature) :
    Signature.decode (Abi.encode sig.values) = some sig := by
  have hsize : (Abi.encode sig.values).length ≤ 32 + (32 + 0) * 3 :=
    Abi.length_encode_le fun value hvalue => by
      simp only [Signature.values, List.mem_cons, List.not_mem_nil, or_false] at hvalue
      obtain rfl | rfl | rfl := hvalue <;> exact Nat.le_refl 0
  have hback : Abi.decode Signature.kinds (Abi.encode sig.values) = some sig.values :=
    Abi.decode_encode (Nat.lt_of_le_of_lt hsize (by decide))
  rw [Signature.decode, hback]
  show Signature.ofValues sig.values = some sig
  rw [Signature.values, Signature.ofValues, narrow_setWidth (by decide)]
  rfl

end Client

end Ocn

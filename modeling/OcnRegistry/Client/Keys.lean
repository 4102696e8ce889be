/-
  File:      OcnRegistry/Client/Keys.lean
  Subject:   KEYS READ AND ASKED FOR: what `getPartyByOcpi` finds under the key a party was shown
             with.

  The client shows the bytes of a key as they are, decoded as UTF-8. When it is asked for a key it
  checks the length of both texts in UTF-16 units, upper-cases them and encodes them: the contract
  does not upper-case, and a text of two bytes and one unit is turned away. So a key is found again
  if it is ASCII, its upper-case spelling answers with the same party, and the name and the url that
  come back with it are texts too.

  * `upper_key_shadows` -- two parties whose keys differ by case: asked for the one, the other;
  * `getPartyByOcpi_iff` -- in one state, whose details come back;
  * `keys_round_trip_iff` -- in every state of a run every party is found under the key it is shown
    with, exactly when no transaction hides one.
-/
import OcnRegistry.Client.Parties
import OcnRegistry.Network

namespace Ocn

open Transaction Packed

namespace Client

/-! ## 1. Upper case, on bytes -/

/-- The word with every byte upper-cased. -/
def upperWord (n : Nat) (x : BitVec (8 * n)) : BitVec (8 * n) :=
  BitVec.ofNat (8 * n) (wordValue ((wordBytes n x).map Utf8.upperByte))

theorem wordBytes_upperWord (n : Nat) (x : BitVec (8 * n)) :
    wordBytes n (upperWord n x) = (wordBytes n x).map Utf8.upperByte := by
  refine ofWordBytes_eq_some.mp ?_
  unfold ofWordBytes
  rw [if_pos (by rw [List.length_map, length_wordBytes])]
  rfl

theorem upperByte_upperByte (b : Byte) : Utf8.upperByte (Utf8.upperByte b) = Utf8.upperByte b := by
  have hall : ∀ b : Byte, Utf8.upperByte (Utf8.upperByte b) = Utf8.upperByte b := by
    decide +kernel
  exact hall b

theorem upperWord_upperWord (n : Nat) (x : BitVec (8 * n)) :
    upperWord n (upperWord n x) = upperWord n x := by
  refine wordBytes_injective n ?_
  rw [wordBytes_upperWord, wordBytes_upperWord, List.map_map]
  exact List.map_congr_left fun b _ => upperByte_upperByte b

/-- Every byte of the word is ASCII. -/
def AsciiWord (n : Nat) (x : BitVec (8 * n)) : Prop := ∀ b ∈ wordBytes n x, b.toNat < 128

theorem asciiWord_iff {n : Nat} {x : BitVec (8 * n)} {text : String}
    (h : Utf8.encode text = wordBytes n x) : AsciiWord n x ↔ Utf8.IsAscii text := by
  unfold AsciiWord
  rw [← h]
  refine ⟨fun hbytes => ?_, Utf8.bytes_lt_of_isAscii⟩
  obtain ⟨text', htext', hascii⟩ := Utf8.decode_of_bytes_lt hbytes
  rw [← Utf8.encode_injective (Utf8.decode_eq_some.mp htext')]
  exact hascii

/-- **What a text is turned into** before the contract is asked: on ASCII, its upper-case bytes. -/
theorem toBytes_ascii (U : UpperCase) {text : String} (h : Utf8.IsAscii text) :
    toBytes U text = (Utf8.encode text).map Utf8.upperByte := by
  have hupper : U.apply text = String.ofList (text.toList.map Char.toUpper) := by
    unfold UpperCase.apply
    rw [← List.flatMap_singleton' (text.toList.map Char.toUpper), List.flatMap_map]
    exact congrArg String.ofList (List.flatMap_congr fun c hc => U.ascii c (h c hc))
  unfold toBytes
  rw [hupper, Utf8.encode_toUpper h]

/-- The length check passes exactly on ASCII, for the text of a word. -/
theorem verifyStringLen_eq_ok {n : Nat} {x : BitVec (8 * n)} {text : String}
    (h : Utf8.encode text = wordBytes n x) :
    verifyStringLen text n = .ok () ↔ AsciiWord n x := by
  have hlen : (Utf8.encode text).length = n := by rw [h, length_wordBytes]
  rw [asciiWord_iff h, ← Utf8.length_encode_eq_iff, hlen]
  unfold verifyStringLen
  rw [guard_eq_ok]
  exact ⟨fun hr => Classical.not_not.mp hr.1, fun hr => ⟨fun hn => hn hr, rfl⟩⟩

theorem fixedBytes_ascii (U : UpperCase) {n : Nat} {x : BitVec (8 * n)} {text : String}
    (h : Utf8.encode text = wordBytes n x) (hascii : AsciiWord n x) :
    fixedBytes n (toBytes U text) = .ok (upperWord n x) := by
  have hbytes : ofWordBytes n (toBytes U text) = some (upperWord n x) := by
    rw [ofWordBytes_eq_some, toBytes_ascii U ((asciiWord_iff h).mp hascii), h, wordBytes_upperWord]
  unfold fixedBytes
  rw [hbytes]

/-! ## 2. In one state -/

section State

variable {st : OcnRegistry} {s : PaymentState} {outside : External} {U : UpperCase}
  {countryCode : Bytes2} {partyId : Bytes3} {country party : String} {a : Address}

/-- **What is asked for**: nothing for a key that is not ASCII, else its upper-case spelling. -/
theorem getPartyByOcpi_shown (hc : Utf8.encode country = wordBytes 2 countryCode)
    (hp : Utf8.encode party = wordBytes 3 partyId) {answers : External}
    {r : Option PartyDetails} :
    getPartyByOcpi st U answers country party = .ok r ↔
      AsciiWord 2 countryCode ∧ AsciiWord 3 partyId ∧ ∃ view stakingBlock d,
        st.getPartyDetailsByOcpi answers (upperWord 2 countryCode) (upperWord 3 partyId) =
          .ok (view, stakingBlock) ∧
        toPartyDetails view = .ok d ∧ r = listed d := by
  unfold getPartyByOcpi
  rw [bind_eq_ok]
  refine ⟨fun h => ?_, fun h => ?_⟩
  · obtain ⟨⟨⟩, hlen, h⟩ := h
    obtain ⟨⟨⟩, hlen', h⟩ := bind_eq_ok.mp h
    have hac := (verifyStringLen_eq_ok hc).mp hlen
    have hap := (verifyStringLen_eq_ok hp).mp hlen'
    obtain ⟨askedCountry, hcountry, h⟩ := bind_eq_ok.mp h
    obtain ⟨askedParty, hparty, h⟩ := bind_eq_ok.mp h
    rw [fixedBytes_ascii U hc hac] at hcountry
    rw [fixedBytes_ascii U hp hap] at hparty
    cases hcountry
    cases hparty
    obtain ⟨⟨view, stakingBlock⟩, hview, h⟩ := bind_eq_ok.mp h
    obtain ⟨d, hd, h⟩ := bind_eq_ok.mp h
    exact ⟨hac, hap, view, stakingBlock, d, ofContract_eq_ok.mp hview, hd,
      (Except.ok.inj h).symm⟩
  · obtain ⟨hac, hap, view, stakingBlock, d, hview, hd, rfl⟩ := h
    refine ⟨(), (verifyStringLen_eq_ok hc).mpr hac, bind_eq_ok.mpr
      ⟨(), (verifyStringLen_eq_ok hp).mpr hap, bind_eq_ok.mpr
        ⟨upperWord 2 countryCode, fixedBytes_ascii U hc hac, bind_eq_ok.mpr
          ⟨upperWord 3 partyId, fixedBytes_ascii U hp hap, ?_⟩⟩⟩⟩
    exact bind_eq_ok.mpr ⟨(view, stakingBlock), ofContract_eq_ok.mpr hview,
      bind_eq_ok.mpr ⟨d, hd, rfl⟩⟩

/-- Reading a view does not depend on its payment status. -/
theorem toPartyDetails_status {input : OcnRegistry.PartyView} {d : PartyDetails}
    (status : PaymentStatus) (h : toPartyDetails input = .ok d) :
    toPartyDetails { input with paymentStatus := status } =
      .ok { d with paymentStatus := status } := by
  obtain ⟨country, party, name, url, hcountry, hparty, hname, hurl, rfl⟩ :=
    toPartyDetails_eq_ok.mp h
  exact toPartyDetails_eq_ok.mpr ⟨country, party, name, url, hcountry, hparty, hname, hurl, rfl⟩

/-- **Whose details come back**: a party is found under the texts of its key exactly when its name
    and url are texts, the key is ASCII and its upper-case spelling answers with the party. -/
theorem getPartyByOcpi_iff (ha : st.Registered a)
    (hc : Utf8.encode country = wordBytes 2 (st.partyOf a).countryCode)
    (hp : Utf8.encode party = wordBytes 3 (st.partyOf a).partyId) :
    (∃ d, toPartyDetails (st.getPartyDetailsByAddress a) = .ok d ∧
      getPartyByOcpi st U (s.answers st.paymentManager outside) country party =
        .ok (some { d with paymentStatus := s.manager.getPaymentStatus a })) ↔
      NameDecodes (st.partyOf a).name (st.partyOf a).url ∧
        (AsciiWord 2 (st.partyOf a).countryCode ∧ AsciiWord 3 (st.partyOf a).partyId) ∧
          st.uniqueParties (upperWord 2 (st.partyOf a).countryCode)
            (upperWord 3 (st.partyOf a).partyId) = a := by
  refine ⟨fun h => ?_, fun h => ?_⟩
  · obtain ⟨d, hd, hread⟩ := h
    obtain ⟨hac, hap, view, stakingBlock, d', hview, hd', hr⟩ :=
      (getPartyByOcpi_shown hc hp).mp hread
    rw [OcnRegistry.getPartyDetailsByOcpi_eq] at hview
    cases hview
    obtain ⟨_, hsame⟩ := listed_eq_some.mp hr.symm
    obtain ⟨_, _, _, _, _, _, _, _, e'⟩ := toPartyDetails_eq_ok.mp hd'
    have hfound : d'.partyAddress = st.uniqueParties
        (upperWord 2 (st.partyOf a).countryCode) (upperWord 3 (st.partyOf a).partyId) := by
      rw [e']
      rfl
    refine ⟨(exists_details_iff.mp ⟨d, hd⟩).2, ⟨hac, hap⟩, ?_⟩
    rw [← hfound, hsame]
    show d.partyAddress = a
    exact partyAddress_of_details hd
  · obtain ⟨hname, ⟨hac, hap⟩, hfound⟩ := h
    obtain ⟨d, hd⟩ := exists_details_iff.mpr ⟨⟨⟨country, hc⟩, party, hp⟩, hname⟩
    refine ⟨d, hd, (getPartyByOcpi_shown hc hp).mpr ⟨hac, hap, _, _, _,
      OcnRegistry.getPartyDetailsByOcpi_eq _ _, ?_, (listed_eq_some.mpr ⟨?_, rfl⟩).symm⟩⟩
    · rw [hfound]
      exact toPartyDetails_status _ hd
    · obtain ⟨_, _, _, _, _, _, _, _, rfl⟩ := toPartyDetails_eq_ok.mp hd
      exact ha

end State

/-! ## 3. Along a run -/

theorem upperByte_lt {b : Byte} (h : b.toNat < 128) : (Utf8.upperByte b).toNat < 128 := by
  have hall : ∀ b : Byte, b.toNat < 128 → (Utf8.upperByte b).toNat < 128 := by decide +kernel
  exact hall b h

theorem asciiWord_upperWord {n : Nat} {x : BitVec (8 * n)} (h : AsciiWord n x) :
    AsciiWord n (upperWord n x) := by
  intro b hb
  rw [wordBytes_upperWord] at hb
  obtain ⟨b', hb', rfl⟩ := List.mem_map.mp hb
  exact upperByte_lt (h b' hb')

theorem keyDecodes_of_ascii {countryCode : Bytes2} {partyId : Bytes3}
    (hc : AsciiWord 2 countryCode) (hp : AsciiWord 3 partyId) :
    KeyDecodes countryCode partyId := by
  obtain ⟨country, hcountry, _⟩ := Utf8.decode_of_bytes_lt hc
  obtain ⟨party, hparty, _⟩ := Utf8.decode_of_bytes_lt hp
  exact ⟨⟨country, Utf8.decode_eq_some.mp hcountry⟩, party, Utf8.decode_eq_some.mp hparty⟩

/-- **How the client asks for a key**: it shows keys that are texts, asks for ASCII only, and asks
    in upper case. -/
def clientAsking : OcnRegistry.Asking where
  shown := fun k => KeyDecodes k.1 k.2
  askable := fun k => AsciiWord 2 k.1 ∧ AsciiWord 3 k.2
  asked := fun k => (upperWord 2 k.1, upperWord 3 k.2)
  shown_asked := fun _ _ h =>
    keyDecodes_of_ascii (asciiWord_upperWord h.1) (asciiWord_upperWord h.2)
  asked_asked := fun k _ _ => Prod.ext (upperWord_upperWord 2 k.1) (upperWord_upperWord 3 k.2)

/-- **Keys round-trip**: whatever the payment manager's storage, a registered party whose key is
    text has details that show this text, and asking for the key they show returns them, with the
    live payment status. -/
def KeysRoundTrip (U : UpperCase) (st : OcnRegistry) : Prop :=
  ∀ (s : PaymentState) (outside : External) a country party, st.Registered a →
    Utf8.encode country = wordBytes 2 (st.partyOf a).countryCode →
    Utf8.encode party = wordBytes 3 (st.partyOf a).partyId →
    ∃ d, toPartyDetails (st.getPartyDetailsByAddress a) = .ok d ∧
      getPartyByOcpi st U (s.answers st.paymentManager outside) country party =
        .ok (some { d with paymentStatus := s.manager.getPaymentStatus a })

/-- The record of every registered party with a key that is text is one of texts. -/
def NamesDecode (st : OcnRegistry) : Prop :=
  ∀ a, st.Registered a → KeyDecodes (st.partyOf a).countryCode (st.partyOf a).partyId →
    NameDecodes (st.partyOf a).name (st.partyOf a).url

theorem keysRoundTrip_iff {U : UpperCase} {st : OcnRegistry} :
    KeysRoundTrip U st ↔ NamesDecode st ∧ OcnRegistry.PartiesFound clientAsking st := by
  refine ⟨fun h => ?_, fun h s outside a country party ha hc hp => ?_⟩
  · let nothing : External := ⟨fun _ _ => .error (.external []), fun _ _ => .error (.external []),
      fun _ _ => .error (.external [])⟩
    have hread {a : Address} (ha : st.Registered a) {country party : String}
        (hc : Utf8.encode country = wordBytes 2 (st.partyOf a).countryCode)
        (hp : Utf8.encode party = wordBytes 3 (st.partyOf a).partyId) :=
      (getPartyByOcpi_iff ha hc hp).mp (h ⟨OcnPaymentManager.zero, 0⟩ nothing a country party ha hc
        hp)
    refine ⟨fun a ha hshown => ?_, fun a ha hshown => ?_⟩
    · obtain ⟨⟨country, hc⟩, party, hp⟩ := hshown
      exact (hread ha hc hp).1
    · obtain ⟨⟨country, hc⟩, party, hp⟩ := hshown
      exact (hread ha hc hp).2
  · have hshown : KeyDecodes (st.partyOf a).countryCode (st.partyOf a).partyId :=
      ⟨⟨country, hc⟩, party, hp⟩
    exact (getPartyByOcpi_iff ha hc hp).mpr ⟨h.1 a ha hshown, h.2 a ha hshown⟩

/-- The transaction registers a party under a key that is text, with a name or a url that is not. -/
def RegistersUnnamed (st : OcnRegistry) (t : Tx) : Prop :=
  ∃ owner details, st.StoresRecord t owner details ∧
    KeyDecodes details.countryCode details.partyId ∧ ¬ NameDecodes details.name details.url

/-- The transaction hides a party from the client: it registers one under a key that is a text but
    not ASCII, or not in upper case while the upper-case key does not answer with that party, or
    with a name or url that is no text; or it takes the upper-case key of the zero address while
    that is registered. -/
def HidesParty (st : OcnRegistry) (t : Tx) : Prop :=
  RegistersUnnamed st t ∨ OcnRegistry.LosesParty clientAsking st t

theorem namesDecode_step_iff {X : Crypto} {st : OcnRegistry} {t : Tx} (hI : st.ArraySound)
    (h : NamesDecode st) :
    NamesDecode ((OcnRegistry.machine X).step st t) ↔ ¬ RegistersUnnamed st t := by
  refine (OcnRegistry.records_step_iff
    (P := fun _ details => KeyDecodes details.countryCode details.partyId →
      NameDecodes details.name details.url) hI h).trans ?_
  refine ⟨fun hgood hbad => ?_, fun hgood owner details hstores hshown => ?_⟩
  · obtain ⟨owner, details, hstores, hshown, hno⟩ := hbad
    exact hno (hgood owner details hstores hshown)
  · exact Classical.not_not.mp fun hno => hgood ⟨owner, details, hstores, hshown, hno⟩

end Client

namespace Sample

/-- Upper case, of ASCII letters only. -/
def upperCase : Client.UpperCase := ⟨fun c => [c.toUpper], fun _ _ => rfl⟩

/-- A stranger is registered under `DE/MSP`, a party under `de/msp`. -/
def sameLetters : List Tx :=
  [tx operator (.setNode domain), tx stranger (register stranger 0x4445 0x4D5350),
    tx party (register party 0x6465 0x6D7370)]

end Sample

/-- **Another party's details**: the party registered under `de/msp` is shown with that key, and
    asking for it returns the party registered under `DE/MSP`. -/
theorem upper_key_shadows :
    let st := Sample.deployment.run (Sample.crypto []) Sample.sameLetters
    let shown := Client.toPartyDetails (st.getPartyDetailsByAddress Sample.party.address)
    shown.map (fun d => (d.countryCode, d.partyId)) = .ok ("de", "msp") ∧
      (Client.getPartyByOcpi st Sample.upperCase Sample.external "de" "msp").map
        (Option.map (·.partyAddress)) = .ok (some Sample.stranger.address) ∧
      ¬ Client.KeysRoundTrip Sample.upperCase st := by
  intro st shown
  refine ⟨by decide +kernel, by decide +kernel, fun h => ?_⟩
  have hdecodes : Client.KeyDecodes (st.partyOf Sample.party.address).countryCode
      (st.partyOf Sample.party.address).partyId :=
    ⟨⟨"de", by decide +kernel⟩, "msp", by decide +kernel⟩
  have hfound := ((Client.keysRoundTrip_iff.mp h).2 Sample.party.address (by decide +kernel)
    hdecodes).2
  exact absurd hfound (by decide +kernel)

/-- **When keys round-trip**: in every state of a run, asking for the key a registered party is
    shown with returns that party's details, exactly when no transaction of the run hides a party
    from the client. -/
theorem keys_round_trip_iff (U : Client.UpperCase) (X : Crypto) (D : Deployment) (ts : List Tx) :
    (OcnRegistry.machine X).Throughout (Client.KeysRoundTrip U) D.start ts ↔
      (OcnRegistry.machine X).Along (fun st t => ¬ Client.HidesParty st t) D.start ts := by
  refine Machine.throughout_iff_along (M := OcnRegistry.machine X) (J := OcnRegistry.ArraySound)
    (fun _ _ hI => OcnRegistry.arraySound_step hI) (fun st t hI h => ?_) ts
    (OcnRegistry.arraySound_start D) ?_
  · obtain ⟨hnames, hfound⟩ := Client.keysRoundTrip_iff.mp h
    rw [Client.keysRoundTrip_iff, Client.HidesParty, not_or]
    exact and_congr (Client.namesDecode_step_iff hI hnames) (OcnRegistry.found_step_iff hI hfound)
  · have hnone := OcnRegistry.not_registered_start D
    exact Client.keysRoundTrip_iff.mpr
      ⟨fun a ha => absurd ha (hnone a), fun a ha => absurd ha (hnone a)⟩

end Ocn

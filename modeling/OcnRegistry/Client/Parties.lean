/-
  File:      OcnRegistry/Client/Parties.lean
  Subject:   THE PARTY LIST: when `getAllParties` returns, and what.

  The contract takes any two and three bytes that are not all zero for a key, and any bytes for a
  name and a url. The client decodes the keys, names and urls of all listed parties in one loop, as
  UTF-8, and the first bytes that are no text end the loop: then nobody's details are returned.
  Deletions leave holes, and a hole is dropped because the zero address has no operator -- unless
  somebody registered the zero address.

  * `getAllParties_eq_ok` -- the loop returns the details of the registered entries, or fails;
  * `mem_getAllParties` -- and they are what `getPartyByAddress` returns, one by one;
  * `undecodable_key_hides_all` -- one key that is no text, and the list cannot be read;
  * `party_list_iff` -- in every state of a run the list is read and is exact, exactly when no
    transaction registered a key, name or url that is no text or gave the zero address a second
    entry.
-/
import OcnRegistry.Client.Wrapper
import OcnRegistry.Registry.Slots
import Mathlib.Data.List.Forall2

namespace Ocn

open Transaction Packed

namespace Client

variable {X : Crypto} {st : OcnRegistry} {t : Tx} {a : Address}

/-! ## 1. Records that are texts -/

/-- Both parts of the key are the bytes of a text. -/
def KeyDecodes (countryCode : Bytes2) (partyId : Bytes3) : Prop :=
  Utf8.IsText (wordBytes 2 countryCode) ∧ Utf8.IsText (wordBytes 3 partyId)

/-- The name and the url are the bytes of a text. -/
def NameDecodes (name url : Bytes) : Prop := Utf8.IsText name ∧ Utf8.IsText url

/-- Everything the client decodes of a record is a text. -/
def RecordDecodes (details : Ocn.PartyDetails) : Prop :=
  KeyDecodes details.countryCode details.partyId ∧ NameDecodes details.name details.url

/-- The values of a view, with these texts. -/
def viewDetails (input : OcnRegistry.PartyView) (country party name url : String) :
    PartyDetails where
  partyAddress := input.partyAddress
  countryCode := country
  partyId := party
  roles := input.roles.map roleName
  paymentStatus := input.paymentStatus
  operatorAddress := input.operatorAddress
  name := name
  url := url
  active := input.active

/-- **The details of a view** are its values, with the texts its key, name and url are the bytes
    of. -/
theorem toPartyDetails_eq_ok {input : OcnRegistry.PartyView} {d : PartyDetails} :
    toPartyDetails input = .ok d ↔
      ∃ country party name url, Utf8.encode country = wordBytes 2 input.countryCode ∧
        Utf8.encode party = wordBytes 3 input.partyId ∧ Utf8.encode name = input.name ∧
        Utf8.encode url = input.url ∧ d = viewDetails input country party name url := by
  unfold toPartyDetails
  rw [bind_eq_ok]
  refine ⟨fun h => ?_, fun h => ?_⟩
  · obtain ⟨country, hcountry, h⟩ := h
    obtain ⟨party, hparty, h⟩ := bind_eq_ok.mp h
    obtain ⟨name, hname, h⟩ := bind_eq_ok.mp h
    obtain ⟨url, hurl, h⟩ := bind_eq_ok.mp h
    exact ⟨country, party, name, url, toUtf8String_eq_ok.mp hcountry,
      toUtf8String_eq_ok.mp hparty, toUtf8String_eq_ok.mp hname, toUtf8String_eq_ok.mp hurl,
      (Except.ok.inj h).symm⟩
  · obtain ⟨country, party, name, url, hcountry, hparty, hname, hurl, rfl⟩ := h
    exact ⟨country, toUtf8String_eq_ok.mpr hcountry, bind_eq_ok.mpr
      ⟨party, toUtf8String_eq_ok.mpr hparty, bind_eq_ok.mpr
        ⟨name, toUtf8String_eq_ok.mpr hname, bind_eq_ok.mpr
          ⟨url, toUtf8String_eq_ok.mpr hurl, rfl⟩⟩⟩⟩

theorem partyAddress_of_details {d : PartyDetails}
    (h : toPartyDetails (st.getPartyDetailsByAddress a) = .ok d) : d.partyAddress = a := by
  obtain ⟨country, party, name, url, _, _, _, _, rfl⟩ := toPartyDetails_eq_ok.mp h
  rfl

theorem exists_details_iff :
    (∃ d, toPartyDetails (st.getPartyDetailsByAddress a) = .ok d) ↔
      RecordDecodes (st.partyOf a) := by
  refine ⟨fun h => ?_, fun h => ?_⟩
  · obtain ⟨d, h⟩ := h
    obtain ⟨country, party, name, url, hcountry, hparty, hname, hurl, _⟩ :=
      toPartyDetails_eq_ok.mp h
    exact ⟨⟨⟨country, hcountry⟩, party, hparty⟩, ⟨name, hname⟩, url, hurl⟩
  · obtain ⟨⟨⟨country, hcountry⟩, party, hparty⟩, ⟨name, hname⟩, url, hurl⟩ := h
    exact ⟨_, toPartyDetails_eq_ok.mpr
      ⟨country, party, name, url, hcountry, hparty, hname, hurl, rfl⟩⟩

theorem listed_eq_some {d r : PartyDetails} :
    listed d = some r ↔ d.operatorAddress ≠ 0 ∧ d = r := by
  unfold listed
  split
  · rename_i h
    exact ⟨fun e => ⟨h, Option.some.inj e⟩, fun e => congrArg some e.2⟩
  · rename_i h
    exact ⟨fun e => (by cases e), fun e => absurd e.1 h⟩

/-- **What `getPartyByAddress` returns**: the details of an address that is registered. -/
theorem getPartyByAddress_eq_some {d : PartyDetails} :
    getPartyByAddress st a = .ok (some d) ↔
      st.Registered a ∧ toPartyDetails (st.getPartyDetailsByAddress a) = .ok d := by
  have hoperator : ∀ r, toPartyDetails (st.getPartyDetailsByAddress a) = .ok r →
      r.operatorAddress = st.operatorOf a := fun r hr => by
    obtain ⟨country, party, name, url, _, _, _, _, rfl⟩ := toPartyDetails_eq_ok.mp hr
    rfl
  unfold getPartyByAddress OcnRegistry.Registered
  rw [bind_eq_ok]
  refine ⟨fun h => ?_, fun h => ?_⟩
  · obtain ⟨r, hr, h⟩ := h
    obtain ⟨hne, rfl⟩ := listed_eq_some.mp (Except.ok.inj h)
    exact ⟨hoperator r hr ▸ hne, hr⟩
  · obtain ⟨hne, hd⟩ := h
    exact ⟨d, hd, congrArg Except.ok (listed_eq_some.mpr ⟨(hoperator d hd).symm ▸ hne, rfl⟩)⟩

/-! ## 2. The loop -/

/-- The entries of the array that have an operator. -/
def liveEntries (st : OcnRegistry) : List Address :=
  st.parties.filter fun a => decide (st.Registered a)

/-- These are the details of these parties, one for each. -/
def DetailsOf (st : OcnRegistry) : List Address → List PartyDetails → Prop :=
  List.Forall₂ fun a d => toPartyDetails (st.getPartyDetailsByAddress a) = .ok d

/-- **The loop** appends the details of the entries with an operator, as long as their records are
    texts. -/
theorem partiesFrom_eq_ok {rest : List Address} {details all : List PartyDetails} :
    partiesFrom st rest details = .ok all ↔
      ∃ more, DetailsOf st (rest.filter fun a => decide (st.Registered a)) more ∧
        all = details ++ more := by
  induction rest generalizing details with
  | nil =>
      rw [partiesFrom, List.filter_nil]
      refine ⟨fun h => ⟨[], .nil, ?_⟩, fun h => ?_⟩
      · rw [List.append_nil]
        exact (Except.ok.inj h).symm
      · obtain ⟨more, hmore, rfl⟩ := h
        cases hmore
        rw [List.append_nil]
  | cons a rest ih =>
      rw [partiesFrom]
      show (if st.Registered a then _ else _) = _ ↔ _
      by_cases hr : st.Registered a
      · have hfilter : ((a :: rest).filter fun a => decide (st.Registered a)) =
            a :: rest.filter fun a => decide (st.Registered a) :=
          List.filter_cons_of_pos (decide_eq_true hr)
        rw [if_pos hr, bind_eq_ok, hfilter]
        refine ⟨fun h => ?_, fun h => ?_⟩
        · obtain ⟨d, hd, h⟩ := h
          obtain ⟨more, hmore, rfl⟩ := ih.mp h
          exact ⟨d :: more, .cons hd hmore, by rw [List.append_assoc]; rfl⟩
        · obtain ⟨more, hmore, rfl⟩ := h
          cases hmore with
          | cons hd hmore =>
              exact ⟨_, hd, ih.mpr ⟨_, hmore, by rw [List.append_assoc]; rfl⟩⟩
      · have hfilter : ((a :: rest).filter fun a => decide (st.Registered a)) =
            rest.filter fun a => decide (st.Registered a) :=
          List.filter_cons_of_neg fun h => hr (of_decide_eq_true h)
        rw [if_neg hr, hfilter, ih]

theorem getAllParties_eq_ok {all : List PartyDetails} :
    getAllParties st = .ok all ↔ DetailsOf st (liveEntries st) all := by
  unfold getAllParties
  rw [partiesFrom_eq_ok]
  refine ⟨fun h => ?_, fun h => ⟨all, h, (List.nil_append all).symm⟩⟩
  obtain ⟨more, hmore, rfl⟩ := h
  exact hmore

/-- The addresses of the details are the parties they are the details of. -/
theorem DetailsOf.addresses {parties : List Address} {all : List PartyDetails}
    (h : DetailsOf st parties all) : all.map (·.partyAddress) = parties := by
  induction h with
  | nil => rfl
  | cons hd _ ih => rw [List.map_cons, ih, partyAddress_of_details hd]

/-- Parties with readable records have details. -/
theorem exists_detailsOf {parties : List Address}
    (h : ∀ a ∈ parties, RecordDecodes (st.partyOf a)) :
    ∃ all, DetailsOf st parties all := by
  induction parties with
  | nil => exact ⟨[], .nil⟩
  | cons a parties ih =>
      obtain ⟨ha, hrest⟩ := List.forall_mem_cons.mp h
      obtain ⟨d, hd⟩ := exists_details_iff.mpr ha
      obtain ⟨all, hall⟩ := ih hrest
      exact ⟨d :: all, .cons hd hall⟩

theorem DetailsOf.of_mem {parties : List Address} {all : List PartyDetails}
    (h : DetailsOf st parties all) {d : PartyDetails} (hd : d ∈ all) :
    toPartyDetails (st.getPartyDetailsByAddress d.partyAddress) = .ok d := by
  induction h with
  | nil => cases hd
  | cons hone _ ih =>
      rcases List.mem_cons.mp hd with rfl | hrest
      · rw [partyAddress_of_details hone]
        exact hone
      · exact ih hrest

theorem DetailsOf.decodes {parties : List Address} {all : List PartyDetails}
    (h : DetailsOf st parties all) (ha : a ∈ parties) : RecordDecodes (st.partyOf a) := by
  rw [← h.addresses] at ha
  obtain ⟨d, hd, rfl⟩ := List.mem_map.mp ha
  exact exists_details_iff.mp ⟨d, h.of_mem hd⟩

/-- **The list and the single answers agree**: the list, where it is read, has the details that
    `getPartyByAddress` returns for each of the addresses listed. -/
theorem mem_getAllParties {all : List PartyDetails} (h : getAllParties st = .ok all)
    {d : PartyDetails} :
    d ∈ all ↔ ∃ a ∈ st.parties, getPartyByAddress st a = .ok (some d) := by
  have hdetails := getAllParties_eq_ok.mp h
  refine ⟨fun hd => ?_, fun hd => ?_⟩
  · have hlive : d.partyAddress ∈ liveEntries st := by
      rw [← hdetails.addresses]
      exact List.mem_map_of_mem hd
    obtain ⟨hmem, hr⟩ := List.mem_filter.mp hlive
    exact ⟨d.partyAddress, hmem,
      getPartyByAddress_eq_some.mpr ⟨of_decide_eq_true hr, hdetails.of_mem hd⟩⟩
  · obtain ⟨a, hmem, hd⟩ := hd
    obtain ⟨hr, hd⟩ := getPartyByAddress_eq_some.mp hd
    have hlive : a ∈ liveEntries st := List.mem_filter.mpr ⟨hmem, decide_eq_true hr⟩
    rw [← hdetails.addresses] at hlive
    obtain ⟨d', hd', rfl⟩ := List.mem_map.mp hlive
    have hsame := hdetails.of_mem hd'
    rw [hd] at hsame
    exact Except.ok.inj hsame ▸ hd'

/-! ## 3. A list that is exact -/

/-- **The list is read and exact**: one entry for each registered party, with the details of that
    party, and no other entry. -/
def PartiesListed (st : OcnRegistry) : Prop :=
  ∃ all, getAllParties st = .ok all ∧ (all.map (·.partyAddress)).Nodup ∧
    (∀ a, a ∈ all.map (·.partyAddress) ↔ st.Registered a) ∧
    ∀ d ∈ all, toPartyDetails (st.getPartyDetailsByAddress d.partyAddress) = .ok d

/-- The records of all registered parties are texts. -/
def RecordsDecode (st : OcnRegistry) : Prop := ∀ a, st.Registered a → RecordDecodes (st.partyOf a)

theorem mem_liveEntries (hI : st.ArraySound) : a ∈ liveEntries st ↔ st.Registered a := by
  unfold liveEntries
  rw [List.mem_filter, decide_eq_true_iff]
  exact ⟨fun h => h.2, fun h => ⟨hI.mem_parties h, h⟩⟩

theorem nodup_liveEntries_iff (hI : st.ArraySound) :
    (liveEntries st).Nodup ↔ st.ZeroListedOnce := by
  rw [List.nodup_iff_count_le_one]
  have hcount : ∀ b, st.Registered b → (liveEntries st).count b = st.parties.count b := fun b hb =>
    List.count_filter (decide_eq_true hb)
  refine ⟨fun h h0 => hcount 0 h0 ▸ h 0, fun h b => ?_⟩
  by_cases hb : st.Registered b
  · rw [hcount b hb]
    by_cases hz : b = 0
    · subst hz
      exact h hb
    · exact hI.count_le_one hz
  · rw [List.count_eq_zero.mpr fun hmem => hb ((mem_liveEntries hI).mp hmem)]
    exact Nat.zero_le 1

/-- **In one state**: the list is exact exactly when every record is a text and the zero address has
    no second entry. -/
theorem partiesListed_iff (hI : st.ArraySound) :
    PartiesListed st ↔ RecordsDecode st ∧ st.ZeroListedOnce := by
  refine ⟨fun h => ?_, fun h => ?_⟩
  · obtain ⟨all, hall, hnodup, _⟩ := h
    have hdetails := getAllParties_eq_ok.mp hall
    rw [hdetails.addresses] at hnodup
    exact ⟨fun a ha => hdetails.decodes ((mem_liveEntries hI).mpr ha),
      (nodup_liveEntries_iff hI).mp hnodup⟩
  · obtain ⟨hrecords, hzero⟩ := h
    obtain ⟨all, hdetails⟩ := exists_detailsOf fun a ha => hrecords a ((mem_liveEntries hI).mp ha)
    refine ⟨all, getAllParties_eq_ok.mpr hdetails, ?_, fun a => ?_, fun d hd => hdetails.of_mem hd⟩
    · rw [hdetails.addresses]
      exact (nodup_liveEntries_iff hI).mpr hzero
    · rw [hdetails.addresses]
      exact mem_liveEntries hI

/-! ## 4. Along a run -/

/-- The transaction registers a party with a key, a name or a url that is no text. -/
def RegistersUndecodable (st : OcnRegistry) (t : Tx) : Prop :=
  ∃ owner details, st.StoresRecord t owner details ∧ ¬ RecordDecodes details

/-- **One step.** -/
theorem recordsDecode_step_iff (hI : st.ArraySound) (h : RecordsDecode st) :
    RecordsDecode ((OcnRegistry.machine X).step st t) ↔ ¬ RegistersUndecodable st t := by
  refine (OcnRegistry.records_step_iff (P := fun _ details => RecordDecodes details) hI h).trans ?_
  refine ⟨fun hgood hbad => ?_, fun hgood owner details hstores => ?_⟩
  · obtain ⟨owner, details, hstores, hno⟩ := hbad
    exact hno (hgood owner details hstores)
  · exact Classical.not_not.mp fun hno => hgood ⟨owner, details, hstores, hno⟩

end Client

/-- **One key hides all parties**: after a registration under the country code `FF 41`, no list of
    parties is returned, not even that of the party registered before. -/
theorem undecodable_key_hides_all :
    let st := Sample.deployment.run (Sample.crypto [])
      [Sample.tx Sample.operator (.setNode Sample.domain),
        Sample.tx Sample.party (Sample.register Sample.party 0x4445 0x4D5350),
        Sample.tx Sample.stranger (Sample.register Sample.stranger 0xFF41 0x4D5350)]
    Client.getAllParties st = .error .invalidUtf8 ∧ st.Registered Sample.party.address ∧
      ¬ Client.PartiesListed st := by
  intro st
  have hfails : Client.getAllParties st = .error .invalidUtf8 := by decide +kernel
  refine ⟨hfails, by decide +kernel, fun h => ?_⟩
  obtain ⟨all, hall, _⟩ := h
  rw [hfails] at hall
  cases hall

/-- **When the list of parties is total and exact**: in every state of a run `getAllParties` returns
    one entry for each registered party and no other, exactly when no transaction of the run
    registered a key, a name or a url that is not UTF-8 or gave the zero address a second entry in
    the array. -/
theorem party_list_iff (X : Crypto) (D : Deployment) (ts : List Tx) :
    (OcnRegistry.machine X).Throughout Client.PartiesListed D.start ts ↔
      (OcnRegistry.machine X).Along
        (fun st t => ¬ (Client.RegistersUndecodable st t ∨ st.DoublesZero t)) D.start ts := by
  refine Machine.throughout_iff_along (M := OcnRegistry.machine X) (J := OcnRegistry.ArraySound)
    (fun _ _ hI => OcnRegistry.arraySound_step hI) (fun st t hI h => ?_) ts
    (OcnRegistry.arraySound_start D) ?_
  · obtain ⟨hrecords, hzero⟩ := (Client.partiesListed_iff hI).mp h
    rw [Client.partiesListed_iff (OcnRegistry.arraySound_step hI), not_or]
    exact and_congr (Client.recordsDecode_step_iff hI hrecords)
      (OcnRegistry.zeroListedOnce_step_iff hI hzero)
  · refine (Client.partiesListed_iff (OcnRegistry.arraySound_start D)).mpr ⟨fun a ha => ?_,
      fun h0 => ?_⟩
    · exact absurd ha (OcnRegistry.not_registered_start D a)
    · exact absurd h0 (OcnRegistry.not_registered_start D 0)

end Ocn

/-
  File:      OcnRegistry/Client/Signing.lean
  Subject:   ONE NODE, TWO WAYS TO LIST IT: `setNode` and `setNodeRaw` of the client.

  `setNode` hands the contract the origin of the URL it is given; `setNodeRaw` signs the text as it
  is, packed by `soliditySha3`, and hands the contract the same text. The contract recovers the
  signer from the UTF-8 bytes of the text. An origin is never taken for a numeral, so a text that is
  its own origin is packed as the contract packs it, and the signature speaks for the wallet.

  * `trailing_slash_differs` -- a URL with a trailing slash is listed under two different domains;
  * `registrations_agree_iff` -- both calls do the same exactly when the text is its own origin, the
    wallet has a node already, or both fail for reasons of their own.
-/
import OcnRegistry.Client.Wrapper
import OcnRegistry.Registry.Raw

namespace Ocn

open Transaction Packed

namespace Client

/-- Both fail, or both succeed and leave the same node at the address and the same reserved
    domains. -/
inductive SameListing (a : Address) :
    Except ClientError (Outcome OcnRegistry Event) →
    Except ClientError (Outcome OcnRegistry Event) → Prop where
  | failed (e e' : ClientError) : SameListing a (.error e) (.error e')
  | listed (st st' : OcnRegistry) (ev ev' : List Event) (hnode : st.nodeOf a = st'.nodeOf a)
      (hdomains : ∀ domain, st.uniqueDomains domain = true ↔ st'.uniqueDomains domain = true) :
      SameListing a (.ok (st, ev)) (.ok (st', ev'))

section Listing

variable {X : Crypto} {st st' : OcnRegistry} {parser : UrlParser} {P : SolidityPacking}
  {answers : External} {spender : Account} {wallet : Wallet X} {domain o : String}
  {ev : List Event}

/-! ## 1. The two calls -/

/-- **The check passes** for a wallet without a node; a domain that is no text fails it too. -/
theorem checkForExistingNode_eq_ok {signer : Address} :
    checkForExistingNode st signer = .ok () ↔ st.nodeOf signer = [] := by
  unfold checkForExistingNode getNode
  refine ⟨fun h => ?_, fun h => ?_⟩
  · obtain ⟨existing, hnode, hfree⟩ := bind_eq_ok.mp h
    obtain ⟨node, htext, hnode⟩ := bind_eq_ok.mp hnode
    have hbytes : Utf8.encode node = st.nodeOf signer := toUtf8String_eq_ok.mp htext
    cases hnode
    by_cases hempty : node = ""
    · rw [← hbytes, hempty]
      exact Utf8.encode_eq_nil.mpr rfl
    · rw [if_neg hempty] at hfree
      cases hfree
  · have htext : toUtf8String (st.getNode signer) = .ok "" :=
      toUtf8String_eq_ok.mpr ((Utf8.encode_eq_nil.mpr rfl).trans h.symm)
    rw [htext]
    rfl

/-- **The direct call** lists the origin. -/
theorem setNode_eq_ok :
    setNode st parser answers wallet domain = .ok (st', ev) ↔
      ∃ o, parser.origin domain = some o ∧ st.nodeOf wallet.account.address = [] ∧
        Utf8.encode o ≠ [] ∧ st.uniqueDomains (Utf8.encode o) = false ∧
        st' = st.storeNode wallet.account.address (Utf8.encode o) ∧
        ev = [.operatorUpdate wallet.account.address (Utf8.encode o)] := by
  unfold setNode
  cases horigin : parser.origin domain with
  | none => exact ⟨fun h => (by cases h), fun ⟨_, h, _⟩ => (by cases h)⟩
  | some o =>
      dsimp only
      rw [bind_eq_ok]
      refine ⟨fun h => ?_, fun h => ?_⟩
      · obtain ⟨⟨⟩, hfree, h⟩ := h
        exact ⟨o, rfl, checkForExistingNode_eq_ok.mp hfree,
          OcnRegistry.setNodeInternal_eq_ok.mp (ofContract_eq_ok.mp h)⟩
      · obtain ⟨o', e, hfree, h⟩ := h
        cases e
        exact ⟨(), checkForExistingNode_eq_ok.mpr hfree,
          ofContract_eq_ok.mpr (OcnRegistry.setNodeInternal_eq_ok.mpr h)⟩

/-- Whom the contract takes for the signer of what the client packed. -/
def rawSigner (wallet : Wallet X) (domain : String) (packed : Bytes) : Address :=
  let sig := wallet.signMessage (X.keccak256 (packAddress wallet.account.address ++ packed))
  OcnRegistry.setNodeSigner X wallet.account.address (Utf8.encode domain) sig.1 sig.2.1 sig.2.2

/-- **The raw call** lists the text, for whoever the signature recovers to. -/
theorem setNodeRaw_eq_ok :
    setNodeRaw st P answers spender wallet domain = .ok (st', ev) ↔
      ∃ packed, P.pack domain = some packed ∧ st.nodeOf wallet.account.address = [] ∧
        Utf8.encode domain ≠ [] ∧ st.uniqueDomains (Utf8.encode domain) = false ∧
        st' = st.storeNode (rawSigner wallet domain packed) (Utf8.encode domain) ∧
        ev = [.operatorUpdate (rawSigner wallet domain packed) (Utf8.encode domain)] := by
  unfold setNodeRaw signSetNodeRaw
  rw [bind_eq_ok]
  cases hpack : P.pack domain with
  | none =>
      refine ⟨fun h => ?_, fun ⟨_, h, _⟩ => (by cases h)⟩
      obtain ⟨_, _, h⟩ := h
      cases h
  | some packed =>
      refine ⟨fun h => ?_, fun h => ?_⟩
      · obtain ⟨⟨⟩, hfree, h⟩ := h
        obtain ⟨_, hsig, h⟩ := bind_eq_ok.mp h
        cases hsig
        exact ⟨packed, rfl, checkForExistingNode_eq_ok.mp hfree,
          OcnRegistry.setNodeInternal_eq_ok.mp (ofContract_eq_ok.mp h)⟩
      · obtain ⟨packed', e, hfree, h⟩ := h
        cases e
        exact ⟨(), checkForExistingNode_eq_ok.mpr hfree, bind_eq_ok.mpr ⟨_, rfl,
          ofContract_eq_ok.mpr (OcnRegistry.setNodeInternal_eq_ok.mpr h)⟩⟩

/-! ## 2. Origins -/

/-- An origin has a character that no numeral has. -/
theorem origin_ordinary (h : parser.origin domain = some o) :
    ∃ c ∈ o.toList, c ∉ numeralChars := by
  rcases parser.shape domain o h with rfl | ⟨scheme, host, rfl⟩
  · exact ⟨'n', by decide, by decide⟩
  · refine ⟨':', ?_, by decide⟩
    rw [String.toList_append, String.toList_append]
    exact List.mem_append_left _ (List.mem_append_right _ (by decide))

theorem origin_ne_empty (h : parser.origin domain = some o) : Utf8.encode o ≠ [] := by
  intro hnone
  obtain ⟨c, hc, _⟩ := origin_ordinary h
  rw [Utf8.encode_eq_nil.mp hnone] at hc
  exact absurd hc List.not_mem_nil

/-- **What the contract packs the wallet signed**, if the text was packed as its bytes. -/
theorem rawSigner_of_packed : rawSigner wallet domain (Utf8.encode domain) =
    wallet.account.address := wallet.recovers _

/-- A text that is its own origin is packed as its bytes. -/
theorem pack_of_origin (h : parser.origin domain = some domain) :
    P.pack domain = some (Utf8.encode domain) :=
  P.ordinary domain (origin_ordinary h) (parser.noNul domain domain h)

/-! ## 3. When both do the same -/

/-- The direct call fails on any wallet: the text is no URL, or its origin is reserved. -/
def DirectRefused (st : OcnRegistry) (parser : UrlParser) (domain : String) : Prop :=
  parser.origin domain = none ∨
    ∃ o, parser.origin domain = some o ∧ st.uniqueDomains (Utf8.encode o) = true

/-- The raw call fails on any wallet: the text is empty, cannot be packed, or is reserved. -/
def RawRefused (st : OcnRegistry) (P : SolidityPacking) (domain : String) : Prop :=
  domain = "" ∨ P.pack domain = none ∨ st.uniqueDomains (Utf8.encode domain) = true

theorem setNode_accepts :
    (∃ r, setNode st parser answers wallet domain = .ok r) ↔
      st.nodeOf wallet.account.address = [] ∧ ¬ DirectRefused st parser domain := by
  refine ⟨fun h => ?_, fun h => ?_⟩
  · obtain ⟨⟨st', ev⟩, h⟩ := h
    obtain ⟨o, horigin, hfree, _, hunused, _⟩ := setNode_eq_ok.mp h
    refine ⟨hfree, fun hrefused => ?_⟩
    rcases hrefused with hnone | ⟨o', horigin', hused⟩
    · rw [horigin] at hnone
      cases hnone
    · cases horigin.symm.trans horigin'
      rw [hunused] at hused
      cases hused
  · obtain ⟨hfree, hopen⟩ := h
    cases horigin : parser.origin domain with
    | none => exact absurd (Or.inl horigin) hopen
    | some o =>
        have hunused : st.uniqueDomains (Utf8.encode o) = false :=
          Bool.eq_false_iff.mpr fun hused => hopen (Or.inr ⟨o, horigin, hused⟩)
        exact ⟨(_, _), setNode_eq_ok.mpr
          ⟨o, horigin, hfree, origin_ne_empty horigin, hunused, rfl, rfl⟩⟩

theorem setNodeRaw_accepts :
    (∃ r, setNodeRaw st P answers spender wallet domain = .ok r) ↔
      st.nodeOf wallet.account.address = [] ∧ ¬ RawRefused st P domain := by
  refine ⟨fun h => ?_, fun h => ?_⟩
  · obtain ⟨⟨st', ev⟩, h⟩ := h
    obtain ⟨packed, hpack, hfree, hne, hunused, _⟩ := setNodeRaw_eq_ok.mp h
    refine ⟨hfree, fun hrefused => ?_⟩
    rcases hrefused with hempty | hnone | hused
    · exact hne (Utf8.encode_eq_nil.mpr hempty)
    · rw [hpack] at hnone
      cases hnone
    · rw [hunused] at hused
      cases hused
  · obtain ⟨hfree, hopen⟩ := h
    cases hpack : P.pack domain with
    | none => exact absurd (Or.inr (Or.inl hpack)) hopen
    | some packed =>
        have hne : Utf8.encode domain ≠ [] := fun h => hopen (Or.inl (Utf8.encode_eq_nil.mp h))
        have hunused : st.uniqueDomains (Utf8.encode domain) = false :=
          Bool.eq_false_iff.mpr fun hused => hopen (Or.inr (Or.inr hused))
        exact ⟨(_, _), setNodeRaw_eq_ok.mpr ⟨packed, hpack, hfree, hne, hunused, rfl, rfl⟩⟩

theorem sameListing_of_failed {a : Address} {x y : Except ClientError (Outcome OcnRegistry Event)}
    (hx : ¬ ∃ r, x = .ok r) (hy : ¬ ∃ r, y = .ok r) : SameListing a x y := by
  cases x with
  | ok r => exact absurd ⟨r, rfl⟩ hx
  | error e =>
      cases y with
      | ok r => exact absurd ⟨r, rfl⟩ hy
      | error e' => exact .failed e e'

/-- **Two successful calls** reserve the same domains only if the text is its own origin. -/
theorem origin_of_sameListing {r r' : Outcome OcnRegistry Event}
    (hdirect : setNode st parser answers wallet domain = .ok r)
    (hraw : setNodeRaw st P answers spender wallet domain = .ok r')
    (hdomains : ∀ d, r.1.uniqueDomains d = true ↔ r'.1.uniqueDomains d = true) :
    parser.origin domain = some domain := by
  obtain ⟨o, horigin, _, _, hunused, hst, _⟩ := setNode_eq_ok.mp hdirect
  obtain ⟨packed, _, _, _, _, hst', _⟩ := setNodeRaw_eq_ok.mp hraw
  have hboth := (hdomains (Utf8.encode o)).mp (by
    rw [hst, OcnRegistry.storeNode_uniqueDomains, Function.update_self])
  have hsame : Utf8.encode o = Utf8.encode domain := by
    refine Classical.byContradiction fun hne => ?_
    rw [hst', OcnRegistry.storeNode_uniqueDomains, Function.update_of_ne hne, hunused] at hboth
    cases hboth
  rw [horigin, Utf8.encode_injective hsame]

/-- A text that is its own origin is listed the same way by both, or by neither. -/
theorem sameListing_of_origin (h : parser.origin domain = some domain) :
    SameListing wallet.account.address (setNode st parser answers wallet domain)
      (setNodeRaw st P answers spender wallet domain) := by
  by_cases hok : st.nodeOf wallet.account.address = [] ∧
      st.uniqueDomains (Utf8.encode domain) = false
  · obtain ⟨hfree, hunused⟩ := hok
    have hne := origin_ne_empty h
    have hdirect : setNode st parser answers wallet domain = .ok (_, _) :=
      setNode_eq_ok.mpr ⟨domain, h, hfree, hne, hunused, rfl, rfl⟩
    have hraw : setNodeRaw st P answers spender wallet domain = .ok (_, _) :=
      setNodeRaw_eq_ok.mpr ⟨_, pack_of_origin h, hfree, hne, hunused, rfl, rfl⟩
    rw [hdirect, hraw, rawSigner_of_packed]
    exact .listed _ _ _ _ rfl fun _ => Iff.rfl
  · refine sameListing_of_failed (fun hr => hok ?_) fun hr => hok ?_
    · obtain ⟨hfree, hopen⟩ := setNode_accepts.mp hr
      exact ⟨hfree, Bool.eq_false_iff.mpr fun hused => hopen (Or.inr ⟨domain, h, hused⟩)⟩
    · obtain ⟨hfree, hopen⟩ := setNodeRaw_accepts.mp hr
      exact ⟨hfree, Bool.eq_false_iff.mpr fun hused => hopen (Or.inr (Or.inr hused))⟩

end Listing

end Client

namespace Sample

/-- A URL parser that knows one site, with and without the slash. -/
def urlParser : Client.UrlParser where
  origin := fun domain =>
    if domain = "https://node.ocn.org/" ∨ domain = "https://node.ocn.org" then
      some "https://node.ocn.org"
    else none
  shape := by
    intro domain o h
    split at h
    · exact Or.inr ⟨"https", "node.ocn.org", (Option.some.inj h).symm⟩
    · cases h
  noNul := by
    intro domain o h
    split at h
    · rw [← Option.some.inj h]
      decide
    · cases h

/-- Every text is packed as its bytes. -/
def packing : Client.SolidityPacking :=
  ⟨fun text => some (Utf8.encode text), fun _ _ _ => rfl⟩

/-- Every signature with `v = 27` is the operator's. -/
def operatorCrypto : Crypto :=
  { crypto [] with ecrecover := fun _ v _ _ => if v = 27 then operator.address else 0 }

def operatorWallet : Client.Wallet operatorCrypto :=
  ⟨operator, fun _ => (27, 0, 0), fun _ => rfl⟩

end Sample

/-- **A trailing slash**: `https://node.ocn.org/`, listed directly, is `https://node.ocn.org`, and
    listed by a raw call it is `https://node.ocn.org/`. -/
theorem trailing_slash_differs :
    let st := Sample.deployment.start
    let direct := Client.setNode st Sample.urlParser Sample.external Sample.operatorWallet
      "https://node.ocn.org/"
    let raw := Client.setNodeRaw st Sample.packing Sample.external Sample.stranger
      Sample.operatorWallet "https://node.ocn.org/"
    direct.map (fun r => r.1.nodeOf Sample.operator.address) = .ok (utf8 "https://node.ocn.org") ∧
      raw.map (fun r => r.1.nodeOf Sample.operator.address) = .ok (utf8 "https://node.ocn.org/") ∧
      ¬ Client.SameListing Sample.operator.address direct raw := by
  intro st direct raw
  have hdirect : direct.map (fun r => r.1.nodeOf Sample.operator.address) =
      .ok (utf8 "https://node.ocn.org") := by decide +kernel
  have hraw : raw.map (fun r => r.1.nodeOf Sample.operator.address) =
      .ok (utf8 "https://node.ocn.org/") := by decide +kernel
  refine ⟨hdirect, hraw, fun h => ?_⟩
  generalize direct = x, raw = y at h hdirect hraw
  cases h with
  | failed => cases hdirect
  | listed st₁ st₂ _ _ hnode =>
      have hsame : utf8 "https://node.ocn.org" = utf8 "https://node.ocn.org/" :=
        (Except.ok.inj hdirect).symm.trans (hnode.trans (Except.ok.inj hraw))
      exact absurd hsame (by decide +kernel)

/-- **When both calls do the same**: for every state, wallet, spender and text, the direct call and
    the raw call both fail, or leave the same node for the wallet and the same reserved domains,
    exactly when the wallet has a node already, the text is its own origin, or the direct call is
    refused (no URL, or a reserved origin) and so is the raw one (an empty text, one that cannot be
    packed, or a reserved one). -/
theorem registrations_agree_iff {X : Crypto} (st : OcnRegistry) (parser : Client.UrlParser)
    (P : Client.SolidityPacking) (answers : External) (spender : Account)
    (wallet : Client.Wallet X) (domain : String) :
    Client.SameListing wallet.account.address
        (Client.setNode st parser answers wallet domain)
        (Client.setNodeRaw st P answers spender wallet domain) ↔
      st.nodeOf wallet.account.address ≠ [] ∨ parser.origin domain = some domain ∨
        (Client.DirectRefused st parser domain ∧ Client.RawRefused st P domain) := by
  refine ⟨fun h => ?_, fun h => ?_⟩
  · by_cases hfree : st.nodeOf wallet.account.address = []
    · refine Or.inr ?_
      generalize hx : Client.setNode st parser answers wallet domain = x at h
      generalize hy : Client.setNodeRaw st P answers spender wallet domain = y at h
      cases h with
      | failed e e' =>
          refine Or.inr ⟨Classical.byContradiction fun hopen => ?_,
            Classical.byContradiction fun hopen => ?_⟩
          · obtain ⟨r, hr⟩ := Client.setNode_accepts.mpr ⟨hfree, hopen⟩
            cases hx.symm.trans hr
          · obtain ⟨r, hr⟩ := Client.setNodeRaw_accepts.mpr ⟨hfree, hopen⟩
            cases hy.symm.trans hr
      | listed st₁ st₂ _ _ _ hdomains =>
          exact Or.inl (Client.origin_of_sameListing hx hy hdomains)
    · exact Or.inl hfree
  · rcases h with hnode | horigin | ⟨hdirect, hraw⟩
    · exact Client.sameListing_of_failed (fun hr => hnode (Client.setNode_accepts.mp hr).1)
        fun hr => hnode (Client.setNodeRaw_accepts.mp hr).1
    · exact Client.sameListing_of_origin horigin
    · exact Client.sameListing_of_failed (fun hr => (Client.setNode_accepts.mp hr).2 hdirect)
        fun hr => (Client.setNodeRaw_accepts.mp hr).2 hraw

end Ocn

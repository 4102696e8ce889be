/-
  File:      OcnRegistry/Indexer/Mirror.lean
  Subject:   THE MIRROR: does the subgraph show the nodes and the parties of the registry?

  An operator's entity is made by its first `OperatorUpdate`, and every change of its node is
  another one. A party is listed only under an operator with a node, so `handlePartyUpdate` always
  finds the operator's entity and never writes its placeholder. Party entities are kept by key, not
  by address: the contract lets nobody take a key that is in use, so an entity is overwritten by its
  own party only.

  * `operatorsMirrored_run` -- in every run, operator entities are the flagged operators with their
    nodes;
  * `unknown_is_a_domain` -- so an entity has the domain `unknown` when its operator set that, and
    shows a domain that is no text as another;
  * `listings_mirrored` -- where keys are plain and no owner is zero, the entity of a registered
    party says what its record says.
-/
import OcnRegistry.Client.Nodes
import OcnRegistry.Indexer.Run

namespace Ocn

open Transaction Packed

namespace OcnRegistry

/-- An operator's flag stays. -/
theorem flagged_run {X : Crypto} {st : OcnRegistry} {operator : Address} (ts : List Tx)
    (h : st.uniqueOperators operator = true) :
    ((machine X).run st ts).uniqueOperators operator = true := by
  refine Machine.run_invariant_all (M := machine X)
    (I := fun st => st.uniqueOperators operator = true) (fun st t st' ev hflag hok => ?_) ts h
  cases change_of_exec hok with
  | nodeSet op =>
      show Function.update st.uniqueOperators op true operator = true
      by_cases e : operator = op
      · rw [e, Function.update_self]
      · rw [Function.update_of_ne e]
        exact hflag
  | nodeDeleted => exact hflag
  | partySet => exact hflag
  | partyDeleted => exact hflag
  | membersSet => exact hflag
  | validatorSet => exact hflag

/-- Setting a node sets the flag. -/
theorem flagged_of_setsNode {X : Crypto} {st : OcnRegistry} {t : Tx} {operator : Address}
    {domain : Bytes} (hask : SetsNode X t operator domain) (hacc : (machine X).Accepts st t) :
    ((machine X).step st t).uniqueOperators operator = true := by
  obtain ⟨⟨st', ev⟩, hok⟩ := hacc
  have hset : st.setNodeInternal operator domain = .ok (st', ev) := by
    have hexec : exec X st t = .ok (st', ev) := hok
    unfold exec at hexec
    cases hask with
    | direct hcall => rwa [hcall] at hexec
    | raw hcall => rwa [hcall] at hexec
  obtain ⟨_, _, rfl, _⟩ := setNodeInternal_eq_ok.mp hset
  rw [Machine.step_ok hok]
  exact Function.update_self ..

/-- An operator that ever set a node has its flag at the end of the run. -/
theorem flagged_of_ever_set {X : Crypto} {st : OcnRegistry} {pre post : List Tx} {t : Tx}
    {operator : Address} {domain : Bytes} (hask : SetsNode X t operator domain)
    (hacc : (machine X).Accepts ((machine X).run st pre) t) :
    ((machine X).run st (pre ++ t :: post)).uniqueOperators operator = true := by
  rw [Machine.run_append, Machine.run_cons]
  exact flagged_run post (flagged_of_setsNode hask hacc)

end OcnRegistry

namespace Indexer

/-! ## 1. Operators -/

section Operators

variable {B : LossyUtf8} {X : Crypto} {s : Indexed} {t : MinedTx} {st' : OcnRegistry}
  {g' : Subgraph} {operator : Address} {domain : Bytes}

/-- **The operator entities are the flagged operators with their nodes.** -/
structure OperatorsMirrored (B : LossyUtf8) (s : Indexed) : Prop where
  entity : ∀ operator, s.subgraph.operators (toHexString operator) =
    if s.registry.uniqueOperators operator then
      some ⟨toHexString operator, B.text (s.registry.nodeOf operator)⟩
    else none
  known : ∀ id o, s.subgraph.operators id = some o → ∃ operator, id = toHexString operator

/-- A node and the operator's entity, written together. -/
theorem OperatorsMirrored.write (hM : OperatorsMirrored B s)
    (hflag : st'.uniqueOperators = Function.update s.registry.uniqueOperators operator true)
    (hnode : st'.nodeOf = Function.update s.registry.nodeOf operator domain)
    (hg : g'.operators = Function.update s.subgraph.operators (toHexString operator)
      (some ⟨toHexString operator, B.text domain⟩)) : OperatorsMirrored B ⟨st', g'⟩ where
  entity := by
    intro op
    dsimp only
    rw [hg, hflag, hnode]
    by_cases e : op = operator
    · subst e
      rw [Function.update_self, Function.update_self, Function.update_self, if_pos rfl]
    · rw [Function.update_of_ne (toHexString_injective.ne e), Function.update_of_ne e,
        Function.update_of_ne e]
      exact hM.entity op
  known := by
    intro id o ho
    dsimp only at ho
    rw [hg] at ho
    by_cases e : id = toHexString operator
    · exact ⟨operator, e⟩
    · rw [Function.update_of_ne e] at ho
      exact hM.known id o ho

theorem OperatorsMirrored.congr (hM : OperatorsMirrored B s)
    (hflag : st'.uniqueOperators = s.registry.uniqueOperators)
    (hnode : st'.nodeOf = s.registry.nodeOf) (hg : g'.operators = s.subgraph.operators) :
    OperatorsMirrored B ⟨st', g'⟩ where
  entity := by
    dsimp only
    rw [hg, hflag, hnode]
    exact hM.entity
  known := by
    dsimp only
    rw [hg]
    exact hM.known

/-- An operator with a node has an entity, which says its node. -/
theorem OperatorsMirrored.entity_of_node (hM : OperatorsMirrored B s)
    (hlist : s.registry.NodeListSound) (hnode : s.registry.nodeOf operator ≠ []) :
    s.subgraph.operators (toHexString operator) =
      some ⟨toHexString operator, B.text (s.registry.nodeOf operator)⟩ := by
  rw [hM.entity, if_pos (hlist.flagged operator hnode)]

/-- **One step.** -/
theorem operatorsMirrored_step (hlist : s.registry.NodeListSound) (hids : IdsKept s.subgraph)
    (hM : OperatorsMirrored B s) : OperatorsMirrored B ((machine B X).step s t) := by
  refine Machine.step_preserves (M := machine B X) hM fun s' logs hok => ?_
  obtain ⟨registry, ev, hchange, rfl, _⟩ := exec_eq_ok.mp hok
  cases hchange with
  | nodeSet operator domain =>
      exact hM.write rfl rfl (handleOperatorUpdate_operators hids operator domain)
  | nodeDeleted operator _ hnode =>
      refine hM.write ?_ rfl (handleOperatorUpdate_operators hids operator [])
      -- the flag was set with the node that is deleted now
      show s.registry.uniqueOperators = _
      rw [← hlist.flagged operator hnode, Function.update_eq_self]
  | partySet countryCode partyId roles operator name url owner verifiedRoles status _ hadmits =>
      refine hM.congr rfl rfl (handlePartyUpdate_operators.trans ?_)
      rw [hM.entity_of_node hlist hadmits.node]
  | partyDeleted party => exact hM.congr rfl rfl handlePartyDelete_operators
  | membersSet members ev hask => exact hM.congr rfl rfl (feed_members _ hask).1
  | validatorSet => exact hM.congr rfl rfl rfl

end Operators

/-! ## 2. Parties -/

section Parties

variable {B : LossyUtf8} {X : Crypto} {s : Indexed} {t : MinedTx}

/-- The id of a registered party's entity. -/
def entityIdOf (B : LossyUtf8) (st : OcnRegistry) (a : Address) : String :=
  partyEntityId B (st.partyOf a).countryCode (st.partyOf a).partyId

/-- The entity says what the registry says of the party. -/
structure Shows (B : LossyUtf8) (st : OcnRegistry) (a : Address) (party : Party) : Prop where
  partyAddress : party.partyAddress = toHexString a
  roles : party.roles = (st.partyOf a).roles.map Client.roleName
  name : party.name = B.text (st.partyOf a).name
  url : party.url = B.text (st.partyOf a).url
  operator : party.operator = toHexString (st.operatorOf a)

/-- **The party is mirrored**: its key is plain, and the entity under it shows the party. -/
structure Mirrored (B : LossyUtf8) (s : Indexed) (a : Address) : Prop where
  plain : PlainKey (s.registry.partyOf a).countryCode (s.registry.partyOf a).partyId
  entity : ∃ party, s.subgraph.parties (entityIdOf B s.registry a) = some party ∧
    Shows B s.registry a party

/-- A party stays mirrored while its record and its entity stay. -/
theorem Mirrored.frame {s' : Indexed} {a : Address} (hM : Mirrored B s a)
    (hrecord : s'.registry.partyOf a = s.registry.partyOf a)
    (hoperator : s'.registry.operatorOf a = s.registry.operatorOf a)
    (hentity : s'.subgraph.parties (entityIdOf B s.registry a) =
      s.subgraph.parties (entityIdOf B s.registry a)) : Mirrored B s' a := by
  obtain ⟨hplain, party, hparty, hshows⟩ := hM
  have hid : entityIdOf B s'.registry a = entityIdOf B s.registry a := by
    unfold entityIdOf
    rw [hrecord]
  refine ⟨hrecord ▸ hplain, party, ?_, hshows.partyAddress, ?_, ?_, ?_, ?_⟩
  · rw [hid, hentity]
    exact hparty
  · rw [hrecord]
    exact hshows.roles
  · rw [hrecord]
    exact hshows.name
  · rw [hrecord]
    exact hshows.url
  · rw [hoperator]
    exact hshows.operator

theorem getRole_roleNumber (role : Role) : getRole (roleNumber role) = Client.roleName role := by
  cases role <;> rfl

/-- The owner of a registration is mirrored right after it. -/
theorem mirrored_owner {countryCode : Bytes2} {partyId : Bytes3} {name url : Bytes}
    {operator owner : Address} {verifiedRoles : List Role} {status : PaymentStatus} {s' : Indexed}
    (hkey : PlainKey countryCode partyId)
    (hregistry : s'.registry = s.registry.storeParty owner
      (s.registry.newDetails countryCode partyId owner verifiedRoles name url status) operator)
    (hparties : s'.subgraph.parties =
      Function.update s.subgraph.parties (partyEntityId B countryCode partyId)
        (some (updatedParty B s.subgraph countryCode partyId owner verifiedRoles name url status
          .notVerified true operator))) : Mirrored B s' owner := by
  have hrecord : s'.registry.partyOf owner =
      s.registry.newDetails countryCode partyId owner verifiedRoles name url status := by
    rw [hregistry, OcnRegistry.storeParty_partyOf, Function.update_self]
  have hoperator : s'.registry.operatorOf owner = operator := by
    rw [hregistry, OcnRegistry.storeParty_operatorOf, Function.update_self]
  have hid : entityIdOf B s'.registry owner = partyEntityId B countryCode partyId := by
    unfold entityIdOf
    rw [hrecord]
    rfl
  refine ⟨hrecord ▸ hkey, updatedParty B s.subgraph countryCode partyId owner verifiedRoles name url
    status .notVerified true operator, ?_, rfl, ?_, ?_, ?_, ?_⟩
  · rw [hid, hparties, Function.update_self]
  · rw [hrecord]
    exact List.map_congr_left fun role _ => getRole_roleNumber role
  · rw [hrecord]
    rfl
  · rw [hrecord]
    rfl
  · rw [hoperator]
    rfl

/-- Whoever the transaction registers is not the zero address and has a plain key. -/
def RegistersPlainly (st : OcnRegistry) (t : Tx) : Prop :=
  ∀ owner countryCode partyId operator,
    OcnRegistry.SetsParty st t owner countryCode partyId operator →
      owner ≠ 0 ∧ PlainKey countryCode partyId

theorem RegistersPlainly.not_registersZero {st : OcnRegistry} {t : Tx}
    (h : RegistersPlainly st t) : ¬ OcnRegistry.RegistersZero st t := by
  intro hz
  obtain ⟨countryCode, partyId, operator, hset⟩ := hz
  exact (h 0 countryCode partyId operator hset).1 rfl

/-- **One step**: a registration writes the party's own entity, and no transaction writes the entity
    of another registered party. -/
theorem mirrored_step (hsound : s.registry.PartiesSound) (harray : s.registry.ArraySound)
    (hids : IdsKept s.subgraph) (hplain : RegistersPlainly s.registry t.tx)
    (hM : ∀ a, s.registry.Registered a → Mirrored B s a) (a : Address)
    (hr : ((machine B X).step s t).registry.Registered a) :
    Mirrored B ((machine B X).step s t) a := by
  cases partyStep (B := B) (X := X) (t := t) harray hids with
  | set countryCode partyId name url operator owner verifiedRoles status hset hregistry hparties =>
      obtain ⟨_, hkey⟩ := hplain owner countryCode partyId operator hset
      by_cases e : a = owner
      · rw [e]
        exact mirrored_owner hkey hregistry hparties
      rw [hregistry, OcnRegistry.registered_storeParty_ne e] at hr
      -- the key was free for the owner, so it is not the key of `a`
      have hne : s.registry.keyOf a ≠ (countryCode, partyId) :=
        hsound.keys.key_ne (k := (countryCode, partyId)) hset.free
          (OcnRegistry.live_keyIndex.mpr hr) e
      have hid : entityIdOf B s.registry a ≠ partyEntityId B countryCode partyId :=
        fun he => hne ((partyEntityId_eq_iff hkey).mp he)
      refine (hM a hr).frame ?_ ?_ ?_
      · rw [hregistry, OcnRegistry.storeParty_partyOf, Function.update_of_ne e]
      · rw [hregistry, OcnRegistry.storeParty_operatorOf, Function.update_of_ne e]
      · rw [hparties, Function.update_of_ne hid]
  | removed party hdel hregistry hparties =>
      rw [hregistry] at hr
      have e : a ≠ party := fun e => OcnRegistry.not_registered_clearParty party (e ▸ hr)
      rw [OcnRegistry.registered_clearParty_ne e] at hr
      refine (hM a hr).frame ?_ ?_ (hparties _ _ (hM a hr).plain)
      · rw [hregistry, OcnRegistry.clearParty_partyOf, Function.update_of_ne e]
      · rw [hregistry, OcnRegistry.clearParty_operatorOf, Function.update_of_ne e]
  | same _ _ hregistry hparties =>
      unfold OcnRegistry.Registered at hr
      rw [hregistry.operatorOf] at hr
      refine (hM a hr).frame ?_ ?_ ?_
      · rw [hregistry.partyOf]
      · rw [hregistry.operatorOf]
      · rw [hparties]

end Parties

/-! ## 3. Runs -/

theorem operatorsMirrored_start (B : LossyUtf8) (D : Deployment) :
    OperatorsMirrored B ⟨D.start, Subgraph.empty⟩ :=
  ⟨fun _ => rfl, fun _ _ h => (by cases h)⟩

/-- **In every run** the operator entities are the flagged operators with their nodes. -/
theorem operatorsMirrored_run (B : LossyUtf8) (X : Crypto) (D : Deployment) (ts : List MinedTx) :
    OperatorsMirrored B (run B X D ts) := by
  have hstep (s : Indexed) (t : MinedTx)
      (h : s.registry.NodeListSound ∧ IdsKept s.subgraph ∧ OperatorsMirrored B s) :
      ((machine B X).step s t).registry.NodeListSound ∧
        IdsKept ((machine B X).step s t).subgraph ∧
        OperatorsMirrored B ((machine B X).step s t) := by
    obtain ⟨hlist, hids, hM⟩ := h
    exact ⟨registry_keeps hlist fun _ _ hok => OcnRegistry.nodeListSound_exec hlist hok,
      idsKept_step hids, operatorsMirrored_step hlist hids hM⟩
  have hstart : D.start.NodeListSound ∧ IdsKept Subgraph.empty ∧
      OperatorsMirrored B ⟨D.start, Subgraph.empty⟩ :=
    ⟨OcnRegistry.nodeListSound_start D, idsKept_empty, operatorsMirrored_start B D⟩
  exact (Machine.run_invariant_of_step (M := machine B X) (C := fun _ _ => True)
    (fun s t h _ => hstep s t h) (Machine.along_of_forall fun _ _ _ => trivial) hstart).2.2

/-- **In every run of plain registrations** every registered party is mirrored. -/
theorem mirrored_run {B : LossyUtf8} {X : Crypto} {D : Deployment} {ts : List MinedTx}
    (h : (OcnRegistry.machine X).Along RegistersPlainly D.start (ts.map (·.tx))) :
    ∀ a, (run B X D ts).registry.Registered a → Mirrored B (run B X D ts) a := by
  have hstep (s : Indexed) (t : MinedTx)
      (h : s.registry.PartiesSound ∧ Sound s ∧ ∀ a, s.registry.Registered a → Mirrored B s a)
      (hplain : RegistersPlainly s.registry t.tx) :
      ((machine B X).step s t).registry.PartiesSound ∧ Sound ((machine B X).step s t) ∧
        ∀ a, ((machine B X).step s t).registry.Registered a →
          Mirrored B ((machine B X).step s t) a := by
    obtain ⟨hparties, hsound, hM⟩ := h
    have hz := hplain.not_registersZero
    exact ⟨registry_keeps hparties fun _ _ hok => OcnRegistry.partiesSound_step hparties hz hok,
      sound_step hsound, mirrored_step hparties hsound.array hsound.ids hplain hM⟩
  exact (Machine.run_invariant_of_step (M := machine B X) hstep
    ((along_registry ⟨D.start, Subgraph.empty⟩ ts).mpr h)
    ⟨OcnRegistry.partiesSound_start D, sound_start D,
      fun a ha => absurd ha (OcnRegistry.not_registered_start D a)⟩).2.2

/-- An operator sets this domain and nothing else happens. -/
def setsOnly (domain : Bytes) : List MinedTx :=
  [Sample.mined (Sample.tx Sample.operator (.setNode domain))]

theorem setsOnly_plain (X : Crypto) (domain : Bytes) : (OcnRegistry.machine X).Along
    RegistersPlainly Sample.deployment.start ((setsOnly domain).map (·.tx)) := by
  refine ⟨fun owner countryCode partyId operator hset => ?_, trivial⟩
  obtain ⟨_, _, _, _, _, hcall, _⟩ := hset
  cases hcall

/-- **An operator may call its node so**: an operator that sets the domain `unknown` has an entity
    with that domain, and one whose domain is no text has an entity with another. -/
theorem unknown_is_a_domain :
    let X := Sample.crypto []
    let shown := fun domain => (run Sample.lossyUtf8 X Sample.deployment (setsOnly domain)).subgraph
    let nodeOf := fun domain =>
      (Sample.deployment.run X ((setsOnly domain).map (·.tx))).nodeOf Sample.operator.address
    ((OcnRegistry.machine X).Along RegistersPlainly Sample.deployment.start
        ((setsOnly (utf8 "unknown")).map (·.tx)) ∧
      ¬ ∀ id o, (shown (utf8 "unknown")).operators id = some o → o.domain ≠ "unknown") ∧
    (OcnRegistry.machine X).Along RegistersPlainly Sample.deployment.start
        ((setsOnly [0xFF, 0x41]).map (·.tx)) ∧
      ¬ ∀ o, (shown [0xFF, 0x41]).operators (toHexString Sample.operator.address) = some o →
        Utf8.encode o.domain = nodeOf [0xFF, 0x41] := by
  intro X shown nodeOf
  have hM := fun domain => (operatorsMirrored_run Sample.lossyUtf8 X Sample.deployment
    (setsOnly domain)).entity Sample.operator.address
  refine ⟨⟨setsOnly_plain X _, fun h => ?_⟩, setsOnly_plain X _, fun h => ?_⟩
  · have hentity := hM (utf8 "unknown")
    rw [run_registry, if_pos (by decide +kernel)] at hentity
    exact h _ _ hentity (by decide +kernel)
  · have hentity := hM [0xFF, 0x41]
    rw [run_registry, if_pos (by decide +kernel)] at hentity
    exact absurd (h _ hentity) (by decide +kernel)

/-- **The subgraph mirrors nodes and listings**: in every run that registers plain keys for owners
    other than zero, every operator that ever set a node has an entity; the domain of every operator
    entity is the node of its operator; and every registered party has an entity under its key, with
    its address, its roles, name, url and operator. Domains, names and urls are as the subgraph
    decodes them, and are the contract's where those are texts without NUL characters. -/
theorem listings_mirrored (B : LossyUtf8) (X : Crypto) (D : Deployment) (ts : List MinedTx)
    (h : (OcnRegistry.machine X).Along RegistersPlainly D.start (ts.map (·.tx))) :
    (∀ pre t post operator domain, ts = pre ++ t :: post →
      OcnRegistry.SetsNode X t.tx operator domain →
      (OcnRegistry.machine X).Accepts (D.run X (pre.map (·.tx))) t.tx →
      ∃ o, (run B X D ts).subgraph.operators (toHexString operator) = some o ∧
        o.domain = B.text ((D.run X (ts.map (·.tx))).nodeOf operator)) ∧
    (∀ id o, (run B X D ts).subgraph.operators id = some o →
      ∃ operator, id = toHexString operator ∧
        o.domain = B.text ((D.run X (ts.map (·.tx))).nodeOf operator)) ∧
    (∀ a, (D.run X (ts.map (·.tx))).Registered a → ∃ countryCode partyId party,
      Utf8.encode countryCode = wordBytes 2 ((D.run X (ts.map (·.tx))).partyOf a).countryCode ∧
      Utf8.encode partyId = wordBytes 3 ((D.run X (ts.map (·.tx))).partyOf a).partyId ∧
      (run B X D ts).subgraph.parties (countryCode ++ "/" ++ partyId) = some party ∧
      party.partyAddress = toHexString a ∧
      party.roles = ((D.run X (ts.map (·.tx))).partyOf a).roles.map Client.roleName ∧
      party.name = B.text ((D.run X (ts.map (·.tx))).partyOf a).name ∧
      party.url = B.text ((D.run X (ts.map (·.tx))).partyOf a).url ∧
      party.operator = toHexString ((D.run X (ts.map (·.tx))).operatorOf a)) ∧
    ∀ bytes, IsPlainText bytes → Utf8.encode (B.text bytes) = bytes := by
  have hM := operatorsMirrored_run B X D ts
  have hP := mirrored_run (B := B) h
  have hregistry := run_registry B X D ts
  refine ⟨fun pre t post operator domain e hask hacc => ?_, fun id o ho => ?_, fun a ha => ?_,
    fun _ htext => encode_text B htext⟩
  · have hflag : (D.run X (ts.map (·.tx))).uniqueOperators operator = true := by
      rw [e, List.map_append, List.map_cons]
      exact OcnRegistry.flagged_of_ever_set hask hacc
    refine ⟨⟨toHexString operator, B.text ((D.run X (ts.map (·.tx))).nodeOf operator)⟩, ?_, rfl⟩
    rw [hM.entity, hregistry, if_pos hflag]
  · obtain ⟨operator, rfl⟩ := hM.known id o ho
    refine ⟨operator, rfl, ?_⟩
    rw [hM.entity] at ho
    split at ho
    · rw [← Option.some.inj ho, hregistry]
    · cases ho
  · rw [← hregistry] at ha ⊢
    obtain ⟨hplain, party, hparty, hshows⟩ := hP a ha
    exact ⟨_, _, party, (toString_plain B hplain.1).1, (toString_plain B hplain.2).1, hparty,
      hshows.partyAddress, hshows.roles, hshows.name, hshows.url, hshows.operator⟩

/-- A party registered under `DE/MSP` has an entity there. -/
theorem listings_mirrored_sample :
    let ts := [Sample.mined (Sample.tx Sample.operator (.setNode Sample.domain)),
      Sample.mined (Sample.tx Sample.party (Sample.register Sample.party 0x4445 0x4D5350))]
    ∃ countryCode partyId party, Utf8.encode countryCode = wordBytes 2 0x4445 ∧
      Utf8.encode partyId = wordBytes 3 0x4D5350 ∧
      (run Sample.lossyUtf8 (Sample.crypto []) Sample.deployment ts).subgraph.parties
        (countryCode ++ "/" ++ partyId) = some party ∧
      party.partyAddress = toHexString Sample.party.address := by
  intro ts
  have hplain : (OcnRegistry.machine (Sample.crypto [])).Along RegistersPlainly
      Sample.deployment.start (ts.map (·.tx)) := by
    refine ⟨fun owner countryCode partyId operator hset => ?_,
      fun owner countryCode partyId operator hset => ⟨fun e => ?_, ?_⟩, trivial⟩
    · obtain ⟨_, _, _, _, _, hcall, _⟩ := hset
      cases hcall
    · subst e
      exact OcnRegistry.not_registersZero (OcnRegistry.sample_namesOwner _ _ _)
        ⟨countryCode, partyId, operator, hset⟩
    · obtain ⟨_, _, _, _, _, hcall, _⟩ := hset
      cases hcall
      decide
  have hkey : let st := Sample.deployment.run (Sample.crypto []) (ts.map (·.tx))
      (st.partyOf Sample.party.address).countryCode = 0x4445 ∧
        (st.partyOf Sample.party.address).partyId = 0x4D5350 := by decide +kernel
  obtain ⟨countryCode, partyId, party, hc, hp, hparty, haddress, _⟩ :=
    (listings_mirrored Sample.lossyUtf8 (Sample.crypto []) Sample.deployment ts hplain).2.2.1
      Sample.party.address (by decide +kernel)
  rw [hkey.1] at hc
  rw [hkey.2] at hp
  exact ⟨countryCode, partyId, party, hc, hp, hparty, haddress⟩

end Indexer

end Ocn

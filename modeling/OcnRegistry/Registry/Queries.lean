/-
  File:      OcnRegistry/Registry/Queries.lean
  Subject:   THE TWO FILTERS: which parties `getPartiesByRole` and `getPartiesByOperator` return.

  Both walk over the parties array, write the hits one after the other into a buffer as long as the
  array, and copy the written part. The holes of the array are walked over, too: for them the test
  reads the record of the zero address, which is blank as long as nobody registered that address.

  * `filterParties_eq_ok` -- when the loops return, and that they return the filtered array;
  * `parties_by_role` -- the parties with a role, in the order of the array, each once;
  * `holes_have_operator_zero` -- a hole has no operator either, so it is a hit for operator zero;
  * `parties_by_operator_iff` -- that is the only way: the result is the parties of an operator
    exactly when the operator is not zero or no transaction of the run deleted a party.
-/
import OcnRegistry.Registry.Slots

namespace Ocn

open Transaction

namespace OcnRegistry

/-! ## 1. The loops -/

section Loops

variable {st : OcnRegistry} {test : Address → Except Revert Bool} {p : Address → Bool}
  {rest written written' result xs : List Address} {i count c left : Nat}

/-- A hit is written at the end of the written part. -/
theorem take_drop_set (party : Address) (hcount : count < written.length) (hc : count < c) :
    (written.set count party).take (count + 1) = written.take count ++ [party] ∧
      (written.set count party).drop c = written.drop c := by
  constructor
  · rw [List.take_set, List.take_add_one, List.getElem?_eq_getElem hcount,
      List.set_append_right _ _ (by rw [List.length_take]; omega)]
    simp [Nat.min_eq_left (Nat.le_of_lt hcount)]
  · exact List.drop_set_of_lt hc

theorem writeHit_eq_ok {party : Address} :
    writeHit written count party = .ok (written', c) ↔ count < written.length ∧
      count + 1 < 2 ^ 32 ∧ written' = written.set count party ∧ c = count + 1 := by
  unfold writeHit
  rw [bind_eq_ok]
  refine ⟨fun h => ?_, fun h => ?_⟩
  · obtain ⟨w, hw, h⟩ := h
    obtain ⟨n, hn, h⟩ := bind_eq_ok.mp h
    obtain ⟨hlt, rfl⟩ := assigned_eq_ok.mp hw
    obtain ⟨hfits, rfl⟩ := checkedIncr_eq_ok.mp hn
    cases h
    exact ⟨hlt, hfits, rfl, rfl⟩
  · obtain ⟨hlt, hfits, rfl, rfl⟩ := h
    exact ⟨_, assigned_eq_ok.mpr ⟨hlt, rfl⟩,
      bind_eq_ok.mpr ⟨_, checkedIncr_eq_ok.mpr ⟨hfits, rfl⟩, rfl⟩⟩

/-- **The first loop** returns if every test does and the index fits, and then the written part has
    grown by the hits. -/
theorem filterFrom_eq_ok (hp : ∀ a b, test a = .ok b → b = p a) (hcount : count ≤ i)
    (hroom : written.length = i + rest.length) (hi : i < 2 ^ 32) :
    filterFrom test rest i written count = .ok (written', c) ↔
      (∀ a ∈ rest, test a = .ok (p a)) ∧ i + rest.length < 2 ^ 32 ∧
        c = count + (rest.filter p).length ∧
        written' = written.take count ++ rest.filter p ++ written.drop c := by
  induction rest generalizing i written count with
  | nil =>
      rw [filterFrom, List.filter_nil, List.length_nil, Nat.add_zero, Nat.add_zero, List.append_nil]
      refine ⟨fun h => ?_, fun h => ?_⟩
      · cases h
        exact ⟨fun a ha => absurd ha List.not_mem_nil, hi, rfl, (List.take_append_drop _ _).symm⟩
      · obtain ⟨_, _, rfl, rfl⟩ := h
        rw [List.take_append_drop]
  | cons party rest ih =>
      rw [List.length_cons] at hroom ⊢
      have hlt : count < written.length := by omega
      rw [filterFrom, bind_eq_ok]
      refine ⟨fun h => ?_, fun h => ?_⟩
      · obtain ⟨hit, htest, h⟩ := h
        obtain ⟨⟨w, n⟩, hround, h⟩ := bind_eq_ok.mp h
        obtain ⟨j, hj, h⟩ := bind_eq_ok.mp h
        obtain ⟨hfits, rfl⟩ := checkedIncr_eq_ok.mp hj
        have hhit := hp party hit htest
        rw [hhit] at htest hround
        cases hparty : p party with
        | true =>
            rw [hparty, if_pos rfl] at hround
            obtain ⟨_, _, rfl, rfl⟩ := writeHit_eq_ok.mp hround
            obtain ⟨htests, hlen, hc, hw'⟩ :=
              (ih (by omega) (by rw [List.length_set]; omega) hfits).mp h
            obtain ⟨htake, hdrop⟩ := take_drop_set party hlt (c := c) (by omega)
            rw [htake, hdrop] at hw'
            refine ⟨List.forall_mem_cons.mpr ⟨htest, htests⟩, by omega, ?_, ?_⟩
            · rw [List.filter_cons_of_pos hparty, List.length_cons]
              omega
            · rw [List.filter_cons_of_pos hparty, hw']
              simp
        | false =>
            rw [hparty, if_neg Bool.false_ne_true] at hround
            cases hround
            obtain ⟨htests, hlen, hc, hw'⟩ := (ih (by omega) (by omega) hfits).mp h
            refine ⟨List.forall_mem_cons.mpr ⟨htest, htests⟩, by omega, ?_, ?_⟩
            · rwa [List.filter_cons_of_neg (by simp [hparty])]
            · rwa [List.filter_cons_of_neg (by simp [hparty])]
      · obtain ⟨htests, hlen, hc, hw'⟩ := h
        obtain ⟨htest, htests⟩ := List.forall_mem_cons.mp htests
        have hfits : i + 1 < 2 ^ 32 := by omega
        refine ⟨p party, htest, bind_eq_ok.mpr ?_⟩
        cases hparty : p party with
        | true =>
            rw [List.filter_cons_of_pos hparty, List.length_cons] at hc
            rw [List.filter_cons_of_pos hparty] at hw'
            obtain ⟨htake, hdrop⟩ := take_drop_set party hlt (c := c) (by omega)
            refine ⟨(written.set count party, count + 1), ?_, bind_eq_ok.mpr
              ⟨i + 1, checkedIncr_eq_ok.mpr ⟨hfits, rfl⟩, ?_⟩⟩
            · rw [if_pos rfl]
              exact writeHit_eq_ok.mpr ⟨hlt, by omega, rfl, rfl⟩
            · refine (ih (by omega) (by rw [List.length_set]; omega) hfits).mpr
                ⟨htests, by omega, by omega, ?_⟩
              rw [htake, hdrop, hw']
              simp
        | false =>
            rw [List.filter_cons_of_neg (by simp [hparty])] at hc hw'
            refine ⟨(written, count), ?_, bind_eq_ok.mpr
              ⟨i + 1, checkedIncr_eq_ok.mpr ⟨hfits, rfl⟩, ?_⟩⟩
            · rw [if_neg Bool.false_ne_true]
            · exact (ih (by omega) (by omega) hfits).mpr ⟨htests, by omega, hc, hw'⟩

/-- **The second loop** copies, if what it copies is there and the index fits. -/
theorem copyFrom_eq (hroom : i + left ≤ xs.length) (hfits : i + left < 2 ^ 32)
    (hlen : result.length = i + left) :
    copyFrom xs left i result = .ok (result.take i ++ (xs.drop i).take left) := by
  induction left generalizing i result with
  | zero =>
      rw [copyFrom, List.take_of_length_le (by omega), List.take_zero, List.append_nil]
  | succ left ih =>
      have hi : i < xs.length := by omega
      have hir : i < result.length := by omega
      have hget : indexed xs i = .ok xs[i] := indexed_eq_ok.mpr (List.getElem?_eq_getElem hi)
      have hset : assigned result i xs[i] = .ok (result.set i xs[i]) :=
        assigned_eq_ok.mpr ⟨hir, rfl⟩
      have hnext : checkedIncr (2 ^ 32) i = .ok (i + 1) := checkedIncr_eq_ok.mpr ⟨by omega, rfl⟩
      rw [copyFrom, hget]
      show (assigned result i xs[i] >>= _) = _
      rw [hset]
      show (checkedIncr (2 ^ 32) i >>= _) = _
      rw [hnext]
      show copyFrom xs left (i + 1) (result.set i xs[i]) = _
      rw [ih (by omega) (by omega) (by rw [List.length_set]; omega),
        (take_drop_set xs[i] hir (Nat.lt_succ_self i)).1, List.drop_eq_getElem_cons hi,
        List.take_succ_cons, List.append_assoc]
      rfl

/-- **Both loops**: they return exactly if every test does and the array is shorter than the
    counters count, and then they return the hits in the order of the array. -/
theorem filterParties_eq_ok (hp : ∀ a b, test a = .ok b → b = p a) :
    st.filterParties test = .ok result ↔
      (∀ a ∈ st.parties, test a = .ok (p a)) ∧ st.parties.length < 2 ^ 32 ∧
        result = st.parties.filter p := by
  have hfirst : ∀ written' c,
      filterFrom test st.parties 0 (List.replicate st.parties.length 0) 0 = .ok (written', c) ↔ _ :=
    fun _ _ => filterFrom_eq_ok hp (Nat.le_refl 0) (by rw [List.length_replicate, Nat.zero_add])
      (by decide)
  have hle : (st.parties.filter p).length ≤ st.parties.length := List.length_filter_le p st.parties
  have hcopy : ∀ written' : List Address, st.parties.length < 2 ^ 32 →
      written' = st.parties.filter p ++
        (List.replicate st.parties.length 0).drop (st.parties.filter p).length →
      copyFrom written' (st.parties.filter p).length 0
        (List.replicate (st.parties.filter p).length 0) = .ok (st.parties.filter p) := by
    intro written' hlen e
    have hroom : 0 + (st.parties.filter p).length ≤ written'.length := by
      rw [e, List.length_append]
      omega
    rw [copyFrom_eq hroom (by omega) (by rw [List.length_replicate, Nat.zero_add]), List.take_zero,
      List.nil_append, List.drop_zero, e, List.take_left]
  unfold filterParties
  rw [bind_eq_ok]
  refine ⟨fun h => ?_, fun h => ?_⟩
  · obtain ⟨⟨written', c⟩, hloop, h⟩ := h
    obtain ⟨htests, hlen, hc, hw⟩ := (hfirst written' c).mp hloop
    rw [Nat.zero_add] at hlen hc
    subst hc
    rw [List.take_zero, List.nil_append] at hw
    have hdone : .ok (st.parties.filter p) = (.ok result : Except Revert _) :=
      (hcopy written' hlen hw).symm.trans h
    exact ⟨htests, hlen, (Except.ok.inj hdone).symm⟩
  · obtain ⟨htests, hlen, rfl⟩ := h
    refine ⟨(_, (st.parties.filter p).length), (hfirst _ _).mpr ⟨htests, by omega, ?_, rfl⟩, ?_⟩
    · rw [Nat.zero_add]
    · exact hcopy _ hlen (by rw [List.take_zero, List.nil_append])

/-- The inner loop of `getPartiesByRole`. -/
theorem hasRoleFrom_eq_ok {role : Role} {roles : List Role} {j : Nat} {b : Bool}
    (h : hasRoleFrom role roles j = .ok b) : b = decide (role ∈ roles) := by
  induction roles generalizing j with
  | nil =>
      cases h
      rfl
  | cons r rest ih =>
      rw [hasRoleFrom] at h
      by_cases hr : r = role
      · rw [if_pos hr] at h
        cases h
        simp [hr]
      · rw [if_neg hr] at h
        obtain ⟨_, _, h⟩ := bind_eq_ok.mp h
        rw [ih h]
        simp [Ne.symm hr]

theorem getPartiesByOperator_eq_ok {operator : Address} :
    st.getPartiesByOperator operator = .ok result ↔ st.parties.length < 2 ^ 32 ∧
      result = st.parties.filter fun a => decide (st.operatorOf a = operator) := by
  refine (filterParties_eq_ok fun a b h => (Except.ok.inj h).symm).trans ?_
  exact ⟨fun h => h.2, fun h => ⟨fun _ _ => rfl, h⟩⟩

theorem getPartiesByRole_eq_ok {role : Role} (h : st.getPartiesByRole role = .ok result) :
    result = st.parties.filter fun a => decide (role ∈ (st.partyOf a).roles) :=
  ((filterParties_eq_ok fun _ _ h => hasRoleFrom_eq_ok h).mp h).2.2

end Loops

/-! ## 2. The parties with a role -/

/-- **Exactly the registered parties with a property**, in the order of the array, each once, and
    not the zero address. -/
structure ListsExactly (st : OcnRegistry) (has : Address → Prop) (result : List Address) :
    Prop where
  order : result.Sublist st.getParties
  nodup : result.Nodup
  mem : ∀ a, a ∈ result ↔ st.Registered a ∧ has a
  nobody : (0 : Address) ∉ result

section Exact

variable {st : OcnRegistry} {has : Address → Prop} [DecidablePred has] {result : List Address}

/-- The entries with a property that a hole does not have. -/
theorem listsExactly_filter (hI : st.ArraySound) (hz : ¬ has 0) :
    ListsExactly st has (st.parties.filter fun a => decide (has a)) where
  order := List.filter_sublist
  nodup := by
    refine List.nodup_iff_count_le_one.mpr fun a => ?_
    by_cases ha : has a
    · have hne : a ≠ 0 := fun e => hz (e ▸ ha)
      rw [List.count_filter (by simpa using ha)]
      exact hI.count_le_one hne
    · have hno : a ∉ st.parties.filter fun a => decide (has a) := fun hmem =>
        ha (of_decide_eq_true (List.mem_filter.mp hmem).2)
      rw [List.count_eq_zero.mpr hno]
      exact Nat.zero_le 1
  mem := by
    intro a
    rw [List.mem_filter, decide_eq_true_iff]
    refine ⟨fun h => ?_, fun h => ⟨hI.mem_parties h.1, h.2⟩⟩
    have hne : a ≠ 0 := fun e => hz (e ▸ h.2)
    exact ⟨hI.registered_of_mem h.1 hne, h.2⟩
  nobody := fun hmem => hz (of_decide_eq_true (List.mem_filter.mp hmem).2)

end Exact

/-- No transaction of the run registers the zero address. -/
abbrev NoZeroOwner (X : Crypto) (D : Deployment) (ts : List Tx) : Prop :=
  (machine X).Along (fun st t => ¬ RegistersZero st t) D.start ts

/-- **`getPartiesByRole` is exact**: in every state reached without registering the zero address,
    whenever it returns, it returns the registered parties whose stored roles contain the role, in
    the order of the array, each once. -/
theorem parties_by_role (X : Crypto) (D : Deployment) (ts : List Tx) (hz : NoZeroOwner X D ts)
    (role : Role) (result : List Address)
    (h : (D.run X ts).getPartiesByRole role = .ok result) :
    ListsExactly (D.run X ts) (fun a => role ∈ ((D.run X ts).partyOf a).roles) result ∧
      result = (D.run X ts).getParties.filter fun a =>
        decide ((D.run X ts).Registered a ∧ role ∈ ((D.run X ts).partyOf a).roles) := by
  have hI := arraySound_run X D ts
  have h0 : ¬ (D.run X ts).Registered 0 := (partiesSound_run hz).nobody
  have hblank : role ∉ ((D.run X ts).partyOf 0).roles := by
    rw [hI.blank 0 h0]
    exact List.not_mem_nil
  have hresult := getPartiesByRole_eq_ok h
  have hexact : ListsExactly (D.run X ts) (fun a => role ∈ ((D.run X ts).partyOf a).roles) result :=
    hresult ▸ listsExactly_filter hI hblank
  refine ⟨hexact, hresult.trans (List.filter_congr fun a ha => ?_)⟩
  refine decide_eq_decide.mpr ⟨fun hrole => ⟨?_, hrole⟩, fun hrole => hrole.2⟩
  have hne : a ≠ 0 := fun e => hblank (e ▸ hrole)
  exact hI.registered_of_mem ha hne

theorem registrations_noZeroOwner :
    NoZeroOwner (Sample.crypto []) Sample.deployment Sample.registrations :=
  Machine.along_mono (M := machine (Sample.crypto [])) (fun _ _ h => not_registersZero h)
    registrations_namesOwner

/-- A party that was deleted and registered again is listed once, after the hole it left. -/
theorem parties_by_role_again :
    let st := Sample.deployment.run (Sample.crypto []) Sample.registrations
    st.getPartiesByRole .cpo = .ok [Sample.party.address] ∧
      ListsExactly st (fun a => Role.cpo ∈ (st.partyOf a).roles) [Sample.party.address] := by
  intro st
  have hresult : st.getPartiesByRole .cpo = .ok [Sample.party.address] := by decide +kernel
  exact ⟨hresult, (parties_by_role (Sample.crypto []) Sample.deployment Sample.registrations
    registrations_noZeroOwner .cpo _ hresult).1⟩

/-! ## 3. The parties of an operator -/

/-- **A hole is a hit for operator zero**: after the only party was deleted, the parties of the
    operator zero are the zero address. -/
theorem holes_have_operator_zero :
    let st := Sample.deployment.run (Sample.crypto []) (Sample.registrations.take 3)
    st.getPartiesByOperator 0 = .ok [0] ∧
      ¬ ListsExactly st (fun a => st.operatorOf a = 0) [0] := by
  intro st
  exact ⟨by decide +kernel, fun h => h.nobody List.mem_cons_self⟩

/-- **When `getPartiesByOperator` is exact**: in every state reached without registering the zero
    address, whenever it returns, it returns the registered parties of the operator, in the order of
    the array, each once, and not the zero address, exactly when the operator is not zero or no
    transaction of the run deleted a party. -/
theorem parties_by_operator_iff (X : Crypto) (D : Deployment) (ts : List Tx)
    (hz : NoZeroOwner X D ts) (operator : Address) (result : List Address)
    (h : (D.run X ts).getPartiesByOperator operator = .ok result) :
    ListsExactly (D.run X ts) (fun a => (D.run X ts).operatorOf a = operator) result ↔
      operator ≠ 0 ∨
        (machine X).Along (fun st t => ∀ party, ¬ RemovesParty st t party) D.start ts := by
  have hI := arraySound_run X D ts
  have hnobody : (D.run X ts).operatorOf 0 = 0 :=
    Classical.byContradiction (partiesSound_run hz).nobody
  have hhole : (0 : Address) ∉ (D.run X ts).parties ↔
      (machine X).Along (fun st t => ∀ party, ¬ RemovesParty st t party) D.start ts := by
    rw [zero_mem_run_iff]
    refine ⟨Machine.along_mono (M := machine X) fun st t hn party hdel =>
      hn (Or.inl ⟨party, hdel⟩), fun hnone => ?_⟩
    exact Machine.along_mono (M := machine X) (fun st t hn hor => hor.elim
      (fun hdel => hn.1 _ hdel.choose_spec) hn.2) (Machine.along_and.mpr ⟨hnone, hz⟩)
  obtain ⟨_, hresult⟩ := getPartiesByOperator_eq_ok.mp h
  rw [← hhole, hresult]
  refine ⟨fun hexact => ?_, fun hcases => ?_⟩
  · refine Classical.or_iff_not_imp_left.mpr fun hzero hmem => ?_
    have hop : operator = 0 := Classical.not_not.mp hzero
    exact hexact.nobody (List.mem_filter.mpr ⟨hmem, decide_eq_true (hnobody.trans hop.symm)⟩)
  · by_cases hop : operator = 0
    · -- every entry is a registered party, and no registered party has operator zero
      have hno := hcases.resolve_left (fun hne => hne hop)
      have hnone : ((D.run X ts).parties.filter fun a =>
          decide ((D.run X ts).operatorOf a = operator)) = [] := by
        refine List.filter_eq_nil_iff.mpr fun a ha hhit => ?_
        have hne : a ≠ 0 := fun e => hno (e ▸ ha)
        exact hI.registered_of_mem ha hne ((of_decide_eq_true hhit).trans hop)
      rw [hnone]
      refine ⟨List.nil_sublist _, List.nodup_nil, fun a => ?_, List.not_mem_nil⟩
      exact iff_of_false List.not_mem_nil fun ha => ha.1 (ha.2.trans hop)
    · exact listsExactly_filter hI fun e => hop (e.symm.trans hnobody)

/-- The parties of the sample operator, after a deletion. -/
theorem parties_by_operator_again :
    let st := Sample.deployment.run (Sample.crypto []) Sample.registrations
    ListsExactly st (fun a => st.operatorOf a = Sample.operator.address)
      [Sample.party.address] := by
  intro st
  have hresult : st.getPartiesByOperator Sample.operator.address = .ok [Sample.party.address] := by
    decide +kernel
  exact (parties_by_operator_iff (Sample.crypto []) Sample.deployment Sample.registrations
    registrations_noZeroOwner _ _ hresult).mpr (Or.inl (by decide))

end OcnRegistry

end Ocn

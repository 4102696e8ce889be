/-
  File:      OcnRegistry/Registry/Listings.lean
  Subject:   LISTINGS: what is published about a party, and which transactions change it.

  `listing_step` says what one transaction does to the listing of one address: it publishes another
  one (a `setParty` with certificates of that address), deletes it, or leaves it alone. Who sends
  the transaction matters for the deletion only.
-/
import OcnRegistry.Registry.Parties

namespace Ocn

open Transaction

/-- What a registered party's record says, and its operator. -/
structure Listing where
  countryCode : Bytes2
  partyId : Bytes3
  roles : List Role
  name : Bytes
  url : Bytes
  operator : Address
  deriving DecidableEq, Repr

namespace OcnRegistry

/-- The listing of an address, if it is registered. -/
def listing (st : OcnRegistry) (a : Address) : Option Listing :=
  if st.operatorOf a = 0 then none
  else some ⟨(st.partyOf a).countryCode, (st.partyOf a).partyId, (st.partyOf a).roles,
    (st.partyOf a).name, (st.partyOf a).url, st.operatorOf a⟩

/-- The transaction publishes this listing for `a`: a `setParty` that succeeds with certificates
    of `a`. -/
def Publishes (st : OcnRegistry) (t : Tx) (a : Address) (l : Listing) : Prop :=
  ∃ roles status,
    t.call = .setParty l.countryCode l.partyId roles l.operator l.name l.url ∧
    SetPartyAdmits st t.answers l.countryCode l.partyId roles l.operator a l.roles status

variable {X : Crypto} {st st' : OcnRegistry} {t : Tx} {a : Address} {l : Listing}

/-! ## 1. The listing after each write -/

theorem listing_storeParty (owner : Address) (l : Listing) (status : PaymentStatus)
    (ho : l.operator ≠ 0) :
    (st.storeParty owner (st.newDetails l.countryCode l.partyId owner l.roles l.name l.url status)
      l.operator).listing = Function.update st.listing owner (some l) := by
  funext b
  unfold listing
  rw [storeParty_operatorOf, storeParty_partyOf]
  by_cases e : b = owner
  · rw [e, Function.update_self, if_neg ho, Function.update_self, Function.update_self]
    rfl
  · rw [Function.update_of_ne e, Function.update_of_ne e, Function.update_of_ne e]

theorem listing_clearParty (party : Address) :
    (st.clearParty party).listing = Function.update st.listing party none := by
  funext b
  unfold listing
  rw [clearParty_operatorOf, clearParty_partyOf]
  by_cases e : b = party
  · rw [e, Function.update_self, if_pos rfl, Function.update_self]
  · rw [Function.update_of_ne e, Function.update_of_ne e, Function.update_of_ne e]

theorem SameParties.listing (h : SameParties st st') : st'.listing = st.listing := by
  funext b
  simp only [OcnRegistry.listing, h.partyOf, h.operatorOf]

theorem step_publishes (h : Publishes st t a l) :
    ((machine X).step st t).listing = Function.update st.listing a (some l) := by
  obtain ⟨roles, status, hcall, hadmits⟩ := h
  rw [step_of_change (.partySet l.countryCode l.partyId roles l.operator l.name l.url a l.roles
    status hcall hadmits)]
  exact listing_storeParty a l status hadmits.someOperator

/-! ## 2. What a transaction does to the listings -/

/-- **What a successful transaction does to the listings**: it publishes one, removes one, or
    leaves them all alone. -/
theorem listings_step {ev : List Event} (h : exec X st t = .ok (st', ev)) :
    (∃ a l, Publishes st t a l ∧ st'.listing = Function.update st.listing a (some l)) ∨
    (∃ a, DeletesParty st t a ∧ st'.listing = Function.update st.listing a none) ∨
    st'.listing = st.listing := by
  cases change_of_exec h with
  | nodeSet => exact Or.inr (Or.inr rfl)
  | nodeDeleted => exact Or.inr (Or.inr rfl)
  | partySet countryCode partyId roles operator name url owner verifiedRoles status hcall ha =>
      let l : Listing := ⟨countryCode, partyId, verifiedRoles, name, url, operator⟩
      exact Or.inl ⟨owner, l, ⟨roles, status, hcall, ha⟩,
        listing_storeParty owner l status ha.someOperator⟩
  | partyDeleted party hask => exact Or.inr (Or.inl ⟨party, hask, listing_clearParty party⟩)
  | membersSet => exact Or.inr (Or.inr rfl)
  | validatorSet => exact Or.inr (Or.inr rfl)

/-- What a transaction does to the listing of one address. -/
theorem listing_step (X : Crypto) (st : OcnRegistry) (t : Tx) (a : Address) :
    (∃ l, Publishes st t a l) ∨
      (DeletesParty st t a ∧ ((machine X).step st t).listing a = none) ∨
      ((machine X).step st t).listing a = st.listing a := by
  rcases Machine.step_cases (machine X) st t with e | ⟨st', ev, hok, e⟩
  · exact Or.inr (Or.inr (by rw [e]))
  rw [e]
  rcases listings_step hok with ⟨b, l, hl, eb⟩ | ⟨b, hdel, eb⟩ | eb
  · by_cases ea : a = b
    · rw [ea]
      exact Or.inl ⟨l, hl⟩
    · exact Or.inr (Or.inr (by rw [eb, Function.update_of_ne ea]))
  · by_cases ea : a = b
    · rw [ea]
      exact Or.inr (Or.inl ⟨hdel, by rw [eb, Function.update_self]⟩)
    · exact Or.inr (Or.inr (by rw [eb, Function.update_of_ne ea]))
  · exact Or.inr (Or.inr (by rw [eb]))

/-- Somebody who is neither the party nor an admin does not delete it. -/
theorem not_deletesParty (hne : t.sender.address ≠ a)
    (hadmin : st.members DEFAULT_ADMIN_ROLE t.sender.address = false) :
    ¬ DeletesParty st t a := by
  intro h
  cases h with
  | direct => exact hne rfl
  | admin _ hyes =>
      rw [hadmin] at hyes
      cases hyes

/-- **One step**: a call by somebody else leaves a listing alone exactly when it does not publish
    another one for the same party. -/
theorem listing_step_iff (hne : t.sender.address ≠ a)
    (hadmin : st.members DEFAULT_ADMIN_ROLE t.sender.address = false) :
    ((machine X).step st t).listing a = st.listing a ↔
      ∀ l, Publishes st t a l → st.listing a = some l := by
  have hnew : ∀ l, Publishes st t a l → ((machine X).step st t).listing a = some l := by
    intro l hl
    rw [step_publishes hl, Function.update_self]
  refine ⟨fun h l hl => h.symm.trans (hnew l hl), fun h => ?_⟩
  rcases listing_step X st t a with ⟨l, hl⟩ | hdel | e
  · exact (hnew l hl).trans (h l hl).symm
  · exact absurd hdel.1 (not_deletesParty hne hadmin)
  · exact e

end OcnRegistry

end Ocn

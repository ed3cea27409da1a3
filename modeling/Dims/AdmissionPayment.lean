import Dims.AdmissionProof

/-!
# The payment that a proof of admission names
-/

namespace Dims
open ByteCodec

namespace CRegisterAction

variable (H : HashFunctions)

/-- The wallets create no transaction with the hash of an unfilled one. -/
def Event.HashApart : Event → Prop
  | .messageResult _ _ _ wallet => wallet.HashApart H
  | .synchronizationResult _ _ wallet => wallet.HashApart H
  | .timeEvent _ wallet => wallet.HashApart H
  | .ack _ wallet => wallet.HashApart H
  | .payment _ event => event.HashApart H
  | _ => True

/-- The hash in a proof is that of a transaction that was submitted and pays the price. -/
def ProofsNamePayment (s : Option CRegisterAction) : Prop :=
  ∀ r, s = some r → ∀ hash ∈ r.admitProofs,
    PaysPrice H r.payments.submitted (r.partnerId H) r.price hash

/-- The acknowledgement that the action takes is that of a payment in the own network. -/
def PaidInNetwork : Option CRegisterAction → Event → Prop
  | some r, .paid i => r.exit = false → r.Pays → ∀ ack, r.payments.result i = some ack →
    ack.status ≠ .invalid → ¬ r.payments.AsClient i
  | _, _ => True

/-- The sub-actions pay the price to the partner, and there is no proof before the price is known. -/
structure Bound (r : CRegisterAction) : Prop where
  recent : r.recent.KeptByHash H
  payments : r.payments.Sound H fun a =>
    a.keyId = r.partnerId H ∧ a.amount = r.registerPayment
  price : r.exit = false → r.Pays ∨ r.state = .synchronize → r.registerPayment = priceAmount r.price
  start : r.state = .originateRegistration ∨ r.state = .registrationExtension →
    r.payments.actions = [] ∧ r.admitProofs = []

variable {H} {r r' : CRegisterAction}

theorem Bound.setExit (hr : r.Bound H) : Bound H { r with exit := true } :=
  ⟨hr.recent, hr.payments, fun hexit => (nomatch hexit), hr.start⟩

theorem Bound.forgetRequests (hr : r.Bound H) : r.forgetRequests.Bound H := by
  refine ⟨hr.recent, hr.payments.forgetRequests, hr.price, fun hstate => ?_⟩
  obtain ⟨hactions, hproofs⟩ := hr.start hstate
  refine ⟨?_, hproofs⟩
  simp [CRegisterAction.forgetRequests, ScheduledPayments.forgetRequests, hactions]

theorem Bound.setPrice (hr : r.Bound H)
    (hstate : r.state = .originateRegistration ∨ r.state = .registrationExtension) (price : UInt32) :
    Bound H { r with price := price } := by
  refine ⟨hr.recent, hr.payments, fun _ hpays => ?_, hr.start⟩
  rcases hstate with hstate | hstate <;> simp [Pays, hstate] at hpays

theorem bound_schedulePayment (hrecent : r.recent.KeptByHash H)
    (hpayments : r.payments.Sound H fun a => a.keyId = r.partnerId H ∧ a.amount = r.registerPayment)
    (hprice : r.exit = false → r.registerPayment = priceAmount r.price) (hpays : r.Pays)
    {isConnected : Bool} {wallet : CWalletContext} (hwallet : wallet.HashApart H) :
    (r.schedulePayment H isConnected wallet).Bound H := by
  have hadvances : CPassTransactionAction.Advances H r.payments.submitted (r.partnerId H)
      r.registerPayment (CPassTransactionAction.Tracker.construct H (r.partnerId H)
        r.registerPayment isConnected wallet) :=
    CPassTransactionAction.Tracker.construct_advances hwallet
  refine ⟨hrecent, hpayments.schedule hadvances ⟨hadvances.keyId_eq, hadvances.amount_eq⟩,
    fun hexit _ => hprice hexit, fun hstate => ?_⟩
  change r.state = _ ∨ r.state = _ at hstate
  rcases hpays with hpays | hpays <;> simp [hpays] at hstate

/-- An action that reacts sends no proof, and sets the price only before the first one. -/
structure Reacts (H : HashFunctions) (r r' : CRegisterAction) : Prop where
  bound : r'.Bound H
  proofs : r'.admitProofs = r.admitProofs
  partnerKey : r'.partnerKey = r.partnerKey
  price : r.admitProofs = [] ∨ r'.price = r.price
  submitted : r.payments.submitted ⊆ r'.payments.submitted

theorem Reacts.refl (hr : r.Bound H) : Reacts H r r := ⟨hr, rfl, rfl, .inr rfl, List.Subset.refl _⟩

theorem reactAdmitted_reacts (hr : r.Bound H) (hstate : r.state = .originateRegistration)
    (trackersInfoEmpty isConnected : Bool) {wallet : CWalletContext} (hwallet : wallet.HashApart H) :
    Reacts H r (r.reactAdmitted H trackersInfoEmpty isConnected wallet) := by
  obtain ⟨hactions, hproofs⟩ := hr.start (.inl hstate)
  have hnone : ∀ Fits, r.payments.Sound H Fits := by
    intro Fits
    refine ⟨fun a ha => ?_, fun a ha => ?_, hr.payments.apart⟩ <;> simp [hactions] at ha
  simp only [reactAdmitted]
  split
  · refine ⟨⟨hr.recent, hr.payments, fun _ hpays => ?_, fun h => ?_⟩, rfl, rfl, .inr rfl,
      List.Subset.refl _⟩
    · simp [Pays] at hpays
    · simp at h
  · split
    · refine ⟨⟨hr.recent, hnone _, fun _ _ => rfl, fun h => ?_⟩, rfl, rfl, .inr rfl,
        List.Subset.refl _⟩
      simp at h
    · refine ⟨?_, rfl, rfl, .inr rfl, List.subset_append_left _ _⟩
      exact bound_schedulePayment
        (r := { r with state := .networkAlive, registerPayment := priceAmount r.price })
        hr.recent (hnone _) (fun _ => rfl) (.inr rfl) hwallet

theorem react_reacts (hr : r.Bound H) {event : Event}
    (hevent : event.HashApart H) (hreact : r.react H event = some r') : Reacts H r r' := by
  unfold react at hreact
  split at hreact
  · next price autoRenewRegistration hstate =>
    obtain rfl := Option.some.inj hreact
    split
    · exact ⟨hr.setPrice (.inr hstate) price, rfl, rfl, .inl (hr.start (.inr hstate)).2,
        List.Subset.refl _⟩
    · exact .refl hr
  · obtain rfl := Option.some.inj hreact
    exact ⟨hr.setExit, rfl, rfl, .inr rfl, List.Subset.refl _⟩
  · next isConnected wallet hstate =>
    obtain rfl := Option.some.inj hreact
    split
    · refine ⟨?_, rfl, rfl, .inr rfl, List.subset_append_left _ _⟩
      exact bound_schedulePayment (r := { r with state := .noTrackers, exit := true }) hr.recent
        hr.payments (fun hexit => nomatch hexit) (.inl rfl) hevent
    · exact ⟨hr.setExit, rfl, rfl, .inr rfl, List.Subset.refl _⟩
  · next price hstate =>
    obtain rfl := Option.some.inj hreact
    exact ⟨hr.setPrice (.inl hstate) price, rfl, rfl, .inl (hr.start (.inl hstate)).2,
      List.Subset.refl _⟩
  · next result trackersInfoEmpty isConnected wallet hstate =>
    obtain rfl := Option.some.inj hreact
    split
    · exact reactAdmitted_reacts hr hstate trackersInfoEmpty isConnected hevent
    · exact ⟨hr.setExit, rfl, rfl, .inr rfl, List.Subset.refl _⟩
  · obtain rfl := Option.some.inj hreact
    exact ⟨hr.setExit, rfl, rfl, .inr rfl, List.Subset.refl _⟩
  · obtain rfl := Option.some.inj hreact
    exact ⟨hr.setExit, rfl, rfl, .inr rfl, List.Subset.refl _⟩
  · obtain rfl := Option.some.inj hreact
    exact ⟨hr.setExit, rfl, rfl, .inr rfl, List.Subset.refl _⟩
  · next result isConnected wallet hstate =>
    obtain rfl := Option.some.inj hreact
    split
    · refine ⟨?_, rfl, rfl, .inr rfl, List.subset_append_left _ _⟩
      exact bound_schedulePayment (r := { r with state := .noTrackers }) hr.recent hr.payments
        (fun hexit => hr.price hexit (.inr hstate)) (.inl rfl) hevent
    · exact .refl hr
  · split at hreact
    · obtain rfl := Option.some.inj hreact
      exact .refl hr
    · cases hreact
  · next isConnected wallet hstate =>
    obtain rfl := Option.some.inj hreact
    refine ⟨?_, rfl, rfl, .inr rfl, List.subset_append_left _ _⟩
    exact bound_schedulePayment hr.recent hr.payments
      (fun hexit => hr.price hexit (.inl (.inl hstate))) (.inl hstate) hevent
  · split at hreact
    · obtain rfl := Option.some.inj hreact
      exact ⟨hr.forgetRequests, rfl, rfl, .inr rfl, List.Subset.refl _⟩
    · cases hreact
  · next isConnected wallet hstate =>
    obtain rfl := Option.some.inj hreact
    refine ⟨?_, rfl, rfl, .inr rfl, List.subset_append_left _ _⟩
    have hforget : r.forgetRequests.Bound H := hr.forgetRequests
    exact bound_schedulePayment hforget.recent hforget.payments
      (fun hexit => hr.price hexit (.inl (.inr hstate))) (.inr hstate) hevent
  · split at hreact
    · obtain rfl := Option.some.inj hreact
      exact ⟨hr.setExit, rfl, rfl, .inr rfl, List.Subset.refl _⟩
    · cases hreact
  · obtain rfl := Option.some.inj hreact
    exact .refl hr

theorem next_of_react {event : Event} (hr : r.Bound H) (hevent : event.HashApart H)
    (hnext : (if r.exit then some r else r.react H event) = some r') : Reacts H r r' := by
  split at hnext
  · obtain rfl := Option.some.inj hnext
    exact .refl hr
  · exact react_reacts hr hevent hnext

theorem reactTransactionAck_bound (hr : r.Bound H) (ack : CTransactionAck) :
    (r.reactTransactionAck H ack).Bound H := by
  unfold reactTransactionAck
  split
  · next hpays =>
    refine ⟨hr.recent, hr.payments, hr.price, fun hstate => ?_⟩
    rcases hpays.1 with hpays | hpays <;> simp [hpays] at hstate
  · exact hr

theorem Bound.destroy (hr : r.Bound H) (i : ℕ) :
    Bound H { r with payments := r.payments.destroy i } := by
  refine ⟨hr.recent, hr.payments.destroy i, hr.price, fun hstate => ?_⟩
  obtain ⟨hactions, hproofs⟩ := hr.start hstate
  refine ⟨?_, hproofs⟩
  simp [ScheduledPayments.destroy, hactions]

/-- The price is known when the action pays, and the sub-action hands back the transaction that
pays it if it has not gone through a servicing tracker. -/
theorem paysPrice_ack_iff (hr : r.Bound H) {i : ℕ} {ack : CTransactionAck}
    (hresult : r.payments.result i = some ack) (hexit : r.exit = false) (hpays : r.Pays)
    (hstatus : ack.status ≠ .invalid) :
    PaysPrice H r.payments.submitted (r.partnerId H) r.price (ack.transaction.getHash H) ↔
      ¬ r.payments.AsClient i := by
  constructor
  · intro hprice hclient
    exact hr.payments.not_paysPrice hresult hstatus hclient _ _ hprice
  · intro hclient
    obtain ⟨a, ⟨hkey, hamount⟩, -, -, hpaid⟩ := hr.payments.paysAmount hresult hstatus hclient
    rw [hkey, hamount, hr.price hexit (.inl hpays)] at hpaid
    exact hpaid.paysPrice

theorem proofsNamePayment_some : ProofsNamePayment H (some r) ↔ ∀ hash ∈ r.admitProofs,
    PaysPrice H r.payments.submitted (r.partnerId H) r.price hash := by
  constructor
  · intro h
    exact h r rfl
  · intro h r' hr'
    obtain rfl := Option.some.inj hr'
    exact h

theorem Reacts.proofsNamePayment (h : Reacts H r r') (hgood : ProofsNamePayment H (some r)) :
    ProofsNamePayment H (some r') := by
  rw [proofsNamePayment_some] at hgood ⊢
  intro hash hhash
  rw [h.proofs] at hhash
  rcases h.price with hnil | hprice
  · rw [hnil] at hhash
    cases hhash
  · rw [partnerId, h.partnerKey, hprice]
    exact (hgood hash hhash).mono h.submitted

theorem payment_reacts (hr : r.Bound H) {i : ℕ} {event : PassEvent} (hevent : event.HashApart H)
    (hnext : r.next H (.payment i event) = some r') : Reacts H r r' := by
  obtain ⟨payments, hrespond, rfl⟩ := Option.map_eq_some_iff.mp hnext
  obtain ⟨hsound, hsubmitted⟩ := hr.payments.respond (fun a ha hfits hexit step hstep => by
    have hadvances := CPassTransactionAction.Tracker.react_advances hr.recent ha hexit hevent hstep
    refine ⟨hadvances, ?_⟩
    rw [hadvances.keyId_eq, hadvances.amount_eq]
    exact hfits) hrespond
  refine ⟨⟨hr.recent, hsound, hr.price, fun hstate => ?_⟩, rfl, rfl, .inr rfl, hsubmitted⟩
  obtain ⟨hactions, hproofs⟩ := hr.start hstate
  refine ⟨?_, hproofs⟩
  simp only [ScheduledPayments.respond, hactions, List.getElem?_nil] at hrespond
  obtain rfl := Option.some.inj hrespond
  exact hactions

theorem proofsNamePayment_paid_iff (hr : r.Bound H) (hgood : ProofsNamePayment H (some r)) (i : ℕ) :
    ProofsNamePayment H (r.next H (.paid i)) ↔ PaidInNetwork (some r) (.paid i) := by
  have hold : ∀ hash ∈ r.admitProofs,
      PaysPrice H (r.payments.destroy i).submitted (r.partnerId H) r.price hash := by
    rw [ScheduledPayments.submitted_destroy]
    exact proofsNamePayment_some.mp hgood
  have hdestroyed : ProofsNamePayment H (some { r with payments := r.payments.destroy i }) :=
    proofsNamePayment_some.mpr hold
  simp only [next, PaidInNetwork]
  cases hresult : r.payments.result i with
  | none => exact iff_of_true hdestroyed fun _ _ _ hack => nomatch hack
  | some ack =>
    dsimp only
    split
    · next hexit =>
      exact iff_of_true hdestroyed fun hgoes => absurd (hexit.symm.trans hgoes) (by decide)
    · next hexit =>
      have hgoes : r.exit = false := Bool.eq_false_iff.mpr hexit
      unfold reactTransactionAck
      split
      · next htakes =>
        obtain ⟨hpays, hstatus⟩ := htakes
        have hpaid := paysPrice_ack_iff hr hresult hgoes hpays hstatus
        rw [← ScheduledPayments.submitted_destroy r.payments i] at hpaid
        constructor
        · intro h _ _ ack' _ _
          exact hpaid.mp (proofsNamePayment_some.mp h _ (List.mem_append_right _ (List.mem_singleton_self _)))
        · intro h
          have hclient := h hgoes hpays ack rfl hstatus
          refine proofsNamePayment_some.mpr fun hash hhash => ?_
          rcases List.mem_append.mp hhash with hbefore | hnew
          · exact hold hash hbefore
          · rw [List.mem_singleton.mp hnew]
            exact hpaid.mpr hclient
      · next htakes =>
        refine iff_of_true hdestroyed fun _ hpays ack' hack hstatus => ?_
        obtain rfl := Option.some.inj hack
        exact (htakes ⟨hpays, hstatus⟩).elim

/-- What is known of an action that has not been aborted. -/
def AllBound (H : HashFunctions) (s : Option CRegisterAction) : Prop := ∀ r, s = some r → r.Bound H

theorem step_bound (s : Option CRegisterAction) (event : Event) (hevent : event.HashApart H)
    (hs : AllBound H s) : AllBound H (step H s event) := by
  intro r' hstep
  obtain ⟨r, rfl, hnext⟩ := Option.bind_eq_some_iff.mp hstep
  have hr := hs r rfl
  cases event with
  | payment i event =>
    exact (payment_reacts hr hevent hnext).bound
  | paid i =>
    simp only [next] at hnext
    split at hnext
    · obtain rfl := Option.some.inj hnext
      split
      · exact hr.destroy i
      · exact reactTransactionAck_bound (hr.destroy i) _
    · obtain rfl := Option.some.inj hnext
      exact hr.destroy i
  | recentTransaction time tx =>
    obtain rfl := Option.some.inj hnext
    exact ⟨hr.recent.setTransactionToTemporary time tx, hr.payments, hr.price, hr.start⟩
  | _ => exact (next_of_react hr hevent hnext).bound

/-- Only an acknowledgement can break the property. -/
theorem proofsNamePayment_step_iff (s : Option CRegisterAction) (event : Event)
    (hevent : event.HashApart H) (hs : AllBound H s) (hgood : ProofsNamePayment H s) :
    ProofsNamePayment H (step H s event) ↔ PaidInNetwork s event := by
  cases s with
  | none => exact iff_of_true (fun _ h => nomatch h) trivial
  | some r =>
    have hr := hs r rfl
    have hreacts : (∀ r', r.next H event = some r' → Reacts H r r') →
        ProofsNamePayment H (r.next H event) := by
      intro hall r' hr' hash hhash
      exact (hall r' hr').proofsNamePayment hgood r' rfl hash hhash
    change ProofsNamePayment H (r.next H event) ↔ _
    cases event with
    | payment i event =>
      exact iff_of_true (hreacts fun r' hr' => payment_reacts hr hevent hr') trivial
    | paid i => exact proofsNamePayment_paid_iff hr hgood i
    | recentTransaction time tx =>
      have hold := proofsNamePayment_some.mp hgood
      exact iff_of_true (proofsNamePayment_some.mpr hold) trivial
    | _ => exact iff_of_true (hreacts fun r' hr' => next_of_react hr hevent hr') trivial

end CRegisterAction

namespace CEnterNetworkAction

variable (H : HashFunctions)

def Event.HashApart : Event → Prop
  | .payment _ event => event.HashApart H
  | _ => True

/-- The hash in a proof is that of a transaction that was submitted and pays the partner the
price that it has asked for. -/
def ProofsNamePayment (s : Option CEnterNetworkAction) : Prop :=
  ∀ r, s = some r → ∀ hash ∈ r.admitProofs,
    PaysPrice H r.payments.submitted (r.partnerKey.getID H) r.askedPrice hash

/-- The acknowledgement that the action takes is that of a payment that was refused. -/
def PaymentRefused : Option CEnterNetworkAction → Event → Prop
  | some r, .paid i => r.exit = false → r.state = .networkAlive → ∀ ack,
    r.payments.result i = some ack → ack.status = .invalid
  | _, _ => True

/-- All payments go through a servicing tracker, and there is no proof before the price is known. -/
structure Bound (r : CEnterNetworkAction) : Prop where
  payments : r.payments.Sound H CPassTransactionAction.Monitor.PaysAsClient
  start : r.state = .admissionCondition → r.admitProofs = []

/-- A step that adds no proof, and sets the price only before the first one. -/
structure Reacts (r r' : CEnterNetworkAction) : Prop where
  bound : r'.Bound H
  proofs : r'.admitProofs = r.admitProofs
  partnerKey : r'.partnerKey = r.partnerKey
  askedPrice : r.admitProofs = [] ∨ r'.askedPrice = r.askedPrice
  submitted : r.payments.submitted ⊆ r'.payments.submitted

variable {H} {r r' : CEnterNetworkAction}

theorem Reacts.refl (hr : r.Bound H) : Reacts H r r := ⟨hr, rfl, rfl, .inr rfl, List.Subset.refl _⟩

theorem Bound.setExit (hr : r.Bound H) : Bound H { r with exit := true } := ⟨hr.payments, hr.start⟩

theorem schedulePayment_reacts (hr : r.Bound H) (monitorKey : CPubKey) :
    Reacts H r (schedulePayment H { r with monitorKey := monitorKey, state := .networkAlive }) := by
  have hadvances : CPassTransactionAction.Advances H r.payments.submitted (monitorKey.getID H)
      (priceAmount r.price) (CPassTransactionAction.Monitor.construct (monitorKey.getID H)
        (priceAmount r.price)) :=
    CPassTransactionAction.advances_of_result_none
      (a := CPassTransactionAction.new (monitorKey.getID H) (priceAmount r.price) .processAsClient)
      rfl fun _ => nofun
  refine ⟨⟨hr.payments.schedule hadvances ⟨fun _ => nofun, fun _ _ hack => nomatch hack⟩, nofun⟩,
    rfl, rfl, .inr rfl, List.subset_append_left _ _⟩

theorem react_reacts (hr : r.Bound H) {event : Event} (hreact : r.react H event = some r') :
    Reacts H r r' := by
  unfold react at hreact
  split at hreact
  · next price hstate =>
    obtain rfl := Option.some.inj hreact
    exact ⟨⟨hr.payments, nofun⟩, rfl, rfl, .inl (hr.start hstate), List.Subset.refl _⟩
  · obtain rfl := Option.some.inj hreact
    exact ⟨hr.setExit, rfl, rfl, .inr rfl, List.Subset.refl _⟩
  · next key hstate =>
    obtain rfl := Option.some.inj hreact
    split
    · exact ⟨⟨hr.payments, nofun⟩, rfl, rfl, .inr rfl, List.Subset.refl _⟩
    · exact schedulePayment_reacts hr key
  · cases hreact
  · obtain rfl := Option.some.inj hreact
    exact ⟨hr.setExit, rfl, rfl, .inr rfl, List.Subset.refl _⟩
  · obtain rfl := Option.some.inj hreact
    exact ⟨⟨hr.payments, nofun⟩, rfl, rfl, .inr rfl, List.Subset.refl _⟩
  · cases hreact
  · obtain rfl := Option.some.inj hreact
    exact ⟨hr.setExit, rfl, rfl, .inr rfl, List.Subset.refl _⟩
  · obtain rfl := Option.some.inj hreact
    exact .refl hr

theorem next_of_react {event : Event} (hr : r.Bound H)
    (hnext : (if r.exit then some r else r.react H event) = some r') : Reacts H r r' := by
  split at hnext
  · obtain rfl := Option.some.inj hnext
    exact .refl hr
  · exact react_reacts hr hnext

theorem payment_reacts (hr : r.Bound H) {i : ℕ} {event : PassEvent} (hevent : event.HashApart H)
    (hnext : r.next H (.payment i event) = some r') : Reacts H r r' := by
  obtain ⟨payments, hrespond, rfl⟩ := Option.map_eq_some_iff.mp hnext
  obtain ⟨hsound, hsubmitted⟩ := hr.payments.respond (fun a ha hpays _ step hstep =>
    CPassTransactionAction.Monitor.react_advances ha hpays hevent hstep) hrespond
  exact ⟨⟨hsound, hr.start⟩, rfl, rfl, .inr rfl, hsubmitted⟩

theorem proofsNamePayment_some : ProofsNamePayment H (some r) ↔ ∀ hash ∈ r.admitProofs,
    PaysPrice H r.payments.submitted (r.partnerKey.getID H) r.askedPrice hash := by
  constructor
  · intro h
    exact h r rfl
  · intro h r' hr'
    obtain rfl := Option.some.inj hr'
    exact h

theorem Reacts.proofsNamePayment (h : Reacts H r r') (hgood : ProofsNamePayment H (some r)) :
    ProofsNamePayment H (some r') := by
  rw [proofsNamePayment_some] at hgood ⊢
  intro hash hhash
  rw [h.proofs] at hhash
  rcases h.askedPrice with hnil | hprice
  · rw [hnil] at hhash
    cases hhash
  · rw [h.partnerKey, hprice]
    exact (hgood hash hhash).mono h.submitted

/-- No proof names a transaction that was submitted. -/
theorem not_paysPrice_ack (hr : r.Bound H) {i : ℕ} {ack : CTransactionAck}
    (hresult : r.payments.result i = some ack) (hstatus : ack.status ≠ .invalid) :
    ¬ PaysPrice H r.payments.submitted (r.partnerKey.getID H) r.askedPrice
      (ack.transaction.getHash H) := by
  by_cases hclient : r.payments.AsClient i
  · exact hr.payments.not_paysPrice hresult hstatus hclient _ _
  · obtain ⟨a, hpays, hack, ha, -⟩ := hr.payments.paysAmount hresult hstatus hclient
    exact absurd (hpays.2 ha ack hack) hstatus

theorem proofsNamePayment_paid_iff (hr : r.Bound H) (hgood : ProofsNamePayment H (some r)) (i : ℕ) :
    ProofsNamePayment H (r.next H (.paid i)) ↔ PaymentRefused (some r) (.paid i) := by
  have hdestroyed : ProofsNamePayment H (some { r with payments := r.payments.destroy i }) := by
    rw [proofsNamePayment_some] at hgood ⊢
    simpa only [ScheduledPayments.submitted_destroy] using hgood
  simp only [next, PaymentRefused]
  cases hresult : r.payments.result i with
  | none => exact iff_of_true hdestroyed fun _ _ _ hack => nomatch hack
  | some ack =>
    dsimp only
    split
    · next hexit =>
      exact iff_of_true hdestroyed fun hgoes => absurd (hexit.symm.trans hgoes) (by decide)
    · next hexit =>
      have hgoes : r.exit = false := Bool.eq_false_iff.mpr hexit
      unfold reactTransactionAck
      split
      · next hstate =>
        split
        · next hstatus =>
          refine iff_of_true ?_ fun _ _ ack' hack => ?_
          · have hold := proofsNamePayment_some.mp hdestroyed
            exact proofsNamePayment_some.mpr hold
          · rwa [← Option.some.inj hack]
        · next hstatus =>
          refine iff_of_false (fun h => ?_) fun h => hstatus (h hgoes hstate ack rfl)
          have hproof := proofsNamePayment_some.mp h _
            (List.mem_append_right _ (List.mem_singleton_self _))
          rw [ScheduledPayments.submitted_destroy] at hproof
          exact not_paysPrice_ack hr hresult hstatus hproof
      · next hstate => exact iff_of_true hdestroyed fun _ hpays => absurd hpays hstate

def AllBound (H : HashFunctions) (s : Option CEnterNetworkAction) : Prop :=
  ∀ r, s = some r → r.Bound H

theorem reactTransactionAck_bound (hr : r.Bound H) (ack : CTransactionAck) :
    (r.reactTransactionAck H ack).Bound H := by
  unfold reactTransactionAck
  split
  · next hstate =>
    split
    · exact hr.setExit
    · exact ⟨hr.payments, fun h => nomatch hstate.symm.trans h⟩
  · exact hr

theorem step_bound (s : Option CEnterNetworkAction) (event : Event) (hevent : event.HashApart H)
    (hs : AllBound H s) : AllBound H (step H s event) := by
  intro r' hstep
  obtain ⟨r, rfl, hnext⟩ := Option.bind_eq_some_iff.mp hstep
  have hr := hs r rfl
  have hdestroy (i : ℕ) : Bound H { r with payments := r.payments.destroy i } :=
    ⟨hr.payments.destroy i, hr.start⟩
  cases event with
  | payment i event => exact (payment_reacts hr hevent hnext).bound
  | paid i =>
    simp only [next] at hnext
    split at hnext
    · obtain rfl := Option.some.inj hnext
      split
      · exact hdestroy i
      · exact reactTransactionAck_bound (hdestroy i) _
    · obtain rfl := Option.some.inj hnext
      exact hdestroy i
  | anotherAction monitorKey price =>
    obtain rfl := Option.some.inj hnext
    exact ⟨hr.payments, hr.start⟩
  | _ => exact (next_of_react hr hnext).bound

theorem proofsNamePayment_step_iff (s : Option CEnterNetworkAction) (event : Event)
    (hevent : event.HashApart H) (hs : AllBound H s) (hgood : ProofsNamePayment H s) :
    ProofsNamePayment H (step H s event) ↔ PaymentRefused s event := by
  cases s with
  | none => exact iff_of_true (fun _ h => nomatch h) trivial
  | some r =>
    have hr := hs r rfl
    have hreacts : (∀ r', r.next H event = some r' → Reacts H r r') →
        ProofsNamePayment H (r.next H event) := by
      intro hall r' hr' hash hhash
      exact (hall r' hr').proofsNamePayment hgood r' rfl hash hhash
    change ProofsNamePayment H (r.next H event) ↔ _
    cases event with
    | payment i event =>
      exact iff_of_true (hreacts fun r' hr' => payment_reacts hr hevent hr') trivial
    | paid i => exact proofsNamePayment_paid_iff hr hgood i
    | anotherAction monitorKey price =>
      have hold := proofsNamePayment_some.mp hgood
      exact iff_of_true (proofsNamePayment_some.mpr hold) trivial
    | _ => exact iff_of_true (hreacts fun r' hr' => next_of_react hr hr') trivial

end CEnterNetworkAction

/-- The proofs of a tracker name their payments in the runs in which each payment that is
acknowledged is made in the own network, and those of a monitor in the runs in which no payment
succeeds. -/
theorem admit_proofs_name_payment_iff (H : HashFunctions) (partnerKey monitorKey : CPubKey)
    (extension : Bool) (price : UInt32) (registerPayment : Int64)
    (registering : List CRegisterAction.Event) (entering : List CEnterNetworkAction.Event)
    (hregistering : ∀ event ∈ registering, event.HashApart H)
    (hentering : ∀ event ∈ entering, event.HashApart H) :
    ((∀ past, past <+: registering → CRegisterAction.ProofsNamePayment H
        (GuardedRun.run (CRegisterAction.step H)
          (some (.init partnerKey extension price registerPayment)) past)) ↔
      GuardedRun.Guarded (CRegisterAction.step H) CRegisterAction.PaidInNetwork
        (some (.init partnerKey extension price registerPayment)) registering) ∧
    ((∀ past, past <+: entering → CEnterNetworkAction.ProofsNamePayment H
        (GuardedRun.run (CEnterNetworkAction.step H)
          (some (.init partnerKey monitorKey price)) past)) ↔
      GuardedRun.Guarded (CEnterNetworkAction.step H) CEnterNetworkAction.PaymentRefused
        (some (.init partnerKey monitorKey price)) entering) := by
  constructor
  · refine GuardedRun.always_iff_of_mem CRegisterAction.step_bound
      CRegisterAction.proofsNamePayment_step_iff hregistering ?_ ?_
    · intro r hr
      obtain rfl := Option.some.inj hr
      refine ⟨CRecentTransactions.keptByHash_empty, ScheduledPayments.sound_empty, fun _ hpays => ?_,
        fun _ => ⟨rfl, rfl⟩⟩
      cases extension <;> simp [CRegisterAction.init, CRegisterAction.Pays] at hpays
    · intro r hr hash hhash
      obtain rfl := Option.some.inj hr
      cases hhash
  · refine GuardedRun.always_iff_of_mem CEnterNetworkAction.step_bound
      CEnterNetworkAction.proofsNamePayment_step_iff hentering ?_ ?_
    · intro r hr
      obtain rfl := Option.some.inj hr
      exact ⟨ScheduledPayments.sound_empty, fun _ => rfl⟩
    · intro r hr hash hhash
      obtain rfl := Option.some.inj hr
      cases hhash

namespace PaidAsClient

/-- The digest is the byte that tells how many inputs there are. -/
def hashes : HashFunctions := ⟨fun bytes => BitVec.ofNat 256 ((bytes.drop 4).headD 0).toNat, fun _ => 1⟩

def wallet : CWalletContext where
  selectCoins nTotalValue := some ([⟨⟨nTotalValue, []⟩, 0, 0⟩], nTotalValue)
  determineChangeAddress _ := none
  getRandInt _ := 0
  signSignature _ _ _ := some []

def emptyWallet : CWalletContext := { wallet with selectCoins := fun _ => none }

def partner : CPubKey := .ofBytes (2 :: List.replicate 32 1)

def payment : CTransaction :=
  ⟨1, [⟨⟨0, 0⟩, [], 0xffffffff⟩], CWalletContext.payTo [(1, 5), (1, 0)], 0, 0⟩

theorem wallet_hashApart : wallet.HashApart hashes := by
  intro outputs trackerKey price tx hcreate
  simp only [CWalletContext.createTransaction] at hcreate
  split at hcreate
  · cases hcreate
  · split at hcreate
    · cases hcreate
    · obtain ⟨⟨setCoins, nValueIn⟩, hselected, hchange⟩ := Option.bind_eq_some_iff.mp hcreate
      obtain ⟨rfl, rfl⟩ := Prod.mk.inj (Option.some.inj hselected)
      obtain ⟨vout, -, hsigning⟩ := Option.bind_eq_some_iff.mp hchange
      obtain ⟨signed, hsigned, hsize⟩ := Option.bind_eq_some_iff.mp hsigning
      obtain rfl := Option.some.inj hsigned
      split at hsize
      · cases hsize
      · obtain rfl := Option.some.inj hsize
        intro hhash
        exact absurd (hhash.symm.trans (rfl : _ = (1 : Uint256))) (by decide)

theorem emptyWallet_hashApart : emptyWallet.HashApart hashes := by
  intro outputs trackerKey price tx hcreate
  simp [CWalletContext.createTransaction, emptyWallet] at hcreate

def asClient : List CRegisterAction.Event :=
  [.registrationTerms 5, .messageResult true false false wallet,
    .payment 0 (.trackerInfo partner 1 true wallet), .payment 0 (.balance true wallet),
    .payment 0 (.messageResult true), .payment 0 .timeEvent, .paid 0]

set_option maxRecDepth 10000 in
theorem proof_names_no_payment : ¬ ∀ (H : HashFunctions) (partnerKey : CPubKey) (extension : Bool)
    (price : UInt32) (registerPayment : Int64) (events : List CRegisterAction.Event),
    CRegisterAction.ProofsNamePayment H (GuardedRun.run (CRegisterAction.step H)
      (some (.init partnerKey extension price registerPayment)) events) := by
  intro h
  obtain ⟨tx, htx, hhash, -⟩ := h hashes partner false 0 0 asClient _ rfl
    (CTransaction.new.getHash hashes) (List.mem_singleton.mpr rfl)
  rw [List.mem_singleton.mp htx] at hhash
  exact absurd (hhash.symm.trans (rfl : _ = (1 : Uint256))) (by decide)

def inNetwork : List CRegisterAction.Event :=
  [.registrationTerms 5, .messageResult true false true wallet, .recentTransaction 0 payment,
    .payment 0 .timeEvent, .paid 0]

def refused : List CEnterNetworkAction.Event :=
  [.enteranceTerms 5, .messageResult partner true,
    .payment 0 (.trackerInfo partner 1 true emptyWallet), .paid 0]

set_option maxRecDepth 10000 in
theorem proofs_name_payment : (∀ past, past <+: inNetwork → CRegisterAction.ProofsNamePayment hashes
      (GuardedRun.run (CRegisterAction.step hashes) (some (.init partner false 0 0)) past)) ∧
    ∀ past, past <+: refused → CEnterNetworkAction.ProofsNamePayment hashes
      (GuardedRun.run (CEnterNetworkAction.step hashes) (some (.init partner partner 0)) past) := by
  have hiff := admit_proofs_name_payment_iff hashes partner partner false 0 0 inNetwork refused
    (by simp [inNetwork, CRegisterAction.Event.HashApart, PassEvent.HashApart, wallet_hashApart])
    (by simp [refused, CEnterNetworkAction.Event.HashApart, PassEvent.HashApart, emptyWallet_hashApart])
  refine ⟨hiff.1.mpr ⟨trivial, trivial, trivial, trivial, ?_, trivial⟩,
    hiff.2.mpr ⟨trivial, trivial, trivial, ?_, trivial⟩⟩
  · rintro - - ack - - ⟨a, ha, hclient⟩
    obtain rfl := Option.some.inj ha
    rcases hclient with hstate | hstate <;> cases hstate
  · rintro - - ack hack
    obtain rfl := Option.some.inj hack
    rfl

end PaidAsClient

end Dims

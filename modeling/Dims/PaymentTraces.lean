import Dims.PassTransaction

/-!
# What a payment hands back

A payment in the own network hands back the transaction that was submitted. One that goes
through a servicing tracker hands back a transaction that nothing was assigned to.
-/

namespace Dims
open ByteCodec

def priceAmount (price : UInt32) : Int64 := price.toUInt64.toInt64

theorem toInt_priceAmount (price : UInt32) : (priceAmount price).toInt = price.toNat := by
  have hlt := price.toNat_lt
  rw [priceAmount, Int64.toInt, UInt64.toBitVec_toInt64, BitVec.toInt_eq_toNat_of_lt] <;>
    rw [UInt64.toNat_toBitVec, UInt32.toNat_toUInt64]
  omega

/-- The wallet creates no transaction with the hash of the one that has not been filled. -/
def CWalletContext.HashApart (H : HashFunctions) (wallet : CWalletContext) : Prop :=
  ∀ outputs trackerKey price tx, wallet.createTransaction H outputs [] trackerKey price = some tx →
    tx.getHash H ≠ CTransaction.new.getHash H

def PassEvent.HashApart (H : HashFunctions) : PassEvent → Prop
  | .trackerInfo _ _ _ wallet => wallet.HashApart H
  | .balance _ wallet => wallet.HashApart H
  | _ => True

/-- A transaction with the hash has been submitted and pays the amount to the key. -/
def PaysAmount (H : HashFunctions) (submitted : List CTransaction) (keyId : CKeyID) (amount : Int64)
    (hash : Uint256) : Prop :=
  ∃ tx ∈ submitted, tx.getHash H = hash ∧
    ⟨amount, .setDestination keyId⟩ ∈ findOutputInTransaction H keyId tx.vout

/-- A transaction with the hash has been submitted, and its outputs to the key hold one of at
least the price. -/
def PaysPrice (H : HashFunctions) (submitted : List CTransaction) (keyId : CKeyID)
    (price : UInt32) (hash : Uint256) : Prop :=
  ∃ tx ∈ submitted, tx.getHash H = hash ∧
    ∃ txOut ∈ findOutputInTransaction H keyId tx.vout, (price.toNat : ℤ) ≤ txOut.nValue.toInt

section PaysAmount

variable {H : HashFunctions} {submitted submitted' : List CTransaction} {keyId : CKeyID}
  {amount : Int64} {price : UInt32} {hash : Uint256}

theorem PaysAmount.mono (h : PaysAmount H submitted keyId amount hash) (hsub : submitted ⊆ submitted') :
    PaysAmount H submitted' keyId amount hash := by
  obtain ⟨tx, htx, hpays⟩ := h
  exact ⟨tx, hsub htx, hpays⟩

theorem PaysPrice.mono (h : PaysPrice H submitted keyId price hash) (hsub : submitted ⊆ submitted') :
    PaysPrice H submitted' keyId price hash := by
  obtain ⟨tx, htx, hpays⟩ := h
  exact ⟨tx, hsub htx, hpays⟩

theorem PaysAmount.paysPrice (h : PaysAmount H submitted keyId (priceAmount price) hash) :
    PaysPrice H submitted keyId price hash := by
  obtain ⟨tx, htx, hhash, hout⟩ := h
  exact ⟨tx, htx, hhash, _, hout, (toInt_priceAmount price).ge⟩

end PaysAmount

namespace CRecentTransactions

/-- Each transaction is kept under its hash. -/
def KeptByHash (H : HashFunctions) (s : CRecentTransactions) : Prop :=
  ∀ time period, s.recentTransactions.lookup time = some period →
    ∀ hash tx, period.lookup hash = some tx → tx.getHash H = hash

variable {H : HashFunctions} {s : CRecentTransactions}

theorem KeptByHash.getTransaction (hs : s.KeptByHash H) {hash : Uint256} {tx : CTransaction}
    (h : s.getTransaction hash = some tx) : tx.getHash H = hash := by
  obtain ⟨⟨time, period⟩, hmem, hfound⟩ := List.exists_of_findSome?_eq_some h
  exact hs time period (OrderedMap.mem_entries.mp hmem) hash tx hfound

theorem KeptByHash.openPeriod (hs : s.KeptByHash H) (time : BitVec 64) :
    (s.openPeriod time).KeptByHash H := by
  have hdrop : s.dropPeriod.KeptByHash H := by
    unfold dropPeriod
    split
    · split
      · exact hs
      · intro time' period hlookup
        rw [OrderedMap.erase, OrderedMap.lookup_filter] at hlookup
        exact hs time' period (Option.filter_eq_some_iff.mp hlookup).1
    · exact hs
  unfold CRecentTransactions.openPeriod
  split
  · exact hdrop
  · exact hs

theorem KeptByHash.setTransactionToTemporary (hs : s.KeptByHash H) (time : BitVec 64)
    (tx : CTransaction) : (s.setTransactionToTemporary H time tx).KeptByHash H := by
  have hopen := hs.openPeriod time
  unfold CRecentTransactions.setTransactionToTemporary
  generalize s.openPeriod time = s' at hopen ⊢
  intro time' period hlookup hash found hfound
  obtain ⟨rfl, rfl⟩ | hold := OrderedMap.eq_or_lookup_of_assign hlookup
  · obtain ⟨rfl, rfl⟩ | hold := OrderedMap.eq_or_lookup_of_insertNew hfound
    · rfl
    · cases hperiod : s'.recentTransactions.lookup s'.lastUsedTime with
      | none => simp [hperiod] at hold
      | some period => exact hopen _ period hperiod hash found (by simpa [hperiod] using hold)
  · exact hopen time' period hold hash found hfound

theorem keptByHash_empty : CRecentTransactions.empty.KeptByHash H := by
  intro time period hlookup
  simp [CRecentTransactions.empty] at hlookup

end CRecentTransactions

namespace CPassTransactionAction

/-- The payment goes through a servicing tracker. -/
def AsClient (a : CPassTransactionAction) : Prop :=
  a.state = .processTransaction ∨ a.state = .checkStatus

/-- What is known of the transaction that the sub-action hands back. -/
structure Traced (H : HashFunctions) (submitted : List CTransaction) (a : CPassTransactionAction) :
    Prop where
  client : a.AsClient → ∀ ack, a.result = some ack → ack.status = .invalid ∨ ack.transaction = .new
  network : ¬ a.AsClient → ∀ ack, a.result = some ack →
    ack.status = .invalid ∨ PaysAmount H submitted a.keyId a.amount (ack.transaction.getHash H)
  waits : ∀ hash, a.state = .validInNetwork hash → a.exit = false →
    PaysAmount H submitted a.keyId a.amount hash

variable {H : HashFunctions} {submitted submitted' : List CTransaction} {a : CPassTransactionAction}

theorem Traced.mono (h : a.Traced H submitted) (hsub : submitted ⊆ submitted') :
    a.Traced H submitted' where
  client := h.client
  network hclient ack hack := (h.network hclient ack hack).imp_right (·.mono hsub)
  waits hash hstate hexit := (h.waits hash hstate hexit).mono hsub

/-- What a step of a sub-action keeps: the payment, and what is known of its result. -/
structure Advances (H : HashFunctions) (submitted : List CTransaction) (keyId : CKeyID)
    (amount : Int64) (step : PassStep) : Prop where
  keyId_eq : step.1.keyId = keyId
  amount_eq : step.1.amount = amount
  traced : step.1.Traced H (submitted ++ step.2.toList)
  apart : ∀ tx ∈ step.2.toList, tx.getHash H ≠ CTransaction.new.getHash H

theorem createTransaction_paid {wallet : CWalletContext} {trackerKey : CPubKey} {price : UInt32}
    {tx : CTransaction}
    (hcreate : wallet.createTransaction H a.outputs [] trackerKey price = some tx) :
    PaysAmount H (submitted ++ (some tx).toList) a.keyId a.amount (tx.getHash H) :=
  ⟨tx, by simp, rfl, CWalletContext.createTransaction_pays hcreate (List.mem_singleton_self _)⟩

theorem advances_of_result_none (hresult : a.result = none)
    (hwaits : ∀ hash, a.state ≠ .validInNetwork hash) :
    Advances H submitted a.keyId a.amount (a, none) where
  keyId_eq := rfl
  amount_eq := rfl
  traced := by
    refine ⟨fun _ ack hack => ?_, fun _ ack hack => ?_, fun hash hstate => ?_⟩
    · cases hresult.symm.trans hack
    · cases hresult.symm.trans hack
    · exact absurd hstate (hwaits hash)
  apart := by simp

theorem setInvalid_advances : Advances H submitted a.keyId a.amount (a.setInvalid, none) where
  keyId_eq := rfl
  amount_eq := rfl
  traced := by
    refine ⟨fun _ ack hack => ?_, fun _ ack hack => ?_, fun hash _ hexit => nomatch hexit⟩
    · obtain rfl := Option.some.inj hack
      exact .inl rfl
    · obtain rfl := Option.some.inj hack
      exact .inl rfl
  apart := by simp

theorem Advances.of_client {a' : CPassTransactionAction} (h : a.Traced H submitted)
    (hkey : a'.keyId = a.keyId) (hamount : a'.amount = a.amount) (hresult : a'.result = a.result)
    (hclient : a'.AsClient ↔ a.AsClient) (hstate : ∀ hash, a'.state ≠ .validInNetwork hash) :
    Advances H submitted a.keyId a.amount (a', none) where
  keyId_eq := hkey
  amount_eq := hamount
  traced := by
    rw [Option.toList_none, List.append_nil]
    refine ⟨fun h' => ?_, fun h' => ?_, fun hash hwaits => absurd hwaits (hstate hash)⟩
    · rw [hresult]
      exact h.client (hclient.mp h')
    · rw [hresult, hkey, hamount]
      exact h.network (mt hclient.mpr h')
  apart := by simp

theorem processed_advances {a' : CPassTransactionAction} {created : Option CTransaction}
    (hkey : a'.keyId = a.keyId) (hamount : a'.amount = a.amount)
    (hstate : a'.state = .processTransaction)
    (hresult : ∀ ack, a'.result = some ack → ack.transaction = .new)
    (hcreated : ∀ tx ∈ created.toList, tx.getHash H ≠ CTransaction.new.getHash H) :
    Advances H submitted a.keyId a.amount (a', created) where
  keyId_eq := hkey
  amount_eq := hamount
  traced := by
    refine ⟨fun _ ack hack => .inr (hresult ack hack), fun h => absurd (.inl hstate) h,
      fun hash hwaits => ?_⟩
    cases hstate.symm.trans hwaits
  apart := hcreated

namespace Tracker

theorem construct_advances {keyId : CKeyID} {amount : Int64} {isConnected : Bool}
    {wallet : CWalletContext} (hwallet : wallet.HashApart H) :
    Advances H submitted keyId amount (construct H keyId amount isConnected wallet) := by
  unfold construct
  split
  · unfold enterValidInNetwork
    split
    · exact setInvalid_advances (a := new keyId amount (.validInNetwork 0))
    · next tx hcreate =>
      refine ⟨rfl, rfl, ⟨fun hclient => ?_, fun _ ack hack => (nomatch hack), ?_⟩, ?_⟩
      · simp [AsClient] at hclient
      · intro hash hstate _
        obtain rfl := PassState.validInNetwork.inj hstate
        exact createTransaction_paid (a := new keyId amount (.validInNetwork 0)) hcreate
      · intro tx' htx'
        obtain rfl : tx' = tx := by simpa using htx'
        exact hwallet _ _ _ _ hcreate
  · exact advances_of_result_none (a := new keyId amount .processAsClient) rfl fun _ => nofun

theorem enterProcessTransaction_advances {wallet : CWalletContext} (hwallet : wallet.HashApart H) :
    Advances H submitted a.keyId a.amount (enterProcessTransaction H a wallet) := by
  simp only [enterProcessTransaction]
  split
  · refine processed_advances rfl rfl rfl (fun ack hack => ?_) (by simp)
    obtain rfl := Option.some.inj hack
    rfl
  · next tx hcreate =>
    refine processed_advances rfl rfl rfl (fun ack hack => ?_) fun tx' htx' => ?_
    · obtain rfl := Option.some.inj hack
      rfl
    · obtain rfl : tx' = tx := by simpa using htx'
      exact hwallet _ _ _ _ hcreate

theorem react_advances {recent : CRecentTransactions} (hrecent : recent.KeptByHash H)
    (ha : a.Traced H submitted) (hexit : a.exit = false) {event : PassEvent}
    (hevent : event.HashApart H) {next : PassStep} (hreact : react H recent a event = some next) :
    Advances H submitted a.keyId a.amount next := by
  unfold react at hreact
  split at hreact
  · next transactionHash hstate =>
    have hpaid := ha.waits transactionHash hstate hexit
    split at hreact
    · next transaction hfound =>
      obtain rfl := Option.some.inj hreact
      refine ⟨rfl, rfl, ⟨fun hclient => ?_, fun _ ack hack => ?_, fun _ _ h => (nomatch h)⟩, by simp⟩
      · simp [AsClient, hstate] at hclient
      · obtain rfl := Option.some.inj hack
        refine .inr (PaysAmount.mono ?_ (List.subset_append_left _ _))
        rwa [show transaction.getHash H = transactionHash from hrecent.getTransaction hfound]
    · obtain rfl := Option.some.inj hreact
      exact ⟨rfl, rfl, ha.mono (List.subset_append_left _ _), by simp⟩
  · next hstate =>
    obtain rfl := Option.some.inj hreact
    exact .of_client ha rfl rfl rfl .rfl fun hash h => nomatch hstate.symm.trans h
  · next hstate =>
    obtain rfl := Option.some.inj hreact
    refine .of_client ha rfl rfl rfl ?_ fun hash => nofun
    simp [AsClient, hstate]
  · next hstate =>
    split at hreact
    · obtain rfl := Option.some.inj hreact
      exact enterProcessTransaction_advances hevent
    · obtain rfl := Option.some.inj hreact
      exact .of_client ha rfl rfl rfl .rfl fun hash h => nomatch hstate.symm.trans h
  · next hstate =>
    obtain rfl := Option.some.inj hreact
    exact .of_client ha rfl rfl rfl .rfl fun hash h => nomatch hstate.symm.trans h
  · next hstate =>
    split at hreact
    · obtain rfl := Option.some.inj hreact
      refine .of_client ha rfl rfl rfl ?_ fun hash => nofun
      simp [AsClient, hstate]
    · cases hreact
  · next hstate =>
    obtain rfl := Option.some.inj hreact
    exact .of_client ha rfl rfl rfl .rfl fun hash h => nomatch hstate.symm.trans h
  · obtain rfl := Option.some.inj hreact
    exact ⟨rfl, rfl, ha.mono (List.subset_append_left _ _), by simp⟩

end Tracker

namespace Monitor

/-- A monitor pays as a client only. -/
def PaysAsClient (a : CPassTransactionAction) : Prop :=
  (∀ hash, a.state ≠ .validInNetwork hash) ∧
    (¬ a.AsClient → ∀ ack, a.result = some ack → ack.status = .invalid)

theorem enterProcessTransaction_advances {wallet : CWalletContext} (hwallet : wallet.HashApart H) :
    Advances H submitted a.keyId a.amount (enterProcessTransaction H a wallet) := by
  simp only [enterProcessTransaction]
  split
  · exact setInvalid_advances (a := { a with state := .processTransaction })
  · next tx hcreate =>
    refine processed_advances rfl rfl rfl (fun ack hack => ?_) fun tx' htx' => ?_
    · obtain rfl := Option.some.inj hack
      rfl
    · obtain rfl : tx' = tx := by simpa using htx'
      exact hwallet _ _ _ _ hcreate

theorem enterProcessTransaction_state (wallet : CWalletContext) :
    (enterProcessTransaction H a wallet).1.state = .processTransaction := by
  simp only [enterProcessTransaction]
  split <;> rfl

theorem paysAsClient_of_processTransaction (hstate : a.state = .processTransaction) :
    PaysAsClient a := by
  refine ⟨fun hash h => (nomatch hstate.symm.trans h), fun hclient => ?_⟩
  exact absurd (.inl hstate) hclient

theorem react_advances (ha : a.Traced H submitted) (hpays : PaysAsClient a) {event : PassEvent}
    (hevent : event.HashApart H) {next : PassStep} (hreact : react H a event = some next) :
    Advances H submitted a.keyId a.amount next ∧ PaysAsClient next.1 := by
  unfold react at hreact
  split at hreact
  · next key price isAdmitted wallet hstate =>
    dsimp only at hreact
    split at hreact
    · obtain rfl := Option.some.inj hreact
      refine ⟨enterProcessTransaction_advances
        (a := { a with servicingTracker := key, servicingPrice := price }) hevent, ?_⟩
      exact paysAsClient_of_processTransaction (enterProcessTransaction_state wallet)
    · obtain rfl := Option.some.inj hreact
      refine ⟨.of_client ha rfl rfl rfl ?_ fun hash => nofun, fun hash => nofun, fun hclient => ?_⟩
      · simp [AsClient, hstate]
      · exact hpays.2 (by simp [AsClient, hstate])
  · next hstate =>
    obtain rfl := Option.some.inj hreact
    refine ⟨setInvalid_advances, fun hash h => (nomatch hstate.symm.trans h), fun _ ack hack => ?_⟩
    obtain rfl := Option.some.inj hack
    rfl
  · obtain rfl := Option.some.inj hreact
    refine ⟨enterProcessTransaction_advances hevent, ?_⟩
    exact paysAsClient_of_processTransaction (enterProcessTransaction_state _)
  · obtain rfl := Option.some.inj hreact
    exact ⟨.of_client ha rfl rfl rfl .rfl hpays.1, hpays⟩
  · next hstate =>
    split at hreact
    · obtain rfl := Option.some.inj hreact
      refine ⟨.of_client ha rfl rfl rfl ?_ fun hash => nofun, fun hash => nofun, fun hclient => ?_⟩
      · simp [AsClient, hstate]
      · simp [AsClient] at hclient
    · cases hreact
  · obtain rfl := Option.some.inj hreact
    exact ⟨.of_client ha rfl rfl rfl .rfl hpays.1, hpays⟩
  · obtain rfl := Option.some.inj hreact
    exact ⟨.of_client ha rfl rfl rfl .rfl hpays.1, hpays⟩

end Monitor

end CPassTransactionAction

namespace ScheduledPayments

/-- What is known of the sub-actions, which all fit the action that has scheduled them. -/
structure Sound (H : HashFunctions) (Fits : CPassTransactionAction → Prop) (s : ScheduledPayments) :
    Prop where
  traced : ∀ a ∈ s.actions, a.action.Traced H s.submitted
  fits : ∀ a ∈ s.actions, Fits a.action
  apart : ∀ tx ∈ s.submitted, tx.getHash H ≠ CTransaction.new.getHash H

/-- The sub-action pays through a servicing tracker. -/
def AsClient (s : ScheduledPayments) (i : ℕ) : Prop :=
  ∃ a, s.actions[i]? = some a ∧ a.action.AsClient

variable {H : HashFunctions} {Fits : CPassTransactionAction → Prop} {s s' : ScheduledPayments}

theorem sound_empty : Sound H Fits empty :=
  ⟨fun _ h => (nomatch h), fun _ h => (nomatch h), fun _ h => (nomatch h)⟩

theorem apart_append {submitted : List CTransaction} {created : Option CTransaction}
    (hold : ∀ tx ∈ submitted, tx.getHash H ≠ CTransaction.new.getHash H)
    (hnew : ∀ tx ∈ created.toList, tx.getHash H ≠ CTransaction.new.getHash H) :
    ∀ tx ∈ submitted ++ created.toList, tx.getHash H ≠ CTransaction.new.getHash H := by
  intro tx htx
  exact (List.mem_append.mp htx).elim (hold tx) (hnew tx)

theorem Sound.schedule (hs : s.Sound H Fits) {step : PassStep} {keyId : CKeyID} {amount : Int64}
    (hstep : CPassTransactionAction.Advances H s.submitted keyId amount step) (hfits : Fits step.1) :
    (s.schedule step).Sound H Fits := by
  refine ⟨fun a ha => ?_, fun a ha => ?_, apart_append hs.apart hstep.apart⟩
  · rcases List.mem_append.mp ha with hold | hnew
    · exact (hs.traced a hold).mono (List.subset_append_left _ _)
    · rw [List.mem_singleton.mp hnew]
      exact hstep.traced
  · rcases List.mem_append.mp ha with hold | hnew
    · exact hs.fits a hold
    · rw [List.mem_singleton.mp hnew]
      exact hfits

theorem Sound.forgetRequests (hs : s.Sound H Fits) : s.forgetRequests.Sound H Fits := by
  refine ⟨fun a ha => ?_, fun a ha => ?_, hs.apart⟩
  · obtain ⟨b, hb, rfl⟩ := List.mem_map.mp ha
    exact hs.traced b hb
  · obtain ⟨b, hb, rfl⟩ := List.mem_map.mp ha
    exact hs.fits b hb

theorem Sound.respond (hs : s.Sound H Fits) {i : ℕ}
    {react : CPassTransactionAction → Option PassStep}
    (hreact : ∀ a, a.Traced H s.submitted → Fits a → a.exit = false → ∀ step, react a = some step →
      CPassTransactionAction.Advances H s.submitted a.keyId a.amount step ∧ Fits step.1)
    (hrespond : s.respond i react = some s') : s'.Sound H Fits ∧ s.submitted ⊆ s'.submitted := by
  unfold ScheduledPayments.respond at hrespond
  split at hrespond
  · obtain rfl := Option.some.inj hrespond
    exact ⟨hs, List.Subset.refl _⟩
  · next a hget =>
    have hmem : a ∈ s.actions := List.mem_of_getElem? hget
    split at hrespond
    · obtain rfl := Option.some.inj hrespond
      exact ⟨hs, List.Subset.refl _⟩
    · next hexit =>
      obtain ⟨step, hstep, rfl⟩ := Option.map_eq_some_iff.mp hrespond
      obtain ⟨hadvances, hfits⟩ := hreact a.action (hs.traced a hmem) (hs.fits a hmem)
        (Bool.eq_false_iff.mpr hexit) step hstep
      refine ⟨⟨fun b hb => ?_, fun b hb => ?_, apart_append hs.apart hadvances.apart⟩,
        List.subset_append_left _ _⟩
      · rcases List.mem_or_eq_of_mem_set hb with hold | rfl
        · exact (hs.traced b hold).mono (List.subset_append_left _ _)
        · exact hadvances.traced
      · rcases List.mem_or_eq_of_mem_set hb with hold | rfl
        · exact hs.fits b hold
        · exact hfits

theorem Sound.destroy (hs : s.Sound H Fits) (i : ℕ) : (s.destroy i).Sound H Fits := by
  unfold ScheduledPayments.destroy
  split
  · exact hs
  · split
    · exact ⟨fun a ha => hs.traced a (List.mem_of_mem_eraseIdx ha),
        fun a ha => hs.fits a (List.mem_of_mem_eraseIdx ha), hs.apart⟩
    · exact hs

theorem submitted_destroy (s : ScheduledPayments) (i : ℕ) : (s.destroy i).submitted = s.submitted := by
  unfold ScheduledPayments.destroy
  split
  · rfl
  · split <;> rfl

theorem result_eq_some {i : ℕ} {ack : CTransactionAck} (h : s.result i = some ack) :
    ∃ a, s.actions[i]? = some a ∧ a.action.result = some ack := by
  unfold ScheduledPayments.result at h
  split at h
  · cases h
  · next a hget =>
    split at h
    · exact ⟨a, hget, h⟩
    · cases h

/-- A payment through a servicing tracker hands back a transaction that was not submitted. -/
theorem Sound.not_paysPrice (hs : s.Sound H Fits) {i : ℕ} {ack : CTransactionAck}
    (hresult : s.result i = some ack) (hstatus : ack.status ≠ .invalid) (hclient : s.AsClient i)
    (keyId : CKeyID) (price : UInt32) :
    ¬ PaysPrice H s.submitted keyId price (ack.transaction.getHash H) := by
  obtain ⟨a, hget, hack⟩ := result_eq_some hresult
  obtain ⟨b, hget', hb⟩ := hclient
  obtain rfl := Option.some.inj (hget.symm.trans hget')
  rintro ⟨tx, htx, hhash, -⟩
  have hnew := ((hs.traced a (List.mem_of_getElem? hget)).client hb ack hack).resolve_left hstatus
  rw [hnew] at hhash
  exact hs.apart tx htx hhash

theorem Sound.paysAmount (hs : s.Sound H Fits) {i : ℕ} {ack : CTransactionAck}
    (hresult : s.result i = some ack) (hstatus : ack.status ≠ .invalid)
    (hclient : ¬ s.AsClient i) :
    ∃ a, Fits a ∧ a.result = some ack ∧ ¬ a.AsClient ∧
      PaysAmount H s.submitted a.keyId a.amount (ack.transaction.getHash H) := by
  obtain ⟨a, hget, hack⟩ := result_eq_some hresult
  have hmem := List.mem_of_getElem? hget
  have ha : ¬ a.action.AsClient := fun h => hclient ⟨a, hget, h⟩
  exact ⟨a.action, hs.fits a hmem, hack, ha,
    ((hs.traced a hmem).network ha ack hack).resolve_left hstatus⟩

end ScheduledPayments

end Dims

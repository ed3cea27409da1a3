import Dims.ClientActions
import Dims.PaymentProof
import Dims.PaymentStages
import Dims.PendingTransactions

/-!
# What the actions of a client have admitted

The send and payment actions of a client share its wallet. Beside it stand the transactions that
it has created and the calls of `addmitNewTransaction`.
-/

namespace Dims

structure AdmittingClient where
  wallet : CWallet
  /-- What the wallet has created, and what `addmitNewTransaction` has been called with. -/
  created : List CTransaction
  admitted : List (Uint256 × CTransaction)
  sends : List CSendTransactionAction
  payments : List ClientPayment

namespace AdmittingClient

variable (H : HashFunctions) (N : NodeSignatures)

inductive Event
  | send (outputs : List (CKeyID × Int64)) (sendCoins : List CAvailableCoin)
      (processingTrackerPtr : ℕ)
  | pay (privKeyId targetKey : CKeyID) (value : Int64) (trackers monitors : List CKeyID)
      (accepts : Bool)
  /-- The network client executes the request of a send action. -/
  | createTransaction (S : CWalletServices) (i : ℕ) (trackerKey : CPubKey) (price : UInt32)
  | sendReply (i : ℕ) (event : CSendTransactionAction.Event)
  | payReply (S : CWalletServices) (i : ℕ) (event : CPayLocalApplicationAction.Event)
  /-- The answer for a key that `CGetBalanceInfo` has asked for. -/
  | balanceInfo (keyId : CKeyID) (coins : List CAvailableCoin)
      (inputs : OrderedMap Uint256 (List CKeyID))

def start (wallet : CWallet) : AdmittingClient := ⟨wallet, [], [], [], []⟩

/-- A transaction is created, unless that fails. -/
def create (s : AdmittingClient) (S : CWalletServices) (outputs : List (CKeyID × Int64))
    (coinsToUse : List CAvailableCoin) (trackerKey : CPubKey) (price : UInt32) : AdmittingClient :=
  match s.wallet.createTransaction S H outputs coinsToUse trackerKey price with
  | none => s
  | some (tx, wallet) => { s with wallet := wallet, created := s.created ++ [tx] }

/-- The call of `addmitNewTransaction` that the action makes that an event is for. -/
def admission (s : AdmittingClient) : Event → Option (Uint256 × CTransaction)
  | .sendReply i event => s.sends[i]?.bind fun a =>
    if a.requests.any event.answers then a.addmits H event else none
  | .payReply _ i event => s.payments[i]?.bind fun p =>
    if p.requests.any (ClientPayment.answers event) then p.payment.addmits event else none
  | _ => none

/-- No value where the program is aborted. -/
def addmit (s : AdmittingClient) : Option (Uint256 × CTransaction) → Option AdmittingClient
  | none => some s
  | some call => (s.wallet.addmitNewTransaction H call.1 call.2).map fun wallet =>
    { s with wallet := wallet, admitted := s.admitted ++ [call] }

def createFor (s : AdmittingClient) (S : CWalletServices) (a : CPayLocalApplicationAction)
    (outputs : List (CKeyID × Int64)) (txOuts : List CTxOut) (trackerKey : CPubKey)
    (price : UInt32) : Option CTransaction :=
  (s.wallet.createTransaction S H outputs (a.coinsToUse H txOuts) trackerKey price).map Prod.fst

/-- A payment reacts, and the wallet keeps what it has created for it. -/
def pays (s : AdmittingClient) (S : CWalletServices) (i : ℕ) (p p' : ClientPayment) :
    AdmittingClient :=
  let s := { s with payments := s.payments.set i p' }
  match p.payment.creation H p'.payment with
  | none => s
  | some (outputs, coins) =>
    s.create H S outputs coins p'.payment.trackerStats.key p'.payment.trackerStats.price

def perform (s : AdmittingClient) : Event → Option AdmittingClient
  | .send outputs sendCoins ptr =>
    some { s with sends := s.sends ++ [.init outputs sendCoins ptr] }
  | .pay privKeyId targetKey value trackers monitors accepts =>
    some { s with payments :=
      s.payments ++ [.start privKeyId targetKey value trackers monitors accepts] }
  | .createTransaction S i trackerKey price =>
    match s.sends[i]? with
    | none => some s
    | some a =>
      if .createTransaction ∈ a.requests then
        some (s.create H S a.outputs a.sendCoins trackerKey price)
      else some s
  | .sendReply i event => some { s with sends := s.sends.modify i (·.step event) }
  | .payReply S i event =>
    match s.payments[i]? with
    | none => some s
    | some p => (ClientPayment.step H N (some p)
        (event.createWith (s.createFor H S p.payment))).map (s.pays H S i p)
  | .balanceInfo keyId coins inputs =>
    some { s with wallet := (s.wallet.addInputs inputs).replaceCoins keyId coins }

/-- The admission comes before a second transaction is created. -/
def step (s : Option AdmittingClient) (event : Event) : Option AdmittingClient :=
  s.bind fun s => (s.addmit H (s.admission H event)).bind fun s => s.perform H N event

/-- An admission names a transaction that the wallet has created and that waits. -/
def Rightly (s : AdmittingClient) (call : Uint256 × CTransaction) : Prop :=
  call.2 ∈ s.created ∧ call.1 = call.2.getHash H ∧ (s.wallet.waitingChanges.lookup call.1).isSome

/-- Both transactions of a payment have been admitted, and what they spend is not available. -/
def BothAdmitted (s : AdmittingClient) (a : CPayLocalApplicationAction) : Prop :=
  (a.firstInitialHash, a.firstTransaction) ∈ s.admitted ∧
    a.secondTransaction ∈ s.admitted.map Prod.snd ∧
    ∀ coin ∈ s.wallet.availableCoins.values,
      coin.outPoint ∉ a.firstTransaction.spent ∧ coin.outPoint ∉ a.secondTransaction.spent

instance (s : AdmittingClient) (call : Uint256 × CTransaction) : Decidable (s.Rightly H call) :=
  inferInstanceAs (Decidable (_ ∧ _ ∧ _))

instance (s : AdmittingClient) (a : CPayLocalApplicationAction) : Decidable (s.BothAdmitted a) :=
  inferInstanceAs (Decidable (_ ∧ _ ∧ ∀ coin ∈ s.wallet.availableCoins.values, _ ∧ _))

/-- A tracker acknowledges what the wallet has created, in a payment what it has created for it,
and the second transaction of a payment is not confirmed. -/
def Expected (s : AdmittingClient) : Event → Prop
  | .sendReply i (.transactionAck status tx _) =>
    ∀ a ∈ s.sends[i]?, status = .validated → .createTransaction ∈ a.requests → tx ∈ s.created
  | .payReply _ i (.transactionAck status tx) =>
    ∀ p ∈ s.payments[i]?, status = .validated → .transaction ∈ p.requests →
      p.payment.state = .serviceByTracker →
        tx ∈ s.created ∧ p.payment.firstInitialHash = tx.getHash H
  | .payReply _ i (.transactionStatus _ _ _ status) =>
    ∀ p ∈ s.payments[i]?, status = .confirmed → .transactionStatus ∈ p.requests →
      p.payment.state ≠ .secondCheck
  | _ => True

instance (s : AdmittingClient) : ∀ event : Event, Decidable (s.Expected H event)
  | .sendReply i (.transactionAck ..) => inferInstanceAs (Decidable (∀ a ∈ s.sends[i]?, _ → _ → _))
  | .payReply _ i (.transactionAck ..) =>
    inferInstanceAs (Decidable (∀ p ∈ s.payments[i]?, _ → _ → _ → _ ∧ _))
  | .payReply _ i (.transactionStatus ..) =>
    inferInstanceAs (Decidable (∀ p ∈ s.payments[i]?, _ → _ → _))
  | .send .. | .pay .. | .createTransaction .. | .balanceInfo ..
  | .sendReply _ (.transactionStatus ..) | .sendReply _ .noMedium | .payReply _ _ (.userAsked _)
  | .payReply _ _ (.timeEvent _) | .payReply _ _ (.monitorData ..) | .payReply _ _ .noMedium =>
    inferInstanceAs (Decidable True)

/-- Nothing that has been created is forgotten, and what is known of the payments holds. -/
structure Kept (s : AdmittingClient) : Prop where
  waits : ∀ tx ∈ s.created, (s.wallet.waitingChanges.lookup (tx.getHash H)).isSome
  payments : ∀ p ∈ s.payments, p.payment.Recorded H s.created s.admitted

/-- The actions hold transactions that the wallet has created. -/
structure Trusting (s : AdmittingClient) : Prop where
  sends : ∀ a ∈ s.sends, a.state = .transactionStatus → a.transaction ∈ s.created
  payments : ∀ p ∈ s.payments, p.payment.Acknowledged H s.created

section Steps

variable {H N} {s s' : AdmittingClient}

variable {S : CWalletServices} {outputs : List (CKeyID × Int64)} {coinsToUse : List CAvailableCoin}
  {trackerKey : CPubKey} {price : UInt32}

@[simp] theorem create_sends :
    (s.create H S outputs coinsToUse trackerKey price).sends = s.sends := by
  rw [create]
  split <;> rfl

@[simp] theorem create_payments :
    (s.create H S outputs coinsToUse trackerKey price).payments = s.payments := by
  rw [create]
  split <;> rfl

@[simp] theorem create_admitted :
    (s.create H S outputs coinsToUse trackerKey price).admitted = s.admitted := by
  rw [create]
  split <;> rfl

theorem created_create : s.created ⊆ (s.create H S outputs coinsToUse trackerKey price).created := by
  rw [create]
  split
  · exact List.Subset.refl _
  · exact List.subset_append_left _ _

theorem mem_created_create {tx : CTransaction}
    (h : (s.wallet.createTransaction S H outputs coinsToUse trackerKey price).map Prod.fst = some tx) :
    tx ∈ (s.create H S outputs coinsToUse trackerKey price).created := by
  obtain ⟨⟨_, wallet⟩, hcreate, rfl⟩ := Option.map_eq_some_iff.mp h
  rw [create, hcreate]
  exact List.mem_append_right _ (List.mem_singleton_self _)

theorem waits_create
    (hs : ∀ tx ∈ s.created, (s.wallet.waitingChanges.lookup (tx.getHash H)).isSome) :
    ∀ tx ∈ (s.create H S outputs coinsToUse trackerKey price).created,
      ((s.create H S outputs coinsToUse trackerKey price).wallet.waitingChanges.lookup
        (tx.getHash H)).isSome := by
  rw [create]
  split
  case h_1 => exact hs
  case h_2 tx wallet hcreate =>
    obtain ⟨-, -, toRemove, toAdd, -, -, -, -, -, -, rfl⟩ := CWallet.createTransaction_spec hcreate
    intro tx' htx'
    rw [OrderedMap.isSome_lookup_insertNew]
    rcases List.mem_append.mp htx' with hmem | hnew
    · exact .inr (hs tx' hmem)
    · rw [List.mem_singleton.mp hnew]
      exact .inl rfl

/-- An admission changes only the wallet, and what waits goes on waiting. -/
theorem addmit_spec {call : Option (Uint256 × CTransaction)} (h : s.addmit H call = some s') :
    ∃ wallet, s' = { s with wallet := wallet, admitted := s.admitted ++ call.toList } ∧
      ∀ hash, (s.wallet.waitingChanges.lookup hash).isSome →
        (wallet.waitingChanges.lookup hash).isSome := by
  cases call with
  | none =>
    cases h
    refine ⟨s.wallet, ?_, fun _ hwaits => hwaits⟩
    simp
  | some call =>
    obtain ⟨wallet, haddmit, rfl⟩ := Option.map_eq_some_iff.mp h
    refine ⟨wallet, rfl, fun hash hwaits => ?_⟩
    cases hupdate : s.wallet.waitingChanges.lookup call.1 with
    | none =>
      rw [CWallet.addmitNewTransaction, hupdate] at haddmit
      cases haddmit
    | some update =>
      rw [(CWallet.addmitNewTransaction_spec hupdate haddmit).2.2.2, OrderedMap.isSome_lookup_assign]
      exact .inr hwaits

theorem recorded_start {created : List CTransaction} {admitted : List (Uint256 × CTransaction)}
    (privKeyId targetKey : CKeyID) (value : Int64) (trackers monitors : List CKeyID)
    (accepts : Bool) :
    (ClientPayment.start privKeyId targetKey value trackers monitors accepts).payment.Recorded H
      created admitted := by
  cases accepts with
  | true =>
    refine ⟨fun _ hstate => ?_, fun hfirst => ?_, fun hsent => ?_⟩
    · cases hstate
    · rcases hfirst with h | h | h <;> cases h
    · cases hsent
  | false =>
    refine ⟨fun _ hstate => ?_, fun hfirst => ?_, fun hsent => ?_⟩
    · cases hstate
    · rcases hfirst with h | h | h <;> cases h
    · cases hsent

theorem acknowledged_start {created : List CTransaction} (privKeyId targetKey : CKeyID)
    (value : Int64) (trackers monitors : List CKeyID) (accepts : Bool) :
    (ClientPayment.start privKeyId targetKey value trackers monitors accepts).payment.Acknowledged H
      created := by
  cases accepts with
  | true => exact ⟨fun hstate => (nomatch hstate), rfl⟩
  | false => exact ⟨fun hstate => (nomatch hstate), rfl⟩

theorem payment_step_cases {p p' : ClientPayment} {event : CPayLocalApplicationAction.Event}
    (h : ClientPayment.step H N (some p) event = some p') :
    p' = p ∨ p.requests.any (ClientPayment.answers event) = true ∧
      p.payment.react H N event = some p'.payment := by
  simp only [ClientPayment.step, Option.bind_some] at h
  split at h
  case isTrue hanswers =>
    obtain ⟨a, hreact, rfl⟩ := Option.map_eq_some_iff.mp h
    exact .inr ⟨hanswers, hreact⟩
  case isFalse => exact .inl (Option.some.inj h).symm

theorem answers_createWith
    (create : List (CKeyID × Int64) → List CTxOut → CPubKey → UInt32 → Option CTransaction)
    (event : CPayLocalApplicationAction.Event) :
    ClientPayment.answers (event.createWith create) = ClientPayment.answers event := by
  funext request
  cases event <;> cases request <;> rfl

theorem pays_spec (i : ℕ) (p p' : ClientPayment) :
    (s.pays H S i p p').sends = s.sends ∧ (s.pays H S i p p').admitted = s.admitted ∧
      (s.pays H S i p p').payments = s.payments.set i p' ∧
      s.created ⊆ (s.pays H S i p p').created := by
  rw [pays]
  split
  · exact ⟨rfl, rfl, rfl, List.Subset.refl _⟩
  · exact ⟨create_sends, create_admitted, create_payments, created_create (s := { s with
      payments := s.payments.set i p' })⟩

theorem waits_pays {i : ℕ} {p p' : ClientPayment}
    (hs : ∀ tx ∈ s.created, (s.wallet.waitingChanges.lookup (tx.getHash H)).isSome) :
    ∀ tx ∈ (s.pays H S i p p').created,
      ((s.pays H S i p p').wallet.waitingChanges.lookup (tx.getHash H)).isSome := by
  rw [pays]
  split
  · exact hs
  · exact waits_create (s := { s with payments := s.payments.set i p' }) hs

theorem mem_created_pays {i : ℕ} {p p' : ClientPayment} {tx : CTransaction}
    (hcreation : p.payment.creation H p'.payment =
      some ([(p.payment.privKeyId, p.payment.value)], []))
    (hcreate : s.createFor H S p.payment [(p.payment.privKeyId, p.payment.value)] []
      p'.payment.trackerStats.key p'.payment.trackerStats.price = some tx) :
    tx ∈ (s.pays H S i p p').created := by
  rw [pays, hcreation]
  exact mem_created_create (s := { s with payments := s.payments.set i p' }) hcreate

theorem forall_mem_set {P : ClientPayment → Prop} {payments : List ClientPayment} {i : ℕ}
    {p' : ClientPayment} (hall : ∀ p ∈ payments, P p) (h : P p') :
    ∀ p ∈ payments.set i p', P p := by
  intro p hp
  rcases List.mem_or_eq_of_mem_set hp with hmem | rfl
  · exact hall p hmem
  · exact h

theorem perform_createTransaction {i : ℕ}
    (h : s.perform H N (.createTransaction S i trackerKey price) = some s') :
    s' = s ∨ ∃ a, s.sends[i]? = some a ∧ .createTransaction ∈ a.requests ∧
      s' = s.create H S a.outputs a.sendCoins trackerKey price := by
  simp only [perform] at h
  split at h
  case h_1 => exact .inl (Option.some.inj h).symm
  case h_2 a ha =>
    split at h
    case isTrue hrequest => exact .inr ⟨a, ha, hrequest, (Option.some.inj h).symm⟩
    case isFalse => exact .inl (Option.some.inj h).symm

theorem perform_payReply {i : ℕ} {event : CPayLocalApplicationAction.Event}
    (h : s.perform H N (.payReply S i event) = some s') :
    s' = s ∨ ∃ p p', s.payments[i]? = some p ∧ s' = s.pays H S i p p' ∧
      (p' = p ∨ p.requests.any (ClientPayment.answers event) = true ∧
        p.payment.react H N (event.createWith (s.createFor H S p.payment)) = some p'.payment) := by
  simp only [perform] at h
  split at h
  case h_1 => exact .inl (Option.some.inj h).symm
  case h_2 p hp =>
    obtain ⟨p', hstep, rfl⟩ := Option.map_eq_some_iff.mp h
    refine .inr ⟨p, p', hp, rfl, ?_⟩
    have hcases := payment_step_cases hstep
    rwa [answers_createWith] at hcases

theorem kept_perform {event : Event} (hs : s.Kept H)
    (hadmitted : ∀ call ∈ s.admission H event, call ∈ s.admitted)
    (h : s.perform H N event = some s') : s'.Kept H := by
  cases event with
  | send outputs sendCoins ptr =>
    cases h
    exact ⟨hs.waits, hs.payments⟩
  | pay privKeyId targetKey value trackers monitors accepts =>
    cases h
    refine ⟨hs.waits, List.forall_mem_append.mpr ⟨hs.payments, List.forall_mem_singleton.mpr ?_⟩⟩
    exact recorded_start privKeyId targetKey value trackers monitors accepts
  | createTransaction S i trackerKey price =>
    rcases perform_createTransaction h with rfl | ⟨_, -, -, rfl⟩
    · exact hs
    · refine ⟨waits_create hs.waits, fun p hp => ?_⟩
      rw [create_payments] at hp
      rw [create_admitted]
      exact (hs.payments p hp).mono created_create (List.Subset.refl _)
  | sendReply i event =>
    cases h
    exact ⟨hs.waits, hs.payments⟩
  | payReply S i event =>
    rcases perform_payReply h with rfl | ⟨p, p', hp, rfl, hcases⟩
    · exact hs
    · have hrecorded := hs.payments p (List.mem_of_getElem? hp)
      obtain ⟨-, hsame, hset, hcreated⟩ := pays_spec (H := H) (S := S) (s := s) i p p'
      refine ⟨waits_pays hs.waits, ?_⟩
      rw [hset, hsame]
      refine forall_mem_set (fun q hq => (hs.payments q hq).mono hcreated (List.Subset.refl _)) ?_
      rcases hcases with rfl | ⟨hanswers, hreact⟩
      · exact hrecorded.mono hcreated (List.Subset.refl _)
      · refine (hrecorded.mono hcreated (List.Subset.refl _)).advances
          (CPayLocalApplicationAction.advances_react hreact)
          (fun hcreation tx hcreate => mem_created_pays hcreation hcreate) ?_
        rw [CPayLocalApplicationAction.addmits_createWith]
        intro call hcall
        refine hadmitted call ?_
        simp only [admission, hp, Option.bind_some, if_pos hanswers]
        exact hcall
  | balanceInfo keyId coins inputs =>
    cases h
    exact ⟨hs.waits, hs.payments⟩

theorem kept_step {event : Event} (hs : s.Kept H) (h : step H N (some s) event = some s') :
    s'.Kept H := by
  rw [step, Option.bind_some] at h
  obtain ⟨s₁, hadmit, hperform⟩ := Option.bind_eq_some_iff.mp h
  obtain ⟨wallet, rfl, hwaits⟩ := addmit_spec hadmit
  refine kept_perform ⟨fun tx htx => ?_, fun p hp => ?_⟩ (fun call hcall => ?_) hperform
  · exact hwaits _ (hs.waits tx htx)
  · exact (hs.payments p hp).mono (List.Subset.refl _) (List.subset_append_left _ _)
  · have hsame : s.admission H event = some call := by
      cases event <;> exact hcall
    rw [hsame]
    exact List.mem_append_right _ (List.mem_singleton_self _)

/-- A send action waits with the transaction that it had, or with the acknowledged one. -/
theorem send_react_cases {a a' : CSendTransactionAction} {event : CSendTransactionAction.Event}
    (h : a.react event = a') (hstate : a'.state = .transactionStatus) :
    a.state = .transactionStatus ∧ a'.transaction = a.transaction ∨
      ∃ count, event = .transactionAck .validated a'.transaction count := by
  unfold CSendTransactionAction.react at h
  split at h
  case h_1 status tx count hprepares =>
    split at h
    case isTrue hstatus =>
      subst h hstatus
      exact .inr ⟨count, rfl⟩
    case isFalse =>
      subst h
      cases hprepares.symm.trans hstate
  case h_2 nodePtr status hwaits =>
    cases status <;> subst h <;> exact .inl ⟨hwaits, rfl⟩
  case h_3 =>
    subst h
    exact .inl ⟨hstate, rfl⟩

theorem send_step_cases {a : CSendTransactionAction} {event : CSendTransactionAction.Event}
    (hstate : (a.step event).state = .transactionStatus) :
    a.state = .transactionStatus ∧ (a.step event).transaction = a.transaction ∨
      ∃ count, event = .transactionAck .validated (a.step event).transaction count ∧
        .createTransaction ∈ a.requests := by
  rw [CSendTransactionAction.step] at hstate ⊢
  split at hstate
  case isFalse hanswers =>
    rw [if_neg hanswers]
    exact .inl ⟨hstate, rfl⟩
  case isTrue hanswers =>
    rw [if_pos hanswers]
    rcases send_react_cases rfl hstate with hsame | ⟨count, hevent⟩
    · exact .inl hsame
    · refine .inr ⟨count, hevent, ?_⟩
      obtain ⟨request, hmem, hrequest⟩ := List.any_eq_true.mp hanswers
      rw [hevent] at hrequest
      cases request <;> simp [CSendTransactionAction.Event.answers] at hrequest
      exact hmem

theorem transaction_mem {requests : List ClientRequest} {status : TransactionsStatus}
    {tx : CTransaction}
    (h : requests.any (ClientPayment.answers (.transactionAck status tx)) = true) :
    .transaction ∈ requests := by
  obtain ⟨request, hmem, hrequest⟩ := List.any_eq_true.mp h
  cases request <;> simp [ClientPayment.answers] at hrequest
  exact hmem

theorem transactionStatus_mem {requests : List ClientRequest} {context : PaymentContext}
    {tracker : CPubKey} {nodePtr : ℕ} {status : TransactionsStatus}
    (h : requests.any (ClientPayment.answers (.transactionStatus context tracker nodePtr status)) =
      true) : .transactionStatus ∈ requests := by
  obtain ⟨request, hmem, hrequest⟩ := List.any_eq_true.mp h
  cases request <;> simp [ClientPayment.answers] at hrequest
  exact hmem

theorem trusting_perform {event : Event} (hs : s.Trusting H) (hexpected : s.Expected H event)
    (h : s.perform H N event = some s') : s'.Trusting H := by
  cases event with
  | send outputs sendCoins ptr =>
    cases h
    refine ⟨List.forall_mem_append.mpr ⟨hs.sends, List.forall_mem_singleton.mpr ?_⟩, hs.payments⟩
    exact fun hstate => (nomatch hstate)
  | pay privKeyId targetKey value trackers monitors accepts =>
    cases h
    refine ⟨hs.sends, List.forall_mem_append.mpr ⟨hs.payments, List.forall_mem_singleton.mpr ?_⟩⟩
    exact acknowledged_start privKeyId targetKey value trackers monitors accepts
  | createTransaction S i trackerKey price =>
    rcases perform_createTransaction h with rfl | ⟨_, -, -, rfl⟩
    · exact hs
    · refine ⟨fun a ha hstate => ?_, fun p hp => ?_⟩
      · rw [create_sends] at ha
        exact created_create (hs.sends a ha hstate)
      · rw [create_payments] at hp
        exact (hs.payments p hp).mono created_create
  | sendReply i event =>
    cases h
    refine ⟨fun a ha hstate => ?_, hs.payments⟩
    obtain ⟨j, hj, hget⟩ := List.mem_iff_getElem.mp ha
    rw [List.getElem_modify] at hget
    have hindexed : j < s.sends.length := by simpa using hj
    have hmem : s.sends[j] ∈ s.sends := List.getElem_mem _
    split at hget
    case isTrue hindex =>
      subst hget
      rcases send_step_cases hstate with ⟨hwaits, hsame⟩ | ⟨count, hevent, hrequest⟩
      · rw [hsame]
        exact hs.sends _ hmem hwaits
      · rw [hevent] at hexpected
        subst hindex
        exact hexpected _ (List.getElem?_eq_getElem _) rfl hrequest
    case isFalse =>
      subst hget
      exact hs.sends _ hmem hstate
  | payReply S i event =>
    rcases perform_payReply h with rfl | ⟨p, p', hp, rfl, hcases⟩
    · exact hs
    · have hacknowledged := hs.payments p (List.mem_of_getElem? hp)
      obtain ⟨hsends, -, hset, hcreated⟩ := pays_spec (H := H) (S := S) (s := s) i p p'
      refine ⟨fun a ha hstate => ?_, ?_⟩
      · rw [hsends] at ha
        exact hcreated (hs.sends a ha hstate)
      · rw [hset]
        refine forall_mem_set (fun q hq => (hs.payments q hq).mono hcreated) ?_
        rcases hcases with rfl | ⟨hanswers, hreact⟩
        · exact hacknowledged.mono hcreated
        · refine (hacknowledged.advances (CPayLocalApplicationAction.advances_react hreact) ?_ ?_).mono
            hcreated
          · intro tx hevent hstate
            obtain rfl := CPayLocalApplicationAction.createWith_eq_transactionAck hevent
            exact hexpected p hp rfl (transaction_mem hanswers) hstate
          · intro context tracker nodePtr hevent
            obtain ⟨context', rfl⟩ := CPayLocalApplicationAction.createWith_eq_transactionStatus hevent
            exact hexpected p hp rfl (transactionStatus_mem hanswers)
  | balanceInfo keyId coins inputs =>
    cases h
    exact ⟨hs.sends, hs.payments⟩

theorem trusting_step {event : Event} (hs : s.Trusting H) (hexpected : s.Expected H event)
    (h : step H N (some s) event = some s') : s'.Trusting H := by
  rw [step, Option.bind_some] at h
  obtain ⟨s₁, hadmit, hperform⟩ := Option.bind_eq_some_iff.mp h
  obtain ⟨wallet, rfl, -⟩ := addmit_spec hadmit
  refine trusting_perform ?_ ?_ hperform
  · exact ⟨hs.sends, hs.payments⟩
  · exact hexpected

/-- What is admitted has been created and waits. -/
theorem rightly_admission {event : Event} {call : Uint256 × CTransaction} (hkept : s.Kept H)
    (hs : s.Trusting H) (h : s.admission H event = some call) : s.Rightly H call := by
  suffices hcall : call.2 ∈ s.created ∧ call.1 = call.2.getHash H by
    refine ⟨hcall.1, hcall.2, ?_⟩
    rw [hcall.2]
    exact hkept.waits _ hcall.1
  cases event with
  | sendReply i event =>
    obtain ⟨a, ha, hadmits⟩ := Option.bind_eq_some_iff.mp h
    obtain ⟨-, hcall⟩ := Option.ite_none_right_eq_some.mp hadmits
    cases event with
    | transactionStatus nodePtr status =>
      cases status with
      | confirmed =>
        obtain ⟨hstate, heq⟩ := Option.ite_none_right_eq_some.mp hcall
        cases heq
        exact ⟨hs.sends a (List.mem_of_getElem? ha) hstate, rfl⟩
      | _ => cases hcall
    | _ => cases hcall
  | payReply S i event =>
    obtain ⟨p, hp, hadmits⟩ := Option.bind_eq_some_iff.mp h
    obtain ⟨-, hcall⟩ := Option.ite_none_right_eq_some.mp hadmits
    cases event with
    | transactionStatus context tracker nodePtr status =>
      cases status with
      | confirmed =>
        obtain ⟨hstate, heq⟩ := Option.ite_none_right_eq_some.mp hcall
        cases heq
        exact (hs.payments p (List.mem_of_getElem? hp)).check hstate
      | _ => cases hcall
    | _ => cases hcall
  | _ => cases h

theorem kept_start (wallet : CWallet) : ∀ s ∈ some (start wallet), s.Kept H := by
  intro s hs
  cases hs
  exact ⟨fun tx htx => (by cases htx), fun p hp => (by cases hp)⟩

theorem kept_option_step (o : Option AdmittingClient) (event : Event) (ho : ∀ s ∈ o, s.Kept H) :
    ∀ s ∈ step H N o event, s.Kept H := by
  intro s' hs'
  cases o with
  | none => cases hs'
  | some s => exact kept_step (ho s rfl) hs'

/-- Whatever the answers are, a payment that has handed over its proof has had its first
transaction admitted. -/
theorem first_admitted (wallet : CWallet) (events : List Event) :
    ∀ s ∈ GuardedRun.run (step H N) (some (start wallet)) events, ∀ p ∈ s.payments,
      p.payment.sent.isSome →
        (p.payment.firstInitialHash, p.payment.firstTransaction) ∈ s.admitted := by
  have hkept := @GuardedRun.run_invariant _ _ (step H N)
    (fun o : Option AdmittingClient => ∀ s ∈ o, s.Kept H) kept_option_step _ (kept_start wallet) events
  intro s hs p hp hsent
  have hrecorded := (hkept s hs).payments p hp
  exact hrecorded.first (.inr (.inr (hrecorded.sent hsent)))

/-- A payment admits nothing but its first transaction: the second one is left waiting. -/
theorem admission_payReply {S : CWalletServices} {i : ℕ} {event : CPayLocalApplicationAction.Event}
    {call : Uint256 × CTransaction} (h : s.admission H (.payReply S i event) = some call) :
    ∃ p ∈ s.payments, p.payment.state = .checkTransactionStatus ∧
      call = (p.payment.firstInitialHash, p.payment.firstTransaction) := by
  obtain ⟨p, hp, hadmits⟩ := Option.bind_eq_some_iff.mp h
  obtain ⟨-, hcall⟩ := Option.ite_none_right_eq_some.mp hadmits
  refine ⟨p, List.mem_of_getElem? hp, ?_⟩
  cases event with
  | transactionStatus context tracker nodePtr status =>
    cases status with
    | confirmed =>
      obtain ⟨hstate, heq⟩ := Option.ite_none_right_eq_some.mp hcall
      exact ⟨hstate, (Option.some.inj heq).symm⟩
    | _ => cases hcall
  | _ => cases hcall

/-- In every run whose answers are the expected ones, what is admitted has been created and waits,
and a payment that has handed over its proof has had both its transactions admitted. -/
theorem admits_created (H : HashFunctions) (N : NodeSignatures) (wallet : CWallet)
    (events : List Event)
    (hexpected : GuardedRun.Guarded (step H N) (fun o event => ∀ s ∈ o, s.Expected H event)
      (some (start wallet)) events) :
    (∀ past event, past ++ [event] <+: events →
      ∀ s ∈ GuardedRun.run (step H N) (some (start wallet)) past,
        ∀ call ∈ s.admission H event, s.Rightly H call) ∧
    ∀ past, past <+: events → ∀ s ∈ GuardedRun.run (step H N) (some (start wallet)) past,
      ∀ p ∈ s.payments, p.payment.sent.isSome → s.BothAdmitted p.payment := by
  have hinvariant : ∀ past, past <+: events →
      ∀ s ∈ GuardedRun.run (step H N) (some (start wallet)) past, s.Kept H ∧ s.Trusting H := by
    rintro past ⟨later, rfl⟩
    obtain ⟨hpast, -⟩ := (GuardedRun.guarded_append _ _).mp hexpected
    refine @GuardedRun.Guarded.invariant _ _ (step H N) _
      (fun o : Option AdmittingClient => ∀ s ∈ o, s.Kept H ∧ s.Trusting H) ?_ _ _ hpast ?_
    · intro o event ho hok s' hs'
      cases o with
      | none => cases hs'
      | some s =>
        obtain ⟨hkept, htrusting⟩ := ho s rfl
        exact ⟨kept_step hkept hs', trusting_step htrusting (hok s rfl) hs'⟩
    · intro s hs
      refine ⟨kept_start wallet s hs, ?_⟩
      cases hs
      exact ⟨fun a ha => (by cases ha), fun p hp => (by cases hp)⟩
  constructor
  · intro past event hprefix s hs call hcall
    obtain ⟨hkept, htrusting⟩ := hinvariant past ((List.prefix_append _ _).trans hprefix) s hs
    exact rightly_admission hkept htrusting hcall
  · intro past hprefix s hs p hp hsent
    obtain ⟨-, htrusting⟩ := hinvariant past hprefix s hs
    rw [(htrusting.payments p hp).sent] at hsent
    cases hsent

end Steps

namespace OneCoin

open PendingWallet.OneCoin
open AnotherTracker (signatures)

def client : AdmittingClient := start PendingWallet.OneCoin.wallet

def context : PaymentContext where
  isClientReady := true
  trackers := [⟨trackerKey, 0⟩]
  monitors := []
  ipToKey _ := none
  createTransaction _ _ _ _ := none

def sending : List Event :=
  [.send [(6, 4)] [] 0, .createTransaction .plain 0 trackerKey 0,
    .sendReply 0 (.transactionAck .validated transaction 2),
    .sendReply 0 (.transactionStatus 7 .confirmed)]

def first : CTransaction :=
  ⟨1, [⟨⟨transaction.getHash hashes, 0⟩, [1], 0xffffffff⟩],
    [⟨3, .setDestination 5⟩, ⟨3, .setDestination 20⟩, ⟨0, .setDestination 9⟩], 0, 0⟩

def second : CTransaction :=
  ⟨1, [⟨⟨first.getHash hashes, 1⟩, [1], 0xffffffff⟩],
    [⟨3, .setDestination 21⟩, ⟨0, .setDestination 9⟩], 0, 0⟩

def paying : List Event :=
  [.pay 20 21 3 [9] [] true, .payReply .plain 0 (.timeEvent context),
    .payReply .plain 0 (.transactionAck .validated first),
    .payReply .plain 0 (.transactionStatus context trackerKey 0 .confirmed),
    .payReply .plain 0 (.transactionAck .validated second)]

theorem admitted_rightly :
    (∀ past event, past ++ [event] <+: sending ++ paying →
      ∀ s ∈ GuardedRun.run (step hashes signatures) (some client) past,
        ∀ call ∈ s.admission hashes event, s.Rightly hashes call) ∧
    ∀ past, past <+: sending ++ paying →
      ∀ s ∈ GuardedRun.run (step hashes signatures) (some client) past,
        ∀ p ∈ s.payments, p.payment.sent.isSome → s.BothAdmitted p.payment :=
  admits_created hashes signatures PendingWallet.OneCoin.wallet (sending ++ paying)
    ⟨by decide +kernel, by decide +kernel, by decide +kernel, by decide +kernel, by decide +kernel,
      by decide +kernel, by decide +kernel, by decide +kernel, by decide +kernel, trivial⟩

/-- A tracker acknowledges a transaction that the wallet has not created, and another payment is
handed over. -/
theorem other_admitted :
    ¬(∀ s ∈ GuardedRun.run (step hashes signatures) (some client)
        [.send [(6, 4)] [] 0, .createTransaction .plain 0 trackerKey 0,
          .sendReply 0 (.transactionAck .validated second 2)],
      ∀ call ∈ s.admission hashes (.sendReply 0 (.transactionStatus 7 .confirmed)),
        s.Rightly hashes call) ∧
    ¬(∀ s ∈ GuardedRun.run (step hashes signatures) (some client) (sending ++ paying ++
        [.payReply .plain 0 (.transactionStatus context trackerKey 0 .confirmed)]),
      ∀ p ∈ s.payments, p.payment.sent.isSome → s.BothAdmitted p.payment) := by
  constructor
  · decide +kernel
  · decide +kernel

end OneCoin

end AdmittingClient

end Dims

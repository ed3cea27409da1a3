import Dims.PassTransaction
import Dims.PaymentStages
import Dims.PendingTransactions

/-!
# Payments whose transaction is not created

`CWallet::CreateTransaction` fills the transaction of its caller and may give up on the way. What
the callers of trackers, monitors and clients do then is compared: the transaction should go
nowhere, and the wallet and the result should say that nothing has happened.
-/

namespace Dims
open ByteCodec

/-- The services of a wallet, with what `SignSignature` leaves in an input that it does not
sign. -/
structure CSigningServices extends CWalletServices where
  leftScript : CScript → CTransaction → ℕ → CScript

/-- The value of `CreateTransaction`, its `wtxNew` and the wallet. -/
structure Creation where
  created : Bool
  wtxNew : CTransaction
  wallet : CWallet

namespace CWallet
open CWalletContext

def signCoins (S : CSigningServices) : List CAvailableCoin → ℕ → CTransaction → Bool × CTransaction
  | [], _, wtxNew => (true, wtxNew)
  | coin :: coins, nIn, wtxNew =>
    match S.signSignature coin.coin.scriptPubKey wtxNew nIn with
    | some scriptSig => signCoins S coins (nIn + 1)
      { wtxNew with vin := wtxNew.vin.modify nIn fun txIn => { txIn with scriptSig := scriptSig } }
    | none => (false, { wtxNew with vin := wtxNew.vin.modify nIn fun txIn =>
        { txIn with scriptSig := S.leftScript coin.coin.scriptPubKey wtxNew nIn } })

/-- The end of `CreateTransaction`, when the inputs have been signed or one has not. -/
def completeTransaction (w : CWallet) (H : HashFunctions) (updateCoins : CUpdateCoins)
    (signed : Bool × CTransaction) : Creation :=
  if signed.1 = false then ⟨false, signed.2, w⟩
  else if maxStandardTxSize ≤ (CTransaction.contentsCodec.encode signed.2.contents).length then
    ⟨false, signed.2, w⟩
  else
    let waitingChanges := w.waitingChanges.insertNew (signed.2.getHash H) updateCoins
    ⟨true, signed.2, { w with waitingChanges := waitingChanges }⟩

/-- `CreateTransaction` with the transaction that it leaves to its caller at every return. No
value where the assertion fails. -/
def fillTransaction (w : CWallet) (S : CSigningServices) (H : HashFunctions)
    (outputs : List (CKeyID × Int64)) (coinsToUse : List CAvailableCoin) (trackerKey : CPubKey)
    (price : UInt32) (wtxNew : CTransaction) : Option Creation :=
  if outputs.any (·.2 < 0) then some ⟨false, wtxNew, w⟩
  else if outputs = [] then some ⟨false, wtxNew, w⟩
  else
    let trackerFee := (price.toUInt64 * UInt64.ofNat outputs.length).toInt64
    let vout := payTo (outputs ++ [(trackerKey.getID H, trackerFee)])
    let nValue := (outputs.map Prod.snd).sum + trackerFee
    let requested := requestCoins nValue coinsToUse
    match w.selectCoins S.sort requested.1 with
    | none => some ⟨false, { wtxNew with vin := [], vout := vout }, w⟩
    | some (setCoins, nValueIn) =>
      let nChange := nValueIn + requested.2.1 - nValue
      match w.addChange S.toCWalletServices nChange setCoins vout (w.expectedCoins outputs) with
      | none => some ⟨false, { wtxNew with vin := [], vout := vout }, w⟩
      | some (vout, toAdd) =>
        (w.coinsToRemove setCoins .empty).map fun toRemove =>
          let coins := setCoins ++ requested.2.2
          let vin := coins.map fun coin => ⟨⟨coin.hash, coin.position⟩, [], 0xffffffff⟩
          w.completeTransaction H ⟨toRemove, toAdd⟩
            (signCoins S coins 0 { wtxNew with vin := vin, vout := vout })

section Filling

variable {w : CWallet} {S : CSigningServices} {H : HashFunctions} {outputs : List (CKeyID × Int64)}
  {coinsToUse : List CAvailableCoin} {trackerKey : CPubKey} {price : UInt32}

theorem signCoins_eq (coins : List CAvailableCoin) (nIn : ℕ) (wtxNew : CTransaction) :
    (w.context S.toCWalletServices).signInputs coins nIn wtxNew =
      if (signCoins S coins nIn wtxNew).1 then some (signCoins S coins nIn wtxNew).2 else none := by
  induction coins generalizing nIn wtxNew with
  | nil => rfl
  | cons coin coins ih =>
    rw [signInputs, signCoins]
    change (S.signSignature _ _ _).bind _ = _
    cases S.signSignature coin.coin.scriptPubKey wtxNew nIn with
    | none => rfl
    | some scriptSig => exact ih _ _

theorem completeTransaction_spec (updateCoins : CUpdateCoins) (signed : Bool × CTransaction) :
    ((w.completeTransaction H updateCoins signed).created = false →
      (w.completeTransaction H updateCoins signed).wallet = w) ∧
    ((if signed.1 then some signed.2 else none).bind fun wtxNew =>
        if maxStandardTxSize ≤ (CTransaction.contentsCodec.encode wtxNew.contents).length then none
        else some (wtxNew, { w with waitingChanges :=
          w.waitingChanges.insertNew (wtxNew.getHash H) updateCoins })) =
      if (w.completeTransaction H updateCoins signed).created then
        some ((w.completeTransaction H updateCoins signed).wtxNew,
          (w.completeTransaction H updateCoins signed).wallet)
      else none := by
  unfold completeTransaction
  obtain ⟨success, wtxNew⟩ := signed
  cases success with
  | false => exact ⟨fun _ => rfl, rfl⟩
  | true =>
    by_cases hsize : maxStandardTxSize ≤ (CTransaction.contentsCodec.encode wtxNew.contents).length
    · simp [hsize]
    · simp [hsize]

/-- With the transaction that it leaves, a creation succeeds just where it gives a transaction;
it leaves the wallet as it is where it fails, and never aborts. -/
theorem fillTransaction_spec (w : CWallet) (S : CSigningServices) (H : HashFunctions)
    (outputs : List (CKeyID × Int64)) (coinsToUse : List CAvailableCoin) (trackerKey : CPubKey)
    (price : UInt32) : ∃ creation,
    w.fillTransaction S H outputs coinsToUse trackerKey price .new = some creation ∧
      (creation.created = false → creation.wallet = w) ∧
      w.createTransaction S.toCWalletServices H outputs coinsToUse trackerKey price =
        if creation.created then some (creation.wtxNew, creation.wallet) else none := by
  unfold fillTransaction createTransaction
  dsimp only
  split
  · exact ⟨_, rfl, fun _ => rfl, rfl⟩
  · split
    · exact ⟨_, rfl, fun _ => rfl, rfl⟩
    · cases hselected : w.selectCoins S.sort (requestCoins ((outputs.map Prod.snd).sum +
          (price.toUInt64 * UInt64.ofNat outputs.length).toInt64) coinsToUse).1 with
      | none => exact ⟨_, rfl, fun _ => rfl, rfl⟩
      | some selected =>
        obtain ⟨setCoins, nValueIn⟩ := selected
        dsimp only
        rw [Option.bind_some]
        split
        case h_1 hchange =>
          rw [hchange]
          exact ⟨_, rfl, fun _ => rfl, rfl⟩
        case h_2 vout toAdd hchange =>
          obtain ⟨removed, hremoved, -⟩ :=
            coinsToRemove_spec (selectCoins_subset S.toCWalletServices hselected) OrderedMultimap.empty
          rw [hchange, Option.bind_some]
          simp only [hremoved, Option.map_some, Option.bind_some, signCoins_eq]
          exact ⟨_, rfl, completeTransaction_spec ⟨removed, toAdd⟩ _⟩

end Filling

end CWallet

/-- A node with its wallet, the pool of its transaction record manager and the transactions that
are in its messages to other nodes. -/
structure PaymentNode where
  wallet : CWallet
  transactionPool : List CTransaction
  sent : List CTransaction

inductive PaymentResult
  | ack (result : Option CTransactionAck)
  | appErrors (errors : List CAppError)
  | none

/-- The action has been told that there is no transaction, each in its words. -/
def PaymentResult.isInvalid : PaymentResult → Prop
  | .ack result => ∃ transaction, result = some ⟨.invalid, transaction⟩
  | .appErrors errors => errors.getLast? = some .notEnoughFunds
  | .none => False

inductive PaymentRequest
  /-- The constructors of `CValidInNetwork` and `CProcessTransaction` of a tracker. -/
  | validInNetwork (action : CPassTransactionAction)
  | processTransaction (action : CPassTransactionAction)
  /-- The constructor of `CProcessTransaction` of a monitor. -/
  | monitorProcessTransaction (action : CPassTransactionAction)
  /-- `add` of `CCreateTransactionRequest` of a client, for a tracker that the ranking knows, and
  what the user says. -/
  | createTransaction (outputs : List (CKeyID × Int64)) (sendCoins : List CAvailableCoin)
      (trackerStats : CTrackerStats) (userResponse : Bool)
  /-- The constructors of `CServiceByTracker` and `CSecondTransaction` of a client. -/
  | serviceByTracker (action : CPayLocalApplicationAction)
  | secondTransaction (action : CPayLocalApplicationAction)

namespace PaymentRequest

variable (H : HashFunctions) (S : CSigningServices)

/-- What is given to `CreateTransaction`: the outputs, the coins to use, the tracker and its
price. -/
def arguments : PaymentRequest →
    List (CKeyID × Int64) × List CAvailableCoin × CPubKey × UInt32
  | .validInNetwork action => (action.outputs, [], .invalid, 0)
  | .processTransaction action | .monitorProcessTransaction action =>
    (action.outputs, [], action.servicingTracker, action.servicingPrice)
  | .createTransaction outputs sendCoins trackerStats _ =>
    (outputs, sendCoins, trackerStats.key, trackerStats.price)
  | .serviceByTracker action =>
    ([(action.privKeyId, action.value)], [], action.trackerStats.key, action.trackerStats.price)
  | .secondTransaction action =>
    ([(action.targetKey, action.value)],
      action.coinsToUse H (findOutputInTransaction H action.privKeyId action.firstTransaction.vout),
      action.trackerStats.key, action.trackerStats.price)

def fill (w : CWallet) (request : PaymentRequest) : Option Creation :=
  let arguments := request.arguments H
  w.fillTransaction S H arguments.1 arguments.2.1 arguments.2.2.1 arguments.2.2.2 .new

def Fails (w : CWallet) (request : PaymentRequest) : Prop :=
  let arguments := request.arguments H
  w.createTransaction S.toCWalletServices H arguments.1 arguments.2.1 arguments.2.2.1 arguments.2.2.2 =
    none

/-- The constructor of `CValidInNetwork`, which goes on after the failure. -/
def enterValidInNetwork (node : PaymentNode) (action : CPassTransactionAction) (creation : Creation) :
    PaymentNode × CPassTransactionAction :=
  let action := if creation.created then action else action.setInvalid
  ({ node with
      wallet := creation.wallet
      transactionPool := node.transactionPool ++ [creation.wtxNew] },
    { action with state := .validInNetwork (creation.wtxNew.getHash H) })

/-- The constructor of `CProcessTransaction` of a tracker, which goes on after the failure. -/
def enterProcessTransaction (node : PaymentNode) (action : CPassTransactionAction)
    (creation : Creation) : PaymentNode × CPassTransactionAction :=
  let action := { action with state := .processTransaction }
  let action := if creation.created then action else action.setInvalid
  ({ node with wallet := creation.wallet, sent := node.sent ++ [creation.wtxNew] },
    { action with hash := creation.wtxNew.getHash H, result := some ⟨.validated, .new⟩ })

/-- The constructor of `CProcessTransaction` of a monitor. -/
def enterMonitorProcessTransaction (node : PaymentNode) (action : CPassTransactionAction)
    (creation : Creation) : PaymentNode × CPassTransactionAction :=
  let action := { action with state := .processTransaction }
  let node := { node with wallet := creation.wallet }
  if creation.created then
    ({ node with sent := node.sent ++ [creation.wtxNew] },
      { action with hash := creation.wtxNew.getHash H, result := some ⟨.validated, .new⟩ })
  else (node, action.setInvalid)

/-- `CNetworkClient::add`; "notify user about this". -/
def addCreateTransaction (node : PaymentNode) (userResponse : Bool) (creation : Creation) : PaymentNode :=
  let node := { node with wallet := creation.wallet }
  if creation.created ∧ userResponse then { node with sent := node.sent ++ [creation.wtxNew] } else node

/-- What both constructors of a local payment do. -/
def enterPayment (node : PaymentNode) (action : CPayLocalApplicationAction) (creation : Creation) :
    PaymentNode × List CAppError :=
  let node := { node with wallet := creation.wallet }
  if creation.created then ({ node with sent := node.sent ++ [creation.wtxNew] }, action.errors)
  else (node, action.errors ++ [.notEnoughFunds])

/-- No value where an assertion fails. -/
def perform (node : PaymentNode) (request : PaymentRequest) : Option (PaymentNode × PaymentResult) :=
  (request.fill H S node.wallet).map fun creation =>
    match request with
    | .validInNetwork action =>
      let r := enterValidInNetwork H node action creation
      (r.1, .ack r.2.result)
    | .processTransaction action =>
      let r := enterProcessTransaction H node action creation
      (r.1, .ack r.2.result)
    | .monitorProcessTransaction action =>
      let r := enterMonitorProcessTransaction H node action creation
      (r.1, .ack r.2.result)
    | .createTransaction _ _ _ userResponse => (addCreateTransaction node userResponse creation, .none)
    | .serviceByTracker action | .secondTransaction action =>
      let r := enterPayment node action creation
      (r.1, .appErrors r.2)

def LeavesNoTrace (node : PaymentNode) (request : PaymentRequest) : Prop :=
  ∃ result, request.perform H S node = some (node, result) ∧ result.isInvalid

/-- The requests whose constructor returns after the failure, with a result. -/
def ReturnsInvalid : PaymentRequest → Prop
  | .monitorProcessTransaction _ | .serviceByTracker _ | .secondTransaction _ => True
  | .validInNetwork _ | .processTransaction _ | .createTransaction .. => False

section Requests

variable {H S} {node : PaymentNode} {request : PaymentRequest}

theorem createTransaction_of_fill {creation : Creation}
    (hfill : request.fill H S node.wallet = some creation) :
    (node.wallet.context S.toCWalletServices).createTransaction H (request.arguments H).1
        (request.arguments H).2.1 (request.arguments H).2.2.1 (request.arguments H).2.2.2 =
      if creation.created then some creation.wtxNew else none := by
  obtain ⟨creation', hfill', -, hcreate⟩ := node.wallet.fillTransaction_spec S H
    (request.arguments H).1 (request.arguments H).2.1 (request.arguments H).2.2.1
    (request.arguments H).2.2.2
  obtain rfl : creation = creation' := Option.some.inj (hfill.symm.trans hfill')
  rw [← CWallet.map_fst_createTransaction, hcreate]
  split <;> rfl

/-- The action of a monitor is the one that submits what is created. -/
theorem enterMonitorProcessTransaction_eq {action : CPassTransactionAction} {creation : Creation}
    (hfill : (monitorProcessTransaction action).fill H S node.wallet = some creation) :
    enterMonitorProcessTransaction H node action creation =
      let step := CPassTransactionAction.Monitor.enterProcessTransaction H action
        (node.wallet.context S.toCWalletServices)
      ({ node with wallet := creation.wallet, sent := node.sent ++ step.2.toList }, step.1) := by
  have hpay : CPassTransactionAction.payAsClient H { action with state := .processTransaction }
      (node.wallet.context S.toCWalletServices) =
        if creation.created then some creation.wtxNew else none := createTransaction_of_fill hfill
  unfold enterMonitorProcessTransaction CPassTransactionAction.Monitor.enterProcessTransaction
  dsimp only
  rw [hpay]
  cases creation.created with
  | true => rfl
  | false => simp

theorem enterProcessTransaction_eq {action : CPassTransactionAction} {creation : Creation}
    (hfill : (processTransaction action).fill H S node.wallet = some creation)
    (hcreated : creation.created = true) :
    enterProcessTransaction H node action creation =
      let step := CPassTransactionAction.Tracker.enterProcessTransaction H action
        (node.wallet.context S.toCWalletServices)
      ({ node with wallet := creation.wallet, sent := node.sent ++ step.2.toList }, step.1) := by
  have hpay : CPassTransactionAction.payAsClient H { action with state := .processTransaction }
      (node.wallet.context S.toCWalletServices) = some creation.wtxNew := by
    have hcreate := createTransaction_of_fill hfill
    rwa [hcreated, if_pos rfl] at hcreate
  unfold enterProcessTransaction CPassTransactionAction.Tracker.enterProcessTransaction
  dsimp only
  rw [hpay, hcreated]
  rfl

theorem exists_fill (h : request.Fails H S node.wallet) : ∃ wtxNew,
    request.fill H S node.wallet = some ⟨false, wtxNew, node.wallet⟩ := by
  obtain ⟨⟨created, wtxNew, wallet⟩, hfill, hwallet, hcreate⟩ := node.wallet.fillTransaction_spec S H
    (request.arguments H).1 (request.arguments H).2.1 (request.arguments H).2.2.1
    (request.arguments H).2.2.2
  rw [Fails, hcreate] at h
  cases created with
  | true => cases h
  | false =>
    obtain rfl := hwallet rfl
    exact ⟨wtxNew, hfill⟩

end Requests

/-- A failed creation leaves no trace if and only if its caller is the action of a monitor or a
local payment of a client. -/
theorem leavesNoTrace_iff (H : HashFunctions) (S : CSigningServices) (node : PaymentNode)
    (request : PaymentRequest) (hfails : request.Fails H S node.wallet) :
    request.LeavesNoTrace H S node ↔ request.ReturnsInvalid := by
  obtain ⟨wtxNew, hfill⟩ := exists_fill hfails
  obtain ⟨wallet, transactionPool, sent⟩ := node
  unfold LeavesNoTrace perform
  rw [hfill, Option.map_some]
  cases request with
  | validInNetwork action =>
    refine iff_of_false ?_ not_false
    rintro ⟨result, hperform, -⟩
    have hpool := congrArg PaymentNode.transactionPool (congrArg Prod.fst (Option.some.inj hperform))
    exact List.cons_ne_nil _ _ (List.append_right_eq_self.mp hpool)
  | processTransaction action =>
    refine iff_of_false ?_ not_false
    rintro ⟨result, hperform, -⟩
    have hsent := congrArg PaymentNode.sent (congrArg Prod.fst (Option.some.inj hperform))
    exact List.cons_ne_nil _ _ (List.append_right_eq_self.mp hsent)
  | monitorProcessTransaction action => exact iff_of_true ⟨_, rfl, _, rfl⟩ trivial
  | createTransaction outputs sendCoins trackerStats userResponse =>
    refine iff_of_false ?_ not_false
    rintro ⟨result, hperform, hinvalid⟩
    cases hperform
    exact hinvalid
  | serviceByTracker action => exact iff_of_true ⟨_, rfl, List.getLast?_concat⟩ trivial
  | secondTransaction action => exact iff_of_true ⟨_, rfl, List.getLast?_concat⟩ trivial

end PaymentRequest

namespace EmptyWallet
open PaymentRequest PendingWallet.OneCoin

def services : CSigningServices := ⟨.plain, fun _ _ _ => []⟩

def node : PaymentNode := ⟨.empty, [], []⟩

def action (state : PassState) : CPassTransactionAction := .new 6 5 state

theorem leavesNoTrace_monitor :
    (monitorProcessTransaction (action .processTransaction)).LeavesNoTrace hashes services node :=
  (leavesNoTrace_iff hashes services node (monitorProcessTransaction (action .processTransaction))
    rfl).mpr trivial

/-- A tracker puts a transaction without inputs into its pool, or sends it to another tracker and
takes it for validated. -/
theorem trace_of_failure :
    (validInNetwork (action (.validInNetwork 0))).Fails hashes services node.wallet ∧
    ¬ (validInNetwork (action (.validInNetwork 0))).LeavesNoTrace hashes services node ∧
    (processTransaction (action .fetchBalance)).Fails hashes services node.wallet ∧
    ∃ node' transaction, (processTransaction (action .fetchBalance)).perform hashes services node =
        some (node', .ack (some ⟨.validated, transaction⟩)) ∧
      node'.sent = [⟨1, [], CWalletContext.payTo [(6, 5), (CPubKey.invalid.getID hashes, 0)], 0, 0⟩] := by
  refine ⟨rfl, ?_, rfl, _, _, rfl, rfl⟩
  rintro ⟨result, hperform, -⟩
  have hpool := congrArg PaymentNode.transactionPool (congrArg Prod.fst (Option.some.inj hperform))
  exact List.cons_ne_nil _ _ hpool

end EmptyWallet

end Dims

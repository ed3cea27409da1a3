import Dims.AdmitTransactionsBundle
import Dims.OwnCoins

/-!
# What a monitor earns by an admission

admitTransactionsBundle.cpp. A bundle message that leaves a tracker to wait for has its
transactions searched for coins of the monitor; the message that completes the admission returns
before the search. The coins that the wallet gains are compared with the outputs of the bundle
that is stored.
-/

namespace Dims
open ByteCodec CAdmitTransactionBundle

/-- A waiting action with the wallet of its monitor. -/
structure EarningMonitor where
  action : CAdmitTransactionBundle
  wallet : CWallet

namespace EarningMonitor

variable (env : MonitorContext) (myKeyId : CKeyID)

def credit (m : EarningMonitor) (action : CAdmitTransactionBundle) : EarningMonitor where
  action := action
  wallet := (action.searched.drop m.action.searched.length).foldl
    (fun w tx => w.findSelfCoinsAndAddToWallet env.hashes myKeyId tx) m.wallet

/-- One event; a monitor whose action has aborted stays so. -/
def step (s : Option EarningMonitor) (event : ActionEvent) : Option EarningMonitor :=
  s.bind fun m => (m.action.react env event).map (m.credit env myKeyId)

end EarningMonitor

/-- The bundle that an event brings, and the key ids of those who have signed. -/
def bundleMessage (env : MonitorContext) : ActionEvent → Option (List CTransaction × Finset CKeyID)
  | .messageResult message pubKey =>
    (unwindAsserted env.hashes env.signatures message pubKey).bind fun (original, participants) =>
      if original.header.payloadKind = CPayloadKind.transactions.toInt then
        (readBundle original.payload).map fun transactions =>
          (transactions, participants.image (CPubKey.getID env.hashes))
      else none
  | _ => none

/-- The bundles of the messages that leave a tracker over, and the one of the message that leaves
none. -/
def receivedBundles (env : MonitorContext) :
    Finset CKeyID → List ActionEvent → List (List CTransaction) × Option (List CTransaction)
  | _, [] => ([], none)
  | present, event :: events =>
    match bundleMessage env event with
    | none => receivedBundles env present events
    | some (transactions, participants) =>
      if present \ participants = ∅ then ([], some transactions)
      else
        let rest := receivedBundles env (present \ participants) events
        (transactions :: rest.1, rest.2)

def income (H : HashFunctions) (myKeyId : CKeyID) (transactions : List CTransaction) :
    List CAvailableCoin :=
  transactions.flatMap fun tx => payingCoins H myKeyId (tx.getHash H) (CCoins.ofTransaction tx)

namespace EarningMonitor

variable {env : MonitorContext} {myKeyId : CKeyID} {m m' : EarningMonitor}
  {present : Finset CKeyID} {event : ActionEvent} {events : List ActionEvent}

theorem react_waitForBundle_cases {a a' : CAdmitTransactionBundle}
    (hstate : a.state = .waitForBundle present) (h : a.react env event = some a') :
    match bundleMessage env event with
    | none => a' = a
    | some (transactions, participants) =>
      if present \ participants = ∅ then
        a'.state = .relaxResonation ∧ a'.searched = a.searched ∧ a'.stored = a.stored ++ [transactions]
      else
        a'.state = .waitForBundle (present \ participants) ∧
          a'.searched = a.searched ++ transactions ∧ a'.stored = a.stored := by
  rw [react, hstate] at h
  cases event with
  | messageResult message pubKey =>
    obtain ⟨⟨original, participants⟩, hunwind, hrest⟩ := Option.bind_eq_some_iff.mp h
    dsimp only at hrest
    rw [bundleMessage, hunwind, Option.bind_some]
    dsimp only
    by_cases hkind : original.header.payloadKind = CPayloadKind.transactions.toInt
    · rw [if_pos hkind] at hrest ⊢
      obtain ⟨transactions, hread, hresult⟩ := Option.map_eq_some_iff.mp hrest
      rw [hread, Option.map_some]
      dsimp only at hresult ⊢
      split
      case isTrue hempty =>
        rw [if_pos hempty] at hresult
        subst hresult
        exact ⟨rfl, rfl, rfl⟩
      case isFalse hleft =>
        rw [if_neg hleft] at hresult
        subst hresult
        exact ⟨rfl, rfl, rfl⟩
    · rw [if_neg hkind] at hrest ⊢
      cases hrest
      rfl
  | timeEvent => cases h
  | validation => cases h; rfl
  | ack => cases h; rfl
  | noMedium => cases h; rfl

theorem react_relaxResonation_cases {a a' : CAdmitTransactionBundle}
    (hstate : a.state = .relaxResonation) (h : a.react env event = some a') :
    a'.state = .relaxResonation ∧ a'.searched = a.searched ∧ a'.stored = a.stored := by
  rw [react, hstate] at h
  cases event <;> cases h <;> exact ⟨hstate, rfl, rfl⟩

theorem exists_react_of_run
    (h : GuardedRun.run (step env myKeyId) (some m) (event :: events) = some m') :
    ∃ a', m.action.react env event = some a' ∧
      GuardedRun.run (step env myKeyId) (some (m.credit env myKeyId a')) events = some m' := by
  have hnone : ∀ events : List ActionEvent, GuardedRun.run (step env myKeyId) none events = none := by
    intro events
    induction events with
    | nil => rfl
    | cons event events ih => exact ih
  rw [GuardedRun.run_cons, step, Option.bind_some] at h
  cases hreact : m.action.react env event with
  | none =>
    rw [hreact, Option.map_none, hnone] at h
    cases h
  | some a' =>
    rw [hreact, Option.map_some] at h
    exact ⟨a', rfl, h⟩

theorem credit_of_searched {a' : CAdmitTransactionBundle} {transactions : List CTransaction}
    (h : a'.searched = m.action.searched ++ transactions) :
    (m.credit env myKeyId a').wallet = transactions.foldl
      (fun w tx => w.findSelfCoinsAndAddToWallet env.hashes myKeyId tx) m.wallet := by
  rw [credit, h, List.drop_left]

theorem run_relaxResonation (hstate : m.action.state = .relaxResonation)
    (h : GuardedRun.run (step env myKeyId) (some m) events = some m') :
    m'.wallet = m.wallet ∧ m'.action.stored = m.action.stored := by
  induction events generalizing m with
  | nil =>
    cases h
    exact ⟨rfl, rfl⟩
  | cons event events ih =>
    obtain ⟨a', hreact, hrest⟩ := exists_react_of_run h
    obtain ⟨hrelaxed, hsearched, hstored⟩ := react_relaxResonation_cases hstate hreact
    have hcredit : (m.credit env myKeyId a').wallet = m.wallet :=
      credit_of_searched (hsearched.trans (List.append_nil _).symm)
    obtain ⟨hwallet, hkept⟩ := ih (m := m.credit env myKeyId a') hrelaxed hrest
    exact ⟨hwallet.trans hcredit, hkept.trans hstored⟩

/-- The wallet gets the coins of the bundles that leave a tracker over; the last one is stored. -/
theorem run_waitForBundle (hstate : m.action.state = .waitForBundle present)
    (h : GuardedRun.run (step env myKeyId) (some m) events = some m') :
    m'.wallet.availableCoins.values.Perm (m.wallet.availableCoins.values ++
        (receivedBundles env present events).1.flatten.flatMap (selfCoins env.hashes myKeyId)) ∧
      m'.action.stored = m.action.stored ++ (receivedBundles env present events).2.toList := by
  induction events generalizing m present with
  | nil =>
    cases h
    simp [receivedBundles]
  | cons event events ih =>
    obtain ⟨a', hreact, hrest⟩ := exists_react_of_run h
    have hcases := react_waitForBundle_cases hstate hreact
    rw [receivedBundles]
    cases hmessage : bundleMessage env event with
    | none =>
      rw [hmessage] at hcases
      obtain rfl : a' = m.action := hcases
      have hcredit : (m.credit env myKeyId m.action).wallet = m.wallet :=
        credit_of_searched (List.append_nil _).symm
      have hlater := ih (m := m.credit env myKeyId m.action) hstate hrest
      rwa [hcredit] at hlater
    | some received =>
      obtain ⟨transactions, participants⟩ := received
      rw [hmessage] at hcases
      dsimp only at hcases ⊢
      split
      case isTrue hempty =>
        rw [if_pos hempty] at hcases
        obtain ⟨hrelaxed, hsearched, hstored⟩ := hcases
        have hcredit : (m.credit env myKeyId a').wallet = m.wallet :=
          credit_of_searched (hsearched.trans (List.append_nil _).symm)
        obtain ⟨hwallet, hkept⟩ := run_relaxResonation (m := m.credit env myKeyId a') hrelaxed hrest
        rw [hwallet, hcredit, hkept]
        exact ⟨by simp, hstored⟩
      case isFalse hleft =>
        rw [if_neg hleft] at hcases
        obtain ⟨hwaits, hsearched, hstored⟩ := hcases
        obtain ⟨hcoins, hkept⟩ := ih (m := m.credit env myKeyId a') hwaits hrest
        have hadded := m.wallet.perm_values_findSelfCoins env.hashes myKeyId transactions
        have hcredit : (m.credit env myKeyId a').wallet = transactions.foldl
            (fun w tx => w.findSelfCoinsAndAddToWallet env.hashes myKeyId tx) m.wallet :=
          credit_of_searched hsearched
        rw [← hcredit] at hadded
        refine ⟨hcoins.trans ?_, hkept.trans ?_⟩
        · rw [List.flatten_cons, List.flatMap_append, ← List.append_assoc]
          exact hadded.append_right _
        · rw [show (m.credit env myKeyId a').action.stored = m.action.stored from hstored]

/-- The wallet gains what the stored bundle pays to the monitor, each output once. -/
def IncomeExact (env : MonitorContext) (myKeyId : CKeyID) (w : CWallet) (m : EarningMonitor) : Prop :=
  m.wallet.availableCoins.values.Perm
    (w.availableCoins.values ++ income env.hashes myKeyId m.action.stored.flatten)

end EarningMonitor

/-- What is found in the bundles that leave a tracker over is what the last bundle pays. -/
def PaidBefore (env : MonitorContext) (myKeyId : CKeyID) (present : Finset CKeyID)
    (events : List ActionEvent) : Prop :=
  ((receivedBundles env present events).1.flatten.flatMap (selfCoins env.hashes myKeyId)).Perm
    (income env.hashes myKeyId (receivedBundles env present events).2.toList.flatten)

/-- If all the messages bring one bundle, whose scripts can be read, then there is one message
before the last, or there is nothing to earn. -/
theorem paidBefore_one_bundle {env : MonitorContext} {myKeyId : CKeyID} {present : Finset CKeyID}
    {events : List ActionEvent} {bundle : List CTransaction} {k : ℕ}
    (hreceived : receivedBundles env present events = (List.replicate k bundle, some bundle))
    (hreadable : ∀ tx ∈ bundle,
      (CCoins.ofTransaction tx).vout.all (·.scriptPubKey.parses) = true) :
    PaidBefore env myKeyId present events ↔ k = 1 ∨ income env.hashes myKeyId bundle = [] := by
  have hself : bundle.flatMap (selfCoins env.hashes myKeyId) = income env.hashes myKeyId bundle := by
    refine List.flatMap_congr fun tx htx => ?_
    rw [selfCoins, getAvailableCoins_eq, if_pos (hreadable tx htx)]
  have hfound : ∀ k, (List.replicate k bundle).flatten.flatMap (selfCoins env.hashes myKeyId) =
      (List.replicate k (income env.hashes myKeyId bundle)).flatten := by
    intro k
    induction k with
    | zero => rfl
    | succ k ih =>
      rw [List.replicate_succ, List.replicate_succ, List.flatten_cons, List.flatten_cons,
        List.flatMap_append, ih, hself]
  rw [PaidBefore, hreceived, hfound, Option.toList_some, List.flatten_singleton]
  constructor
  · intro h
    have hlength := h.length_eq
    rw [List.length_flatten, List.map_replicate, List.sum_replicate_nat] at hlength
    rcases Nat.eq_zero_or_pos (income env.hashes myKeyId bundle).length with hzero | hpos
    · exact .inr (List.length_eq_zero_iff.mp hzero)
    · exact .inl (Nat.eq_of_mul_eq_mul_right hpos (hlength.trans (Nat.one_mul _).symm))
  · rintro (rfl | hnone)
    · simp
    · simp [hnone]

open EarningMonitor in
/-- The income is exact if and only if the messages before the last one have paid it. -/
theorem incomeExact_iff (env : MonitorContext) (myKeyId : CKeyID) (w : CWallet)
    (actionKey : Uint256) (present : Finset CKeyID) (events : List ActionEvent)
    (a₀ : CAdmitTransactionBundle) (m : EarningMonitor) (hstart : initiate actionKey present = some a₀)
    (hrun : GuardedRun.run (step env myKeyId) (some ⟨a₀, w⟩) events = some m) :
    IncomeExact env myKeyId w m ↔ PaidBefore env myKeyId present events := by
  rw [initiate] at hstart
  split at hstart
  · cases hstart
  · cases hstart
    obtain ⟨hcoins, hstored⟩ := run_waitForBundle rfl hrun
    rw [IncomeExact, PaidBefore, hstored, List.nil_append]
    constructor
    · intro h
      exact (List.perm_append_left_iff _).mp (hcoins.symm.trans h)
    · intro h
      exact hcoins.trans (h.append_left _)

namespace PayingBundle
open TwoSigners EarningMonitor

def paying : CTransaction := ⟨1, [], [⟨10, .setDestination 5⟩], 0, 0⟩

def payload : Bytes := (Serialize.vector CTransaction.networkCodec).encode [paying]

theorem bundleMessage_payload {sender : CPubKey}
    (hcheck : checkLayer context.hashes context.signatures sender (carrying payload) = some true) :
    bundleMessage context (.messageResult (carrying payload) sender) =
      some ([paying], {sender.getID context.hashes}) := by
  have hread : readBundle payload = some [paying] := by decide +kernel
  rw [bundleMessage, unwind_carrying hcheck, Option.bind_some]
  refine (if_pos rfl).trans ?_
  rw [show (carrying payload).payload = payload from rfl, hread]
  rfl

def startedWith (trackers : Finset CKeyID) : CAdmitTransactionBundle :=
  ⟨.waitForBundle trackers, 7, [.timeEvent investigationStartTime], [], [], [], false⟩

theorem exists_react_payload {a : CAdmitTransactionBundle} {present : Finset CKeyID} {sender : CPubKey}
    (hstate : a.state = .waitForBundle present)
    (hcheck : checkLayer context.hashes context.signatures sender (carrying payload) = some true) :
    ∃ a', a.react context (.messageResult (carrying payload) sender) = some a' := by
  have hread : readBundle (carrying payload).payload = some [paying] := by decide +kernel
  have hkind : (carrying payload).header.payloadKind = CPayloadKind.transactions.toInt := rfl
  rw [react, hstate]
  dsimp only
  rw [reactWaitForBundle, unwind_carrying hcheck, Option.bind_some]
  dsimp only
  rw [if_pos hkind, hread]
  exact ⟨_, rfl⟩

/-- The only tracker sends the bundle: it is stored, and nothing is earned. -/
theorem not_incomeExact_one_tracker :
    ∃ m, GuardedRun.run (step context 5) (some ⟨startedWith {first.getID context.hashes}, .empty⟩)
        [.messageResult (carrying payload) first] = some m ∧
      ¬ IncomeExact context 5 .empty m := by
  have hcheck : checkLayer context.hashes context.signatures first (carrying payload) = some true := by
    decide +kernel
  obtain ⟨a', hreact⟩ := exists_react_payload (a := startedWith {first.getID context.hashes}) rfl hcheck
  have hrun : GuardedRun.run (step context 5)
      (some ⟨startedWith {first.getID context.hashes}, .empty⟩)
      [.messageResult (carrying payload) first] = some (credit context 5 ⟨startedWith {first.getID context.hashes}, .empty⟩ a') := by
    rw [GuardedRun.run_cons, step, Option.bind_some, hreact]
    rfl
  refine ⟨_, hrun, fun hexact => ?_⟩
  obtain ⟨hcoins, hstored⟩ := run_waitForBundle rfl hrun
  have hreceived : receivedBundles context {first.getID context.hashes}
      [.messageResult (carrying payload) first] = ([], some [paying]) := by
    rw [receivedBundles, bundleMessage_payload hcheck]
    exact if_pos (Finset.sdiff_self _)
  rw [hreceived] at hcoins hstored
  rw [IncomeExact, hstored] at hexact
  have hlength := (hcoins.symm.trans hexact).length_eq
  exact absurd hlength (by decide +kernel)

/-- Of two trackers each sends the bundle: what it pays is earned once. -/
theorem incomeExact_two_trackers :
    ∃ m, GuardedRun.run (step context 5) (some ⟨startedWith trackers, .empty⟩)
        [.messageResult (carrying payload) first, .messageResult (carrying payload) second] = some m ∧
      IncomeExact context 5 .empty m := by
  have hfirst : checkLayer context.hashes context.signatures first (carrying payload) = some true := by
    decide +kernel
  have hsecond : checkLayer context.hashes context.signatures second (carrying payload) =
      some true := by decide +kernel
  obtain ⟨a₁, hreact₁⟩ := exists_react_payload (a := startedWith trackers) rfl hfirst
  have hleft : trackers \ {first.getID context.hashes} = {second.getID context.hashes} := by decide
  have hcases := react_waitForBundle_cases rfl hreact₁
  rw [bundleMessage_payload hfirst] at hcases
  dsimp only at hcases
  rw [hleft, if_neg (Finset.singleton_ne_empty _)] at hcases
  obtain ⟨a₂, hreact₂⟩ := exists_react_payload (a := a₁) hcases.1 hsecond
  have hrun : GuardedRun.run (step context 5) (some ⟨startedWith trackers, .empty⟩)
      [.messageResult (carrying payload) first, .messageResult (carrying payload) second] =
      some (credit context 5 (credit context 5 ⟨startedWith trackers, .empty⟩ a₁) a₂) := by
    rw [GuardedRun.run_cons, step, Option.bind_some, hreact₁, Option.map_some, GuardedRun.run_cons, step,
      Option.bind_some]
    change GuardedRun.run _ ((a₁.react _ _).map _) [] = _
    rw [hreact₂]
    rfl
  refine ⟨_, hrun, ?_⟩
  refine (incomeExact_iff context 5 .empty 7 trackers _ (startedWith trackers) _ rfl hrun).mpr ?_
  have hreceived : receivedBundles context trackers [.messageResult (carrying payload) first,
      .messageResult (carrying payload) second] = (List.replicate 1 [paying], some [paying]) := by
    rw [receivedBundles, bundleMessage_payload hfirst]
    dsimp only
    rw [hleft, if_neg (Finset.singleton_ne_empty _), receivedBundles, bundleMessage_payload hsecond]
    dsimp only
    rw [Finset.sdiff_self, if_pos rfl]
    rfl
  exact (paidBefore_one_bundle hreceived (by decide +kernel)).mpr (.inl rfl)

end PayingBundle

end Dims

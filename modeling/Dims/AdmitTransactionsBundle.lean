import Dims.ValidateTransactions
import Dims.GuardedRun

/-!
# The monitor admits a bundle

The state machine of admitTransactionsBundle.cpp. While it waits, a monitor takes
the participants of every bundle message off the trackers it has found present and
synchronized, and stores the bundle of the message that takes the last one off.
-/

namespace Dims
open ByteCodec Serialize

inductive AdmissionState
  | waitForBundle (presentTrackers : Finset CKeyID)
  | relaxResonation

/-- The action with the calls it has made: bundles given to the storage and to the
charge register, and transactions searched for own coins. -/
structure CAdmitTransactionBundle where
  state : AdmissionState
  actionKey : Uint256
  requests : List CRequest
  stored : List (List CTransaction)
  registered : List (List CTransaction)
  searched : List CTransaction
  exit : Bool

/-- The cryptography, and whether the charge register asks for transactions. -/
structure MonitorContext where
  hashes : HashFunctions
  signatures : SignatureScheme
  storeTransactions : Bool

namespace CAdmitTransactionBundle

def investigationStartTime : ℕ := 60000

def relaxResonationTime : ℕ := 10000

/-- The action on the trackers that are present and synchronized at its start, which
are asserted to be some. -/
def initiate (actionKey : Uint256) (presentTrackers : Finset CKeyID) :
    Option CAdmitTransactionBundle :=
  if presentTrackers = ∅ then none
  else some ⟨.waitForBundle presentTrackers, actionKey, [.timeEvent investigationStartTime], [], [],
    [], false⟩

variable (env : MonitorContext)

/-- The last participants have come: the bundle is handed over. -/
def enterRelaxResonation (a : CAdmitTransactionBundle) (transactions : List CTransaction) :
    CAdmitTransactionBundle :=
  { a with
    state := .relaxResonation
    registered := if env.storeTransactions then a.registered ++ [transactions] else a.registered
    stored := a.stored ++ [transactions]
    requests := a.requests ++ [.timeEvent relaxResonationTime] }

/-- `CWaitForBundle`; no value where an assertion fails or a stream throws. -/
def reactWaitForBundle (a : CAdmitTransactionBundle) (presentTrackers : Finset CKeyID) :
    ActionEvent → Option CAdmitTransactionBundle
  | .messageResult message pubKey =>
    (unwindAsserted env.hashes env.signatures message pubKey).bind fun (original, participants) =>
      if original.header.payloadKind = CPayloadKind.transactions.toInt then
        (readBundle original.payload).map fun transactions =>
          let a := { a with requests := a.requests ++
            [CRequest.ack original.header.id (.byKey pubKey), .forward message pubKey .monitors] }
          let remaining := presentTrackers \ participants.image (CPubKey.getID env.hashes)
          if remaining = ∅ then a.enterRelaxResonation env transactions
          else { a with
            state := .waitForBundle remaining
            searched := a.searched ++ transactions }
      else some a
  | .timeEvent => none
  | _ => some a

def reactRelaxResonation (a : CAdmitTransactionBundle) :
    ActionEvent → Option CAdmitTransactionBundle
  | .timeEvent => some { a with exit := true }
  | _ => some a

def react (a : CAdmitTransactionBundle) (event : ActionEvent) : Option CAdmitTransactionBundle :=
  match a.state with
  | .waitForBundle presentTrackers => a.reactWaitForBundle env presentTrackers event
  | .relaxResonation => a.reactRelaxResonation event

end CAdmitTransactionBundle

/-- A monitor with its admission action and the trackers that are present and
synchronized at the moment. -/
structure AdmittingMonitor where
  presentTrackers : Finset CKeyID
  action : CAdmitTransactionBundle

/-- Trackers come and go while the action gets its events. -/
inductive MonitorInput
  | presence (trackers : Finset CKeyID)
  | event (event : ActionEvent)

namespace AdmittingMonitor
open CAdmitTransactionBundle

variable (env : MonitorContext)

/-- One input; a monitor whose action has aborted stays so. -/
def step (s : Option AdmittingMonitor) (input : MonitorInput) : Option AdmittingMonitor :=
  s.bind fun m => match input with
    | .presence trackers => some { m with presentTrackers := trackers }
    | .event event => (m.action.react env event).map fun action => { m with action := action }

/-- The key id has signed a layer of a message that carries the bundle. -/
def Signed (bundle : List CTransaction) (id : CKeyID) (input : MonitorInput) : Prop :=
  ∃ message pubKey layer key original innerKey, input = .event (.messageResult message pubKey) ∧
    Layer message pubKey layer key ∧ key.getID env.hashes = id ∧
    Authentic env.hashes env.signatures layer key ∧
    Innermost message pubKey original innerKey ∧
    original.header.payloadKind = CPayloadKind.transactions.toInt ∧
    readBundle original.payload = some bundle

/-- What an admission relies on: the bundle messages carry the one bundle and all
their layers are signed, and no tracker joins those it started with. -/
def OneBundle (bundle : List CTransaction) (started : Finset CKeyID) (input : MonitorInput) : Prop :=
  match input with
  | .presence trackers => trackers ⊆ started
  | .event event => ∀ message pubKey original innerKey, event = .messageResult message pubKey →
      Innermost message pubKey original innerKey →
      original.header.payloadKind = CPayloadKind.transactions.toInt →
      (∀ transactions, readBundle original.payload = some transactions → transactions = bundle) ∧
        ∀ layer key, Layer message pubKey layer key →
          layer.header.payloadKind = CPayloadKind.introductionReq.toInt →
          Authentic env.hashes env.signatures layer key

/-- The inputs that an action gets while it waits are about one bundle. -/
def WaitsForOne (bundle : List CTransaction) (started : Finset CKeyID)
    (s : Option AdmittingMonitor) (input : MonitorInput) : Prop :=
  ∀ m presentTrackers, s = some m → m.action.state = .waitForBundle presentTrackers →
    OneBundle env bundle started input

variable {env} {bundle : List CTransaction} {started : Finset CKeyID}

/-- An event takes a tracker off only if that has signed the bundle, and what it
makes the action store is this bundle, for which none is left. -/
theorem react_waitForBundle {a a' : CAdmitTransactionBundle} {present : Finset CKeyID}
    {event : ActionEvent} (hstate : a.state = .waitForBundle present)
    (hone : OneBundle env bundle started (.event event)) (hstep : a.react env event = some a') :
    (a'.stored = a.stored ∧ ∃ remaining, a'.state = .waitForBundle remaining ∧
        ∀ id ∈ present, id ∈ remaining ∨ Signed env bundle id (.event event)) ∨
      a'.state = .relaxResonation ∧ a'.stored = a.stored ++ [bundle] ∧
        ∀ id ∈ present, Signed env bundle id (.event event) := by
  rw [react, hstate] at hstep
  have hstay : a = a' → a'.stored = a.stored ∧ ∃ remaining, a'.state = .waitForBundle remaining ∧
      ∀ id ∈ present, id ∈ remaining ∨ Signed env bundle id (.event event) := by
    rintro rfl
    exact ⟨rfl, present, hstate, fun id hid => .inl hid⟩
  cases event with
  | messageResult message pubKey =>
    obtain ⟨⟨original, participants⟩, hunwind, hrest⟩ := Option.bind_eq_some_iff.mp hstep
    obtain ⟨hall, ⟨innerKey, hinner⟩, hparticipants⟩ := unwindAsserted_spec hunwind
    dsimp only at hrest
    by_cases hkind : original.header.payloadKind = CPayloadKind.transactions.toInt
    · rw [if_pos hkind] at hrest
      obtain ⟨transactions, hread, hresult⟩ := Option.map_eq_some_iff.mp hrest
      obtain ⟨hbundle, hsigned⟩ := hone message pubKey original innerKey rfl hinner hkind
      obtain rfl := hbundle transactions hread
      -- every participant has signed the layer it is attributed to
      have hparticipated : ∀ id ∈ participants.image (CPubKey.getID env.hashes),
          Signed env transactions id (.event (.messageResult message pubKey)) := by
        intro id hid
        obtain ⟨key, hkey, rfl⟩ := Finset.mem_image.mp hid
        obtain ⟨layer, hlayer⟩ := (hparticipants key).mp hkey
        exact ⟨message, pubKey, layer, key, original, innerKey, rfl, hlayer, rfl,
          authentic_of_unwindable hall hlayer (hsigned layer key hlayer), hinner, hkind, hread⟩
      by_cases hempty : present \ participants.image (CPubKey.getID env.hashes) = ∅
      · rw [if_pos hempty] at hresult
        subst hresult
        exact .inr ⟨rfl, rfl, fun id hid =>
          hparticipated id (Finset.sdiff_eq_empty_iff_subset.mp hempty hid)⟩
      · rw [if_neg hempty] at hresult
        subst hresult
        refine .inl ⟨rfl, _, rfl, fun id hid => ?_⟩
        by_cases hgone : id ∈ participants.image (CPubKey.getID env.hashes)
        · exact .inr (hparticipated id hgone)
        · exact .inl (Finset.mem_sdiff.mpr ⟨hid, hgone⟩)
    · rw [if_neg hkind] at hrest
      cases hrest
      exact .inl (hstay rfl)
  | timeEvent => cases hstep
  | validation => cases hstep; exact .inl (hstay rfl)
  | ack => cases hstep; exact .inl (hstay rfl)
  | noMedium => cases hstep; exact .inl (hstay rfl)

theorem react_relaxResonation {a a' : CAdmitTransactionBundle} {event : ActionEvent}
    (hstate : a.state = .relaxResonation) (hstep : a.react env event = some a') :
    a'.state = .relaxResonation ∧ a'.stored = a.stored := by
  rw [react, hstate] at hstep
  cases event <;> cases hstep <;> exact ⟨hstate, rfl⟩

/-- What a guarded run keeps: while the action waits, the trackers it no longer waits
for have signed the bundle, and none is present that was not so at the start. -/
def Accounted (env : MonitorContext) (bundle : List CTransaction) (started : Finset CKeyID)
    (past : List MonitorInput) (s : Option AdmittingMonitor) : Prop :=
  ∀ m, s = some m → m.action.state = .relaxResonation ∨ m.presentTrackers ⊆ started ∧
    ∃ remaining, m.action.state = .waitForBundle remaining ∧
      ∀ id ∈ started, id ∈ remaining ∨ ∃ i ∈ past, Signed env bundle id i

theorem Accounted.step {past : List MonitorInput} {s : Option AdmittingMonitor}
    {input : MonitorInput} (h : Accounted env bundle started past s)
    (hone : WaitsForOne env bundle started s input) :
    Accounted env bundle started (past ++ [input]) (step env s input) := by
  intro m' hm'
  obtain ⟨m, rfl, hstep⟩ := Option.bind_eq_some_iff.mp hm'
  cases input with
  | presence trackers =>
    cases hstep
    rcases h m rfl with hrelaxed | ⟨-, remaining, hstate, hsigned⟩
    · exact .inl hrelaxed
    · refine .inr ⟨hone m remaining rfl hstate, remaining, hstate, fun id hid => ?_⟩
      rcases hsigned id hid with hleft | ⟨i, hi, hearlier⟩
      · exact .inl hleft
      · exact .inr ⟨i, List.mem_append_left _ hi, hearlier⟩
  | event event =>
    obtain ⟨action, hreact, rfl⟩ := Option.map_eq_some_iff.mp hstep
    rcases h m rfl with hrelaxed | ⟨hpresent, remaining, hstate, hsigned⟩
    · exact .inl (react_relaxResonation hrelaxed hreact).1
    · obtain ⟨-, remaining', hstate', hevent⟩ | ⟨hrelaxed, -⟩ :=
        react_waitForBundle hstate (hone m remaining rfl hstate) hreact
      · refine .inr ⟨hpresent, remaining', hstate', fun id hid => ?_⟩
        rcases hsigned id hid with hleft | ⟨i, hi, hearlier⟩
        · rcases hevent id hleft with hstill | hnow
          · exact .inl hstill
          · exact .inr ⟨_, List.mem_append_right _ List.mem_cons_self, hnow⟩
        · exact .inr ⟨i, List.mem_append_left _ hi, hearlier⟩
      · exact .inl hrelaxed

/-- A bundle that is handed to the storage has been signed by every tracker that is
present and synchronized, at the moment or at the start of the action. -/
theorem stored_only_if_signed {actionKey : Uint256} {a₀ a' : CAdmitTransactionBundle}
    {m : AdmittingMonitor} {inputs : List MonitorInput} {event : ActionEvent}
    {transactions : List CTransaction} (hstart : initiate actionKey started = some a₀)
    (hguarded : GuardedRun.Guarded (step env) (WaitsForOne env bundle started) (some ⟨started, a₀⟩)
      (inputs ++ [.event event]))
    (hrun : GuardedRun.run (step env) (some ⟨started, a₀⟩) inputs = some m)
    (hstep : m.action.react env event = some a')
    (hstored : a'.stored = m.action.stored ++ [transactions]) :
    ∀ id, id ∈ m.presentTrackers ∨ id ∈ started →
      ∃ i ∈ inputs ++ [.event event], Signed env transactions id i := by
  obtain ⟨hfirst, hlast⟩ :=
    (GuardedRun.guarded_append (step env) (WaitsForOne env bundle started)).mp hguarded
  have haccounted : Accounted env bundle started [] (some ⟨started, a₀⟩) := by
    intro m hm
    cases hm
    rw [initiate] at hstart
    split at hstart
    · cases hstart
    · cases hstart
      exact .inr ⟨Finset.Subset.refl _, started, rfl, fun id hid => .inl hid⟩
  have hnothing : a'.stored ≠ m.action.stored := by
    rw [hstored]
    exact fun h => absurd (congrArg List.length h) (by simp)
  obtain hrelaxed | ⟨hpresent, remaining, hstate, hsigned⟩ :=
    hfirst.history (fun _ _ _ hs hok => hs.step hok) haccounted m hrun
  · exact absurd (react_relaxResonation hrelaxed hstep).2 hnothing
  obtain ⟨hsame, -⟩ | ⟨-, hbundle, hevent⟩ :=
    react_waitForBundle hstate (hlast.1 m remaining hrun hstate) hstep
  · exact absurd hsame hnothing
  obtain rfl : transactions = bundle := by
    rw [hbundle] at hstored
    exact (List.singleton_inj.mp (List.append_cancel_left hstored)).symm
  intro id hid
  rcases hsigned id (hid.elim (fun h => hpresent h) fun h => h) with hleft | ⟨i, hi, hearlier⟩
  · exact ⟨_, List.mem_append_right _ List.mem_cons_self, hevent id hleft⟩
  · exact ⟨i, List.mem_append_left _ hi, hearlier⟩

end AdmittingMonitor

namespace TwoSigners
open CAdmitTransactionBundle AdmittingMonitor

/-- `[1]` is the signature of everything, and keys that begin with different bytes
have different ids. -/
def context : MonitorContext :=
  ⟨⟨fun _ => 0, fun bytes => BitVec.ofNat 160 (bytes.headD 0).toNat⟩, ⟨fun _ _ sig => sig = [1]⟩,
    false⟩

def first : CPubKey := CPubKey.ofBytes (2 :: List.replicate 32 1)

def second : CPubKey := CPubKey.ofBytes (3 :: List.replicate 32 1)

def trackers : Finset CKeyID := {first.getID context.hashes, second.getID context.hashes}

def carrying (payload : Bytes) : CMessage :=
  ⟨⟨CPayloadKind.transactions.toInt, [1], 0, .invalid, 7, 0⟩, payload⟩

def transaction : CTransaction := ⟨1, [], [], 0, 0⟩

/-- The bytes of the bundle with this transaction alone. -/
def single : Bytes := [1, 1, 0, 0, 0, 0, 0, 0, 0, 0, 0]

def started : CAdmitTransactionBundle :=
  ⟨.waitForBundle trackers, 7, [.timeEvent investigationStartTime], [], [], [], false⟩

theorem innermost_carrying (payload : Bytes) (sender : CPubKey) :
    Innermost (carrying payload) sender (carrying payload) sender :=
  ⟨.outer _ _, CPubKey.isValid_invalid⟩

theorem unwind_carrying {payload : Bytes} {sender : CPubKey}
    (hcheck : checkLayer context.hashes context.signatures sender (carrying payload) = some true) :
    unwindAsserted context.hashes context.signatures (carrying payload) sender =
      some (carrying payload, {sender}) :=
  unwindAsserted_of_last context.hashes context.signatures CPubKey.isValid_invalid hcheck

/-- The message of the first tracker, with the empty bundle. -/
def fromFirst : ActionEvent := .messageResult (carrying [0]) first

/-- The action after the message of the first tracker. -/
def halfway : CAdmitTransactionBundle :=
  { started with
    requests := started.requests ++
      [.ack 0 (.byKey first), .forward (carrying [0]) first .monitors]
    state := .waitForBundle {second.getID context.hashes} }

theorem react_fromFirst : started.react context fromFirst = some halfway := by
  have hread : readBundle [0] = some [] := by decide
  have hremaining : trackers \ Finset.image (CPubKey.getID context.hashes) {first} =
      {second.getID context.hashes} := by decide
  change (unwindAsserted _ _ (carrying [0]) first).bind _ = _
  rw [unwind_carrying (by decide), Option.bind_some]
  refine (if_pos rfl).trans ?_
  change (readBundle [0]).map _ = _
  rw [hread, Option.map_some, hremaining, if_neg (Finset.singleton_ne_empty _)]
  rfl

theorem run_fromFirst :
    GuardedRun.run (step context) (some ⟨trackers, started⟩) [.event fromFirst] =
      some ⟨trackers, halfway⟩ := by
  change (started.react context fromFirst).map _ = _
  rw [react_fromFirst]
  rfl

/-- Whatever bundle the second tracker sends, the monitor stores it. -/
theorem stored_from_second {payload : Bytes} {transactions : List CTransaction}
    (hread : readBundle payload = some transactions)
    (hcheck : checkLayer context.hashes context.signatures second (carrying payload) = some true) :
    ∃ a', halfway.react context (.messageResult (carrying payload) second) = some a' ∧
      a'.stored = halfway.stored ++ [transactions] := by
  have hremaining : {second.getID context.hashes} \
      Finset.image (CPubKey.getID context.hashes) {second} = ∅ := by decide
  refine ⟨({ halfway with requests := halfway.requests ++
    [CRequest.ack 0 (.byKey second), .forward (carrying payload) second .monitors] }).enterRelaxResonation
      context transactions, ?_, rfl⟩
  change (unwindAsserted _ _ (carrying payload) second).bind _ = _
  rw [unwind_carrying hcheck, Option.bind_some]
  refine (if_pos rfl).trans ?_
  change (readBundle payload).map _ = _
  rw [hread, Option.map_some, hremaining, if_pos rfl]
  rfl

theorem signed_by_both :
    (∃ i ∈ [.event fromFirst] ++ [.event (.messageResult (carrying [0]) second)],
        Signed context [] (first.getID context.hashes) i) ∧
      ∃ i ∈ [.event fromFirst] ++ [.event (.messageResult (carrying [0]) second)],
        Signed context [] (second.getID context.hashes) i := by
  have hread : readBundle [0] = some [] := by decide
  obtain ⟨a', hstep, hstored⟩ := stored_from_second hread (by decide)
  have hone : ∀ sender, OneBundle context [] trackers
      (.event (.messageResult (carrying [0]) sender)) := by
    intro sender m k original innerKey hm hinner _
    cases hm
    obtain ⟨rfl, -⟩ := innermost_unique hinner (innermost_carrying _ _)
    refine ⟨fun transactions h => ?_, fun layer key hlayer hkind => ?_⟩
    · exact (Option.some.inj (hread.symm.trans h)).symm
    · obtain ⟨rfl, -⟩ := hlayer.cases_of_no_prevKey CPubKey.isValid_invalid
      exact absurd hkind (by decide)
  have hguarded : GuardedRun.Guarded (step context) (WaitsForOne context [] trackers)
      (some ⟨trackers, started⟩)
      ([.event fromFirst] ++ [.event (.messageResult (carrying [0]) second)]) :=
    ⟨fun _ _ _ _ => hone first, fun _ _ _ _ => hone second, trivial⟩
  have hstart : initiate 7 trackers = some started := rfl
  have hsigned := stored_only_if_signed hstart hguarded run_fromFirst hstep hstored
  exact ⟨hsigned _ (.inl (by decide)), hsigned _ (.inl (by decide))⟩

/-- The first tracker has signed the empty bundle, and the monitor stores the one that
the second has sent afterwards. -/
theorem stored_without_first :
    GuardedRun.run (step context) (some ⟨trackers, started⟩) [.event fromFirst] =
        some ⟨trackers, halfway⟩ ∧
      first.getID context.hashes ∈ trackers ∧
      ∃ a', halfway.react context (.messageResult (carrying single) second) = some a' ∧
        a'.stored = halfway.stored ++ [[transaction]] ∧
        ∀ i ∈ [.event fromFirst] ++ [.event (.messageResult (carrying single) second)],
          ¬Signed context [transaction] (first.getID context.hashes) i := by
  have hread : readBundle single = some [transaction] := by decide
  obtain ⟨a', hstep, hstored⟩ := stored_from_second hread (by decide)
  refine ⟨run_fromFirst, by decide, a', hstep, hstored, fun i hi => ?_⟩
  rintro ⟨m, k, layer, key, original, innerKey, rfl, hlayer, hid, -, hinner, -, hbundle⟩
  rcases List.mem_append.mp hi with hi | hi
  · cases List.mem_singleton.mp hi
    obtain ⟨rfl, -⟩ := innermost_unique hinner (innermost_carrying _ _)
    exact absurd hbundle (by decide)
  · cases List.mem_singleton.mp hi
    obtain ⟨-, rfl⟩ := hlayer.cases_of_no_prevKey CPubKey.isValid_invalid
    exact absurd hid (by decide)

end TwoSigners

end Dims

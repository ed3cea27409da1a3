import Dims.LocalPayment

/-!
# The proof of a payment verifies

The client hands over the key of the tracker that serviced the payment. The signature beside
it comes from the tracker that has answered the last question, which may be another one.
-/

namespace Dims
open ByteCodec

namespace CPayApplicationData

variable (H : HashFunctions) (S : SignatureScheme)

/-- The signatures that a tuple carries; `resolved` if a monitor has listed the tracker. -/
structure Verifies (resolved : Prop) (data : CPayApplicationData) : Prop where
  signed : S.verify data.servicingTracker (data.transaction.getHash H)
    data.transactionStatusSignature = true
  listed : resolved → verifyMonitorData H S data.servicingMonitor data.monitorData = some true ∧
    data.servicingTracker ∈ data.monitorData.trackers.map (·.publicKey)

variable {H S}

theorem Verifies.verifyData {resolved : Prop} {data : CPayApplicationData}
    (hdata : data.Verifies H S resolved) {possibleMonitor possibleTracker : CPubKey → Bool}
    (hmonitor : resolved → possibleMonitor data.servicingMonitor = true)
    (htracker : ¬ resolved → possibleTracker data.servicingTracker = true) :
    data.verifyData H S possibleMonitor possibleTracker = true := by
  simp only [CPayApplicationData.verifyData, Bool.or_eq_true, Bool.and_eq_true, decide_eq_true_eq]
  by_cases hresolved : resolved
  · left
    obtain ⟨hverified, hlisted⟩ := hdata.listed hresolved
    obtain ⟨tracker, hmem, hkey⟩ := List.mem_map.mp hlisted
    refine ⟨⟨⟨hmonitor hresolved, hverified⟩, ?_⟩, hdata.signed⟩
    exact List.any_eq_true.mpr ⟨tracker, hmem, decide_eq_true hkey⟩
  · right
    exact ⟨htracker hresolved, hdata.signed⟩

/-- The tuple verifies if an application that takes the keys of the tuple accepts it. -/
theorem verifies_iff_verifyData {resolved : Prop} {data : CPayApplicationData} :
    data.Verifies H S resolved ↔ ∀ possibleMonitor possibleTracker : CPubKey → Bool,
      (resolved → possibleMonitor data.servicingMonitor = true) →
      (¬ resolved → possibleTracker data.servicingTracker = true) →
      data.verifyData H S possibleMonitor possibleTracker = true := by
  constructor
  · intro hdata possibleMonitor possibleTracker hmonitor htracker
    exact hdata.verifyData hmonitor htracker
  · intro haccepts
    by_cases hresolved : resolved
    · have hverify := haccepts (fun _ => true) (fun _ => false) (fun _ => rfl)
        fun hnot => absurd hresolved hnot
      simp only [CPayApplicationData.verifyData, Bool.true_and, Bool.false_and, Bool.or_false,
        Bool.and_eq_true, decide_eq_true_eq] at hverify
      obtain ⟨⟨hverified, hany⟩, hsigned⟩ := hverify
      obtain ⟨tracker, hmem, hkey⟩ := List.any_eq_true.mp hany
      exact ⟨hsigned, fun _ => ⟨hverified, List.mem_map.mpr ⟨tracker, hmem, of_decide_eq_true hkey⟩⟩⟩
    · have hverify := haccepts (fun _ => false) (fun _ => true) (fun h => absurd h hresolved)
        fun _ => rfl
      simp only [CPayApplicationData.verifyData, Bool.true_and, Bool.false_and, Bool.false_or]
        at hverify
      exact ⟨hverify, fun h => absurd h hresolved⟩

end CPayApplicationData

namespace PaymentContext

variable {H : HashFunctions} {context : PaymentContext}

theorem getTrackerStats_eq_some {trackerId : CKeyID} {stats : CTrackerStats}
    (hstats : context.getTrackerStats H trackerId = some stats) :
    stats ∈ context.trackers ∧ stats.key.getID H = trackerId := by
  have hid := List.find?_some hstats
  exact ⟨List.mem_of_find?_eq_some hstats, of_decide_eq_true hid⟩

end PaymentContext

namespace CPayLocalApplicationAction

variable (H : HashFunctions) (S : NodeSignatures)

/-- No other tracker has the id of a key that the monitor lists, or of no key. -/
def Event.IdsApart : Event → Prop
  | .monitorData context _ _ trackers _ =>
    ∀ stats ∈ context.trackers, ∀ key ∈ CPubKey.invalid :: trackers.map (·.publicKey),
      stats.key.getID H = key.getID H → stats.key = key
  | _ => True

def ProofVerifies (s : Option CPayLocalApplicationAction) : Prop :=
  ∀ a data, s = some a → a.sent = some data → data.Verifies H S.toSignatureScheme a.resolvedBy.isSome

/-- The keys of the action have made the signatures that the tuple will carry. -/
structure SignedBy (a : CPayLocalApplicationAction) (tracker : CPubKey) : Prop where
  tracker : a.servicingTracker.isValid = true ∧ a.servicingTracker = tracker
  monitor : ∀ m, a.resolvedBy = some m → a.servicingMonitor.isValid = true ∧ a.servicingMonitor = m

/-- The last answer comes from the servicing tracker, and the list from the servicing monitor. -/
def AnsweredByServicing : Option CPayLocalApplicationAction → Event → Prop
  | some a, .transactionStatus _ tracker _ .confirmed =>
    a.exit = false → a.state = .secondCheck → a.SignedBy tracker
  | _, _ => True

/-- What holds of the data that the action has collected. -/
structure Collected (a : CPayLocalApplicationAction) : Prop where
  unresolved : a.state = .checkAppData ∨ a.state = .resolveByMonitor →
    a.resolvedBy = none ∧ a.sent = none
  signed : ∀ m, a.resolvedBy = some m →
    ∃ trackers monitors, signedData H S m trackers monitors = some a.monitorData
  listed : a.exit = false → ∀ m, a.resolvedBy = some m →
    a.servicingTracker ∈ CPubKey.invalid :: a.monitorData.trackers.map (·.publicKey)

structure Keeps (a a' : CPayLocalApplicationAction) : Prop where
  resolvedBy : a'.resolvedBy = a.resolvedBy
  monitorData : a'.monitorData = a.monitorData
  servicingMonitor : a'.servicingMonitor = a.servicingMonitor
  servicingTracker : a'.servicingTracker = a.servicingTracker
  sent : a'.sent = a.sent
  exit : a'.exit = false → a.exit = false
  state : a'.state = .checkAppData ∨ a'.state = .resolveByMonitor →
    a.state = .checkAppData ∨ a.state = .resolveByMonitor

/-- The servicing tracker is the one with the id, if the payment goes on. -/
structure Serviced (context : PaymentContext) (keyId : CKeyID) (a a' : CPayLocalApplicationAction) :
    Prop where
  resolvedBy : a'.resolvedBy = a.resolvedBy
  monitorData : a'.monitorData = a.monitorData
  servicingMonitor : a'.servicingMonitor = a.servicingMonitor
  state : a'.state = .serviceByTracker
  sent : a'.sent = a.sent
  servicingTracker : a'.exit = false → ∃ stats, context.getTrackerStats H keyId = some stats ∧
    a'.servicingTracker = stats.key

variable {H S} {a a' : CPayLocalApplicationAction}

theorem Keeps.refl (a : CPayLocalApplicationAction) : Keeps a a :=
  ⟨rfl, rfl, rfl, rfl, rfl, id, id⟩

theorem enterServiceByTracker_spec {context : PaymentContext} {keyId : CKeyID}
    (henter : a.enterServiceByTracker H context keyId = some a') : Serviced H context keyId a a' := by
  obtain ⟨stats, hstats, rfl⟩ := Option.map_eq_some_iff.mp henter
  dsimp only
  split
  · exact ⟨rfl, rfl, rfl, rfl, rfl, fun hexit => nomatch hexit⟩
  · exact ⟨rfl, rfl, rfl, rfl, rfl, fun _ => ⟨stats, hstats, rfl⟩⟩

theorem Keeps.collected (hkeeps : Keeps a a') (ha : a.Collected H S) : a'.Collected H S where
  unresolved hstate := by
    rw [hkeeps.resolvedBy, hkeeps.sent]
    exact ha.unresolved (hkeeps.state hstate)
  signed m hm := by
    rw [hkeeps.monitorData]
    exact ha.signed m (hkeeps.resolvedBy ▸ hm)
  listed hexit m hm := by
    rw [hkeeps.monitorData, hkeeps.servicingTracker]
    exact ha.listed (hkeeps.exit hexit) m (hkeeps.resolvedBy ▸ hm)

theorem best_mem {context : PaymentContext} {trackers : List CTrackerData}
    (hids : ∀ stats ∈ context.trackers, ∀ key ∈ CPubKey.invalid :: trackers.map (·.publicKey),
      stats.key.getID H = key.getID H → stats.key = key) :
    (best H context trackers).key ∈ CPubKey.invalid :: trackers.map (·.publicKey) := by
  refine List.foldlRecOn trackers _
    (motive := fun t : CTrackerStats => t.key ∈ CPubKey.invalid :: trackers.map (·.publicKey))
    ?_ fun best hbest tracker htracker => ?_
  · exact List.mem_cons_self
  split
  · exact hbest
  · next stats hstats =>
    split
    · obtain ⟨hmem, hid⟩ := PaymentContext.getTrackerStats_eq_some hstats
      have hlisted : tracker.publicKey ∈ CPubKey.invalid :: trackers.map (·.publicKey) :=
        List.mem_cons_of_mem _ (List.mem_map_of_mem htracker)
      rw [hids stats hmem _ hlisted hid]
      exact hlisted
    · exact hbest

theorem signedData_trackers {monitor : CPubKey} {trackers : List CTrackerData}
    {monitors : List CNodeInfo} {data : CMonitorData}
    (hdata : signedData H S monitor trackers monitors = some data) : data.trackers = trackers := by
  obtain ⟨hash, -, rfl⟩ := Option.map_eq_some_iff.mp hdata
  rfl

theorem verifyMonitorData_signedData {monitor key : CPubKey} {trackers : List CTrackerData}
    {monitors : List CNodeInfo} {data : CMonitorData}
    (hdata : signedData H S monitor trackers monitors = some data) :
    verifyMonitorData H S.toSignatureScheme key data = some true ↔
      key.isValid = true ∧ key = monitor := by
  obtain ⟨hash, hhash, rfl⟩ := Option.map_eq_some_iff.mp hdata
  have hsame : hashMonitorData H ⟨trackers, monitors, S.sign monitor hash⟩ = some hash := hhash
  rw [verifyMonitorData, hsame, Option.map_some, Option.some.injEq, S.verify_sign_iff]
  simp only [and_true]

/-- The tracker that services the payment is known to be the one that the monitor has listed. -/
theorem collected_of_reactMonitorData {context : PaymentContext} {ip : Bytes} {monitor : CPubKey}
    {trackers : List CTrackerData} {monitors : List CNodeInfo} {data : CMonitorData}
    (hids : Event.IdsApart H (.monitorData context ip monitor trackers monitors))
    (hdata : signedData H S monitor trackers monitors = some data)
    (hreact : a.reactMonitorData H context ip monitor data = some a') : a'.Collected H S := by
  have hserviced := enterServiceByTracker_spec hreact
  have htrackers : data.trackers = trackers := signedData_trackers hdata
  refine ⟨fun hstate => ?_, fun m hm => ?_, fun hexit m _ => ?_⟩
  · rw [hserviced.state] at hstate
    simp at hstate
  · have hmonitor : m = monitor := Option.some.inj (hm.symm.trans hserviced.resolvedBy)
    rw [hserviced.monitorData, hmonitor]
    exact ⟨trackers, monitors, hdata⟩
  · obtain ⟨stats, hstats, hkey⟩ := hserviced.servicingTracker hexit
    obtain ⟨hmem, hid⟩ := PaymentContext.getTrackerStats_eq_some hstats
    rw [htrackers] at hid
    have hlisted := best_mem hids
    rw [hkey, hserviced.monitorData, hids stats hmem _ hlisted hid]
    dsimp only
    rw [htrackers]
    exact hlisted

theorem reactTimeEvent_cases {context : PaymentContext} (hstate : a.state = .checkAppData)
    (hreact : a.reactTimeEvent H context = some a') :
    Keeps a a' ∨ ∃ keyId, Serviced H context keyId a a' := by
  rw [reactTimeEvent] at hreact
  split at hreact
  · split at hreact
    · next keyId _ => exact .inr ⟨keyId, enterServiceByTracker_spec hreact⟩
    · split at hreact
      · obtain rfl := Option.some.inj hreact
        exact .inl ⟨rfl, rfl, rfl, rfl, rfl, id, fun _ => .inl hstate⟩
      · obtain rfl := Option.some.inj hreact
        exact .inl (.refl a)
  · obtain rfl := Option.some.inj hreact
    exact .inl (.refl a)

theorem enterSecondTransaction_keeps {context : PaymentContext}
    (henter : a.enterSecondTransaction H context = some a') : Keeps a a' := by
  simp only [enterSecondTransaction] at henter
  split at henter
  · cases henter
  · split at henter
    · obtain rfl := Option.some.inj henter
      exact ⟨rfl, rfl, rfl, rfl, rfl, (nomatch ·), fun h => by simp at h⟩
    · obtain rfl := Option.some.inj henter
      exact ⟨rfl, rfl, rfl, rfl, rfl, id, fun h => by simp at h⟩

theorem reactTransactionAck_keeps (status : TransactionsStatus) (tx : CTransaction) :
    Keeps a (a.reactTransactionAck H status tx) := by
  rw [reactTransactionAck]
  split
  · split
    · exact ⟨rfl, rfl, rfl, rfl, rfl, id, fun h => by simp at h⟩
    · exact ⟨rfl, rfl, rfl, rfl, rfl, id, fun h => by simp at h⟩
    · exact .refl a
  · exact .refl a

inductive Reaction (a a' : CPayLocalApplicationAction) : Event → Prop
  | keeps {event : Event} (hkeeps : Keeps a a') (hother : AnsweredByServicing (some a) event) :
      Reaction a a' event
  | serviced {context : PaymentContext} (keyId : CKeyID) (hstate : a.state = .checkAppData)
      (hserviced : Serviced H context keyId a a') : Reaction a a' (.timeEvent context)
  | resolved {context : PaymentContext} {ip : Bytes} {monitor : CPubKey}
      {trackers : List CTrackerData} {monitors : List CNodeInfo} (data : CMonitorData)
      (hstate : a.state = .resolveByMonitor)
      (hdata : signedData H S monitor trackers monitors = some data)
      (hresolved : a.reactMonitorData H context ip monitor data = some a') :
      Reaction a a' (.monitorData context ip monitor trackers monitors)
  | sends {context : PaymentContext} {tracker : CPubKey} {nodePtr : ℕ} (hexit : a.exit = false)
      (hstate : a.state = .secondCheck)
      (hsends : a' = { a with
        signature := S.sign tracker (a.secondTransaction.getHash H) }.sendTransactionData) :
      Reaction a a' (.transactionStatus context tracker nodePtr .confirmed)

theorem answeredByServicing_of_not {event : Event}
    (hnot : a.exit = false → a.state = .secondCheck →
      ∀ context tracker nodePtr, event ≠ .transactionStatus context tracker nodePtr .confirmed) :
    AnsweredByServicing (some a) event := by
  unfold AnsweredByServicing
  split
  · next hsome =>
    obtain rfl := Option.some.inj hsome
    exact fun hexit hstate => (hnot hexit hstate _ _ _ rfl).elim
  · trivial

theorem reactTransactionStatus_cases {context : PaymentContext} {tracker : CPubKey} {nodePtr : ℕ}
    {status : TransactionsStatus} (hexit : a.exit = false)
    (hreact : a.reactTransactionStatus H S context tracker nodePtr status = some a') :
    Reaction (H := H) (S := S) a a' (.transactionStatus context tracker nodePtr status) := by
  unfold reactTransactionStatus at hreact
  split at hreact
  · next hstate =>
    refine .keeps (enterSecondTransaction_keeps hreact) fun _ hsecond => ?_
    cases hstate.symm.trans hsecond
  · obtain rfl := Option.some.inj hreact
    exact .keeps ⟨rfl, rfl, rfl, rfl, rfl, id, id⟩ trivial
  · next hstate => exact .sends hexit hstate (Option.some.inj hreact).symm
  · obtain rfl := Option.some.inj hreact
    exact .keeps ⟨rfl, rfl, rfl, rfl, rfl, id, id⟩ trivial
  · next hconfirmed _ =>
    obtain rfl := Option.some.inj hreact
    refine .keeps (.refl a) (answeredByServicing_of_not fun _ hstate _ _ _ hevent => ?_)
    exact hconfirmed hstate (Event.transactionStatus.inj hevent).2.2.2

theorem react_cases {event : Event} (hreact : a.react H S event = some a') :
    Reaction (H := H) (S := S) a a' event := by
  unfold react at hreact
  split at hreact
  · next hexit =>
    obtain rfl := Option.some.inj hreact
    exact .keeps (.refl a) (answeredByServicing_of_not fun hgoes =>
      absurd (hexit.symm.trans hgoes) (by decide))
  · next hexit =>
    split at hreact
    · next accepts hstate =>
      obtain rfl := Option.some.inj hreact
      refine .keeps ?_ trivial
      cases accepts with
      | false => exact ⟨rfl, rfl, rfl, rfl, rfl, (nomatch ·), fun h => by simp [indicateErrorCondition] at h⟩
      | true => exact ⟨rfl, rfl, rfl, rfl, rfl, id, id⟩
    · next context hstate =>
      obtain hkeeps | ⟨keyId, hserviced⟩ := reactTimeEvent_cases hstate hreact
      · exact .keeps hkeeps trivial
      · exact .serviced keyId hstate hserviced
    · next hstate =>
      obtain ⟨data, hdata, hresolved⟩ := Option.bind_eq_some_iff.mp hreact
      exact .resolved data hstate hdata hresolved
    · cases hreact
    · obtain rfl := Option.some.inj hreact
      exact .keeps (reactTransactionAck_keeps _ _) trivial
    · exact reactTransactionStatus_cases (Bool.eq_false_iff.mpr hexit) hreact
    · next hstatus _ _ _ _ =>
      obtain rfl := Option.some.inj hreact
      exact .keeps (.refl a) (answeredByServicing_of_not fun _ _ context tracker nodePtr hevent =>
        hstatus context tracker nodePtr .confirmed hevent)

theorem react_collected {event : Event} (hids : event.IdsApart H) (ha : a.Collected H S)
    (hreact : a.react H S event = some a') : a'.Collected H S := by
  cases react_cases hreact with
  | keeps hkeeps _ => exact hkeeps.collected ha
  | serviced keyId hstate hserviced =>
    have hnone : a'.resolvedBy = none :=
      hserviced.resolvedBy.trans (ha.unresolved (.inl hstate)).1
    refine ⟨fun h => ?_, fun m hm => ?_, fun _ m hm => ?_⟩
    · simp [hserviced.state] at h
    · cases hnone.symm.trans hm
    · cases hnone.symm.trans hm
  | resolved data _ hdata hresolved => exact collected_of_reactMonitorData hids hdata hresolved
  | sends hexit hstate hsends =>
    subst hsends
    refine ⟨fun h => ?_, ha.signed, ha.listed⟩
    simp [sendTransactionData] at h

/-- The tuple verifies if the servicing tracker has signed it and the servicing monitor the
list. -/
theorem verifies_sendTransactionData_iff {tracker : CPubKey} (ha : a.Collected H S)
    (hexit : a.exit = false) :
    CPayApplicationData.Verifies H S.toSignatureScheme a.resolvedBy.isSome
      ⟨a.secondTransaction, S.sign tracker (a.secondTransaction.getHash H), a.servicingTracker,
        a.monitorData, a.servicingMonitor⟩ ↔ a.SignedBy tracker := by
  constructor
  · rintro ⟨hsigned, hlisted⟩
    obtain ⟨hvalid, hsame, -⟩ := (S.verify_sign_iff _ _ _ _).mp hsigned
    refine ⟨⟨hvalid, hsame⟩, fun m hm => ?_⟩
    obtain ⟨trackers, monitors, hdata⟩ := ha.signed m hm
    exact (verifyMonitorData_signedData hdata).mp (hlisted (by rw [hm]; rfl)).1
  · rintro ⟨⟨hvalid, hsame⟩, hmonitor⟩
    refine ⟨(S.verify_sign_iff _ _ _ _).mpr ⟨hvalid, hsame, rfl⟩, fun hresolved => ?_⟩
    obtain ⟨m, hm⟩ := Option.isSome_iff_exists.mp hresolved
    obtain ⟨trackers, monitors, hdata⟩ := ha.signed m hm
    refine ⟨(verifyMonitorData_signedData hdata).mpr (hmonitor m hm), ?_⟩
    refine (List.mem_cons.mp (ha.listed hexit m hm)).resolve_left fun hinvalid => ?_
    rw [show a.servicingTracker = .invalid from hinvalid] at hvalid
    exact absurd hvalid (by decide)

theorem proofVerifies_some : ProofVerifies H S (some a) ↔
    ∀ data, a.sent = some data → data.Verifies H S.toSignatureScheme a.resolvedBy.isSome := by
  constructor
  · intro h data hdata
    exact h a data rfl hdata
  · intro h a' data ha' hdata
    obtain rfl := Option.some.inj ha'
    exact h data hdata

theorem proofVerifies_react_iff {event : Event} (hids : event.IdsApart H) (ha : a.Collected H S)
    (hgood : ProofVerifies H S (some a)) (hreact : a.react H S event = some a') :
    ProofVerifies H S (some a') ↔ AnsweredByServicing (some a) event := by
  cases react_cases hreact with
  | keeps hkeeps hother =>
    refine iff_of_true ?_ hother
    rw [proofVerifies_some] at hgood ⊢
    rwa [hkeeps.sent, hkeeps.resolvedBy]
  | serviced keyId hstate hserviced =>
    refine iff_of_true ?_ trivial
    rw [proofVerifies_some] at hgood ⊢
    rwa [hserviced.sent, hserviced.resolvedBy]
  | resolved data hstate hdata hresolved =>
    refine iff_of_true (proofVerifies_some.mpr fun data hsent => ?_) trivial
    have hunsent := (ha.unresolved (.inr hstate)).2
    cases hunsent.symm.trans ((enterServiceByTracker_spec hresolved).sent.symm.trans hsent)
  | sends hexit hstate hsends =>
    subst hsends
    rw [proofVerifies_some]
    constructor
    · intro h _ _
      exact (verifies_sendTransactionData_iff ha hexit).mp (h _ rfl)
    · intro hanswered data hdata
      obtain rfl := Option.some.inj hdata
      exact (verifies_sendTransactionData_iff ha hexit).mpr (hanswered hexit hstate)

/-- The data of an action that has not been aborted. -/
def AllCollected (H : HashFunctions) (S : NodeSignatures) (s : Option CPayLocalApplicationAction) :
    Prop := ∀ a, s = some a → a.Collected H S

theorem step_collected (s : Option CPayLocalApplicationAction) (event : Event)
    (hids : event.IdsApart H) (hs : AllCollected H S s) : AllCollected H S (step H S s event) := by
  intro a' hstep
  obtain ⟨a, rfl, hreact⟩ := Option.bind_eq_some_iff.mp hstep
  exact react_collected hids (hs a rfl) hreact

theorem proofVerifies_step_iff (s : Option CPayLocalApplicationAction) (event : Event)
    (hids : event.IdsApart H) (hs : AllCollected H S s) (hgood : ProofVerifies H S s) :
    ProofVerifies H S (step H S s event) ↔ AnsweredByServicing s event := by
  cases s with
  | none => exact iff_of_true (fun _ _ hsome => nomatch hsome) trivial
  | some a =>
    cases hreact : a.react H S event with
    | some a' =>
      rw [show step H S (some a) event = some a' from hreact]
      exact proofVerifies_react_iff hids (hs a rfl) hgood hreact
    | none =>
      rw [show step H S (some a) event = none from hreact]
      refine iff_of_true (fun _ _ hsome => nomatch hsome) ?_
      refine answeredByServicing_of_not fun hexit hstate context tracker nodePtr hevent => ?_
      subst hevent
      simp [react, hexit, hstate, reactTransactionStatus] at hreact

/-- The tuple that the application gets verifies in every run in which the servicing tracker
gives the last answer, and the monitor that has sent the list is the servicing one. -/
theorem proof_verifies_iff (privKeyId targetKey : CKeyID) (value : Int64)
    (trackers monitors : List CKeyID) (events : List Event)
    (hids : ∀ event ∈ events, event.IdsApart H) :
    (∀ past, past <+: events → ProofVerifies H S (GuardedRun.run (step H S)
      (some (init privKeyId targetKey value trackers monitors)) past)) ↔
    GuardedRun.Guarded (step H S) AnsweredByServicing
      (some (init privKeyId targetKey value trackers monitors)) events := by
  refine GuardedRun.always_iff_of_mem step_collected proofVerifies_step_iff hids ?_ ?_
  · intro a ha
    obtain rfl := Option.some.inj ha
    exact ⟨fun _ => ⟨rfl, rfl⟩, fun _ => (nomatch ·), fun _ _ => (nomatch ·)⟩
  · intro a data ha hdata
    obtain rfl := Option.some.inj ha
    cases hdata

end CPayLocalApplicationAction

namespace AnotherTracker
open CPayLocalApplicationAction

/-- The id of a key is made of its first bytes. -/
def hashes : HashFunctions := ⟨fun _ => 0, fun bytes => BitVec.ofNat 160 (leValue bytes)⟩

/-- A signature names the key and the hash. -/
def signatures : NodeSignatures where
  check key hash vchSig := vchSig = key.chHeader :: (key.body ++ uint256.encode hash)
  sign key hash := key.chHeader :: (key.body ++ uint256.encode hash)
  verify_sign_iff key signer hash hash' := by
    simp only [SignatureScheme.verify, Bool.and_eq_true, decide_eq_true_eq, List.cons.injEq,
      and_congr_right_iff]
    intro _
    constructor
    · rintro ⟨hheader, hrest⟩
      have hlength : signer.body.length = key.body.length := by
        rw [signer.body_length, key.body_length, hheader]
      obtain ⟨hbody, hhash⟩ := List.append_inj hrest hlength
      refine ⟨?_, ?_⟩
      · cases key
        cases signer
        subst hheader hbody
        rfl
      · exact (uint256.encode_injective (uint256_fits hash') (uint256_fits hash) hhash).symm
    · rintro ⟨rfl, rfl⟩
      exact ⟨rfl, rfl⟩

def servicing : CPubKey := .ofBytes (2 :: List.replicate 32 1)
def another : CPubKey := .ofBytes (3 :: List.replicate 32 1)
def monitor : CPubKey := .ofBytes (3 :: List.replicate 32 2)

def payment : CTransaction :=
  ⟨1, [], [⟨5, [0x76, 0xa9, 0x14] ++ List.replicate 20 0 ++ [0x88, 0xac]⟩], 0, 0⟩

def context : PaymentContext where
  isClientReady := true
  trackers := [⟨servicing, 1⟩, ⟨another, 1⟩]
  monitors := [monitor.getID hashes]
  ipToKey _ := some monitor
  createTransaction _ _ _ _ := some payment

/-- Both transactions are validated, and the first one is confirmed. -/
def validated : List Event :=
  [.transactionAck .validated payment, .transactionStatus context servicing 0 .confirmed,
    .transactionAck .validated payment]

/-- The second transaction is confirmed by the tracker that is asked in its turn. -/
def events : List Event :=
  [.userAsked true, .timeEvent context] ++ validated ++
    [.transactionStatus context servicing 0 .unconfirmed,
      .transactionStatus context another 1 .confirmed]

/-- The monitor lists the servicing tracker, which confirms the second transaction. -/
def resolved : List Event :=
  [.userAsked true, .timeEvent context,
    .monitorData context [] monitor [⟨⟨servicing, ⟨0, 0, 0, 0⟩⟩, 0, 0, 0⟩] []] ++ validated ++
    [.transactionStatus context servicing 0 .confirmed]

set_option maxRecDepth 10000 in
/-- The tuple names the servicing tracker, and another one has signed. -/
theorem other_signature : ¬ ∀ (H : HashFunctions) (S : NodeSignatures)
    (privKeyId targetKey : CKeyID) (value : Int64) (trackers monitors : List CKeyID)
    (events : List Event), (∀ event ∈ events, event.IdsApart H) → ∀ past, past <+: events →
      ProofVerifies H S (GuardedRun.run (step H S)
        (some (CPayLocalApplicationAction.init privKeyId targetKey value trackers monitors)) past) := by
  intro h
  have hverifies := (h hashes signatures 0 1 5 [servicing.getID hashes] [] events
    (by simp [events, validated, Event.IdsApart]) events (List.prefix_refl _) _ _ rfl rfl).signed
  revert hverifies
  decide

set_option maxRecDepth 10000 in
theorem resolved_proof_verifies : ProofVerifies hashes signatures
    (GuardedRun.run (step hashes signatures) (some (init 0 1 5 [] [monitor.getID hashes])) resolved) := by
  refine (proof_verifies_iff 0 1 5 [] [monitor.getID hashes] resolved ?_).mpr ?_ resolved
    (List.prefix_refl resolved)
  · simp only [resolved, validated, List.cons_append, List.nil_append, List.forall_mem_cons,
      Event.IdsApart, true_and]
    refine ⟨by decide, nofun⟩
  · refine ⟨trivial, trivial, trivial, trivial, ?_, trivial, ?_, trivial⟩
    · exact fun _ hstate => nomatch hstate
    · refine fun _ _ => ⟨⟨by decide, rfl⟩, fun m hm => ?_⟩
      obtain rfl : monitor = m := Option.some.inj hm
      exact ⟨by decide, rfl⟩

end AnotherTracker

end Dims

import Dims.TrackerRegistration

/-!
# Contract times

A tracker is registered while its granted time lasts: what is registered, in memory and in the
database, against the leases that the trackers were granted.
-/

namespace Dims
open CReputationTracker

def CTrackerData.contractEnd (data : CTrackerData) : ℤ :=
  data.contractTime.toNat + data.networkTime.toNat

def CTrackerData.times (data : CTrackerData) : UInt64 × UInt64 := (data.networkTime, data.contractTime)

theorem CTrackerData.contractEnd_eq_of_times {data data' : CTrackerData} (h : data.times = data'.times) :
    data.contractEnd = data'.contractEnd := by
  obtain ⟨hnetwork, hcontract⟩ := Prod.mk.inj h
  rw [contractEnd, contractEnd, hnetwork, hcontract]

theorem toInt_toInt64 (x : UInt64) :
    x.toInt64.toInt = if x.toNat < 2 ^ 63 then (x.toNat : ℤ) else x.toNat - 2 ^ 64 := by
  have h := BitVec.toInt_eq_toNat_cond x.toBitVec
  rw [UInt64.toNat_toBitVec] at h
  change x.toBitVec.toInt = _
  rw [h]
  split <;> split <;> omega

theorem toNat_toUInt64 {now : Int64} (h : 0 ≤ now.toInt) : (now.toUInt64.toNat : ℤ) = now.toInt := by
  rw [Int64.toNat_toUInt64_of_le (Int64.le_iff_toInt_le.mpr h)]
  exact Int.toNat_of_nonneg h

theorem timeLeft_neg_iff {now : Int64} (hnow : 0 ≤ now.toInt) {data : CTrackerData}
    (hbegun : (data.contractTime.toNat : ℤ) ≤ now.toInt) :
    timeLeft now data < 0 ↔
      data.contractEnd < now.toInt ∨ now.toInt + 2 ^ 63 ≤ data.contractEnd := by
  have hpassed := toNat_toUInt64 hnow
  have hlt := Int64.toInt_lt now
  have hnetwork := UInt64.toNat_lt data.networkTime
  rw [Int64.lt_iff_toInt_lt, timeLeft, UInt64.toUInt64_toInt64, toInt_toInt64,
    CTrackerData.contractEnd]
  simp only [UInt64.toNat_sub, Int64.toInt_zero]
  split <;> omega

namespace TrackerRegistration

variable (env : ReputationContext)

/-- A tracker is registered until the end of its lease, and the database has the same trackers
with the same times. -/
structure Serves (s : TrackerRegistration) : Prop where
  served : ∀ id, (s.reputation.registeredTrackers.lookup id).map CTrackerData.contractEnd =
    s.leases id
  stored : ∀ id, (s.database.lookup id).map CTrackerData.times =
    (s.reputation.registeredTrackers.lookup id).map CTrackerData.times

/-- A period from now on is not shorter than what a tracker has left. -/
def Lengthens (s : TrackerRegistration) (partnerKey : CPubKey) : Prop :=
  ∀ data, s.reputation.registeredTrackers.lookup (keyId env partnerKey) = some data →
    data.contractEnd ≤ s.time.toInt + s.period.toNat

/-- The condition of a step: a free grant is not shorter than what is left, times do not
overflow, and a network is entered in which all registered trackers have another monitor. -/
def Keeps (s : TrackerRegistration) : Event → Prop
  | .admitAsk i _ _ => ∀ a, s.actions[i]? = some a → a.state = .extendRegistration →
    s.paid.price = 0 → s.admitted → s.Lengthens env a.partnerKey
  | .ack i _ _ => ∀ a, s.actions[i]? = some a → a.state = .waitForInfo →
    s.paid.price = 0 → s.Lengthens env a.partnerKey
  | .paid (.time i _ _ _ _) => ∀ a, s.paid.actions[i]? = some a → a.Waits →
    a.kind = .registration → s.paid.chargeRegister.isTransactionPresent a.proofHash →
      ∀ data, s.reputation.registeredTrackers.lookup (keyId env a.partnerKey) = some data →
        data.networkTime.toNat + s.period.toNat < 2 ^ 64
  | .loop => ∀ id data, s.reputation.registeredTrackers.lookup id = some data →
    data.contractEnd < s.time.toInt + 2 ^ 63
  | .enter _ _ info => ∀ id, (s.reputation.registeredTrackers.lookup id).isSome →
    id ∈ takenOver env info
  | _ => True

/-- What holds in every state, whatever the steps. -/
structure Sound (s : TrackerRegistration) : Prop where
  clock : 0 ≤ s.time.toInt
  keyed : ∀ id data, s.reputation.registeredTrackers.lookup id = some data →
    keyId env data.publicKey = id
  keyedDatabase : ∀ id data, s.database.lookup id = some data → keyId env data.publicKey = id
  begun : ∀ id data, s.reputation.registeredTrackers.lookup id = some data →
    (data.contractTime.toNat : ℤ) ≤ s.time.toInt
  begunDatabase : ∀ id data, s.database.lookup id = some data →
    (data.contractTime.toNat : ℤ) ≤ s.time.toInt

/-- Nothing of what the registration is about has changed. -/
structure Same (s s' : TrackerRegistration) : Prop where
  registered : s'.reputation.registeredTrackers = s.reputation.registeredTrackers
  database : s'.database = s.database
  time : s'.time = s.time
  leases : s'.leases = s.leases

variable {env} {s s' : TrackerRegistration}

theorem Same.sound (h : Same s s') (hs : s.Sound env) : s'.Sound env := by
  obtain ⟨hregistered, hdatabase, htime, -⟩ := h
  refine ⟨?_, ?_, ?_, ?_, ?_⟩
  · rw [htime]
    exact hs.clock
  · rw [hregistered]
    exact hs.keyed
  · rw [hdatabase]
    exact hs.keyedDatabase
  · rw [hregistered, htime]
    exact hs.begun
  · rw [hdatabase, htime]
    exact hs.begunDatabase

theorem Same.serves_iff (h : Same s s') : s'.Serves ↔ s.Serves := by
  obtain ⟨hregistered, hdatabase, -, hleases⟩ := h
  constructor
  · rintro ⟨hserved, hstored⟩
    rw [hregistered, hleases] at hserved
    rw [hregistered, hdatabase] at hstored
    exact ⟨hserved, hstored⟩
  · rintro ⟨hserved, hstored⟩
    refine ⟨?_, ?_⟩
    · rwa [hregistered, hleases]
    · rwa [hregistered, hdatabase]

/-- A tracker is written to the database and added, and has its lease. -/
structure Grants (env : ReputationContext) (data : CTrackerData) (s s' : TrackerRegistration) : Prop where
  registered : s'.reputation.registeredTrackers =
    s.reputation.registeredTrackers.assign (keyId env data.publicKey) data
  database : s'.database = s.database.assign (keyId env data.publicKey) data
  time : s'.time = s.time
  leases : ∀ id ≠ keyId env data.publicKey, s'.leases id = s.leases id

variable {data : CTrackerData}

theorem Grants.sound (h : Grants env data s s') (hs : s.Sound env)
    (hbegun : (data.contractTime.toNat : ℤ) ≤ s.time.toInt) : s'.Sound env := by
  obtain ⟨hregistered, hdatabase, htime, -⟩ := h
  refine ⟨?_, fun id data' hdata => ?_, fun id data' hdata => ?_, fun id data' hdata => ?_,
    fun id data' hdata => ?_⟩
  · rw [htime]
    exact hs.clock
  · rw [hregistered] at hdata
    rcases OrderedMap.eq_or_lookup_of_assign hdata with ⟨rfl, rfl⟩ | hold
    · rfl
    · exact hs.keyed id data' hold
  · rw [hdatabase] at hdata
    rcases OrderedMap.eq_or_lookup_of_assign hdata with ⟨rfl, rfl⟩ | hold
    · rfl
    · exact hs.keyedDatabase id data' hold
  · rw [hregistered] at hdata
    rw [htime]
    rcases OrderedMap.eq_or_lookup_of_assign hdata with ⟨rfl, rfl⟩ | hold
    · exact hbegun
    · exact hs.begun id data' hold
  · rw [hdatabase] at hdata
    rw [htime]
    rcases OrderedMap.eq_or_lookup_of_assign hdata with ⟨rfl, rfl⟩ | hold
    · exact hbegun
    · exact hs.begunDatabase id data' hold

theorem Grants.serves_iff (h : Grants env data s s') (hs : s.Serves) :
    s'.Serves ↔ s'.leases (keyId env data.publicKey) = some data.contractEnd := by
  obtain ⟨hregistered, hdatabase, -, hleases⟩ := h
  constructor
  · intro hserves
    rw [← hserves.served, hregistered, OrderedMap.lookup_assign_self]
    rfl
  · intro hlease
    refine ⟨fun id => ?_, fun id => ?_⟩
    · rw [hregistered]
      by_cases hid : id = keyId env data.publicKey
      · rw [hid, hlease, OrderedMap.lookup_assign_self]
        rfl
      · rw [hleases id hid, OrderedMap.lookup_assign_of_ne hid]
        exact hs.served id
    · rw [hregistered, hdatabase]
      by_cases hid : id = keyId env data.publicKey
      · rw [hid, OrderedMap.lookup_assign_self, OrderedMap.lookup_assign_self]
      · rw [OrderedMap.lookup_assign_of_ne hid, OrderedMap.lookup_assign_of_ne hid]
        exact hs.stored id

theorem keyId_freeTracker (hs : s.Sound env) (partnerKey : CPubKey) (address : CAddress) :
    keyId env (s.freeTracker env partnerKey address).publicKey = keyId env partnerKey := by
  rw [freeTracker, getTracker]
  cases hold : s.reputation.registeredTrackers.lookup (keyId env partnerKey) with
  | none => rfl
  | some data => exact hs.keyed _ data hold

theorem times_freeTracker (partnerKey : CPubKey) (address : CAddress) :
    (s.freeTracker env partnerKey address).times = (s.period, s.time.toUInt64) := by
  rw [freeTracker]
  split <;> rfl

theorem contractEnd_freeTracker (hs : s.Sound env) (partnerKey : CPubKey) (address : CAddress) :
    (s.freeTracker env partnerKey address).contractEnd = s.time.toInt + s.period.toNat := by
  obtain ⟨hnetwork, hcontract⟩ := Prod.mk.inj (@times_freeTracker env s partnerKey address)
  rw [CTrackerData.contractEnd, hnetwork, hcontract, toNat_toUInt64 hs.clock]

theorem grants_grantFree (hs : s.Sound env) (partnerKey : CPubKey) (address : CAddress) :
    Grants env (s.freeTracker env partnerKey address) s (s.grantFree env partnerKey address) :=
  ⟨rfl, rfl, rfl, fun id hid => Leases.renew_of_ne (by rwa [keyId_freeTracker hs] at hid)⟩

theorem sound_grantFree (hs : s.Sound env) (partnerKey : CPubKey) (address : CAddress) :
    (s.grantFree env partnerKey address).Sound env := by
  refine (grants_grantFree hs partnerKey address).sound hs ?_
  obtain ⟨-, hcontract⟩ := Prod.mk.inj (@times_freeTracker env s partnerKey address)
  rw [hcontract, toNat_toUInt64 hs.clock]

/-- A free grant serves a tracker if it is not shorter than what was left. -/
theorem serves_grantFree_iff (hs : s.Sound env) (h : s.Serves) (partnerKey : CPubKey)
    (address : CAddress) :
    (s.grantFree env partnerKey address).Serves ↔ s.Lengthens env partnerKey := by
  rw [(grants_grantFree hs partnerKey address).serves_iff h, keyId_freeTracker hs,
    contractEnd_freeTracker hs]
  change s.leases.renew _ _ _ _ = _ ↔ _
  rw [Leases.renew_self, ← h.served, Option.some.injEq, max_eq_right_iff, Lengthens]
  cases s.reputation.registeredTrackers.lookup (keyId env partnerKey) with
  | none =>
    refine iff_of_true ?_ fun data hdata => (nomatch hdata)
    exact le_add_of_nonneg_right (Int.natCast_nonneg _)
  | some data =>
    constructor
    · rintro hle _ ⟨rfl⟩
      exact hle
    · exact fun hall => hall data rfl

theorem registeredTrackers_reactTime (p : PaidAdmission) (i : ℕ) (a : PaidAction) (now : Int64)
    (period tryPeriod : UInt64) (address : CAddress) :
    (p.reactTime env i a now period tryPeriod address).reputation.registeredTrackers =
      if a.kind = .registration ∧ p.chargeRegister.isTransactionPresent a.proofHash then
        let data := p.grantedTracker env a now period address
        p.reputation.registeredTrackers.assign (keyId env data.publicKey) data
      else p.reputation.registeredTrackers := by
  rw [PaidAdmission.reactTime]
  dsimp only
  by_cases hpresent : p.chargeRegister.isTransactionPresent a.proofHash
  · rw [if_pos hpresent]
    cases hkind : a.kind with
    | registration =>
      rw [if_pos ⟨rfl, hpresent⟩]
      rfl
    | enterance =>
      rw [if_neg]
      · simp only [addNodeToSynch, addAllyMonitor]
        split <;> rfl
      · rintro ⟨⟨⟩, -⟩
  · rw [if_neg hpresent, if_neg fun h => hpresent h.2]

theorem registeredTrackers_step (p : PaidAdmission) (event : PaidAdmission.Event) :
    (p.step env event).reputation.registeredTrackers =
      (paidTracker env p event).elim p.reputation.registeredTrackers
        fun data => p.reputation.registeredTrackers.assign (keyId env data.publicKey) data := by
  cases event with
  | time i now period tryPeriod address =>
    simp only [PaidAdmission.step, paidTracker]
    cases p.actions[i]? with
    | none => rfl
    | some a =>
      simp only [Option.bind_some]
      by_cases hwaits : a.Waits
      · rw [if_pos hwaits, registeredTrackers_reactTime]
        simp only [hwaits, true_and]
        split <;> rfl
      · rw [if_neg hwaits, if_neg fun h => hwaits h.1]
        rfl
  | start kind partnerKey now uninitialized =>
    simp only [PaidAdmission.step, PaidAdmission.construct, paidTracker]
    split <;> rfl
  | proof i pubKey hash messageId address =>
    simp only [PaidAdmission.step, paidTracker]
    split
    · split <;> rfl
    · rfl
  | ack i =>
    simp only [PaidAdmission.step, paidTracker]
    split
    · split <;> rfl
    · rfl
  | finish i =>
    simp only [PaidAdmission.step, paidTracker]
    split
    · split <;> rfl
    · rfl
  | storeTransactions transactions => rfl
  | loop => rfl
  | setPrice price => rfl
  | setEnterancePrice price => rfl

theorem paidTracker_eq_some {event : PaidAdmission.Event}
    (h : paidTracker env s.paid (s.stamp event) = some data) :
    ∃ (i : ℕ) (now : Int64) (period tryPeriod : UInt64) (address : CAddress) (a : PaidAction),
      event = .time i now period tryPeriod address ∧
      s.paid.actions[i]? = some a ∧ a.Waits ∧ a.kind = .registration ∧
      s.paid.chargeRegister.isTransactionPresent a.proofHash ∧
      data = s.paid.grantedTracker env a s.time s.period address := by
  cases event with
  | time i now period tryPeriod address =>
    obtain ⟨a, ha, hgrant⟩ := Option.bind_eq_some_iff.mp h
    split at hgrant
    case isTrue hall =>
      exact ⟨i, now, period, tryPeriod, address, a, rfl, ha, hall.1, hall.2.1, hall.2.2,
        (Option.some.inj hgrant).symm⟩
    case isFalse => cases hgrant
  | start | proof | ack | finish | storeTransactions | loop | setPrice | setEnterancePrice => cases h

section Paid

variable {a : PaidAction} {address : CAddress}

theorem keyId_grantedTracker (hs : s.Sound env) :
    keyId env (s.paid.grantedTracker env a s.time s.period address).publicKey =
      keyId env a.partnerKey := by
  rw [PaidAdmission.grantedTracker, getTracker]
  cases hold : s.paid.reputation.registeredTrackers.lookup (keyId env a.partnerKey) with
  | none => rfl
  | some data => exact hs.keyed _ data hold

theorem begun_grantedTracker (hs : s.Sound env) :
    ((s.paid.grantedTracker env a s.time s.period address).contractTime.toNat : ℤ) ≤
      s.time.toInt := by
  rw [PaidAdmission.grantedTracker, getTracker]
  cases hold : s.paid.reputation.registeredTrackers.lookup (keyId env a.partnerKey) with
  | none => exact (toNat_toUInt64 hs.clock).le
  | some data => exact hs.begun _ data hold

/-- A paid period is added to the end of the lease unless the sum overflows. -/
theorem contractEnd_grantedTracker_iff (hs : s.Sound env) (h : s.Serves) :
    (s.leases (keyId env a.partnerKey)).getD s.time.toInt + s.period.toNat =
        (s.paid.grantedTracker env a s.time s.period address).contractEnd ↔
      ∀ data, s.reputation.registeredTrackers.lookup (keyId env a.partnerKey) = some data →
        data.networkTime.toNat + s.period.toNat < 2 ^ 64 := by
  rw [← h.served, PaidAdmission.grantedTracker, getTracker]
  cases s.paid.reputation.registeredTrackers.lookup (keyId env a.partnerKey) with
  | none =>
    refine iff_of_true ?_ fun data hdata => (nomatch hdata)
    simp only [Option.map_none, Option.getD_none, CTrackerData.contractEnd,
      toNat_toUInt64 hs.clock]
  | some data =>
    have hnetwork := UInt64.toNat_lt data.networkTime
    have hperiod := UInt64.toNat_lt s.period
    simp only [Option.map_some, Option.getD_some, CTrackerData.contractEnd, UInt64.toNat_add,
      Option.some.injEq, forall_eq']
    omega

end Paid

theorem grants_reactPaid {event : PaidAdmission.Event}
    (h : paidTracker env s.paid event = some data) : Grants env data s (s.reactPaid env event) := by
  have hregistered := @registeredTrackers_step env s.paid event
  rw [reactPaid, h] at *
  exact ⟨hregistered, rfl, rfl, fun id hid => Leases.prolong_of_ne hid⟩

theorem same_reactPaid {event : PaidAdmission.Event} (h : paidTracker env s.paid event = none) :
    Same s (s.reactPaid env event) := by
  have hregistered := @registeredTrackers_step env s.paid event
  rw [reactPaid, h] at *
  exact ⟨hregistered, rfl, rfl, rfl⟩

theorem sound_reactPaid (hs : s.Sound env) (event : PaidAdmission.Event) :
    (s.reactPaid env (s.stamp event)).Sound env := by
  cases hgrant : paidTracker env s.paid (s.stamp event) with
  | none => exact (same_reactPaid hgrant).sound hs
  | some data =>
    obtain ⟨-, -, -, -, address, a, -, -, -, -, -, rfl⟩ := paidTracker_eq_some hgrant
    exact (grants_reactPaid hgrant).sound hs (begun_grantedTracker hs)

theorem serves_reactPaid_iff (hs : s.Sound env) (h : s.Serves) (event : PaidAdmission.Event) :
    (s.reactPaid env (s.stamp event)).Serves ↔ s.Keeps env (.paid event) := by
  cases hgrant : paidTracker env s.paid (s.stamp event) with
  | none =>
    refine iff_of_true ((same_reactPaid hgrant).serves_iff.mpr h) ?_
    cases event with
    | time i now period tryPeriod address =>
      intro a ha hwaits hkind hpresent
      have hsome : paidTracker env s.paid (s.stamp (.time i now period tryPeriod address)) =
          some (s.paid.grantedTracker env a s.time s.period address) := by
        simp only [stamp, paidTracker, ha, Option.bind_some]
        exact if_pos ⟨hwaits, hkind, hpresent⟩
      rw [hgrant] at hsome
      cases hsome
    | start | proof | ack | finish | storeTransactions | loop | setPrice | setEnterancePrice =>
      exact trivial
  | some data =>
    rw [(grants_reactPaid hgrant).serves_iff h]
    have hleases : (s.reactPaid env (s.stamp event)).leases =
        s.leases.prolong (keyId env data.publicKey) s.time.toInt s.period.toNat := by
      rw [reactPaid, hgrant]
    obtain ⟨i, now, period, tryPeriod, address, a, rfl, ha, hwaits, hkind, hpresent, rfl⟩ :=
      paidTracker_eq_some hgrant
    rw [hleases, Leases.prolong_self, Option.some.injEq, keyId_grantedTracker hs,
      contractEnd_grantedTracker_iff hs h]
    constructor
    · intro hall a' ha' _ _ _
      obtain rfl := Option.some.inj (ha.symm.trans ha')
      exact hall
    · exact fun hkeeps => hkeeps a ha hwaits hkind hpresent

theorem check_spec (hs : s.Sound env) : ∃ removed : List CKeyID,
    (∀ id, id ∈ removed ↔
      ∃ data, s.reputation.registeredTrackers.lookup id = some data ∧ timeLeft s.time data < 0) ∧
    (∀ id, (s.check env).reputation.registeredTrackers.lookup id =
      if id ∈ removed then none else s.reputation.registeredTrackers.lookup id) ∧
    (∀ id, (s.check env).database.lookup id =
      if id ∈ removed then none else s.database.lookup id) ∧
    (s.check env).time = s.time ∧ (s.check env).leases = s.leases.expire s.time.toInt := by
  obtain ⟨registered, extendInProgress, allowSynchronization, heq, hremoved, hlookup⟩ :=
    iterate_spec hs.keyed s.time
  refine ⟨_, hremoved, fun id => ?_, fun id => ?_, rfl, rfl⟩
  · rw [← hlookup]
    simp only [check, setReputation, heq]
  · exact OrderedMap.lookup_foldl_erase _ _ id

theorem sound_check (hs : s.Sound env) : (s.check env).Sound env := by
  obtain ⟨removed, -, hregistered, hdatabase, htime, -⟩ := check_spec hs
  have hold : ∀ id data, (s.check env).reputation.registeredTrackers.lookup id = some data →
      s.reputation.registeredTrackers.lookup id = some data := by
    intro id data hdata
    rw [hregistered] at hdata
    exact (Option.ite_none_left_eq_some.mp hdata).2
  have hold' : ∀ id data, (s.check env).database.lookup id = some data →
      s.database.lookup id = some data := by
    intro id data hdata
    rw [hdatabase] at hdata
    exact (Option.ite_none_left_eq_some.mp hdata).2
  refine ⟨?_, fun id data hdata => hs.keyed id data (hold id data hdata),
    fun id data hdata => hs.keyedDatabase id data (hold' id data hdata), ?_, ?_⟩
  all_goals rw [htime]
  · exact hs.clock
  · exact fun id data hdata => hs.begun id data (hold id data hdata)
  · exact fun id data hdata => hs.begunDatabase id data (hold' id data hdata)

theorem serves_check_iff (hs : s.Sound env) (h : s.Serves) :
    (s.check env).Serves ↔ s.Keeps env .loop := by
  obtain ⟨removed, hremoved, hregistered, hdatabase, -, hleases⟩ := check_spec hs
  have hstored : ∀ id, ((s.check env).database.lookup id).map CTrackerData.times =
      ((s.check env).reputation.registeredTrackers.lookup id).map CTrackerData.times := by
    intro id
    rw [hregistered, hdatabase]
    split
    · rfl
    · exact h.stored id
  have hserved : ∀ id, ((s.check env).reputation.registeredTrackers.lookup id).map
        CTrackerData.contractEnd = (s.check env).leases id ↔
      ∀ data, s.reputation.registeredTrackers.lookup id = some data →
        data.contractEnd < s.time.toInt + 2 ^ 63 := by
    intro id
    rw [hregistered, hleases, Leases.expire, ← h.served]
    have hgone := hremoved id
    cases hold : s.reputation.registeredTrackers.lookup id with
    | none =>
      refine iff_of_true ?_ fun data hdata => by cases hdata
      rw [ite_self]
      rfl
    | some data =>
      rw [hold] at hgone
      simp only [Option.some.injEq, exists_eq_left',
        timeLeft_neg_iff hs.clock (hs.begun id data hold)] at hgone
      simp only [Option.some.injEq, forall_eq', Option.map_some, Option.filter_some,
        decide_eq_true_eq]
      by_cases hin : id ∈ removed
      · have hover := hgone.mp hin
        rw [if_pos hin]
        split <;> simp <;> omega
      · have hlasts := mt hgone.mpr hin
        rw [if_neg hin]
        split <;> simp <;> omega
  constructor
  · exact fun hserves id => (hserved id).mp (hserves.served id)
  · exact fun hkeeps => ⟨fun id => (hserved id).mpr (hkeeps id), hstored⟩

theorem registeredTrackers_foldl_addAllyTracker {α : Type} (f : α → CAllyTrackerData)
    (trackers : List α) (t : CReputationTracker) :
    (trackers.foldl (fun t data => t.addAllyTracker env (f data)) t).registeredTrackers =
        t.registeredTrackers ∧
      ∀ id, ((trackers.foldl (fun t data => t.addAllyTracker env (f data)) t).allyTrackersRankings.lookup
          id).isSome ↔ id ∈ trackers.map (fun data => keyId env (f data).publicKey) ∨
        (t.allyTrackersRankings.lookup id).isSome := by
  induction trackers generalizing t with
  | nil => exact ⟨rfl, fun id => by simp⟩
  | cons data trackers ih =>
    obtain ⟨hregistered, hally⟩ := ih (t.addAllyTracker env (f data))
    refine ⟨hregistered, fun id => ?_⟩
    rw [List.foldl_cons, hally, List.map_cons, List.mem_cons]
    change _ ∨ ((t.allyTrackersRankings.assign _ _).lookup id).isSome ↔ _
    rw [OrderedMap.isSome_lookup_assign]
    tauto

/-- The ranking that is entered has no registered trackers, and names the trackers of the others. -/
theorem enteredRanking_spec (t : CReputationTracker) (partnerKey : CPubKey) (address : CAddress)
    (info : CRankingFullInfo) :
    (enteredRanking env t partnerKey address info).registeredTrackers = .empty ∧
      ∀ id, ((enteredRanking env t partnerKey address info).allyTrackersRankings.lookup id).isSome ↔
        id ∈ takenOver env info := by
  have hmonitor : ∀ (t : CReputationTracker) data,
      (t.addAllyMonitor env data).registeredTrackers = t.registeredTrackers ∧
        (t.addAllyMonitor env data).allyTrackersRankings = t.allyTrackersRankings := by
    intro t data
    unfold addAllyMonitor
    split <;> exact ⟨rfl, rfl⟩
  rw [enteredRanking, foldl_setTrackerSynchronized]
  generalize hfirst : t.clearRankingData.addAllyMonitor env ⟨⟨partnerKey, address⟩⟩ = t₁
  have hempty := hmonitor t.clearRankingData ⟨⟨partnerKey, address⟩⟩
  rw [hfirst] at hempty
  obtain ⟨hregistered, hally⟩ :=
    @registeredTrackers_foldl_addAllyTracker env _ (fun data => data) info.allyTrackers t₁
  obtain ⟨allyMonitors, hmonitors, -⟩ :=
    foldl_addAllyMonitor env info.allyMonitors (info.allyTrackers.foldl (addAllyTracker env) t₁)
  obtain ⟨hregistered', hally'⟩ := @registeredTrackers_foldl_addAllyTracker env _
    (fun data => ⟨data, partnerKey⟩) info.trackers
    (info.allyMonitors.foldl (addAllyMonitor env) (info.allyTrackers.foldl (addAllyTracker env) t₁))
  dsimp only
  refine ⟨?_, fun id => ?_⟩
  · rw [hregistered', hmonitors]
    exact hregistered.trans hempty.1
  · rw [hally', hmonitors]
    dsimp only
    have hnone : t₁.allyTrackersRankings.lookup id = none := by rw [hempty.2]; rfl
    rw [hally id, hnone, takenOver, List.mem_append]
    simp only [Option.isSome_none, Bool.false_eq_true, or_false]
    exact or_comm

theorem foldl_keepTracker (trackers : List CTrackerData) (t : CReputationTracker) :
    (trackers.foldl (keepTracker env) t).registeredTrackers =
      trackers.foldl (fun g data => (keptTracker env t data).elim g (g.assign (keyId env data.publicKey)))
        t.registeredTrackers := by
  suffices h : ∀ t', t'.allyTrackersRankings = t.allyTrackersRankings →
      (trackers.foldl (keepTracker env) t').registeredTrackers =
        trackers.foldl (fun g data => (keptTracker env t data).elim g
          (g.assign (keyId env data.publicKey))) t'.registeredTrackers from h t rfl
  induction trackers with
  | nil => exact fun _ _ => rfl
  | cons data trackers ih =>
    intro t' hally
    have hkept : keptTracker env t' data = keptTracker env t data := by
      rw [keptTracker, keptTracker, hally]
    have hnext : (keepTracker env t' data).allyTrackersRankings = t.allyTrackersRankings := by
      unfold keepTracker
      cases keptTracker env t' data <;> exact hally
    rw [List.foldl_cons, ih _ hnext, List.foldl_cons]
    congr 1
    rw [keepTracker, hkept]
    have hkey : ∀ data', keptTracker env t data = some data' → data'.publicKey = data.publicKey := by
      intro data' hdata'
      rw [keptTracker] at hdata'
      obtain ⟨-, hdata'⟩ := Option.ite_none_left_eq_some.mp hdata'
      rw [← Option.some.inj hdata']
    cases hdata' : keptTracker env t data with
    | none => rfl
    | some data' =>
      simp only [Option.elim_some, addTracker, hkey data' hdata']

theorem lookup_enter (hs : s.Sound env) (partnerKey : CPubKey) (address : CAddress)
    (info : CRankingFullInfo) (id : CKeyID) :
    (s.enter env partnerKey address info).reputation.registeredTrackers.lookup id =
      (s.reputation.registeredTrackers.lookup id).bind fun data =>
        if id ∈ takenOver env info then none else some { data with reputation := 0 } := by
  obtain ⟨hempty, hally⟩ := @enteredRanking_spec env s.reputation partnerKey address info
  have hregistered : (s.enter env partnerKey address info).reputation.registeredTrackers =
      ((s.reputation.registeredTrackers.entries.map Prod.snd).foldl (keepTracker env)
        (enteredRanking env s.reputation partnerKey address info)).registeredTrackers := rfl
  rw [hregistered, foldl_keepTracker, OrderedMap.lookup_foldl_assign hs.keyed, hempty,
    OrderedMap.lookup_empty, Option.or_none]
  refine Option.bind_congr fun data hdata => ?_
  have hkey := hs.keyed id data hdata
  rw [keptTracker, hkey]
  exact if_congr (hally id) rfl rfl

theorem sound_enter (hs : s.Sound env) (partnerKey : CPubKey) (address : CAddress)
    (info : CRankingFullInfo) : (s.enter env partnerKey address info).Sound env := by
  have hold : ∀ id data,
      (s.enter env partnerKey address info).reputation.registeredTrackers.lookup id = some data →
        ∃ data', s.reputation.registeredTrackers.lookup id = some data' ∧
          data = { data' with reputation := 0 } := by
    intro id data hdata
    rw [lookup_enter hs] at hdata
    obtain ⟨data', hdata', hkept⟩ := Option.bind_eq_some_iff.mp hdata
    exact ⟨data', hdata', (Option.some.inj (Option.ite_none_left_eq_some.mp hkept).2).symm⟩
  refine ⟨hs.clock, fun id data hdata => ?_, fun id data hdata => (nomatch hdata),
    fun id data hdata => ?_, fun id data hdata => (nomatch hdata)⟩
  · obtain ⟨data', hdata', rfl⟩ := hold id data hdata
    exact hs.keyed id data' hdata'
  · obtain ⟨data', hdata', rfl⟩ := hold id data hdata
    exact hs.begun id data' hdata'

theorem serves_enter_iff (hs : s.Sound env) (h : s.Serves) (partnerKey : CPubKey)
    (address : CAddress) (info : CRankingFullInfo) :
    (s.enter env partnerKey address info).Serves ↔
      s.Keeps env (.enter partnerKey address info) := by
  have hdatabase : (s.enter env partnerKey address info).database = .empty := rfl
  have hleases : (s.enter env partnerKey address info).leases =
      s.leases.revoke (takenOver env info) := rfl
  have hserved : ∀ id, ((s.enter env partnerKey address info).reputation.registeredTrackers.lookup
      id).map CTrackerData.contractEnd = (s.enter env partnerKey address info).leases id := by
    intro id
    rw [lookup_enter hs, hleases, Leases.revoke, ← h.served]
    cases s.reputation.registeredTrackers.lookup id <;> split <;> rfl
  constructor
  · intro hserves id hsome
    by_contra hkept
    obtain ⟨data, hdata⟩ := Option.isSome_iff_exists.mp hsome
    have hstored := hserves.stored id
    rw [hdatabase, lookup_enter hs, hdata, Option.bind_some, if_neg hkept] at hstored
    cases hstored
  · intro hkeeps
    refine ⟨hserved, fun id => ?_⟩
    rw [hdatabase, lookup_enter hs]
    cases hdata : s.reputation.registeredTrackers.lookup id with
    | none => rfl
    | some data =>
      rw [Option.bind_some, if_pos (hkeeps id (Option.isSome_iff_exists.mpr ⟨data, hdata⟩))]
      rfl

theorem registeredTrackers_foldl_loadTracker (trackers : List CTrackerData) (t : CReputationTracker) :
    (trackers.foldl (loadTracker env) t).registeredTrackers =
      trackers.foldl (fun g data => g.assign (keyId env data.publicKey) data)
        t.registeredTrackers := by
  induction trackers generalizing t with
  | nil => rfl
  | cons data trackers ih => exact ih _

theorem lookup_restart (hs : s.Sound env) (storeTransactions : Bool) (id : CKeyID) :
    (s.restart env storeTransactions).reputation.registeredTrackers.lookup id =
      s.database.lookup id := by
  have hregistered : (s.restart env storeTransactions).reputation.registeredTrackers =
      ((s.database.entries.map Prod.snd).foldl (loadTracker env) .empty).registeredTrackers := rfl
  rw [hregistered, registeredTrackers_foldl_loadTracker]
  refine (OrderedMap.lookup_foldl_assign hs.keyedDatabase some .empty id).trans ?_
  rw [OrderedMap.lookup_empty, Option.or_none, Option.bind_fun_some]

theorem sound_restart (hs : s.Sound env) (storeTransactions : Bool) :
    (s.restart env storeTransactions).Sound env := by
  refine ⟨hs.clock, fun id data hdata => ?_, hs.keyedDatabase, fun id data hdata => ?_,
    hs.begunDatabase⟩
  · rw [lookup_restart hs] at hdata
    exact hs.keyedDatabase id data hdata
  · rw [lookup_restart hs] at hdata
    exact hs.begunDatabase id data hdata

theorem contractEnd_eq_of_stored (h : s.Serves) (id : CKeyID) :
    (s.database.lookup id).map CTrackerData.contractEnd =
      (s.reputation.registeredTrackers.lookup id).map CTrackerData.contractEnd := by
  have hstored := h.stored id
  cases hregistered : s.reputation.registeredTrackers.lookup id with
  | none =>
    rw [hregistered, Option.map_none, Option.map_eq_none_iff] at hstored
    rw [hstored]
  | some data =>
    rw [hregistered] at hstored
    obtain ⟨data', hdata', htimes⟩ := Option.map_eq_some_iff.mp hstored
    rw [hdata']
    exact congrArg some (CTrackerData.contractEnd_eq_of_times htimes)

theorem serves_restart (hs : s.Sound env) (h : s.Serves) (storeTransactions : Bool) :
    (s.restart env storeTransactions).Serves := by
  refine ⟨fun id => ?_, fun id => ?_⟩
  · rw [lookup_restart hs, contractEnd_eq_of_stored h]
    exact h.served id
  · rw [lookup_restart hs]
    rfl

theorem lookup_storeCurrentRanking (hs : s.Sound env) (id : CKeyID) :
    (s.storeCurrentRanking env).database.lookup id =
      (s.reputation.registeredTrackers.lookup id).or (s.database.lookup id) := by
  refine (OrderedMap.lookup_foldl_assign hs.keyed some s.database id).trans ?_
  rw [Option.bind_fun_some]

theorem sound_storeCurrentRanking (hs : s.Sound env) : (s.storeCurrentRanking env).Sound env := by
  refine ⟨hs.clock, hs.keyed, fun id data hdata => ?_, hs.begun, fun id data hdata => ?_⟩
  all_goals
    rw [lookup_storeCurrentRanking hs] at hdata
    rcases Option.or_eq_some_iff.mp hdata with hregistered | ⟨-, hstored⟩
  · exact hs.keyed id data hregistered
  · exact hs.keyedDatabase id data hstored
  · exact hs.begun id data hregistered
  · exact hs.begunDatabase id data hstored

theorem serves_storeCurrentRanking (hs : s.Sound env) (h : s.Serves) :
    (s.storeCurrentRanking env).Serves := by
  refine ⟨h.served, fun id => ?_⟩
  rw [lookup_storeCurrentRanking hs]
  have hstored := h.stored id
  change _ = (s.reputation.registeredTrackers.lookup id).map _
  cases hregistered : s.reputation.registeredTrackers.lookup id with
  | none =>
    rw [hregistered] at hstored
    rwa [Option.none_or]
  | some data => rfl

theorem lookup_loadCurrentRanking (id : CKeyID) :
    (s.loadCurrentRanking env).reputation.registeredTrackers.lookup id =
      (s.reputation.registeredTrackers.lookup id).or
        ((s.database.entries.map Prod.snd).find? fun data => keyId env data.publicKey = id) :=
  OrderedMap.lookup_foldl_insertNew _ _ _ id

theorem lookup_of_find? (hs : s.Sound env) {id : CKeyID}
    (h : ((s.database.entries.map Prod.snd).find? fun data => keyId env data.publicKey = id) =
      some data) : s.database.lookup id = some data := by
  obtain ⟨⟨id', data'⟩, hentry, rfl⟩ := List.mem_map.mp (List.mem_of_find?_eq_some h)
  have hlookup := OrderedMap.mem_entries.mp hentry
  have hfound := List.find?_some h
  have hkey : keyId env data'.publicKey = id := of_decide_eq_true hfound
  rw [hs.keyedDatabase id' data' hlookup] at hkey
  rwa [← hkey]

theorem sound_loadCurrentRanking (hs : s.Sound env) : (s.loadCurrentRanking env).Sound env := by
  refine ⟨hs.clock, fun id data hdata => ?_, hs.keyedDatabase, fun id data hdata => ?_,
    hs.begunDatabase⟩
  all_goals
    rw [lookup_loadCurrentRanking] at hdata
    rcases Option.or_eq_some_iff.mp hdata with hregistered | ⟨-, hfound⟩
  · exact hs.keyed id data hregistered
  · exact hs.keyedDatabase id data (lookup_of_find? hs hfound)
  · exact hs.begun id data hregistered
  · exact hs.begunDatabase id data (lookup_of_find? hs hfound)

/-- Where the database has the trackers that are registered, there is nothing to be loaded. -/
theorem serves_loadCurrentRanking (hs : s.Sound env) (h : s.Serves) :
    (s.loadCurrentRanking env).Serves := by
  have hsame : ∀ id, (s.loadCurrentRanking env).reputation.registeredTrackers.lookup id =
      s.reputation.registeredTrackers.lookup id := by
    intro id
    rw [lookup_loadCurrentRanking]
    cases hregistered : s.reputation.registeredTrackers.lookup id with
    | some data => rfl
    | none =>
      rw [Option.none_or]
      refine Option.eq_none_iff_forall_ne_some.mpr fun data hfound => ?_
      have hstored := h.stored id
      rw [lookup_of_find? hs hfound, hregistered] at hstored
      cases hstored
  refine ⟨fun id => ?_, fun id => ?_⟩
  · rw [hsame]
    exact h.served id
  · rw [hsame]
    exact h.stored id

theorem same_leave (i : ℕ) (a : CAdmitTrackerAction) : Same s (s.leave i a) := ⟨rfl, rfl, rfl, rfl⟩

theorem same_transit (i : ℕ) (a : CAdmitTrackerAction) (uninitialized : Int64) :
    Same s (s.transit env i a uninitialized) := by
  refine ⟨?_, rfl, rfl, rfl⟩
  simp only [transit, PaidAdmission.construct]
  split <;> rfl

theorem same_addNodeToSynch (id : CKeyID) :
    Same s (s.setReputation (s.reputation.addNodeToSynch id)) := ⟨rfl, rfl, rfl, rfl⟩

theorem sound_reactAdmitAsk (hs : s.Sound env) (i : ℕ) (a : CAdmitTrackerAction)
    (address : CAddress) (uninitialized : Int64) :
    (s.reactAdmitAsk env i a address uninitialized).Sound env := by
  unfold reactAdmitAsk
  split
  · split
    · exact hs
    · exact (same_leave i a).sound hs
  · split
    · exact (same_transit i a uninitialized).sound hs
    · split
      · exact (same_leave i a).sound (sound_grantFree hs a.partnerKey address)
      · exact (same_leave i a).sound hs
  · exact hs

theorem serves_reactAdmitAsk_iff (hs : s.Sound env) (h : s.Serves) (i : ℕ) (a : CAdmitTrackerAction)
    (address : CAddress) (uninitialized : Int64) :
    (s.reactAdmitAsk env i a address uninitialized).Serves ↔
      (a.state = .extendRegistration → s.paid.price = 0 → s.admitted →
        s.Lengthens env a.partnerKey) := by
  unfold reactAdmitAsk
  cases hstate : a.state with
  | waitForInfo =>
    refine iff_of_true ?_ fun hother => (nomatch hother)
    dsimp only
    split
    · exact h
    · exact (same_leave i a).serves_iff.mpr h
  | extendRegistration =>
    dsimp only
    by_cases hprice : s.paid.price = 0
    · rw [if_neg (not_not_intro hprice)]
      by_cases hadmitted : s.admitted
      · rw [if_pos hadmitted, (same_leave i a).serves_iff, serves_grantFree_iff hs h]
        exact ⟨fun hlengthens _ _ _ => hlengthens, fun hall => hall rfl hprice hadmitted⟩
      · rw [if_neg hadmitted, (same_leave i a).serves_iff]
        exact iff_of_true h fun _ _ hyes => absurd hyes hadmitted
    · rw [if_pos hprice, (same_transit i a uninitialized).serves_iff]
      exact iff_of_true h fun _ hzero => absurd hzero hprice
  | left => exact iff_of_true h fun hother => (nomatch hother)

theorem sound_reactAck (hs : s.Sound env) (i : ℕ) (a : CAdmitTrackerAction) (address : CAddress)
    (uninitialized : Int64) : (s.reactAck env i a address uninitialized).Sound env := by
  unfold reactAck
  split
  · split
    · split
      · exact (same_transit i a uninitialized).sound hs
      · exact hs
    · exact (same_leave i a).sound
        (sound_grantFree ((same_addNodeToSynch _).sound hs) a.partnerKey address)
  · exact hs
  · exact hs

theorem serves_reactAck_iff (hs : s.Sound env) (h : s.Serves) (i : ℕ) (a : CAdmitTrackerAction)
    (address : CAddress) (uninitialized : Int64) :
    (s.reactAck env i a address uninitialized).Serves ↔
      (a.state = .waitForInfo → s.paid.price = 0 → s.Lengthens env a.partnerKey) := by
  unfold reactAck
  cases hstate : a.state with
  | waitForInfo =>
    dsimp only
    by_cases hprice : s.paid.price = 0
    · have hsame := @same_addNodeToSynch s (keyId env a.partnerKey)
      rw [if_neg (not_not_intro hprice), (same_leave i a).serves_iff,
        serves_grantFree_iff (hsame.sound hs) (hsame.serves_iff.mpr h)]
      exact ⟨fun hlengthens _ _ => hlengthens, fun hall => hall rfl hprice⟩
    · rw [if_pos hprice]
      refine iff_of_true ?_ fun _ hzero => absurd hzero hprice
      split
      · exact (same_transit i a uninitialized).serves_iff.mpr h
      · exact h
  | extendRegistration => exact iff_of_true h fun hother => (nomatch hother)
  | left => exact iff_of_true h fun hother => (nomatch hother)

theorem same_reactTime (i : ℕ) (a : CAdmitTrackerAction) : Same s (s.reactTime i a) := by
  unfold reactTime
  split <;> exact ⟨rfl, rfl, rfl, rfl⟩

theorem Sound.clock_le (hs : s.Sound env) {now : Int64} (hle : s.time ≤ now) :
    Sound env { s with time := now } := by
  rw [Int64.le_iff_toInt_le] at hle
  exact ⟨hs.clock.trans hle, hs.keyed, hs.keyedDatabase,
    fun id data hdata => (hs.begun id data hdata).trans hle,
    fun id data hdata => (hs.begunDatabase id data hdata).trans hle⟩

theorem Sound.step (hs : s.Sound env) (event : Event) : (s.step env event).Sound env := by
  cases event with
  | clock now =>
    simp only [TrackerRegistration.step]
    split
    case isTrue hle => exact hs.clock_le hle
    case isFalse => exact hs
  | setPeriod period => exact ⟨hs.clock, hs.keyed, hs.keyedDatabase, hs.begun, hs.begunDatabase⟩
  | setAdmitted admitted => exact ⟨hs.clock, hs.keyed, hs.keyedDatabase, hs.begun, hs.begunDatabase⟩
  | register partnerKey => exact ⟨hs.clock, hs.keyed, hs.keyedDatabase, hs.begun, hs.begunDatabase⟩
  | admitAsk i address uninitialized =>
    simp only [TrackerRegistration.step]
    split
    · exact sound_reactAdmitAsk hs ..
    · exact hs
  | ack i address uninitialized =>
    simp only [TrackerRegistration.step]
    split
    · exact sound_reactAck hs ..
    · exact hs
  | timeEvent i =>
    simp only [TrackerRegistration.step]
    split
    · exact (same_reactTime i _).sound hs
    · exact hs
  | paid event => exact sound_reactPaid hs event
  | loop => exact sound_check hs
  | enter partnerKey address info => exact sound_enter hs ..
  | restart storeTransactions => exact sound_restart hs storeTransactions
  | storeCurrentRanking => exact sound_storeCurrentRanking hs
  | loadCurrentRanking => exact sound_loadCurrentRanking hs

theorem serves_step_iff (hs : s.Sound env) (h : s.Serves) (event : Event) :
    (s.step env event).Serves ↔ s.Keeps env event := by
  cases event with
  | clock now =>
    refine iff_of_true ?_ trivial
    simp only [TrackerRegistration.step]
    split
    · exact ⟨h.served, h.stored⟩
    · exact h
  | setPeriod period => exact iff_of_true ⟨h.served, h.stored⟩ trivial
  | setAdmitted admitted => exact iff_of_true ⟨h.served, h.stored⟩ trivial
  | register partnerKey => exact iff_of_true ⟨h.served, h.stored⟩ trivial
  | admitAsk i address uninitialized =>
    simp only [TrackerRegistration.step, Keeps]
    cases s.actions[i]? with
    | none => exact iff_of_true h fun a ha => (nomatch ha)
    | some a =>
      rw [serves_reactAdmitAsk_iff hs h]
      simp only [Option.some.injEq, forall_eq']
  | ack i address uninitialized =>
    simp only [TrackerRegistration.step, Keeps]
    cases s.actions[i]? with
    | none => exact iff_of_true h fun a ha => (nomatch ha)
    | some a =>
      rw [serves_reactAck_iff hs h]
      simp only [Option.some.injEq, forall_eq']
  | timeEvent i =>
    refine iff_of_true ?_ trivial
    simp only [TrackerRegistration.step]
    split
    · exact (same_reactTime i _).serves_iff.mpr h
    · exact h
  | paid event => exact serves_reactPaid_iff hs h event
  | loop => exact serves_check_iff hs h
  | enter partnerKey address info => exact serves_enter_iff hs h ..
  | restart storeTransactions => exact iff_of_true (serves_restart hs h storeTransactions) trivial
  | storeCurrentRanking => exact iff_of_true (serves_storeCurrentRanking hs h) trivial
  | loadCurrentRanking => exact iff_of_true (serves_loadCurrentRanking hs h) trivial

variable (env) in
/-- A network is entered in which the tracker has another monitor. -/
def TakesOver (id : CKeyID) : Event → Prop
  | .enter _ _ info => id ∈ takenOver env info
  | _ => False

/-- The steps in which a tracker may be granted a period. -/
def MayGrant : Event → Prop
  | .admitAsk .. | .ack .. | .paid _ => True
  | _ => False

def ends (s : TrackerRegistration) : Leases CKeyID :=
  fun id => (s.reputation.registeredTrackers.lookup id).map CTrackerData.contractEnd

variable (env) in
/-- What a run does with the times: a tracker that is not taken over stays until its end, is not
there after a check that is later, and a grant takes nothing away and adds at most a period. -/
structure Honours (s : TrackerRegistration) (events : List Event) : Prop where
  stays : ∀ first second, first ++ second <+: events → ∀ id t,
    (GuardedRun.run (step env) s first).ends id = some t →
      (∀ event ∈ second, ¬TakesOver env id event) →
        (GuardedRun.run (step env) s (first ++ second)).time.toInt ≤ t →
          ∃ t', (GuardedRun.run (step env) s (first ++ second)).ends id = some t' ∧ t ≤ t'
  removed : ∀ past, past ++ [.loop] <+: events → ∀ id t,
    (GuardedRun.run (step env) s (past ++ [.loop])).ends id = some t →
      (GuardedRun.run (step env) s past).time.toInt ≤ t
  grants : ∀ past event, past ++ [event] <+: events → MayGrant event → ∀ id,
    let before := GuardedRun.run (step env) s past
    let after := GuardedRun.run (step env) s (past ++ [event])
    before.ends.remaining before.time.toInt id ≤ after.ends.remaining before.time.toInt id ∧
      after.ends.remaining before.time.toInt id ≤
        before.ends.remaining before.time.toInt id + before.period.toNat

theorem ends_eq (h : s.Serves) : s.ends = s.leases := funext h.served

/-- A step grants a period to one tracker, or no one. -/
def GrantsOne (s : TrackerRegistration) (l : Leases CKeyID) : Prop :=
  l = s.leases ∨ ∃ id, l = s.leases.renew id s.time.toInt s.period.toNat ∨
    l = s.leases.prolong id s.time.toInt s.period.toNat

theorem grantsOne_reactAdmitAsk (i : ℕ) (a : CAdmitTrackerAction) (address : CAddress)
    (uninitialized : Int64) :
    s.GrantsOne (s.reactAdmitAsk env i a address uninitialized).leases := by
  unfold reactAdmitAsk
  split
  · split <;> exact .inl rfl
  · split
    · exact .inl rfl
    · split
      · exact .inr ⟨_, .inl rfl⟩
      · exact .inl rfl
  · exact .inl rfl

theorem grantsOne_reactAck (i : ℕ) (a : CAdmitTrackerAction) (address : CAddress)
    (uninitialized : Int64) :
    s.GrantsOne (s.reactAck env i a address uninitialized).leases := by
  unfold reactAck
  split
  · split
    · split <;> exact .inl rfl
    · exact .inr ⟨_, .inl rfl⟩
  · exact .inl rfl
  · exact .inl rfl

theorem grantsOne_step {event : Event} (hgrant : MayGrant event) :
    s.GrantsOne (s.step env event).leases := by
  cases event with
  | admitAsk i address uninitialized =>
    simp only [TrackerRegistration.step]
    split
    · exact grantsOne_reactAdmitAsk ..
    · exact .inl rfl
  | ack i address uninitialized =>
    simp only [TrackerRegistration.step]
    split
    · exact grantsOne_reactAck ..
    · exact .inl rfl
  | paid event =>
    simp only [TrackerRegistration.step, reactPaid]
    split
    · exact .inr ⟨_, .inr rfl⟩
    · exact .inl rfl
  | clock | setPeriod | setAdmitted | register | timeEvent | loop | enter | restart
  | storeCurrentRanking | loadCurrentRanking => exact hgrant.elim

theorem GrantsOne.lasts {l : Leases CKeyID} (h : s.GrantsOne l) (id : CKeyID) :
    Leases.Lasts s.leases l id := by
  rcases h with rfl | ⟨_, rfl | rfl⟩
  · exact Leases.Lasts.refl _ _
  · exact Leases.lasts_renew id
  · exact Leases.lasts_prolong (Int.natCast_nonneg _) id

theorem GrantsOne.remaining {l : Leases CKeyID} (h : s.GrantsOne l) (id : CKeyID) :
    s.leases.remaining s.time.toInt id ≤ l.remaining s.time.toInt id ∧
      l.remaining s.time.toInt id ≤ s.leases.remaining s.time.toInt id + s.period.toNat := by
  rcases h with rfl | ⟨_, rfl | rfl⟩
  · exact ⟨le_rfl, le_add_of_nonneg_right (Int.natCast_nonneg _)⟩
  · exact Leases.remaining_renew (Int.natCast_nonneg _) id
  · exact Leases.remaining_prolong (Int.natCast_nonneg _) id

variable (env) in
theorem time_le_step (s : TrackerRegistration) (event : Event) :
    s.time.toInt ≤ (s.step env event).time.toInt := by
  cases event with
  | clock now =>
    simp only [TrackerRegistration.step]
    split
    case isTrue hle => exact Int64.le_iff_toInt_le.mp hle
    case isFalse => exact le_rfl
  | admitAsk i address uninitialized =>
    simp only [TrackerRegistration.step, reactAdmitAsk, transit, leave, grantFree, writeAndAdd,
      setReputation]
    repeat' split
    all_goals exact le_rfl
  | ack i address uninitialized =>
    simp only [TrackerRegistration.step, reactAck, transit, leave, grantFree, writeAndAdd,
      setReputation]
    repeat' split
    all_goals exact le_rfl
  | timeEvent i =>
    simp only [TrackerRegistration.step]
    split
    · rw [(same_reactTime i _).time]
    · exact le_rfl
  | paid event =>
    simp only [TrackerRegistration.step, reactPaid]
    split <;> exact le_rfl
  | setPeriod | setAdmitted | register | loop | enter | restart | storeCurrentRanking
  | loadCurrentRanking => exact le_rfl

variable (env) in
theorem time_le_run (s : TrackerRegistration) (events : List Event) :
    s.time.toInt ≤ (GuardedRun.run (step env) s events).time.toInt := by
  induction events generalizing s with
  | nil => exact le_rfl
  | cons event events ih => exact (time_le_step env s event).trans (ih _)

theorem lasts_step {event : Event} {id : CKeyID} (hkept : ¬TakesOver env id event)
    (htime : ∀ t, s.leases id = some t → s.time.toInt ≤ t) :
    Leases.Lasts s.leases (s.step env event).leases id := by
  cases event with
  | admitAsk | ack | paid =>
    refine (grantsOne_step ?_).lasts id
    exact trivial
  | loop =>
    intro t ht
    exact ⟨t, Leases.expire_eq_some.mpr ⟨ht, htime t ht⟩, le_rfl⟩
  | enter partnerKey address info =>
    intro t ht
    exact ⟨t, (Leases.revoke_of_notMem hkept).trans ht, le_rfl⟩
  | clock now =>
    simp only [TrackerRegistration.step]
    split <;> exact Leases.Lasts.refl _ _
  | timeEvent i =>
    simp only [TrackerRegistration.step]
    split
    · rw [(same_reactTime i _).leases]
      exact Leases.Lasts.refl _ _
    · exact Leases.Lasts.refl _ _
  | setPeriod | setAdmitted | register | restart | storeCurrentRanking | loadCurrentRanking =>
    exact Leases.Lasts.refl _ _

theorem lasts_run {events : List Event} {id : CKeyID}
    (hkept : ∀ event ∈ events, ¬TakesOver env id event) {t : ℤ} (ht : s.leases id = some t)
    (htime : (GuardedRun.run (step env) s events).time.toInt ≤ t) :
    ∃ t', (GuardedRun.run (step env) s events).leases id = some t' ∧ t ≤ t' := by
  induction events generalizing s t with
  | nil => exact ⟨t, ht, le_rfl⟩
  | cons event events ih =>
    obtain ⟨hfirst, hkept⟩ := List.forall_mem_cons.mp hkept
    have hnow : s.time.toInt ≤ t := (time_le_run env s (event :: events)).trans htime
    obtain ⟨t', ht', hle⟩ := @lasts_step env s event id hfirst
      (fun u hu => by rwa [← Option.some.inj (ht.symm.trans hu)]) t ht
    obtain ⟨t'', ht'', hle'⟩ := ih hkept ht' (htime.trans hle)
    exact ⟨t'', ht'', hle.trans hle'⟩

theorem honours_of_serves {events : List Event}
    (h : ∀ past, past <+: events → (GuardedRun.run (step env) s past).Serves) :
    s.Honours env events := by
  have hsteps : ∀ past event, GuardedRun.run (step env) s (past ++ [event]) =
      (GuardedRun.run (step env) s past).step env event := by
    intro past event
    rw [GuardedRun.run_append]
    rfl
  refine ⟨fun first second hprefix id t ht hkept htime => ?_, fun past hprefix id t ht => ?_,
    fun past event hprefix hgrant id => ?_⟩
  · rw [ends_eq (h _ hprefix)]
    rw [ends_eq (h first ((List.prefix_append first second).trans hprefix))] at ht
    rw [GuardedRun.run_append] at htime ⊢
    exact lasts_run hkept ht htime
  · rw [ends_eq (h _ hprefix), hsteps] at ht
    exact (Leases.expire_eq_some.mp ht).2
  · dsimp only
    rw [ends_eq (h _ hprefix), ends_eq (h past ((List.prefix_append past [event]).trans hprefix)),
      hsteps]
    exact (grantsOne_step hgrant).remaining id

theorem sound_start (storeTransactions : Bool) {time : Int64} (htime : 0 ≤ time) :
    (start storeTransactions time).Sound env :=
  ⟨Int64.le_iff_toInt_le.mp htime, fun _ _ h => (nomatch h), fun _ _ h => (nomatch h),
    fun _ _ h => (nomatch h), fun _ _ h => (nomatch h)⟩

theorem serves_start (storeTransactions : Bool) (time : Int64) :
    (start storeTransactions time).Serves :=
  ⟨fun _ => rfl, fun _ => rfl⟩

/-- The trackers have their leases throughout a run, in memory and in the database, if and only
if each step meets the condition; and then the times are honoured. -/
theorem serves_throughout_iff (env : ReputationContext) (storeTransactions : Bool) {time : Int64}
    (htime : 0 ≤ time) (events : List Event) :
    ((∀ past, past <+: events →
        (GuardedRun.run (step env) (start storeTransactions time) past).Serves) ↔
      GuardedRun.Guarded (step env) (Keeps env) (start storeTransactions time) events) ∧
    (GuardedRun.Guarded (step env) (Keeps env) (start storeTransactions time) events →
      (start storeTransactions time).Honours env events) := by
  have hiff := @GuardedRun.always_iff _ _ (step env) (Keeps env) (Sound env) Serves
    (fun s event hs => hs.step event) (fun s event hs h => serves_step_iff hs h event)
    (start storeTransactions time) events (sound_start storeTransactions htime)
    (serves_start storeTransactions time)
  exact ⟨hiff, fun hguarded => honours_of_serves (hiff.mpr hguarded)⟩

namespace EnteredNetwork

def partnerKey : CPubKey := PaidAdmission.PaidTwice.trackerKey

def address : CAddress := ⟨0, 0, 0, 0⟩

/-- A tracker is admitted for nothing, and the monitor enters the network of another one, which
does not know the tracker. -/
def registration : List Event := [.register partnerKey, .ack 0 address 0]

def entrance : Event :=
  .enter (.ofBytes (2 :: List.replicate 32 5)) address ⟨[], [], [], [], 0, 0⟩

theorem registration_honoured :
    (start false 1000).Honours PaidAdmission.PaidTwice.context (registration ++ [.loop]) := by
  refine (serves_throughout_iff PaidAdmission.PaidTwice.context false (by decide) _).2
    ⟨trivial, ?_, ?_, trivial⟩
  · intro a ha _ _ data hdata
    cases hdata
  · intro id data hdata
    have hentry := List.mem_singleton.mp (OrderedMap.mem_entries.mpr hdata)
    obtain rfl : data = ⟨⟨partnerKey, address⟩, 0, 3600, 1000⟩ := congrArg Prod.snd hentry
    decide

/-- The tracker is still registered, and not in the database; so it is lost at a restart,
before its time has elapsed. -/
theorem tracker_lost_at_restart :
    ¬(GuardedRun.run (step PaidAdmission.PaidTwice.context) (start false 1000)
        (registration ++ [entrance])).Serves ∧
      ¬(start false 1000).Honours PaidAdmission.PaidTwice.context
        (registration ++ [entrance] ++ [.restart false]) := by
  have hends : (GuardedRun.run (step PaidAdmission.PaidTwice.context) (start false 1000)
      (registration ++ [entrance])).ends (keyId PaidAdmission.PaidTwice.context partnerKey) =
        some 4600 := rfl
  have hlost : (GuardedRun.run (step PaidAdmission.PaidTwice.context) (start false 1000)
      (registration ++ [entrance] ++ [.restart false])).ends
        (keyId PaidAdmission.PaidTwice.context partnerKey) = none := rfl
  refine ⟨fun h => ?_, fun h => ?_⟩
  · have hstored := h.stored (keyId PaidAdmission.PaidTwice.context partnerKey)
    exact (nomatch hstored)
  · obtain ⟨t, ht, -⟩ := h.stays (registration ++ [entrance]) [.restart false] List.prefix_rfl
      (keyId PaidAdmission.PaidTwice.context partnerKey) 4600 hends
      (List.forall_mem_singleton.mpr fun h => h) (by decide)
    rw [hlost] at ht
    cases ht

end EnteredNetwork

end TrackerRegistration

end Dims

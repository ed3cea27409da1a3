import Dims.TrackerNetwork

/-!
# Bundles that are under way at the same time

A tracker holds a bundle from the moment it has found it valid until it adds it. If every bundle
that is taken up fits the ledger of the tracker and is apart from all that is held, then whatever
is held still fits when it is added, and no tracker adds two bundles that spend a common output.
-/

namespace Dims
open ByteCodec Serialize Transfer

namespace CValidateTransactionsAction

variable {env : NodeContext} {a a' : CValidateTransactionsAction} {event : ActionEvent}

/-- What a reaction does about the bundle of the action. -/
inductive Effect (a a' : CValidateTransactionsAction) (event : ActionEvent) : Prop
  | quiet (hheld : a'.held = none ∨ a'.held = a.held)
      (happroved : a'.isApproved = true → a.isApproved = true)
  | takes (htaken : a.takenUp event = some a'.transactions)
      (hheld : a'.held = some a'.transactions)
  | approves (hbefore : a.isApproved = false) (hafter : a'.isApproved = true)
      (hbundle : a.held = some a'.transactions ∨ a.takenUp event = some a'.transactions)

theorem held_of_isApproved (h : a.isApproved = true) : a.held = none := by
  rw [isApproved] at h
  rw [held]
  split at h
  next hstate => rw [hstate]
  next => cases h

@[simp] theorem isApproved_enterApproved (env : NodeContext) (a : CValidateTransactionsAction) :
    (a.enterApproved env).isApproved = true := by rw [isApproved, state_enterApproved]

@[simp] theorem transactions_enterApproved (env : NodeContext) (a : CValidateTransactionsAction) :
    (a.enterApproved env).transactions = a.transactions := by
  unfold enterApproved
  split <;> rfl

theorem Effect.of_eq (hstate : a'.state = a.state) (htransactions : a'.transactions = a.transactions) :
    Effect a a' event := by
  refine .quiet (.inr ?_) fun happroved => ?_
  · rw [held, held, hstate, htransactions]
  · rwa [isApproved, ← hstate]

theorem effect_originInitial (hstate : a.state = .originInitial)
    (hstep : a.reactOriginInitial env event = some a') : Effect a a' event := by
  cases event with
  | validation invalidTransactionIndexes =>
    obtain ⟨invalid, -, rfl⟩ := Option.map_eq_some_iff.mp hstep
    have hundecided : a.isApproved = false := by rw [isApproved, hstate]
    dsimp only
    split
    case isTrue => exact .quiet (.inl rfl) nofun
    case isFalse hkept =>
      have htaken : a.takenUp (.validation invalidTransactionIndexes) =
          some (CTransactionRecordManager.dropInvalid a.transactions invalidTransactionIndexes) := by
        rw [takenUp, hstate]
        exact if_neg hkept
      split
      · exact .takes htaken rfl
      · refine .approves hundecided (isApproved_enterApproved env _) (.inr ?_)
        rw [transactions_enterApproved]
        exact htaken
  | messageResult => cases hstep; exact .of_eq rfl rfl
  | ack => cases hstep; exact .of_eq rfl rfl
  | timeEvent => cases hstep; exact .of_eq rfl rfl
  | noMedium => cases hstep; exact .of_eq rfl rfl

theorem effect_propagateBundle {partners : Finset CKeyID} (hstate : a.state = .propagateBundle partners)
    (hstep : a.reactPropagateBundle env partners event = some a') : Effect a a' event := by
  have hheld : a.held = some a.transactions := by rw [held, hstate]
  cases event with
  | messageResult message pubKey =>
    obtain ⟨⟨original, participants⟩, -, hrest⟩ := Option.bind_eq_some_iff.mp hstep
    obtain ⟨status, -, rfl⟩ := Option.map_eq_some_iff.mp hrest
    split
    · dsimp only
      split
      · refine .approves (by rw [isApproved, hstate]) (isApproved_enterApproved env _) (.inl ?_)
        rw [transactions_enterApproved]
        exact hheld
      · exact .quiet (.inr hheld.symm) nofun
    · exact .quiet (.inl rfl) nofun
  | timeEvent => cases hstep; exact .of_eq rfl rfl
  | validation => cases hstep; exact .of_eq rfl rfl
  | ack => cases hstep; exact .of_eq rfl rfl
  | noMedium => cases hstep; exact .of_eq rfl rfl

theorem effect_broadcastBundle {known validate partners : Finset CKeyID}
    (hstate : a.state = .broadcastBundle known validate partners)
    (hstep : a.reactBroadcastBundle env known validate partners event = some a') :
    Effect a a' event := by
  have hheld : a.held = some a.transactions := by rw [held, hstate]
  -- the bundle is held on, whether the action goes on waiting or not
  have hcompare : ∀ (b : CValidateTransactionsAction) known' validate',
      b.transactions = a.transactions →
      Effect a (if validate' ∪ known' = partners then b.enterPassBundleValidate known'
        else { b with state := .broadcastBundle known' validate' partners }) event := by
    intro b known' validate' htransactions
    split
    · exact .quiet (.inr (by rw [hheld, ← htransactions]; rfl)) nofun
    · exact .quiet (.inr (by rw [hheld, ← htransactions]; rfl)) nofun
  cases event with
  | messageResult message pubKey =>
    dsimp only [reactBroadcastBundle] at hstep
    split at hstep
    · obtain ⟨⟨original, participants⟩, -, rfl⟩ := Option.map_eq_some_iff.mp hstep
      exact hcompare _ _ _ rfl
    · split at hstep
      · obtain ⟨⟨original, participants⟩, -, hrest⟩ := Option.bind_eq_some_iff.mp hstep
        obtain ⟨status, -, rfl⟩ := Option.map_eq_some_iff.mp hrest
        split
        · exact hcompare _ _ _ rfl
        · split
          · exact hcompare _ _ _ rfl
          · exact hcompare _ _ _ rfl
      · cases hstep
        exact hcompare _ _ _ rfl
  | noMedium => cases hstep; exact .quiet (.inr hheld.symm) nofun
  | timeEvent => cases hstep; exact .quiet (.inr hheld.symm) nofun
  | validation => cases hstep; exact .of_eq rfl rfl
  | ack => cases hstep; exact .of_eq rfl rfl

theorem effect_passBundle (hstate : a.state = .passBundle)
    (hstep : a.reactPassBundle env event = some a') : Effect a a' event := by
  cases event with
  | messageResult message pubKey =>
    obtain ⟨unwound, -, hrest⟩ := Option.bind_eq_some_iff.mp hstep
    obtain ⟨original, -, hrest⟩ := Option.bind_eq_some_iff.mp hrest
    obtain ⟨transactions, -, rfl⟩ := Option.map_eq_some_iff.mp hrest
    refine .quiet (.inl (by rw [held]; simp only [addRequests, hstate])) fun happroved => ?_
    rw [isApproved] at happroved
    simp [addRequests, hstate] at happroved
  | validation invalidTransactionIndexes =>
    cases hstep
    split
    case isTrue hempty =>
      refine .takes ?_ rfl
      rw [takenUp, hstate]
      exact if_pos hempty
    case isFalse => exact .quiet (.inl rfl) nofun
  | timeEvent => cases hstep; exact .of_eq rfl rfl
  | ack => cases hstep; exact .of_eq rfl rfl
  | noMedium => cases hstep; exact .of_eq rfl rfl

theorem effect_passBundleValidate {exceptions : Finset CKeyID}
    (hstate : a.state = .passBundleValidate exceptions)
    (hstep : a.reactPassBundleValidate env exceptions event = some a') : Effect a a' event := by
  have hheld : a.held = some a.transactions := by rw [held, hstate]
  cases event with
  | messageResult message pubKey =>
    dsimp only [reactPassBundleValidate] at hstep
    split at hstep
    · obtain ⟨⟨original, participants⟩, -, hrest⟩ := Option.bind_eq_some_iff.mp hstep
      obtain ⟨status, -, rfl⟩ := Option.map_eq_some_iff.mp hrest
      split
      · refine .approves (by rw [isApproved, hstate]) (isApproved_enterApproved env _) (.inl ?_)
        rw [transactions_enterApproved]
        exact hheld
      · exact .quiet (.inr hheld.symm) nofun
    · cases hstep
      exact .of_eq rfl rfl
  | timeEvent => cases hstep; exact .of_eq rfl rfl
  | validation => cases hstep; exact .of_eq rfl rfl
  | ack => cases hstep; exact .of_eq rfl rfl
  | noMedium => cases hstep

theorem effect_approved (hstep : a.reactApproved event = some a') : Effect a a' event := by
  cases event with
  | ack => cases hstep; exact .of_eq rfl rfl
  | noMedium => cases hstep; exact .of_eq rfl rfl
  | messageResult => cases hstep; exact .of_eq rfl rfl
  | validation => cases hstep; exact .of_eq rfl rfl
  | timeEvent => cases hstep; exact .of_eq rfl rfl

/-- An action holds a bundle only after a validation, and adds the one it holds, or the one it
takes up. -/
theorem react_effect (hstep : a.react env event = some a') : Effect a a' event := by
  unfold react at hstep
  split at hstep
  next hstate => exact effect_originInitial hstate hstep
  next partners hstate => exact effect_propagateBundle hstate hstep
  next hstate => exact effect_passBundle hstate hstep
  next known validate partners hstate => exact effect_broadcastBundle hstate hstep
  next exceptions hstate => exact effect_passBundleValidate hstate hstep
  next => exact effect_approved hstep
  next => cases hstep; exact .of_eq rfl rfl
  next => cases hstep; exact .of_eq rfl rfl

end CValidateTransactionsAction

/-- The tracker that goes on with the bundle once the parcel has arrived, and the transactions it
goes on with. -/
def NetworkState.takenUpBy (s : NetworkState) (k : Uint256) (index : ℕ) :
    Option (CPubKey × List CTransaction) :=
  (s.bundles k).underWay[index]?.bind fun parcel =>
    match parcel.delivery with
    | .validated invalidTransactionIndexes =>
      ((s.bundles k).actions parcel.receiver).bind fun a =>
        (a.takenUp (.validation invalidTransactionIndexes)).map fun txs => (parcel.receiver, txs)
    | _ => none

namespace TrackerNetwork
open CValidateTransactionsAction

variable (net : TrackerNetwork)

section Conditions

/-- The ledgers of the trackers, the bundles that their actions hold, and those they have added. -/
def replicas (s : NetworkState) : Replicas CPubKey Uint256 COutPoint CTxOut where
  ledger x := (s.managers x).coinsViewCache.unspent
  held x k := (((s.bundles k).actions x).bind held).map (bundleTransfer net.env.hashes)
  applied x := (s.applied x).map fun p => bundleTransfer net.env.hashes p.2

/-- The bundle can be added to the ledger of the tracker, and is apart from every other bundle
that a tracker holds. -/
structure Admissible (s : NetworkState) (x : CPubKey) (k : Uint256) (txs : List CTransaction) :
    Prop where
  stable : StableUnspent ((net.replicas s).ledger x)
  applicable : Applicable net.env.hashes txs
  fits : (bundleTransfer net.env.hashes txs).Fits ((net.replicas s).ledger x)
    (consumed ((net.replicas s).applied x))
  apart : ∀ y k' t, k' ≠ k → (net.replicas s).held y k' = some t →
    Apart (bundleTransfer net.env.hashes txs) t

/-- What the steps have to meet: a bundle that is started fits a message, and one that a tracker
takes up is admissible then. -/
def Orderly (s : Option NetworkState) : NetworkEvent → Prop
  | .start _ _ transactions => (vector CTransaction.networkCodec).Fits transactions
  | .deliver k index _ => ∀ s', s = some s' → ∀ x txs, s'.takenUpBy k index = some (x, txs) →
      net.Admissible s' x k txs
  | .cleanup .. => True

/-- The ledgers are sound, and what is held can be added to them. -/
structure Coherent (start : COutPoint → Option CTxOut) (s : NetworkState) : Prop where
  sound : (net.replicas s).Sound start
  ready : ∀ x k a txs, (s.bundles k).actions x = some a → a.held = some txs →
    StableUnspent ((net.replicas s).ledger x) ∧ Applicable net.env.hashes txs

end Conditions

section Safety

variable {net} {start : COutPoint → Option CTxOut} {s s' : NetworkState} {x : CPubKey} {k : Uint256}
  {stamp : Stamp} {rest : List Parcel} {a : CValidateTransactionsAction} {event : ActionEvent}

theorem held_put (s : NetworkState) (k : Uint256) (run : BundleRun) (y : CPubKey) (k' : Uint256) :
    (net.replicas (s.put k run)).held y k' =
      if k' = k then ((run.actions y).bind held).map (bundleTransfer net.env.hashes)
      else (net.replicas s).held y k' := by
  unfold replicas NetworkState.put
  dsimp only
  by_cases hk : k' = k
  · subst hk
    rw [if_pos rfl, Function.update_self]
  · rw [if_neg hk, Function.update_of_ne hk]

theorem coherent_initial {managers : CPubKey → CTransactionRecordManager}
    (hmanagers : ∀ x, (managers x).coinsViewCache.unspent = start) :
    net.Coherent start (.initial managers) where
  sound :=
    { legal := fun _ => .nil
      ledger := hmanagers
      fits := by
        intro x k t ht
        cases ht
      apart := by
        intro x y k k' t t' _ ht
        cases ht }
  ready := by
    intro x k a txs ha
    cases ha

theorem Coherent.mono (h : net.Coherent start s)
    (hledger : (net.replicas s').ledger = (net.replicas s).ledger)
    (happlied : s'.applied = s.applied)
    (hheld : ∀ y k a txs, (s'.bundles k).actions y = some a → a.held = some txs →
      ∃ b, (s.bundles k).actions y = some b ∧ b.held = some txs) : net.Coherent start s' where
  sound := by
    refine h.sound.mono hledger ?_ fun y k t ht => ?_
    · rw [replicas, replicas, happlied]
    · obtain ⟨txs, htxs, rfl⟩ := Option.map_eq_some_iff.mp ht
      obtain ⟨a, ha, hheld'⟩ := Option.bind_eq_some_iff.mp htxs
      obtain ⟨b, hb, hbefore⟩ := hheld y k a txs ha hheld'
      rw [replicas]
      dsimp only
      rw [hb, Option.bind_some, hbefore, Option.map_some]
  ready := by
    intro y k a txs ha hheld'
    obtain ⟨b, hb, hbefore⟩ := hheld y k a txs ha hheld'
    rw [hledger]
    exact h.ready y k b txs hb hbefore

theorem Coherent.put (h : net.Coherent start s) {run : BundleRun}
    (hrun : ∀ y b txs, run.actions y = some b → b.held = some txs →
      ∃ c, (s.bundles k).actions y = some c ∧ c.held = some txs) :
    net.Coherent start (s.put k run) := by
  refine h.mono rfl rfl fun y k' b txs hb hbheld => ?_
  rw [NetworkState.put] at hb
  dsimp only at hb
  by_cases hk : k' = k
  · subst hk
    rw [Function.update_self] at hb
    exact hrun y b txs hb hbheld
  · rw [Function.update_of_ne hk] at hb
    exact ⟨b, hb, hbheld⟩

theorem Coherent.addable (h : net.Coherent start s) {txs : List CTransaction}
    (hbefore : ((s.bundles k).actions x).bind held = a.held)
    (hadmissible : ∀ txs, a.takenUp event = some txs → net.Admissible s x k txs)
    (htxs : a.held = some txs ∨ a.takenUp event = some txs) : net.Admissible s x k txs := by
  rcases htxs with hheld | htaken
  · obtain ⟨b, hb, hbheld⟩ := Option.bind_eq_some_iff.mp (hbefore.trans hheld)
    have hholds : (net.replicas s).held x k = some (bundleTransfer net.env.hashes txs) := by
      rw [replicas]
      dsimp only
      rw [hbefore, hheld, Option.map_some]
    obtain ⟨hstable, happlicable⟩ := h.ready x k b txs hb hbheld
    exact ⟨hstable, happlicable, h.sound.fits x k _ hholds, fun y k' t hne ht =>
      h.sound.apart x y k k' _ t hne.symm hholds ht⟩
  · exact hadmissible txs htaken

theorem Coherent.add (h : net.Coherent start s) {txs : List CTransaction} {run : BundleRun}
    (hadmissible : net.Admissible s x k txs)
    (hothers : ∀ y, y ≠ x → ∀ b, run.actions y = some b → (s.bundles k).actions y = some b)
    (hself : (run.actions x).bind held = none)
    (hstep : (s.put k run).add x k txs
      ((s.managers x).addValidatedTransactionBundle net.env txs) = some s') :
    net.Coherent start s' := by
  obtain ⟨manager, hadd, hunspent⟩ := addValidated_of_fits hadmissible.stable
    hadmissible.applicable hadmissible.fits
  rw [hadd] at hstep
  obtain rfl := Option.some.inj hstep
  have hheld : ∀ y k' b txs, ((s.put k run).bundles k').actions y = some b → b.held = some txs →
      (s.bundles k').actions y = some b ∧ ¬(y = x ∧ k' = k) := by
    intro y k' b txs hb hbheld
    rw [NetworkState.put] at hb
    dsimp only at hb
    by_cases hk : k' = k
    · subst hk
      rw [Function.update_self] at hb
      by_cases hy : y = x
      · subst hy
        rw [hb, Option.bind_some, hbheld] at hself
        cases hself
      · exact ⟨hothers y hy b hb, fun hboth => hy hboth.1⟩
    · rw [Function.update_of_ne hk] at hb
      exact ⟨hb, fun hboth => hk hboth.2⟩
  constructor
  · refine h.sound.apply hadmissible.fits (fun k' t hne ht => hadmissible.apart x k' t hne ht)
      ?_ ?_ fun y k' t ht => ?_
    · funext y
      rw [replicas]
      dsimp only
      by_cases hy : y = x
      · subst hy
        rw [Function.update_self, Function.update_self, hunspent]
        rfl
      · rw [Function.update_of_ne hy, Function.update_of_ne hy]
        rfl
    · funext y
      rw [replicas]
      dsimp only
      by_cases hy : y = x
      · subst hy
        rw [Function.update_self, Function.update_self, List.map_append]
        rfl
      · rw [Function.update_of_ne hy, Function.update_of_ne hy]
        rfl
    · obtain ⟨txs', htxs', rfl⟩ := Option.map_eq_some_iff.mp ht
      obtain ⟨b, hb, hbheld⟩ := Option.bind_eq_some_iff.mp htxs'
      obtain ⟨hbefore, hother⟩ := hheld y k' b txs' hb hbheld
      refine ⟨?_, hother⟩
      rw [replicas]
      dsimp only
      rw [hbefore, Option.bind_some, hbheld, Option.map_some]
  · intro y k' b txs' hb hbheld
    obtain ⟨hbefore, -⟩ := hheld y k' b txs' hb hbheld
    obtain ⟨hstable', happlicable⟩ := h.ready y k' b txs' hbefore hbheld
    refine ⟨?_, happlicable⟩
    rw [replicas]
    dsimp only
    by_cases hy : y = x
    · subst hy
      rw [Function.update_self, hunspent]
      exact stableUnspent_apply hadmissible.stable hadmissible.applicable
    · rwa [Function.update_of_ne hy]

theorem Coherent.hold (h : net.Coherent start s) {txs : List CTransaction} {run : BundleRun}
    (hadmissible : net.Admissible s x k txs)
    (hothers : ∀ y, y ≠ x → run.actions y = (s.bundles k).actions y)
    (hself : (run.actions x).bind held = some txs) : net.Coherent start (s.put k run) := by
  constructor
  · refine h.sound.hold hadmissible.fits hadmissible.apart rfl rfl fun y k' t ht => ?_
    rw [held_put] at ht
    by_cases hk : k' = k
    · subst hk
      rw [if_pos rfl] at ht
      by_cases hy : y = x
      · subst hy
        rw [hself, Option.map_some] at ht
        exact .inr ⟨rfl, rfl, (Option.some.inj ht).symm⟩
      · rw [hothers y hy] at ht
        exact .inl ht
    · rw [if_neg hk] at ht
      exact .inl ht
  · intro y k' b txs' hb hbheld
    rw [NetworkState.put] at hb
    dsimp only at hb
    by_cases hk : k' = k
    · subst hk
      rw [Function.update_self] at hb
      by_cases hy : y = x
      · subst hy
        rw [hb, Option.bind_some, hbheld] at hself
        obtain rfl := Option.some.inj hself
        exact ⟨hadmissible.stable, hadmissible.applicable⟩
      · rw [hothers y hy] at hb
        exact h.ready y k' b txs' hb hbheld
    · rw [Function.update_of_ne hk] at hb
      exact h.ready y k' b txs' hb hbheld

theorem Coherent.act (h : net.Coherent start s)
    (hbefore : ((s.bundles k).actions x).bind held = a.held)
    (hadmissible : ∀ txs, a.takenUp event = some txs → net.Admissible s x k txs)
    (hstep : net.act s x k stamp rest a event = some s') : net.Coherent start s' := by
  obtain ⟨a', hreact, hrest⟩ := Option.bind_eq_some_iff.mp hstep
  obtain ⟨parcels, -, hresult⟩ := Option.bind_eq_some_iff.mp hrest
  dsimp only at hresult
  have hself : (Function.update (s.bundles k).actions x (some a') x).bind held = a'.held := by
    rw [Function.update_self, Option.bind_some]
  cases react_effect hreact with
  | quiet hheld happroved =>
    rw [if_neg fun hboth => hboth.2 (happroved hboth.1)] at hresult
    obtain rfl := Option.some.inj hresult
    refine h.put fun y b txs hb hbheld => ?_
    dsimp only at hb
    by_cases hy : y = x
    · subst hy
      rw [Function.update_self] at hb
      obtain rfl := Option.some.inj hb
      rcases hheld with hnone | hsame
      · rw [hbheld] at hnone
        cases hnone
      · exact Option.bind_eq_some_iff.mp (hbefore.trans (hsame.symm.trans hbheld))
    · rw [Function.update_of_ne hy] at hb
      exact ⟨b, hb, hbheld⟩
  | takes htaken hheld =>
    have hundecided : ¬a'.isApproved = true := fun happroved => by
      rw [held_of_isApproved happroved] at hheld
      cases hheld
    rw [if_neg fun hboth => hundecided hboth.1] at hresult
    obtain rfl := Option.some.inj hresult
    exact h.hold (hadmissible _ htaken) (fun y hy => Function.update_of_ne hy _ _)
      (hself.trans hheld)
  | approves hundecided happroved hbundle =>
    rw [if_pos ⟨happroved, by rw [hundecided]; exact Bool.false_ne_true⟩] at hresult
    refine h.add (h.addable hbefore hadmissible hbundle) (fun y hy b hb => ?_)
      (hself.trans (held_of_isApproved happroved)) hresult
    dsimp only at hb
    rwa [Function.update_of_ne hy] at hb

theorem Coherent.arrive (h : net.Coherent start s) {parcel : Parcel}
    (hadmissible : ∀ invalidTransactionIndexes b txs,
      parcel.delivery = .validated invalidTransactionIndexes →
      (s.bundles k).actions parcel.receiver = some b →
      b.takenUp (.validation invalidTransactionIndexes) = some txs →
      net.Admissible s parcel.receiver k txs)
    (hstep : net.arrive s k stamp rest parcel = some s') : net.Coherent start s' := by
  have hdropped : ∀ run : BundleRun, run.actions = (s.bundles k).actions →
      net.Coherent start (s.put k run) := by
    intro run hrun
    refine h.put fun y b txs hb hbheld => ⟨b, ?_, hbheld⟩
    rw [← hrun, hb]
  obtain ⟨y, delivery⟩ := parcel
  have hact : ∀ {event : ActionEvent} {b : CValidateTransactionsAction},
      (s.bundles k).actions y = some b →
      (∀ txs, b.takenUp event = some txs → net.Admissible s y k txs) →
      net.act s y k stamp rest b event = some s' → net.Coherent start s' :=
    fun hb => h.act (by rw [hb, Option.bind_some])
  rw [TrackerNetwork.arrive] at hstep
  -- an event that is no validation makes no action take up a bundle
  cases delivery with
  | message sender message =>
    dsimp only at hstep
    cases hb : (s.bundles k).actions y with
    | some b =>
      rw [hb] at hstep
      dsimp only at hstep
      split at hstep
      · refine hact hb (fun txs htaken => ?_) hstep
        cases htaken
      · cases hstep
    | none =>
      rw [hb] at hstep
      dsimp only at hstep
      split at hstep
      · refine h.act (by rw [hb]; rfl) (fun txs htaken => ?_) hstep
        cases htaken
      · obtain rfl := Option.some.inj hstep
        exact hdropped _ rfl
  | ack =>
    dsimp only at hstep
    split at hstep
    next b hb =>
      refine hact hb (fun txs htaken => ?_) hstep
      cases htaken
    next =>
      obtain rfl := Option.some.inj hstep
      exact hdropped _ rfl
  | noMedium =>
    dsimp only at hstep
    split at hstep
    next b hb =>
      refine hact hb (fun txs htaken => ?_) hstep
      cases htaken
    next =>
      obtain rfl := Option.some.inj hstep
      exact hdropped _ rfl
  | validated invalidTransactionIndexes =>
    dsimp only at hstep
    split at hstep
    next b hb =>
      exact hact hb (fun txs => hadmissible invalidTransactionIndexes b txs rfl hb) hstep
    next =>
      obtain rfl := Option.some.inj hstep
      exact hdropped _ rfl
  | validation transactions =>
    obtain rfl := Option.some.inj hstep
    let validated := (s.managers y).validateTransactionBundle net.env transactions
    refine (hdropped { s.bundles k with underWay := rest ++ [⟨y, .validated validated.1.2⟩] }
      rfl).mono ?_ rfl fun z k' b txs hb hbheld => ⟨b, hb, hbheld⟩
    funext z
    rw [replicas, replicas]
    dsimp only
    by_cases hz : z = y
    · subst hz
      rw [Function.update_self]
      exact CTransactionRecordManager.unspent_validated net.env (s.managers z) transactions
    · rw [Function.update_of_ne hz]
      rfl

/-- Every orderly step leaves the network coherent. -/
theorem Coherent.step (h : net.Coherent start s) {event : NetworkEvent}
    (horderly : net.Orderly (some s) event) (hstep : net.step s event = some s') :
    net.Coherent start s' := by
  cases event with
  | start x k transactions =>
    rw [TrackerNetwork.step] at hstep
    split at hstep
    · obtain rfl := Option.some.inj hstep
      refine h.put fun y b txs hb hbheld => ⟨b, ?_, hbheld⟩
      dsimp only at hb
      by_cases hy : y = x
      · subst hy
        rw [Function.update_self] at hb
        obtain rfl := Option.some.inj hb
        cases hbheld
      · rwa [Function.update_of_ne hy] at hb
    · cases hstep
  | deliver k index stamp =>
    obtain ⟨⟨y, delivery⟩, hparcel, harrive⟩ := Option.bind_eq_some_iff.mp hstep
    refine h.arrive (fun indexes b txs hdelivery hb htaken => horderly s rfl y txs ?_) harrive
    obtain rfl : delivery = .validated indexes := hdelivery
    rw [NetworkState.takenUpBy, hparcel, Option.bind_some]
    dsimp only
    rw [hb, Option.bind_some, htaken, Option.map_some]
  | cleanup x k =>
    obtain ⟨a, ha, hexit⟩ := Option.bind_eq_some_iff.mp hstep
    split at hexit
    · obtain rfl := Option.some.inj hexit
      refine h.put fun y b txs hb hbheld => ⟨b, ?_, hbheld⟩
      dsimp only at hb
      by_cases hy : y = x
      · subst hy
        rw [Function.update_self] at hb
        cases hb
      · rwa [Function.update_of_ne hy] at hb
    · cases hexit

theorem coherent_of_guarded {managers : CPubKey → CTransactionRecordManager}
    {events : List NetworkEvent}
    (hmanagers : ∀ x, (managers x).coinsViewCache.unspent = start)
    (hguarded : GuardedRun.Guarded net.next net.Orderly (some (.initial managers)) events)
    (hrun : GuardedRun.run net.next (some (.initial managers)) events = some s) :
    net.Coherent start s := by
  have hkeeps : ∀ (s : Option NetworkState) (event : NetworkEvent),
      (∀ s', s = some s' → net.Coherent start s') → net.Orderly s event →
      ∀ s', net.next s event = some s' → net.Coherent start s' := by
    intro s event hs horderly s' hs'
    obtain ⟨s₀, rfl, hstep⟩ := Option.bind_eq_some_iff.mp hs'
    exact (hs s₀ rfl).step horderly hstep
  refine hguarded.invariant hkeeps (fun s' hs' => ?_) s hrun
  obtain rfl := Option.some.inj hs'
  exact coherent_initial hmanagers

end Safety

end TrackerNetwork

end Dims

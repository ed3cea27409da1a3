import Dims.BroadcastBundle
import Dims.BundlePhases

/-!
# Bundles among three trackers and more

Where an action that was sent a bundle has others to tell, it waits for reports of all partners
together with the initiator, who is no partner of its own bundle there. So without a time-out it
waits on, no tracker says that the bundle is valid, and none adds it.
-/

namespace Dims
open ByteCodec Serialize CValidateTransactionsAction

namespace CValidateTransactionsAction

variable {env : NodeContext} {a a' : CValidateTransactionsAction} {message : CMessage}
  {pubKey : CPubKey}

theorem react_broadcastBundle_notValid {initiator : CKeyID} {known validate partners : Finset CKeyID}
    {participants : Finset CPubKey} (hstate : a.state = .broadcastBundle known validate partners)
    (hknown : initiator ∈ known) (hpartners : initiator ∉ partners)
    (hkind : message.header.payloadKind = CPayloadKind.statusTransactions.toInt)
    (hunwind : env.unwind message pubKey = some (message, participants))
    (hread : readStatus message.payload = some CBundleStatus.notValid.toInt)
    (hreact : a.react env (.messageResult message pubKey) = some a') :
    a'.state = a.state ∧ a'.initiatingNodeKey = a.initiatingNodeKey ∧
      a'.requests = a.requests ++ [.ack message.header.id (.byKey pubKey)] := by
  have hresult : a.reactBroadcastBundle env known validate partners (.messageResult message pubKey) =
      some a' := by
    rwa [react, hstate] at hreact
  rw [reactBroadcastBundle] at hresult
  dsimp only at hresult
  rw [hkind, if_neg (by decide), if_pos rfl, hunwind, Option.bind_some] at hresult
  dsimp only at hresult
  rw [hread, Option.map_some, if_neg (by decide), if_neg (by decide),
    if_neg (union_ne hknown hpartners)] at hresult
  obtain rfl := Option.some.inj hresult
  exact ⟨hstate.symm, rfl, rfl⟩

theorem react_validation_of_ne {indexes : List ℕ} (horigin : a.state ≠ .originInitial)
    (hpass : a.state ≠ .passBundle) (hreact : a.react env (.validation indexes) = some a') :
    a' = a := by
  unfold react at hreact
  split at hreact
  next hstate => exact absurd hstate horigin
  next => exact (Option.some.inj hreact).symm
  next hstate => exact absurd hstate hpass
  next => exact (Option.some.inj hreact).symm
  next => exact (Option.some.inj hreact).symm
  next => exact (Option.some.inj hreact).symm
  next => exact (Option.some.inj hreact).symm
  next => exact (Option.some.inj hreact).symm

end CValidateTransactionsAction

namespace TrackerNetwork

variable (net : TrackerNetwork)

section Conditions

/-- Whoever is left out, a tracker has another one to tell. -/
def Crowded : Prop := ∀ x, ∀ id : CKeyID, ∃ y ∈ net.others x, y.getID net.env.hashes ≠ id

/-- The action has not found its way to a tracker that could add the bundle. -/
def Stuck (x : CPubKey) (a : CValidateTransactionsAction) : Prop :=
  match a.state with
  | .originInitial | .propagateBundle _ | .passBundleInvalidate | .rejected => True
  | .passBundle => a.initiatingNodeKey ∈ net.others x ∧ ∃ message,
      a.transactionsMessage = some message ∧
        message.header.payloadKind = CPayloadKind.transactions.toInt
  | .broadcastBundle known _ partners =>
    a.initiatingNodeKey.getID net.env.hashes ∈ known ∧
      a.initiatingNodeKey.getID net.env.hashes ∉ partners
  | .passBundleValidate _ | .approved => False

/-- A bundle, or the status that it is not valid, from another tracker. -/
def Idle (p : Parcel) : Prop :=
  match p.delivery with
  | .message sender message => sender ∈ net.others p.receiver ∧
      (message.header.payloadKind = CPayloadKind.transactions.toInt ∨
        net.Sent sender .statusTransactions (int32.encode CBundleStatus.notValid.toInt) message)
  | .noMedium => False
  | _ => True

/-- Nothing was added, and nothing under way leads to it. -/
structure Stalled (s : NetworkState) : Prop where
  applied : ∀ x, s.applied x = []
  actions : ∀ k x a, (s.bundles k).actions x = some a → x ∈ net.trackers ∧ net.Stuck x a
  underWay : ∀ k, ∀ p ∈ (s.bundles k).underWay, p.receiver ∈ net.trackers ∧ net.Idle p

end Conditions

section Steps

variable {net} {s s' : NetworkState} {x : CPubKey} {k : Uint256} {stamp : Stamp}
  {rest : List Parcel} {a a' : CValidateTransactionsAction} {event : ActionEvent}
  {new : List CRequest}

theorem mem_others {x y : CPubKey} : y ∈ net.others x ↔ y ∈ net.trackers ∧ y ≠ x := by
  simp [others]

theorem stuck_of_state (hstate : a.state = .originInitial ∨ (∃ partners, a.state =
    .propagateBundle partners) ∨ a.state = .passBundleInvalidate ∨ a.state = .rejected) :
    net.Stuck x a := by
  rw [Stuck]
  rcases hstate with hstate | ⟨partners, hstate⟩ | hstate | hstate <;> simp only [hstate]

theorem Stuck.isApproved (h : net.Stuck x a) : a.isApproved = false := by
  rw [CValidateTransactionsAction.isApproved]
  split
  next hstate =>
    rw [Stuck] at h
    simp only [hstate] at h
  next => rfl

theorem idle_send (hx : x ∈ net.trackers) {filter : CMediumFilter} {message : CMessage}
    (hmediums : net.getMediums x filter ≠ []) (hothers : net.getMediums x filter ⊆ net.others x)
    (hmessage : message.header.payloadKind = CPayloadKind.transactions.toInt ∨
      net.Sent x .statusTransactions (int32.encode CBundleStatus.notValid.toInt) message) :
    ∀ p ∈ net.send x filter message, p.receiver ∈ net.trackers ∧ net.Idle p := by
  intro p hp
  rw [send_of_ne hmediums] at hp
  obtain ⟨y, hy, rfl⟩ := List.mem_map.mp hp
  obtain ⟨hytrackers, hne⟩ := mem_others.mp (hothers hy)
  exact ⟨hytrackers, mem_others.mpr ⟨hx, hne.symm⟩, hmessage⟩

theorem getMediums_subset (x : CPubKey) (filter : CMediumFilter) :
    net.getMediums x filter ⊆ net.others x := by
  cases filter with
  | trackers => exact List.Subset.refl _
  | monitors => exact List.nil_subset _
  | trackersExcept exceptions => exact fun y hy => List.mem_of_mem_filter hy
  | nodes keyIds => exact fun y hy => List.mem_of_mem_filter hy
  | byKey key => exact fun y hy => List.mem_of_mem_filter hy

theorem idle_ack {id : Uint256} {filter : CMediumFilter} {parcels : List Parcel}
    (hpost : net.post x k stamp (.ack id filter) = some parcels) :
    ∀ p ∈ parcels, p.receiver ∈ net.trackers ∧ net.Idle p := by
  rw [post] at hpost
  obtain rfl := Option.some.inj hpost
  intro p hp
  obtain ⟨y, hy, rfl⟩ := List.mem_map.mp hp
  exact ⟨(mem_others.mp (getMediums_subset x filter hy)).1, trivial⟩

/-- An action that stays stuck, with requests that lead nowhere. -/
theorem Stalled.goes_on (h : net.Stalled s) (hx : x ∈ net.trackers)
    (hrest : rest ⊆ (s.bundles k).underWay)
    (hreact : a.react (net.context s x) event = some a') (hnew : a'.requests = a.requests ++ new)
    (hstuck : net.Stuck x a') (hidle : ∀ parcels, net.postAll x k stamp new = some parcels →
      ∀ p ∈ parcels, p.receiver ∈ net.trackers ∧ net.Idle p)
    (hstep : net.act s x k stamp rest a event = some s') : net.Stalled s' := by
  obtain ⟨parcels, hparcels, rfl⟩ := act_of_not_approved hreact hnew
    (fun happroved => by rw [hstuck.isApproved] at happroved; cases happroved) hstep
  refine ⟨h.applied, fun k' y b hb => ?_, fun k' p hp => ?_⟩
  · rw [NetworkState.put] at hb
    dsimp only at hb
    by_cases hk : k' = k
    · subst hk
      rw [Function.update_self] at hb
      dsimp only at hb
      by_cases hy : y = x
      · subst hy
        rw [Function.update_self] at hb
        cases hb
        exact ⟨hx, hstuck⟩
      · rw [Function.update_of_ne hy] at hb
        exact h.actions k' y b hb
    · rw [Function.update_of_ne hk] at hb
      exact h.actions k' y b hb
  · rw [NetworkState.put] at hp
    dsimp only at hp
    by_cases hk : k' = k
    · subst hk
      rw [Function.update_self] at hp
      exact (List.mem_append.mp hp).elim (fun hp => h.underWay k' p (hrest hp)) (hidle parcels hparcels p)
    · rw [Function.update_of_ne hk] at hp
      exact h.underWay k' p hp

theorem idle_validateTransactions {txs : List CTransaction} {parcels : List Parcel}
    (hx : x ∈ net.trackers)
    (hpost : net.post x k stamp (.validateTransactions txs) = some parcels) :
    ∀ p ∈ parcels, p.receiver ∈ net.trackers ∧ net.Idle p := by
  rw [post] at hpost
  obtain rfl := Option.some.inj hpost
  intro p hp
  obtain rfl := List.mem_singleton.mp hp
  exact ⟨hx, trivial⟩

theorem getMediums_ne_nil (hcrowded : net.Crowded) (x : CPubKey) (id : CKeyID) :
    net.getMediums x .trackers ≠ [] ∧ net.getMediums x (.trackersExcept {id}) ≠ [] := by
  obtain ⟨y, hy, hne⟩ := hcrowded x id
  refine ⟨List.ne_nil_of_mem hy, List.ne_nil_of_mem (a := y) (List.mem_filter.mpr ⟨hy, ?_⟩)⟩
  simpa using hne

theorem Stalled.ack (h : net.Stalled s) (hrest : rest ⊆ (s.bundles k).underWay)
    (ha : (s.bundles k).actions x = some a)
    (hstep : net.act s x k stamp rest a .ack = some s') : net.Stalled s' := by
  obtain ⟨hx, hstuck⟩ := h.actions k x a ha
  obtain ⟨a', hreact, -⟩ := Option.bind_eq_some_iff.mp hstep
  obtain ⟨hnew, -, rfl | ⟨hstate, -⟩⟩ := react_ack hreact
  · refine h.goes_on hx hrest hreact hnew hstuck (fun parcels hparcels => ?_) hstep
    cases hparcels
    exact fun p hp => absurd hp List.not_mem_nil
  · rw [Stuck] at hstuck
    simp only [hstate] at hstuck

theorem Stalled.validated (h : net.Stalled s) (hnet : net.Honest) (hcrowded : net.Crowded)
    (hrest : rest ⊆ (s.bundles k).underWay) (ha : (s.bundles k).actions x = some a)
    {indexes : List ℕ} (hstep : net.act s x k stamp rest a (.validation indexes) = some s') :
    net.Stalled s' := by
  obtain ⟨hx, hstuck⟩ := h.actions k x a ha
  obtain ⟨a', hreact, -⟩ := Option.bind_eq_some_iff.mp hstep
  have hnothing : ∀ parcels, net.postAll x k stamp [] = some parcels →
      ∀ p ∈ parcels, p.receiver ∈ net.trackers ∧ net.Idle p := by
    intro parcels hparcels
    cases hparcels
    exact fun p hp => absurd hp List.not_mem_nil
  by_cases horigin : a.state = .originInitial
  · have hothers : (net.context s x).networkTrackers ≠ [] := (getMediums_ne_nil hcrowded x 0).1
    rcases react_originInitial_cases horigin hothers hreact with
      ⟨hstate', hnew⟩ | ⟨hstate', -, -, hnew⟩
    · exact h.goes_on hx hrest hreact hnew (stuck_of_state (.inr (.inr (.inr hstate')))) hnothing hstep
    · refine h.goes_on hx hrest hreact hnew (stuck_of_state (.inr (.inl ⟨_, hstate'⟩)))
        (fun parcels hparcels => ?_) hstep
      obtain ⟨first, others, hfirst, hothers, rfl⟩ := postAll_cons hparcels
      cases postAll_singleton hothers
      obtain ⟨message, hsent, rfl⟩ := post_sendTransactions hnet hx hfirst
      rw [List.append_nil]
      exact idle_send hx (getMediums_ne_nil hcrowded x 0).1 (getMediums_subset x _) (.inl hsent.kind)
  · by_cases hpass : a.state = .passBundle
    · rw [Stuck] at hstuck
      simp only [hpass] at hstuck
      obtain ⟨hinitiator, message, hmessage, hkind⟩ := hstuck
      obtain ⟨-, hinitiator', -, ⟨hstate', hnew⟩ | ⟨hstate', -, hnew⟩⟩ :=
        react_passBundle_validation hpass hmessage hreact
      · refine h.goes_on hx hrest hreact hnew (stuck_of_state (.inr (.inr (.inl hstate'))))
          (fun parcels hparcels => ?_) hstep
        obtain ⟨answer, hsent, rfl⟩ := post_sendStatus hnet hx (postAll_singleton hparcels)
        refine idle_send hx (List.ne_nil_of_mem (a := a.initiatingNodeKey) ?_)
          (getMediums_subset x _) (.inr hsent)
        exact List.mem_filter.mpr ⟨hinitiator, decide_eq_true rfl⟩
      · refine h.goes_on hx hrest hreact hnew ?_ (fun parcels hparcels => ?_) hstep
        · rw [Stuck]
          simp only [hstate', hinitiator', context_hashes]
          exact ⟨Finset.mem_singleton_self _, Finset.notMem_erase _ _⟩
        · obtain ⟨first, others, hfirst, hothers, rfl⟩ := postAll_cons hparcels
          cases postAll_singleton hothers
          obtain ⟨wrapped, hwrapped, rfl⟩ := post_forward hfirst
          rw [List.append_nil]
          exact idle_send hx (getMediums_ne_nil hcrowded x _).2 (getMediums_subset x _)
            (.inl (hwrapped.trans hkind))
    · obtain rfl := react_validation_of_ne horigin hpass hreact
      exact h.goes_on hx hrest hreact (List.append_nil _).symm hstuck hnothing hstep

theorem Stalled.status (h : net.Stalled s) (hrest : rest ⊆ (s.bundles k).underWay)
    (ha : (s.bundles k).actions x = some a) {sender : CPubKey} {message : CMessage}
    (hsent : net.Sent sender .statusTransactions (int32.encode CBundleStatus.notValid.toInt) message)
    (hstep : net.act s x k stamp rest a (.messageResult message sender) = some s') :
    net.Stalled s' := by
  obtain ⟨hx, hstuck⟩ := h.actions k x a ha
  obtain ⟨a', hreact, -⟩ := Option.bind_eq_some_iff.mp hstep
  have hnothing : ∀ parcels, net.postAll x k stamp [] = some parcels →
      ∀ p ∈ parcels, p.receiver ∈ net.trackers ∧ net.Idle p := by
    intro parcels hparcels
    cases hparcels
    exact fun p hp => absurd hp List.not_mem_nil
  have hread : readStatus message.payload = some CBundleStatus.notValid.toInt := by
    rw [hsent.payload, readStatus_encode]
  have hsame : a' = a → net.Stalled s' := by
    rintro rfl
    exact h.goes_on hx hrest hreact (List.append_nil _).symm hstuck hnothing hstep
  cases hstate : a.state with
  | originInitial =>
    rw [react, hstate] at hreact
    exact hsame (Option.some.inj hreact).symm
  | propagateBundle partners =>
    obtain ⟨hstate', hnew⟩ := react_propagateBundle_notValid hstate (hsent.unwind s x) hread hreact
    exact h.goes_on hx hrest hreact hnew (stuck_of_state (.inr (.inr (.inr hstate')))) hnothing hstep
  | passBundle =>
    -- the status cannot be read as a bundle
    obtain ⟨original, txs, hunwound, hbundle, -⟩ := react_passBundle_message hstate hreact
    obtain rfl : message = original := by
      have hsame := hsent.unwindMessage.symm.trans hunwound
      exact Option.some.inj (Option.some.inj hsame)
    rw [hsent.payload] at hbundle
    have hnone : readBundle (int32.encode CBundleStatus.notValid.toInt) = none := by decide
    rw [hnone] at hbundle
    cases hbundle
  | broadcastBundle known validate partners =>
    have hwaits := hstuck
    rw [Stuck] at hwaits
    simp only [hstate] at hwaits
    obtain ⟨hstate', hinitiator, hnew⟩ := react_broadcastBundle_notValid hstate hwaits.1 hwaits.2
      hsent.kind (hsent.unwind s x) hread hreact
    refine h.goes_on hx hrest hreact hnew ?_ (fun parcels hparcels => ?_) hstep
    · rw [Stuck, hstate', hstate, hinitiator]
      exact hwaits
    · exact idle_ack (postAll_singleton hparcels)
  | passBundleValidate exceptions =>
    rw [Stuck] at hstuck
    simp only [hstate] at hstuck
  | passBundleInvalidate =>
    rw [react, hstate] at hreact
    exact hsame (Option.some.inj hreact).symm
  | approved =>
    rw [Stuck] at hstuck
    simp only [hstate] at hstuck
  | rejected =>
    rw [react, hstate] at hreact
    exact hsame (Option.some.inj hreact).symm

theorem Stalled.transactions (h : net.Stalled s) (hx : x ∈ net.trackers)
    (hrest : rest ⊆ (s.bundles k).underWay) {sender : CPubKey} {message : CMessage}
    (hsender : sender ∈ net.others x)
    (hkind : message.header.payloadKind = CPayloadKind.transactions.toInt)
    (hstep : net.act s x k stamp rest (.passing k) (.messageResult message sender) = some s') :
    net.Stalled s' := by
  obtain ⟨a', hreact, -⟩ := Option.bind_eq_some_iff.mp hstep
  obtain ⟨original, txs, -, -, hstate', -, -, hinitiator, hmessage, hnew⟩ :=
    react_passBundle_message rfl hreact
  refine h.goes_on hx hrest hreact hnew ?_ (fun parcels hparcels => ?_) hstep
  · rw [Stuck]
    simp only [hstate']
    exact ⟨hinitiator ▸ hsender, message, hmessage, hkind⟩
  · obtain ⟨first, others, hfirst, hothers, rfl⟩ := postAll_cons hparcels
    intro p hp
    exact (List.mem_append.mp hp).elim (idle_ack hfirst p)
      (idle_validateTransactions hx (postAll_singleton hothers) p)

/-- What arrives leads nowhere. -/
theorem Stalled.arrive (h : net.Stalled s) (hnet : net.Honest) (hcrowded : net.Crowded)
    {parcel : Parcel} (hparcel : parcel ∈ (s.bundles k).underWay)
    (hrest : rest ⊆ (s.bundles k).underWay)
    (hstep : net.arrive s k stamp rest parcel = some s') : net.Stalled s' := by
  obtain ⟨hx, hidle⟩ := h.underWay k parcel hparcel
  have hdropped : ∀ (managers : CPubKey → CTransactionRecordManager) (parcels : List Parcel),
      (∀ p ∈ parcels, p.receiver ∈ net.trackers ∧ net.Idle p) →
      net.Stalled { s.put k { s.bundles k with underWay := rest ++ parcels } with
        managers := managers } := by
    intro managers parcels hparcels
    refine ⟨h.applied, fun k' y b hb => h.actions k' y b ?_, fun k' p hp => ?_⟩
    · rw [NetworkState.put] at hb
      dsimp only at hb
      by_cases hk : k' = k
      · subst hk
        rwa [Function.update_self] at hb
      · rwa [Function.update_of_ne hk] at hb
    · rw [NetworkState.put] at hp
      dsimp only at hp
      by_cases hk : k' = k
      · subst hk
        rw [Function.update_self] at hp
        exact (List.mem_append.mp hp).elim (fun hp => h.underWay k' p (hrest hp)) (hparcels p)
      · rw [Function.update_of_ne hk] at hp
        exact h.underWay k' p hp
  have hleft : net.Stalled (s.put k { s.bundles k with underWay := rest }) := by
    have hnothing := hdropped s.managers [] fun p hp => absurd hp List.not_mem_nil
    rwa [List.append_nil] at hnothing
  obtain ⟨x, delivery⟩ := parcel
  cases delivery with
  | noMedium => cases hidle
  | validation txs =>
    obtain rfl := Option.some.inj hstep
    refine hdropped _ _ fun p hp => ?_
    obtain rfl := List.mem_singleton.mp hp
    exact ⟨hx, trivial⟩
  | ack =>
    cases ha : (s.bundles k).actions x with
    | some a =>
      rw [arrive_ack ha] at hstep
      exact h.ack hrest ha hstep
    | none =>
      rw [TrackerNetwork.arrive] at hstep
      dsimp only at hstep
      rw [ha] at hstep
      obtain rfl := Option.some.inj hstep
      exact hleft
  | validated indexes =>
    cases ha : (s.bundles k).actions x with
    | some a =>
      rw [arrive_validated ha] at hstep
      exact h.validated hnet hcrowded hrest ha hstep
    | none =>
      rw [TrackerNetwork.arrive] at hstep
      dsimp only at hstep
      rw [ha] at hstep
      obtain rfl := Option.some.inj hstep
      exact hleft
  | message sender message =>
    obtain ⟨hsender, hmessage⟩ := hidle
    cases ha : (s.bundles k).actions x with
    | some a =>
      rw [TrackerNetwork.arrive] at hstep
      dsimp only at hstep
      rw [ha] at hstep
      dsimp only at hstep
      split at hstep
      case isTrue hstatus =>
        rcases hmessage with hkind | hsent
        · rw [hkind] at hstatus
          exact absurd hstatus (by decide)
        · exact h.status hrest ha hsent hstep
      case isFalse => cases hstep
    | none =>
      rw [TrackerNetwork.arrive] at hstep
      dsimp only at hstep
      rw [ha] at hstep
      dsimp only at hstep
      split at hstep
      case isTrue hkind => exact h.transactions hx hrest hsender hkind hstep
      case isFalse =>
        obtain rfl := Option.some.inj hstep
        exact hleft

theorem Stalled.step (h : net.Stalled s) (hnet : net.Honest) (hcrowded : net.Crowded)
    {event : NetworkEvent} (hstep : net.step s event = some s') : net.Stalled s' := by
  cases event with
  | deliver k index stamp =>
    obtain ⟨parcel, hparcel, harrive⟩ := Option.bind_eq_some_iff.mp hstep
    exact h.arrive hnet hcrowded (List.mem_of_getElem? hparcel) (List.eraseIdx_subset ..) harrive
  | start x k transactions =>
    rw [TrackerNetwork.step] at hstep
    split at hstep
    case isTrue hstarts =>
      obtain rfl := Option.some.inj hstep
      refine ⟨h.applied, fun k' y b hb => ?_, fun k' p hp => ?_⟩
      · rw [NetworkState.put] at hb
        dsimp only at hb
        by_cases hk : k' = k
        · subst hk
          rw [Function.update_self] at hb
          dsimp only at hb
          by_cases hy : y = x
          · subst hy
            rw [Function.update_self] at hb
            cases hb
            exact ⟨hstarts.1, trivial⟩
          · rw [Function.update_of_ne hy] at hb
            exact h.actions k' y b hb
        · rw [Function.update_of_ne hk] at hb
          exact h.actions k' y b hb
      · rw [NetworkState.put] at hp
        dsimp only at hp
        by_cases hk : k' = k
        · subst hk
          rw [Function.update_self] at hp
          obtain rfl := List.mem_singleton.mp hp
          exact ⟨hstarts.1, trivial⟩
        · rw [Function.update_of_ne hk] at hp
          exact h.underWay k' p hp
    case isFalse => cases hstep
  | cleanup x k =>
    obtain ⟨a, -, hexit⟩ := Option.bind_eq_some_iff.mp hstep
    split at hexit
    · obtain rfl := Option.some.inj hexit
      refine ⟨h.applied, fun k' y b hb => ?_, fun k' p hp => ?_⟩
      · rw [NetworkState.put] at hb
        dsimp only at hb
        by_cases hk : k' = k
        · subst hk
          rw [Function.update_self] at hb
          dsimp only at hb
          by_cases hy : y = x
          · subst hy
            rw [Function.update_self] at hb
            cases hb
          · rw [Function.update_of_ne hy] at hb
            exact h.actions k' y b hb
        · rw [Function.update_of_ne hk] at hb
          exact h.actions k' y b hb
      · rw [NetworkState.put] at hp
        dsimp only at hp
        by_cases hk : k' = k
        · subst hk
          rw [Function.update_self] at hp
          exact h.underWay k' p hp
        · rw [Function.update_of_ne hk] at hp
          exact h.underWay k' p hp
    · cases hexit

theorem stalled_of_run (hnet : net.Honest) (hcrowded : net.Crowded)
    {managers : CPubKey → CTransactionRecordManager} {events : List NetworkEvent}
    (hrun : GuardedRun.run net.next (some (.initial managers)) events = some s) :
    net.Stalled s := by
  have hkeeps : ∀ (s : Option NetworkState) (event : NetworkEvent), (∀ s', s = some s' →
      net.Stalled s') → ∀ s', net.next s event = some s' → net.Stalled s' := by
    intro s event hs s' hs'
    obtain ⟨s₀, rfl, hstep⟩ := Option.bind_eq_some_iff.mp hs'
    exact (hs s₀ rfl).step hnet hcrowded hstep
  refine GuardedRun.run_invariant hkeeps (fun s' hs' => ?_) events s hrun
  obtain rfl := Option.some.inj hs'
  refine ⟨fun _ => rfl, fun k x a ha => ?_, fun k p hp => absurd hp List.not_mem_nil⟩
  cases ha

end Steps

end TrackerNetwork

end Dims

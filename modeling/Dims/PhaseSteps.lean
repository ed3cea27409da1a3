import Dims.BundlePhases

/-!
# From one phase to the next

What arrives takes a bundle from its phase to the next one. The bundle that a tracker holds can be
added, so that both trackers have added it in the end, or none has.
-/

namespace Dims
open ByteCodec Serialize CValidateTransactionsAction BundleRun

/-- The bundles that a tracker has added under an action key. -/
def NetworkState.entries (s : NetworkState) (x : CPubKey) (k : Uint256) :
    List (List CTransaction) :=
  ((s.applied x).filter fun p => p.1 = k).map Prod.snd

/-- What a step changes that concerns the bundle under a key. -/
def NetworkState.Changes (s s' : NetworkState) (k : Uint256) : Prop :=
  (∃ run, s'.bundles = Function.update s.bundles k run ∧
    run.initiator = (s.bundles k).initiator) ∧
  (s'.applied = s.applied ∨
    ∃ x txs, s'.applied = Function.update s.applied x (s.applied x ++ [(k, txs)]))

namespace TrackerNetwork

variable {net : TrackerNetwork} {s s' : NetworkState} {x y A B : CPubKey} {k k' : Uint256}
  {stamp : Stamp} {rest : List Parcel}

section Frames

theorem entries_of_applied_eq (h : s'.applied = s.applied) (x : CPubKey) (k : Uint256) :
    s'.entries x k = s.entries x k := by
  rw [NetworkState.entries, NetworkState.entries, h]

theorem entries_add_self {txs : List CTransaction}
    (h : s'.applied = Function.update s.applied x (s.applied x ++ [(k, txs)])) :
    s'.entries x k = s.entries x k ++ [txs] := by
  rw [NetworkState.entries, NetworkState.entries, h, Function.update_self, List.filter_append,
    List.map_append, List.filter_cons_of_pos (by simp)]
  rfl

theorem entries_add_of_ne {txs : List CTransaction}
    (h : s'.applied = Function.update s.applied x (s.applied x ++ [(k, txs)]))
    (hne : y ≠ x ∨ k' ≠ k) : s'.entries y k' = s.entries y k' := by
  rw [NetworkState.entries, NetworkState.entries, h]
  by_cases hy : y = x
  · subst hy
    have hk : ¬k = k' := fun heq => hne.elim (fun h => h rfl) fun h => h heq.symm
    rw [Function.update_self, List.filter_append, List.filter_cons_of_neg (by simpa using hk),
      List.filter_nil, List.append_nil]
  · rw [Function.update_of_ne hy]

theorem add_frame {txs : List CTransaction} {result : BundleResult × CTransactionRecordManager}
    (h : s.add x k txs result = some s') :
    s'.bundles = s.bundles ∧ (s'.applied = s.applied ∨
      s'.applied = Function.update s.applied x (s.applied x ++ [(k, txs)])) := by
  unfold NetworkState.add at h
  split at h
  · obtain rfl := Option.some.inj h
    exact ⟨rfl, .inr rfl⟩
  · obtain rfl := Option.some.inj h
    exact ⟨rfl, .inl rfl⟩
  · cases h

/-- A reaction concerns the bundle of its action only. -/
theorem act_changes {a : CValidateTransactionsAction} {event : ActionEvent}
    (hstep : net.act s x k stamp rest a event = some s') : s.Changes s' k := by
  obtain ⟨a', -, hrest⟩ := Option.bind_eq_some_iff.mp hstep
  obtain ⟨parcels, -, hresult⟩ := Option.bind_eq_some_iff.mp hrest
  dsimp only at hresult
  split at hresult
  · obtain ⟨hbundles, hsame | hadded⟩ := add_frame hresult
    · exact ⟨⟨_, hbundles, rfl⟩, .inl hsame⟩
    · exact ⟨⟨_, hbundles, rfl⟩, .inr ⟨x, _, hadded⟩⟩
  · obtain rfl := Option.some.inj hresult
    exact ⟨⟨_, rfl, rfl⟩, .inl rfl⟩

theorem arrive_changes {parcel : Parcel}
    (hstep : net.arrive s k stamp rest parcel = some s') : s.Changes s' k := by
  obtain ⟨x, delivery⟩ := parcel
  rw [arrive] at hstep
  dsimp only at hstep
  split at hstep
  · split at hstep
    · split at hstep
      · exact act_changes hstep
      · cases hstep
    · split at hstep
      · exact act_changes hstep
      · obtain rfl := Option.some.inj hstep
        exact ⟨⟨_, rfl, rfl⟩, .inl rfl⟩
  · split at hstep
    · exact act_changes hstep
    · obtain rfl := Option.some.inj hstep
      exact ⟨⟨_, rfl, rfl⟩, .inl rfl⟩
  · split at hstep
    · exact act_changes hstep
    · obtain rfl := Option.some.inj hstep
      exact ⟨⟨_, rfl, rfl⟩, .inl rfl⟩
  · split at hstep
    · exact act_changes hstep
    · obtain rfl := Option.some.inj hstep
      exact ⟨⟨_, rfl, rfl⟩, .inl rfl⟩
  · obtain rfl := Option.some.inj hstep
    exact ⟨⟨_, rfl, rfl⟩, .inl rfl⟩

theorem changes_frame (h : s.Changes s' k) (hk : k' ≠ k) :
    s'.bundles k' = s.bundles k' ∧ ∀ y, s'.entries y k' = s.entries y k' := by
  obtain ⟨⟨run, hbundles, -⟩, happlied⟩ := h
  refine ⟨by rw [hbundles, Function.update_of_ne hk], fun y => ?_⟩
  rcases happlied with hsame | ⟨x, txs, hadded⟩
  · exact entries_of_applied_eq hsame y k'
  · exact entries_add_of_ne hadded (.inr hk)

theorem step_frame {event : NetworkEvent} (hk : k' ≠ event.actionKey)
    (hstep : net.step s event = some s') :
    s'.bundles k' = s.bundles k' ∧ ∀ y, s'.entries y k' = s.entries y k' := by
  cases event with
  | start x k transactions =>
    rw [step] at hstep
    split at hstep
    · obtain rfl := Option.some.inj hstep
      exact ⟨Function.update_of_ne hk .., fun y => rfl⟩
    · cases hstep
  | deliver k index stamp =>
    obtain ⟨parcel, -, harrive⟩ := Option.bind_eq_some_iff.mp hstep
    exact changes_frame (arrive_changes harrive) hk
  | cleanup x k =>
    obtain ⟨a, -, hexit⟩ := Option.bind_eq_some_iff.mp hstep
    split at hexit
    · obtain rfl := Option.some.inj hexit
      exact ⟨Function.update_of_ne hk .., fun y => rfl⟩
    · cases hexit

end Frames

section Reactions

variable {a a' : CValidateTransactionsAction} {event : ActionEvent} {new : List CRequest}

theorem act_goes_on (hreact : a.react (net.context s x) event = some a')
    (hnew : a'.requests = a.requests ++ new) (happroved : a'.isApproved = true → a.isApproved = true)
    (hstep : net.act s x k stamp rest a event = some s') :
    ∃ parcels, net.postAll x k stamp new = some parcels ∧
      (s'.bundles k).actions = Function.update (s.bundles k).actions x (some a') ∧
      (s'.bundles k).pending = pendingOf rest ++ pendingOf parcels ∧
      ∀ y, s'.entries y k = s.entries y k := by
  obtain ⟨parcels, hparcels, rfl⟩ := act_of_not_approved hreact hnew happroved hstep
  refine ⟨parcels, hparcels, ?_, ?_, fun y => rfl⟩
  · rw [NetworkState.put]
    dsimp only
    rw [Function.update_self]
  · rw [pending, NetworkState.put]
    dsimp only
    rw [Function.update_self, pendingOf_append]

theorem act_adds (hreact : a.react (net.context s x) event = some a')
    (hnew : a'.requests = a.requests ++ new) (hbefore : a.isApproved = false)
    (hafter : a'.state = .approved)
    (hadd : ((s.managers x).addValidatedTransactionBundle net.env a'.transactions).1 =
      .returned true)
    (hstep : net.act s x k stamp rest a event = some s') :
    ∃ parcels, net.postAll x k stamp new = some parcels ∧
      (s'.bundles k).actions = Function.update (s.bundles k).actions x (some a') ∧
      (s'.bundles k).pending = pendingOf rest ++ pendingOf parcels ∧
      s'.entries x k = s.entries x k ++ [a'.transactions] ∧
      ∀ y, y ≠ x → s'.entries y k = s.entries y k := by
  obtain ⟨parcels, hparcels, hbundles, happlied⟩ := act_of_approved hreact hnew hbefore
    (by rw [isApproved, hafter]) hadd hstep
  refine ⟨parcels, hparcels, ?_, ?_, entries_add_self happlied, fun y hy =>
    entries_add_of_ne happlied (.inl hy)⟩
  · rw [hbundles, Function.update_self]
  · rw [pending, hbundles, Function.update_self, pendingOf_append]

end Reactions

/-- The phase of the bundle under a key that `A` has started. -/
def InPhase (net : TrackerNetwork) (A B : CPubKey) (s : NetworkState) (k : Uint256) : Prop :=
  net.Phase A B (s.bundles k) (s.entries A k) (s.entries B k)

/-- Whatever an action holds can be added. -/
def Ready (net : TrackerNetwork) (s : NetworkState) (k : Uint256) : Prop :=
  ∀ x a txs, (s.bundles k).actions x = some a → a.held = some txs →
    ((s.managers x).addValidatedTransactionBundle net.env txs).1 = .returned true

section Transitions

variable {txs : List CTransaction}

theorem arrive_validation (hrest : pendingOf rest = [])
    (hstep : net.arrive s k stamp rest ⟨x, .validation txs⟩ = some s') :
    (s'.bundles k).actions = (s.bundles k).actions ∧
      (∃ indexes, (s'.bundles k).pending = [⟨x, .validated indexes⟩]) ∧
      ∀ y, s'.entries y k = s.entries y k := by
  obtain rfl := Option.some.inj hstep
  refine ⟨?_, ⟨((s.managers x).validateTransactionBundle net.env txs).1.2, ?_⟩, fun y => rfl⟩
  · rw [NetworkState.put]
    dsimp only
    rw [Function.update_self]
  · rw [pending, NetworkState.put]
    dsimp only
    rw [Function.update_self, pendingOf_append, hrest]
    rfl

/-- The transactions of the clients are validated and sent to the other tracker. -/
theorem InPhase.of_started (hpair : net.Pair A B) (hrest : pendingOf rest = [])
    (hA : (s.bundles k).Has A .originInitial txs)
    (hfits : (vector CTransaction.networkCodec).Fits txs) (hB : (s.bundles k).actions B = none)
    (hentA : s.entries A k = []) (hentB : s.entries B k = []) {delivery : Delivery}
    (hdelivery : delivery.IsValidation)
    (hstep : net.arrive s k stamp rest ⟨A, delivery⟩ = some s') : net.InPhase A B s' k := by
  obtain ⟨a, ha, hstate, hexit, rfl⟩ := hA
  rcases hdelivery with ⟨txs', rfl⟩ | ⟨indexes, rfl⟩
  · obtain ⟨hactions, ⟨indexes, hpending⟩, hentries⟩ := arrive_validation hrest hstep
    rw [InPhase, hentries, hentries, hentA, hentB]
    refine .started ⟨a, ?_, hstate, hexit, rfl⟩ hfits ?_ hpending (.inr ⟨indexes, rfl⟩)
    · rw [hactions, ha]
    · rw [hactions, hB]
  · rw [arrive_validated ha] at hstep
    obtain ⟨a', hreact, -⟩ := Option.bind_eq_some_iff.mp hstep
    have hothers : (net.context s A).networkTrackers ≠ [] := by
      change net.others A ≠ []
      rw [hpair.others_left]
      exact List.cons_ne_nil _ _
    rcases react_originInitial_cases hstate hothers hreact with
      ⟨hstate', hnew⟩ | ⟨hstate', hexit', htxs, hnew⟩
    · obtain ⟨parcels, hparcels, hactions, hpending, hentries⟩ := act_goes_on hreact hnew
        (by simp [isApproved, hstate']) hstep
      cases hparcels
      rw [InPhase, hentries, hentries, hentA, hentB]
      refine .rejected (fun b hb => ?_) (fun b hb => ?_) ?_
      · rw [hactions, Function.update_self] at hb
        cases hb
        exact hstate'
      · rw [hactions, Function.update_of_ne hpair.ne.symm, hB] at hb
        cases hb
      · rw [hpending, hrest]
        rfl
    · obtain ⟨parcels, hparcels, hactions, hpending, hentries⟩ := act_goes_on hreact hnew
        (by simp [isApproved, hstate']) hstep
      obtain ⟨first, others, hfirst, hothers, rfl⟩ := postAll_cons hparcels
      cases postAll_singleton hothers
      obtain ⟨message, hsent, rfl⟩ := post_sendTransactions hpair.honest hpair.left hfirst
      rw [InPhase, hentries, hentries, hentA, hentB]
      refine .asked ⟨a', ?_, ?_, ?_, rfl⟩ ?_ ?_ ?_ hsent
      · rw [hactions, Function.update_self]
      · rw [hstate', activePartners_context hpair.others_left]
      · rw [hexit', hexit]
      · rw [htxs]
        exact fits_dropInvalid hfits indexes
      · rw [hactions, Function.update_of_ne hpair.ne.symm, hB]
      · rw [hpending, hrest, send_trackers hpair.others_left]
        rfl

theorem InPhase.of_asked (hpair : net.Pair A B) (hrest : pendingOf rest = [])
    (hA : (s.bundles k).Has A (.propagateBundle {B.getID net.env.hashes}) txs)
    (hfits : (vector CTransaction.networkCodec).Fits txs) (hB : (s.bundles k).actions B = none)
    (hentA : s.entries A k = []) (hentB : s.entries B k = []) {message : CMessage}
    (hsent : net.Sent A .transactions ((vector CTransaction.networkCodec).encode txs) message)
    (hstep : net.arrive s k stamp rest ⟨B, .message A message⟩ = some s') :
    net.InPhase A B s' k := by
  rw [arrive_transactions hB hsent.kind] at hstep
  obtain ⟨b, hreact, -⟩ := Option.bind_eq_some_iff.mp hstep
  obtain ⟨original, txs', hunwound, hread, hstate, hexit, htxs, hinitiator, hmessage, hnew⟩ :=
    react_passBundle_message rfl hreact
  obtain rfl : message = original := by
    have hsame := hsent.unwindMessage.symm.trans hunwound
    exact Option.some.inj (Option.some.inj hsame)
  obtain rfl : txs = txs' := by
    rw [hsent.payload, readBundle_encode hfits] at hread
    exact Option.some.inj hread
  obtain ⟨parcels, hparcels, hactions, hpending, hentries⟩ := act_goes_on hreact hnew
    (by simp [isApproved, hstate]) hstep
  obtain ⟨first, others, hfirst, hothers, rfl⟩ := postAll_cons hparcels
  cases postAll_singleton hothers
  cases hfirst
  obtain ⟨a, ha, hA⟩ := hA
  rw [InPhase, hentries, hentries, hentA, hentB]
  refine .answered ⟨a, ?_, hA⟩ ⟨b, message, ?_, hstate, hexit, htxs, hinitiator, hmessage⟩ ?_
    (.inl ⟨txs, rfl⟩)
  · rw [hactions, Function.update_of_ne hpair.ne, ha]
  · rw [hactions, Function.update_self]
  · rw [hpending, hrest, getMediums_byKey hpair.others_right]
    rfl

theorem InPhase.of_answered (hpair : net.Pair A B) (hrest : pendingOf rest = [])
    (hA : (s.bundles k).Has A (.propagateBundle {B.getID net.env.hashes}) txs)
    (hB : (s.bundles k).Receives B A .passBundle txs)
    (hentA : s.entries A k = []) (hentB : s.entries B k = []) {delivery : Delivery}
    (hdelivery : delivery.IsValidation)
    (hstep : net.arrive s k stamp rest ⟨B, delivery⟩ = some s') : net.InPhase A B s' k := by
  obtain ⟨a, ha, hA⟩ := hA
  obtain ⟨b, message, hb, hstate, hexit, rfl, rfl, hmessage⟩ := hB
  rcases hdelivery with ⟨txs', rfl⟩ | ⟨indexes, rfl⟩
  · obtain ⟨hactions, ⟨indexes, hpending⟩, hentries⟩ := arrive_validation hrest hstep
    rw [InPhase, hentries, hentries, hentA, hentB]
    refine .answered ⟨a, ?_, hA⟩ ⟨b, message, ?_, hstate, hexit, rfl, rfl, hmessage⟩ hpending
      (.inr ⟨indexes, rfl⟩)
    · rw [hactions, ha]
    · rw [hactions, hb]
  · rw [arrive_validated hb] at hstep
    obtain ⟨b', hreact, -⟩ := Option.bind_eq_some_iff.mp hstep
    obtain ⟨htxs, hinitiator, hmessage', ⟨hstate', hnew⟩ | ⟨hstate', hexit', hnew⟩⟩ :=
      react_passBundle_validation hstate hmessage hreact
    · obtain ⟨parcels, hparcels, hactions, hpending, hentries⟩ := act_goes_on hreact hnew
        (by simp [isApproved, hstate']) hstep
      obtain ⟨answer, hsent, rfl⟩ := post_sendStatus hpair.honest hpair.right
        (postAll_singleton hparcels)
      rw [InPhase, hentries, hentries, hentA, hentB]
      refine .refused ⟨a, ?_, hA⟩ (fun c hc => ?_) ?_ hsent
      · rw [hactions, Function.update_of_ne hpair.ne, ha]
      · rw [hactions, Function.update_self] at hc
        cases hc
        exact hstate'
      · rw [hpending, hrest, send_byKey hpair.others_right]
        rfl
    · obtain ⟨parcels, hparcels, hactions, hpending, hentries⟩ := act_goes_on hreact hnew
        (by simp [isApproved, hstate']) hstep
      obtain ⟨first, others, hfirst, hothers, rfl⟩ := postAll_cons hparcels
      cases postAll_singleton hothers
      obtain ⟨wrapped, -, rfl⟩ := post_forward hfirst
      rw [InPhase, hentries, hentries, hentA, hentB]
      refine .alone ⟨a, ?_, hA⟩ ⟨b', message, ?_, hstate', ?_, htxs, hinitiator, ?_⟩ ?_
      · rw [hactions, Function.update_of_ne hpair.ne, ha]
      · rw [hactions, Function.update_self]
      · rw [hexit', hexit]
      · rw [hmessage', hmessage]
      · rw [hpending, hrest, context_hashes, send_trackersExcept hpair.others_right
          (Finset.mem_singleton_self _)]
        rfl

theorem InPhase.of_alone (hpair : net.Pair A B) (hrest : pendingOf rest = [])
    (hA : (s.bundles k).Has A (.propagateBundle {B.getID net.env.hashes}) txs)
    {validate partners : Finset CKeyID}
    (hB : (s.bundles k).Receives B A
      (.broadcastBundle {A.getID net.env.hashes} validate partners) txs)
    (hentA : s.entries A k = []) (hentB : s.entries B k = [])
    (hstep : net.arrive s k stamp rest ⟨B, .noMedium⟩ = some s') : net.InPhase A B s' k := by
  obtain ⟨a, ha, hA⟩ := hA
  obtain ⟨b, message, hb, hstate, hexit, rfl, rfl, hmessage⟩ := hB
  rw [arrive_noMedium hb] at hstep
  obtain ⟨b', hreact, -⟩ := Option.bind_eq_some_iff.mp hstep
  obtain ⟨hstate', hexit', htxs, hinitiator, hmessage', hnew⟩ :=
    react_broadcastBundle_noMedium hstate hreact
  obtain ⟨parcels, hparcels, hactions, hpending, hentries⟩ := act_goes_on hreact hnew
    (by simp [isApproved, hstate']) hstep
  obtain ⟨first, others, hfirst, hothers, rfl⟩ := postAll_cons hparcels
  cases postAll_singleton hothers
  obtain ⟨answer, hsent, rfl⟩ := post_sendStatus hpair.honest hpair.right hfirst
  rw [InPhase, hentries, hentries, hentA, hentB]
  refine .validated ⟨a, ?_, hA⟩
    ⟨b', message, ?_, hstate', ?_, htxs, hinitiator, ?_⟩ ?_ hsent
  · rw [hactions, Function.update_of_ne hpair.ne, ha]
  · rw [hactions, Function.update_self]
  · rw [hexit', hexit]
  · rw [hmessage', hmessage]
  · rw [hpending, hrest, send_nodes hpair.others_right]
    rfl

theorem InPhase.of_validated (hpair : net.Pair A B) (hready : net.Ready s k)
    (hrest : pendingOf rest = [])
    (hA : (s.bundles k).Has A (.propagateBundle {B.getID net.env.hashes}) txs)
    {exceptions : Finset CKeyID} (hB : (s.bundles k).Receives B A (.passBundleValidate exceptions) txs)
    (hentA : s.entries A k = []) (hentB : s.entries B k = []) {message : CMessage}
    (hsent : net.Sent B .statusTransactions (int32.encode CBundleStatus.validated.toInt) message)
    (hstep : net.arrive s k stamp rest ⟨A, .message B message⟩ = some s') :
    net.InPhase A B s' k := by
  obtain ⟨a, ha, hstate, hexit, rfl⟩ := hA
  obtain ⟨b, bundle, hb, hB⟩ := hB
  rw [arrive_status ha hsent.kind] at hstep
  obtain ⟨a', hreact, -⟩ := Option.bind_eq_some_iff.mp hstep
  have hadd := hready A a a.transactions ha (by rw [held, hstate])
  have hlast : {B.getID net.env.hashes} \ (net.context s A).keyIds {B} = ∅ := by
    rw [keyIds_singleton, sdiff_self]
    rfl
  obtain ⟨hstate', htxs, hnew⟩ := react_propagateBundle_validated hstate (hsent.unwind s A)
    (by rw [hsent.payload, readStatus_encode]) hlast (decide_eq_true hadd) hreact
  obtain ⟨parcels, hparcels, hactions, hpending, hentry, hentries⟩ := act_adds hreact hnew
    (by rw [isApproved, hstate]) hstate' (by rw [htxs]; exact hadd) hstep
  obtain ⟨first, others, hfirst, hothers, rfl⟩ := postAll_cons hparcels
  obtain ⟨answer, hconfirmed, rfl⟩ := post_sendStatus hpair.honest hpair.left hfirst
  cases postAll_singleton hothers
  have hafter : (s'.bundles k).pending = ⟨B, .message A answer⟩ ::
      pendingOf [⟨A, if stamp.monitored then .ack else .noMedium⟩] := by
    rw [hpending, hrest, send_trackers hpair.others_left, List.nil_append, pendingOf_append]
    rfl
  rw [InPhase, hentry, hentries B hpair.ne.symm, hentA, hentB, htxs, List.nil_append]
  refine .confirmed (fun c hc => ?_) ⟨b, bundle, ?_, hB⟩ hafter (fun p hp => ?_) hconfirmed
  · rw [hactions, Function.update_self] at hc
    cases hc
    exact hstate'
  · rw [hactions, Function.update_of_ne hpair.ne.symm, hb]
  · have hnoAck : p.delivery ≠ .ack := of_decide_eq_true (List.mem_filter.mp hp).2
    have hmem := List.mem_of_mem_filter hp
    rw [List.mem_singleton] at hmem
    subst hmem
    cases hmonitored : stamp.monitored with
    | false => rfl
    | true =>
      rw [hmonitored] at hnoAck
      exact absurd rfl hnoAck

theorem InPhase.of_refused (hpair : net.Pair A B) (hrest : pendingOf rest = [])
    (hA : (s.bundles k).Has A (.propagateBundle {B.getID net.env.hashes}) txs)
    (hB : (s.bundles k).Over B .passBundleInvalidate)
    (hentA : s.entries A k = []) (hentB : s.entries B k = []) {message : CMessage}
    (hsent : net.Sent B .statusTransactions (int32.encode CBundleStatus.notValid.toInt) message)
    (hstep : net.arrive s k stamp rest ⟨A, .message B message⟩ = some s') :
    net.InPhase A B s' k := by
  obtain ⟨a, ha, hstate, -, -⟩ := hA
  rw [arrive_status ha hsent.kind] at hstep
  obtain ⟨a', hreact, -⟩ := Option.bind_eq_some_iff.mp hstep
  obtain ⟨hstate', hnew⟩ := react_propagateBundle_notValid hstate (hsent.unwind s A)
    (by rw [hsent.payload, readStatus_encode]) hreact
  obtain ⟨parcels, hparcels, hactions, hpending, hentries⟩ := act_goes_on hreact hnew
    (by simp [isApproved, hstate']) hstep
  cases hparcels
  rw [InPhase, hentries, hentries, hentA, hentB]
  refine .rejected (fun c hc => ?_) (fun c hc => hB c ?_) ?_
  · rw [hactions, Function.update_self] at hc
    cases hc
    exact hstate'
  · rwa [hactions, Function.update_of_ne hpair.ne.symm] at hc
  · rw [hpending, hrest]
    rfl

theorem InPhase.of_confirmed (hpair : net.Pair A B) (hready : net.Ready s k)
    (hrest : ∀ p ∈ pendingOf rest, p = ⟨A, .noMedium⟩) (hA : (s.bundles k).Over A .approved)
    {exceptions : Finset CKeyID} (hB : (s.bundles k).Receives B A (.passBundleValidate exceptions) txs)
    (hentA : s.entries A k = [txs]) (hentB : s.entries B k = []) {message : CMessage}
    (hsent : net.Sent A .statusTransactions (int32.encode CBundleStatus.confirmed.toInt) message)
    (hstep : net.arrive s k stamp rest ⟨B, .message A message⟩ = some s') :
    net.InPhase A B s' k := by
  obtain ⟨b, bundle, hb, hstate, hexit, rfl, -⟩ := hB
  rw [arrive_status hb hsent.kind] at hstep
  obtain ⟨b', hreact, -⟩ := Option.bind_eq_some_iff.mp hstep
  have hadd := hready B b b.transactions hb (by rw [held, hstate])
  obtain ⟨hstate', htxs, hnew⟩ := react_passBundleValidate_confirmed hstate hsent.kind
    (hsent.unwind s B) (by rw [hsent.payload, readStatus_encode]) (decide_eq_true hadd) hreact
  obtain ⟨parcels, hparcels, hactions, hpending, hentry, hentries⟩ := act_adds hreact hnew
    (by rw [isApproved, hstate]) hstate' (by rw [htxs]; exact hadd) hstep
  obtain ⟨first, others, hfirst, hothers, rfl⟩ := postAll_cons hparcels
  obtain ⟨second, last, hsecond, hlast, rfl⟩ := postAll_cons hothers
  cases hfirst
  obtain ⟨wrapped, -, rfl⟩ := post_forward hsecond
  cases postAll_singleton hlast
  have halone : A.getID net.env.hashes ∈ exceptions ∪ (net.context s B).keyIds {A} := by
    rw [keyIds_singleton]
    exact Finset.mem_union_right _ (Finset.mem_singleton_self _)
  rw [InPhase, hentry, hentries A hpair.ne, hentA, hentB, htxs, List.nil_append]
  refine .done (fun c hc => hA c ?_) (fun c hc => ?_) fun p hp => ?_
  · rwa [hactions, Function.update_of_ne hpair.ne] at hc
  · rw [hactions, Function.update_self] at hc
    cases hc
    exact hstate'
  · rw [hpending, getMediums_byKey hpair.others_right, send_trackersExcept hpair.others_right halone,
      List.mem_append] at hp
    rcases hp with hp | hp
    · exact .inl (hrest p hp)
    · have hnoAck : p.delivery ≠ .ack := of_decide_eq_true (List.mem_filter.mp hp).2
      have hmem := List.mem_of_mem_filter hp
      simp only [List.map_singleton, List.cons_append, List.nil_append, List.mem_cons,
        List.not_mem_nil, or_false] at hmem
      rcases hmem with rfl | rfl | rfl
      · exact absurd rfl hnoAck
      · exact .inr rfl
      · cases hmonitored : stamp.monitored with
        | false => exact .inr rfl
        | true =>
          rw [hmonitored] at hnoAck
          exact absurd rfl hnoAck

theorem settles_of_noMedium (hover : (s.bundles k).Over x .approved)
    (hstep : net.arrive s k stamp rest ⟨x, .noMedium⟩ = some s') :
    (s.bundles k).Settles (s'.bundles k) ∧ (s'.bundles k).pending = pendingOf rest ∧
      ∀ y, s'.entries y k = s.entries y k := by
  cases ha : (s.bundles k).actions x with
  | some a =>
    rw [arrive_noMedium ha] at hstep
    obtain ⟨a', hreact, -⟩ := Option.bind_eq_some_iff.mp hstep
    have hstate := hover a ha
    obtain ⟨hstate', happroved, hnew⟩ := react_approved_noMedium hstate hreact
    obtain ⟨parcels, hparcels, hactions, hpending, hentries⟩ := act_goes_on hreact hnew
      (fun h => happroved ▸ h) hstep
    cases hparcels
    refine ⟨fun y => ?_, hpending.trans (List.append_nil _), hentries⟩
    rw [hactions]
    by_cases hy : y = x
    · subst hy
      exact .inr (.inl ⟨a, a', ha, hstate, Function.update_self .., hstate'⟩)
    · exact .inl (Function.update_of_ne hy _ _)
  | none =>
    rw [arrive] at hstep
    dsimp only at hstep
    rw [ha] at hstep
    obtain rfl := Option.some.inj hstep
    refine ⟨fun y => .inl ?_, ?_, fun y => rfl⟩
    · rw [NetworkState.put]
      dsimp only
      rw [Function.update_self]
    · rw [pending, NetworkState.put]
      dsimp only
      rw [Function.update_self]

theorem settles_of_ack (hstep : net.arrive s k stamp rest ⟨x, .ack⟩ = some s') :
    (s.bundles k).Settles (s'.bundles k) ∧ (s'.bundles k).pending = pendingOf rest ∧
      ∀ y, s'.entries y k = s.entries y k := by
  cases ha : (s.bundles k).actions x with
  | some a =>
    rw [arrive_ack ha] at hstep
    obtain ⟨a', hreact, -⟩ := Option.bind_eq_some_iff.mp hstep
    obtain ⟨hnew, happroved, hsame⟩ := react_ack hreact
    obtain ⟨parcels, hparcels, hactions, hpending, hentries⟩ := act_goes_on hreact hnew
      (fun h => happroved ▸ h) hstep
    cases hparcels
    refine ⟨fun y => ?_, hpending.trans (List.append_nil _), hentries⟩
    rw [hactions]
    by_cases hy : y = x
    · subst hy
      rcases hsame with rfl | ⟨hstate, hstate'⟩
      · exact .inl (by rw [Function.update_self, ha])
      · exact .inr (.inl ⟨a, a', ha, hstate, Function.update_self .., hstate'⟩)
    · exact .inl (Function.update_of_ne hy _ _)
  | none =>
    rw [arrive] at hstep
    dsimp only at hstep
    rw [ha] at hstep
    obtain rfl := Option.some.inj hstep
    refine ⟨fun y => .inl ?_, ?_, fun y => rfl⟩
    · rw [NetworkState.put]
      dsimp only
      rw [Function.update_self]
    · rw [pending, NetworkState.put]
      dsimp only
      rw [Function.update_self]

/-- Whatever arrives, the bundle goes on in its phase or to the next one. -/
theorem InPhase.arrive (hpair : net.Pair A B) (hready : net.Ready s k) (hphase : net.InPhase A B s k)
    {index : ℕ} {parcel : Parcel} (hparcel : (s.bundles k).underWay[index]? = some parcel)
    (hstep : net.arrive s k stamp ((s.bundles k).underWay.eraseIdx index) parcel = some s') :
    net.InPhase A B s' k := by
  -- an acknowledgement leaves the phase as it is
  have hack : parcel.delivery = .ack →
      pendingOf ((s.bundles k).underWay.eraseIdx index) = (s.bundles k).pending →
      net.InPhase A B s' k := by
    intro hdelivery hsame
    obtain ⟨x, delivery⟩ := parcel
    obtain rfl : delivery = .ack := hdelivery
    obtain ⟨hsettles, hpending, hentries⟩ := settles_of_ack hstep
    rw [InPhase, hentries, hentries]
    exact hphase.settles hsettles (hpending.trans hsame)
  have hsingle : ∀ p, (s.bundles k).pending = [p] →
      net.InPhase A B s' k ∨ parcel = p ∧ pendingOf ((s.bundles k).underWay.eraseIdx index) = [] := by
    intro p hp
    rcases pendingOf_eraseIdx_of_singleton hparcel hp with ⟨hdelivery, hsame⟩ | hother
    · exact .inl (hack hdelivery (hsame.trans hp.symm))
    · exact .inr hother
  have hcase := hphase
  rw [InPhase] at hcase
  generalize hentA : s.entries A k = atA at hcase
  generalize hentB : s.entries B k = atB at hcase
  cases hcase with
  | started hA hfits hB hpending hdelivery =>
    rcases hsingle _ hpending with hdone | ⟨rfl, hrest⟩
    · exact hdone
    · exact .of_started hpair hrest hA hfits hB hentA hentB hdelivery hstep
  | asked hA hfits hB hpending hsent =>
    rcases hsingle _ hpending with hdone | ⟨rfl, hrest⟩
    · exact hdone
    · exact .of_asked hpair hrest hA hfits hB hentA hentB hsent hstep
  | answered hA hB hpending hdelivery =>
    rcases hsingle _ hpending with hdone | ⟨rfl, hrest⟩
    · exact hdone
    · exact .of_answered hpair hrest hA hB hentA hentB hdelivery hstep
  | alone hA hB hpending =>
    rcases hsingle _ hpending with hdone | ⟨rfl, hrest⟩
    · exact hdone
    · exact .of_alone hpair hrest hA hB hentA hentB hstep
  | validated hA hB hpending hsent =>
    rcases hsingle _ hpending with hdone | ⟨rfl, hrest⟩
    · exact hdone
    · exact .of_validated hpair hready hrest hA hB hentA hentB hsent hstep
  | refused hA hB hpending hsent =>
    rcases hsingle _ hpending with hdone | ⟨rfl, hrest⟩
    · exact hdone
    · exact .of_refused hpair hrest hA hB hentA hentB hsent hstep
  | rejected hA hB hpending =>
    rcases pendingOf_eraseIdx hparcel with ⟨hdelivery, hsame⟩ | ⟨-, before, after, hall, -⟩
    · exact hack hdelivery hsame
    · rw [pending] at hpending
      rw [hpending] at hall
      cases (List.append_eq_nil_iff.mp hall.symm).2
  | @confirmed txs message exceptions others hA hB hpending hothers hsent =>
    rcases pendingOf_eraseIdx hparcel with ⟨hdelivery, hsame⟩ | ⟨-, before, after, hall, hrest⟩
    · exact hack hdelivery hsame
    · rw [pending] at hpending
      rw [hpending] at hall
      rcases List.cons_eq_append_iff.mp hall with ⟨rfl, hcons⟩ | ⟨before', rfl, htail⟩
      · obtain ⟨rfl, rfl⟩ := List.cons_eq_cons.mp hcons
        exact .of_confirmed hpair hready (by rw [hrest]; exact hothers) hA hB hentA hentB hsent hstep
      · -- the tracker that has started the bundle hears that it has no monitor
        have hmem : parcel ∈ others := by
          rw [htail]
          exact List.mem_append_right _ List.mem_cons_self
        obtain rfl := hothers parcel hmem
        obtain ⟨hsettles, hpending', hentries⟩ := settles_of_noMedium hA hstep
        rw [InPhase, hentries, hentries, hentA, hentB]
        refine .confirmed (hA.settles hsettles) (hB.settles nofun hsettles) (hpending'.trans hrest)
          (fun p hp => hothers p ?_) hsent
        rw [htail]
        exact (List.mem_append.mp hp).elim (List.mem_append_left _) fun hp =>
          List.mem_append_right _ (List.mem_cons_of_mem _ hp)
  | done hA hB hpending =>
    rcases pendingOf_eraseIdx hparcel with ⟨hdelivery, hsame⟩ | ⟨-, before, after, hall, hrest⟩
    · exact hack hdelivery hsame
    · have hmem : ∀ p ∈ before ++ parcel :: after, p = ⟨A, .noMedium⟩ ∨ p = ⟨B, .noMedium⟩ := by
        rw [← hall]
        exact hpending
      have hsettled : (s.bundles k).Settles (s'.bundles k) ∧
          (s'.bundles k).pending = pendingOf ((s.bundles k).underWay.eraseIdx index) ∧
          ∀ y, s'.entries y k = s.entries y k := by
        rcases hmem parcel (List.mem_append_right _ List.mem_cons_self) with rfl | rfl
        · exact settles_of_noMedium hA hstep
        · exact settles_of_noMedium hB hstep
      obtain ⟨hsettles, hpending', hentries⟩ := hsettled
      rw [InPhase, hentries, hentries, hentA, hentB]
      refine .done (hA.settles hsettles) (hB.settles hsettles) fun p hp => hmem p ?_
      rw [hpending', hrest] at hp
      exact (List.mem_append.mp hp).elim (List.mem_append_left _) fun hp =>
        List.mem_append_right _ (List.mem_cons_of_mem _ hp)

end Transitions

end TrackerNetwork

end Dims

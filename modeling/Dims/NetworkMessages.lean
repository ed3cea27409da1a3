import Dims.ConcurrentBundles

/-!
# The messages of the trackers

What a tracker sends is unwound by its receivers to what was sent, and what one reaction puts
under way is read off the requests that it has added.
-/

namespace Dims
open ByteCodec Serialize

namespace TrackerNetwork
open CValidateTransactionsAction

variable {net : TrackerNetwork} {s s' : NetworkState} {x y : CPubKey} {k : Uint256} {stamp : Stamp}
  {rest parcels : List Parcel}

section Sent

/-- A message that the tracker has signed, with nothing inside it. -/
structure Sent (net : TrackerNetwork) (x : CPubKey) (kind : CPayloadKind) (payload : Bytes)
    (message : CMessage) : Prop where
  kind : message.header.payloadKind = kind.toInt
  payload : message.payload = payload
  last : message.header.prevKey.isValid = false
  signed : verifyPayload net.env.hashes net.signatures x message = some true

theorem sent_ofPayload (hnet : net.Honest) (hx : x ∈ net.trackers) {kind : CPayloadKind}
    {payload : Bytes} {id : Uint256} {time : Int64} {message : CMessage}
    (h : CMessage.ofPayload net.env.hashes ⟨x, net.sign x⟩ kind.toInt payload k id time =
      some message) : Sent net x kind payload message := by
  obtain ⟨signedHash, hsigned, rfl⟩ := Option.map_eq_some_iff.mp h
  obtain ⟨hash, hhash, rfl⟩ := Option.map_eq_some_iff.mp hsigned
  refine ⟨rfl, rfl, CPubKey.isValid_invalid, ?_⟩
  rw [verifyPayload, hhash, Option.map_some, hnet.verifies x hx hash]

variable {kind : CPayloadKind} {payload : Bytes} {message : CMessage}

theorem Sent.check (h : Sent net x kind payload message) :
    checkLayer net.env.hashes net.signatures x message = some true := by
  rw [checkLayer]
  split
  · exact h.signed
  · rfl

theorem Sent.unwindMessage (h : Sent net x kind payload message) :
    unwindMessage net.env.hashes net.signatures message x = some (some message) := by
  rw [Dims.unwindMessage, h.check]
  simp [h.last]

theorem Sent.unwind (h : Sent net x kind payload message) (s : NetworkState) (y : CPubKey) :
    (net.context s y).unwind message x = some (message, {x}) :=
  unwindAsserted_of_last net.env.hashes net.signatures h.last h.check

theorem context_hashes (net : TrackerNetwork) (s : NetworkState) (x : CPubKey) :
    (net.context s x).hashes = net.env.hashes := rfl

theorem keyIds_singleton (s : NetworkState) (x y : CPubKey) :
    (net.context s y).keyIds {x} = {x.getID net.env.hashes} := Finset.image_singleton _ _

theorem readStatus_encode (status : CBundleStatus) :
    readStatus (int32.encode status.toInt) = some status.toInt := by
  have hdecode := int32.decode_encode status.toInt [] (int32_fits _)
  rw [List.append_nil] at hdecode
  rw [readStatus, hdecode, Option.map_some]

theorem readBundle_encode {txs : List CTransaction}
    (hfits : (vector CTransaction.networkCodec).Fits txs) :
    readBundle ((vector CTransaction.networkCodec).encode txs) = some txs := by
  have hdecode := (vector CTransaction.networkCodec).decode_encode txs [] hfits
  rw [List.append_nil] at hdecode
  rw [readBundle, hdecode, Option.map_some]

theorem fits_dropInvalid {txs : List CTransaction}
    (hfits : (vector CTransaction.networkCodec).Fits txs) (invalidTransactions : List ℕ) :
    (vector CTransaction.networkCodec).Fits
      (CTransactionRecordManager.dropInvalid txs invalidTransactions) := by
  have hsublist : List.Sublist (CTransactionRecordManager.dropInvalid txs invalidTransactions) txs := by
    have hfilter := (List.filter_sublist (l := txs.zipIdx)
      (p := fun p => decide (p.2 ∉ invalidTransactions))).map Prod.fst
    rwa [List.zipIdx_map_fst] at hfilter
  exact ⟨hsublist.length_le.trans hfits.1, fun tx htx => hfits.2 tx (hsublist.subset htx)⟩

end Sent

section Posting

theorem postAll_cons {request : CRequest} {requests : List CRequest}
    (h : net.postAll x k stamp (request :: requests) = some parcels) :
    ∃ first others, net.post x k stamp request = some first ∧
      net.postAll x k stamp requests = some others ∧ parcels = first ++ others := by
  obtain ⟨lists, hlists, rfl⟩ := Option.map_eq_some_iff.mp h
  rw [List.mapM_cons] at hlists
  obtain ⟨first, hfirst, hrest⟩ := Option.bind_eq_some_iff.mp hlists
  obtain ⟨tail, htail, heq⟩ := Option.bind_eq_some_iff.mp hrest
  obtain rfl := Option.some.inj heq
  refine ⟨first, tail.flatten, hfirst, ?_, List.flatten_cons⟩
  rw [postAll, htail, Option.map_some]

theorem postAll_singleton {request : CRequest}
    (h : net.postAll x k stamp [request] = some parcels) :
    net.post x k stamp request = some parcels := by
  obtain ⟨first, others, hfirst, hothers, rfl⟩ := postAll_cons h
  obtain rfl : [] = others := Option.some.inj hothers
  rwa [List.append_nil]

theorem send_of_nil {filter : CMediumFilter} (h : net.getMediums x filter = [])
    (message : CMessage) : net.send x filter message = [⟨x, .noMedium⟩] := by
  rw [send, h]

theorem send_of_ne {filter : CMediumFilter} (h : net.getMediums x filter ≠ [])
    (message : CMessage) :
    net.send x filter message =
      (net.getMediums x filter).map fun y => ⟨y, .message x message⟩ := by
  rw [send]
  split
  next hnil => exact absurd hnil h
  next => rfl

theorem post_sendStatus (hnet : net.Honest) (hx : x ∈ net.trackers) {status : CBundleStatus}
    {respondsTo : Option Uint256} {filter : CMediumFilter}
    (h : net.post x k stamp (.sendStatus status respondsTo filter) = some parcels) :
    ∃ message, Sent net x .statusTransactions (int32.encode status.toInt) message ∧
      parcels = net.send x filter message := by
  rw [post] at h
  obtain ⟨message, hmessage, rfl⟩ := Option.map_eq_some_iff.mp h
  exact ⟨message, sent_ofPayload hnet hx hmessage, rfl⟩

theorem post_sendTransactions (hnet : net.Honest) (hx : x ∈ net.trackers)
    {txs : List CTransaction}
    (h : net.post x k stamp (.sendTransactions txs .trackers) = some parcels) :
    ∃ message, Sent net x .transactions ((vector CTransaction.networkCodec).encode txs) message ∧
      parcels = net.send x .trackers message := by
  obtain ⟨message, hmessage, rfl⟩ := Option.map_eq_some_iff.mp h
  exact ⟨message, sent_ofPayload hnet hx hmessage, rfl⟩

theorem post_forward {message : CMessage} {prevKey : CPubKey} {filter : CMediumFilter}
    (h : net.post x k stamp (.forward message prevKey filter) = some parcels) :
    ∃ wrapped : CMessage, wrapped.header.payloadKind = message.header.payloadKind ∧
      parcels = net.send x filter wrapped := by
  rw [post] at h
  obtain ⟨wrapped, hwrapped, rfl⟩ := Option.map_eq_some_iff.mp h
  obtain ⟨signedHash, -, rfl⟩ := Option.map_eq_some_iff.mp hwrapped
  refine ⟨_, ?_, rfl⟩
  rfl

end Posting

section Acting

variable {a a' : CValidateTransactionsAction} {event : ActionEvent} {new : List CRequest}

theorem act_of_not_approved (hreact : a.react (net.context s x) event = some a')
    (hnew : a'.requests = a.requests ++ new) (happroved : a'.isApproved = true → a.isApproved = true)
    (hstep : net.act s x k stamp rest a event = some s') :
    ∃ parcels, net.postAll x k stamp new = some parcels ∧
      s' = s.put k ⟨(s.bundles k).initiator, Function.update (s.bundles k).actions x (some a'),
        rest ++ parcels⟩ := by
  rw [act, hreact, Option.bind_some, hnew, List.drop_left] at hstep
  obtain ⟨parcels, hparcels, hresult⟩ := Option.bind_eq_some_iff.mp hstep
  dsimp only at hresult
  rw [if_neg fun hboth => hboth.2 (happroved hboth.1)] at hresult
  exact ⟨parcels, hparcels, (Option.some.inj hresult).symm⟩

theorem act_of_approved (hreact : a.react (net.context s x) event = some a')
    (hnew : a'.requests = a.requests ++ new) (hbefore : a.isApproved = false)
    (hafter : a'.isApproved = true)
    (hadd : ((s.managers x).addValidatedTransactionBundle net.env a'.transactions).1 =
      .returned true)
    (hstep : net.act s x k stamp rest a event = some s') :
    ∃ parcels, net.postAll x k stamp new = some parcels ∧
      s'.bundles = Function.update s.bundles k ⟨(s.bundles k).initiator,
        Function.update (s.bundles k).actions x (some a'), rest ++ parcels⟩ ∧
      s'.applied = Function.update s.applied x (s.applied x ++ [(k, a'.transactions)]) := by
  rw [act, hreact, Option.bind_some, hnew, List.drop_left] at hstep
  obtain ⟨parcels, hparcels, hresult⟩ := Option.bind_eq_some_iff.mp hstep
  dsimp only at hresult
  rw [if_pos ⟨hafter, by rw [hbefore]; exact Bool.false_ne_true⟩] at hresult
  rcases hadded : (s.managers x).addValidatedTransactionBundle net.env a'.transactions with
    ⟨result, manager⟩
  rw [hadded] at hadd hresult
  obtain rfl : result = .returned true := hadd
  obtain rfl := Option.some.inj hresult
  exact ⟨parcels, hparcels, rfl, rfl⟩

end Acting

end TrackerNetwork

end Dims

import Dims.NetworkMessages

/-!
# How a bundle passes between two trackers

In a network of two trackers a bundle goes through phases: which actions there are and in which
states, and what is under way between them. An action that is asked has no further tracker to
tell, so that it validates at once. In every phase the bundle has been added by both trackers, by
none, or by the tracker that started it while the other one waits for the confirmation.
-/

namespace Dims
open ByteCodec Serialize

namespace CValidateTransactionsAction

variable {env : NodeContext} {a a' : CValidateTransactionsAction} {message : CMessage}
  {pubKey : CPubKey}

section Reactions

theorem requests_enterApproved (h : env.addBundle a.transactions = true) :
    (a.enterApproved env).requests =
      a.requests ++ [.sendTransactions a.transactions .monitors] := by
  rw [enterApproved, if_pos h]
  rfl

theorem react_originInitial_cases {indexes : List ℕ} (hstate : a.state = .originInitial)
    (hothers : env.networkTrackers ≠ []) (hreact : a.react env (.validation indexes) = some a') :
    a'.state = .rejected ∧ a'.requests = a.requests ++ [] ∨
      a'.state = .propagateBundle env.activePartners ∧ a'.exit = a.exit ∧
        a'.transactions = CTransactionRecordManager.dropInvalid a.transactions indexes ∧
        a'.requests = a.requests ++
          [.sendTransactions a'.transactions .trackers, .timeEvent propagateWaitTime] := by
  rw [react, hstate] at hreact
  obtain ⟨invalid, -, rfl⟩ := Option.map_eq_some_iff.mp hreact
  dsimp only
  by_cases hkept : CTransactionRecordManager.dropInvalid a.transactions indexes = []
  · rw [if_pos hkept]
    exact .inl ⟨rfl, (List.append_nil _).symm⟩
  · rw [if_neg hkept, if_pos hothers]
    exact .inr ⟨rfl, rfl, rfl, rfl⟩

theorem react_passBundle_message (hstate : a.state = .passBundle)
    (hreact : a.react env (.messageResult message pubKey) = some a') :
    ∃ original txs,
      unwindMessage env.hashes env.signatures message pubKey = some (some original) ∧
      readBundle original.payload = some txs ∧ a'.state = .passBundle ∧ a'.exit = a.exit ∧
      a'.transactions = txs ∧ a'.initiatingNodeKey = pubKey ∧
      a'.transactionsMessage = some message ∧
      a'.requests = a.requests ++
        [.ack message.header.id (.byKey pubKey), .validateTransactions txs] := by
  have hresult : a.reactPassBundle env (.messageResult message pubKey) = some a' := by
    rwa [react, hstate] at hreact
  obtain ⟨unwound, hunwound, hrest⟩ := Option.bind_eq_some_iff.mp hresult
  obtain ⟨original, rfl, hrest⟩ := Option.bind_eq_some_iff.mp hrest
  obtain ⟨txs, hread, rfl⟩ := Option.map_eq_some_iff.mp hrest
  exact ⟨original, txs, hunwound, hread, hstate, rfl, rfl, rfl, rfl, rfl⟩

theorem react_passBundle_validation {indexes : List ℕ} (hstate : a.state = .passBundle)
    (hmessage : a.transactionsMessage = some message)
    (hreact : a.react env (.validation indexes) = some a') :
    a'.transactions = a.transactions ∧ a'.initiatingNodeKey = a.initiatingNodeKey ∧
      a'.transactionsMessage = a.transactionsMessage ∧
      (a'.state = .passBundleInvalidate ∧
          a'.requests = a.requests ++ [.sendStatus .notValid none (.byKey a.initiatingNodeKey)] ∨
        a'.state = .broadcastBundle {a.initiatingNodeKey.getID env.hashes} ∅
            (env.activePartners.erase (a.initiatingNodeKey.getID env.hashes)) ∧
          a'.exit = a.exit ∧ a'.requests = a.requests ++
            [.forward message a.initiatingNodeKey
              (.trackersExcept {a.initiatingNodeKey.getID env.hashes}),
              .timeEvent propagateWaitTime]) := by
  rw [react, hstate] at hreact
  obtain rfl := Option.some.inj hreact
  split
  · refine ⟨rfl, rfl, rfl, .inr ⟨rfl, rfl, ?_⟩⟩
    rw [enterBroadcastBundle, hmessage]
    rfl
  · exact ⟨rfl, rfl, rfl, .inl ⟨rfl, rfl⟩⟩

theorem react_broadcastBundle_noMedium {known validate partners : Finset CKeyID}
    (hstate : a.state = .broadcastBundle known validate partners)
    (hreact : a.react env .noMedium = some a') :
    a'.state = .passBundleValidate ∅ ∧ a'.exit = a.exit ∧ a'.transactions = a.transactions ∧
      a'.initiatingNodeKey = a.initiatingNodeKey ∧
      a'.transactionsMessage = a.transactionsMessage ∧
      a'.requests = a.requests ++
        [.sendStatus .validated none (.nodes known), .timeEvent propagateWaitTime] := by
  rw [react, hstate] at hreact
  obtain rfl := Option.some.inj hreact
  exact ⟨rfl, rfl, rfl, rfl, rfl, rfl⟩

theorem react_propagateBundle_validated {partners : Finset CKeyID} {participants : Finset CPubKey}
    (hstate : a.state = .propagateBundle partners)
    (hunwind : env.unwind message pubKey = some (message, participants))
    (hread : readStatus message.payload = some CBundleStatus.validated.toInt)
    (hlast : partners \ env.keyIds participants = ∅) (hadd : env.addBundle a.transactions = true)
    (hreact : a.react env (.messageResult message pubKey) = some a') :
    a'.state = .approved ∧ a'.transactions = a.transactions ∧
      a'.requests = a.requests ++ [.sendStatus .confirmed (some message.header.id) .trackers,
        .sendTransactions a.transactions .monitors] := by
  have hresult : a.reactPropagateBundle env partners (.messageResult message pubKey) = some a' := by
    rwa [react, hstate] at hreact
  rw [reactPropagateBundle, hunwind, Option.bind_some] at hresult
  dsimp only at hresult
  rw [hread, Option.map_some, if_pos rfl, if_pos hlast] at hresult
  obtain rfl := Option.some.inj hresult
  exact ⟨state_enterApproved env _, transactions_enterApproved env _,
    (requests_enterApproved (a := a.addRequests _) hadd).trans (List.append_assoc _ _ _)⟩

theorem react_propagateBundle_notValid {partners : Finset CKeyID} {participants : Finset CPubKey}
    (hstate : a.state = .propagateBundle partners)
    (hunwind : env.unwind message pubKey = some (message, participants))
    (hread : readStatus message.payload = some CBundleStatus.notValid.toInt)
    (hreact : a.react env (.messageResult message pubKey) = some a') :
    a'.state = .rejected ∧ a'.requests = a.requests ++ [] := by
  have hresult : a.reactPropagateBundle env partners (.messageResult message pubKey) = some a' := by
    rwa [react, hstate] at hreact
  rw [reactPropagateBundle, hunwind, Option.bind_some] at hresult
  dsimp only at hresult
  rw [hread, Option.map_some, if_neg (by decide)] at hresult
  obtain rfl := Option.some.inj hresult
  exact ⟨rfl, (List.append_nil _).symm⟩

theorem react_passBundleValidate_confirmed {exceptions : Finset CKeyID}
    {participants : Finset CPubKey} (hstate : a.state = .passBundleValidate exceptions)
    (hkind : message.header.payloadKind = CPayloadKind.statusTransactions.toInt)
    (hunwind : env.unwind message pubKey = some (message, participants))
    (hread : readStatus message.payload = some CBundleStatus.confirmed.toInt)
    (hadd : env.addBundle a.transactions = true)
    (hreact : a.react env (.messageResult message pubKey) = some a') :
    a'.state = .approved ∧ a'.transactions = a.transactions ∧
      a'.requests = a.requests ++ [.ack message.header.id (.byKey pubKey),
        .forward message pubKey (.trackersExcept (exceptions ∪ env.keyIds participants)),
        .sendTransactions a.transactions .monitors] := by
  have hresult : a.reactPassBundleValidate env exceptions (.messageResult message pubKey) =
      some a' := by
    rwa [react, hstate] at hreact
  rw [reactPassBundleValidate] at hresult
  dsimp only at hresult
  rw [if_pos hkind, hunwind, Option.bind_some] at hresult
  dsimp only at hresult
  rw [hread, Option.map_some, if_pos rfl] at hresult
  obtain rfl := Option.some.inj hresult
  refine ⟨state_enterApproved env _, transactions_enterApproved env _,
    (requests_enterApproved (a := (a.addRequests _).addRequests _) hadd).trans ?_⟩
  rw [addRequests, addRequests, List.append_assoc, List.append_assoc]
  rfl

theorem react_ack (hreact : a.react env .ack = some a') :
    a'.requests = a.requests ++ [] ∧ a'.isApproved = a.isApproved ∧
      (a' = a ∨ a.state = .approved ∧ a'.state = .approved) := by
  rw [List.append_nil]
  unfold react at hreact
  split at hreact
  next => cases hreact; exact ⟨rfl, rfl, .inl rfl⟩
  next => cases hreact; exact ⟨rfl, rfl, .inl rfl⟩
  next => cases hreact; exact ⟨rfl, rfl, .inl rfl⟩
  next => cases hreact; exact ⟨rfl, rfl, .inl rfl⟩
  next => cases hreact; exact ⟨rfl, rfl, .inl rfl⟩
  next hstate => cases hreact; exact ⟨rfl, rfl, .inr ⟨hstate, hstate⟩⟩
  next => cases hreact; exact ⟨rfl, rfl, .inl rfl⟩
  next => cases hreact; exact ⟨rfl, rfl, .inl rfl⟩

theorem react_approved_noMedium (hstate : a.state = .approved)
    (hreact : a.react env .noMedium = some a') :
    a'.state = .approved ∧ a'.isApproved = a.isApproved ∧ a'.requests = a.requests ++ [] := by
  rw [react, hstate] at hreact
  obtain rfl := Option.some.inj hreact
  exact ⟨hstate, rfl, (List.append_nil _).symm⟩

end Reactions

end CValidateTransactionsAction

open CValidateTransactionsAction

section Pending

/-- Acknowledgements aside. -/
def pendingOf (parcels : List Parcel) : List Parcel := parcels.filter fun p => p.delivery ≠ .ack

variable {parcels : List Parcel} {parcel : Parcel}

@[simp] theorem pendingOf_append (first second : List Parcel) :
    pendingOf (first ++ second) = pendingOf first ++ pendingOf second := List.filter_append ..

/-- What arrives is an acknowledgement, or nothing else that is pending is lost. -/
theorem pendingOf_eraseIdx {index : ℕ} (h : parcels[index]? = some parcel) :
    parcel.delivery = .ack ∧ pendingOf (parcels.eraseIdx index) = pendingOf parcels ∨
      parcel.delivery ≠ .ack ∧ ∃ before after, pendingOf parcels = before ++ parcel :: after ∧
        pendingOf (parcels.eraseIdx index) = before ++ after := by
  obtain ⟨hlt, rfl⟩ := List.getElem?_eq_some_iff.mp h
  have hsplit : parcels = parcels.take index ++ parcels[index] :: parcels.drop (index + 1) := by
    rw [← List.drop_eq_getElem_cons hlt, List.take_append_drop]
  have hrest : pendingOf (parcels.eraseIdx index) =
      pendingOf (parcels.take index) ++ pendingOf (parcels.drop (index + 1)) := by
    rw [List.eraseIdx_eq_take_drop_succ, pendingOf_append]
  have hall : pendingOf parcels = pendingOf (parcels.take index) ++
      pendingOf (parcels[index] :: parcels.drop (index + 1)) := by
    rw [← pendingOf_append, ← hsplit]
  by_cases hack : parcels[index].delivery = .ack
  · refine .inl ⟨hack, ?_⟩
    rw [hrest, hall, pendingOf, pendingOf, pendingOf, List.filter_cons_of_neg (by simp [hack])]
  · refine .inr ⟨hack, _, _, ?_, hrest⟩
    rw [hall, pendingOf, pendingOf, pendingOf, List.filter_cons_of_pos (by simp [hack])]

theorem pendingOf_eraseIdx_of_singleton {index : ℕ} {p : Parcel}
    (h : parcels[index]? = some parcel) (hpending : pendingOf parcels = [p]) :
    parcel.delivery = .ack ∧ pendingOf (parcels.eraseIdx index) = [p] ∨
      parcel = p ∧ pendingOf (parcels.eraseIdx index) = [] := by
  rcases pendingOf_eraseIdx h with ⟨hack, hsame⟩ | ⟨-, before, after, hall, hrest⟩
  · exact .inl ⟨hack, hsame.trans hpending⟩
  · rw [hpending] at hall
    obtain ⟨rfl, hcons⟩ | ⟨_, hcons, hlast⟩ := List.cons_eq_append_iff.mp hall
    · cases hcons
      exact .inr ⟨rfl, hrest⟩
    · cases List.append_eq_nil_iff.mp hlast.symm |>.2

end Pending

namespace BundleRun

def pending (run : BundleRun) : List Parcel := pendingOf run.underWay

/-- The action of a tracker goes on in the state, with the transactions. -/
def Has (run : BundleRun) (x : CPubKey) (state : ValidationState) (txs : List CTransaction) : Prop :=
  ∃ a, run.actions x = some a ∧ a.state = state ∧ a.exit = false ∧ a.transactions = txs

/-- The same of an action that was sent the bundle. -/
def Receives (run : BundleRun) (x initiator : CPubKey) (state : ValidationState)
    (txs : List CTransaction) : Prop :=
  ∃ b message, run.actions x = some b ∧ b.state = state ∧ b.exit = false ∧ b.transactions = txs ∧
    b.initiatingNodeKey = initiator ∧ b.transactionsMessage = some message

/-- The action of a tracker is in the state, if it is still there. -/
def Over (run : BundleRun) (x : CPubKey) (state : ValidationState) : Prop :=
  ∀ a, run.actions x = some a → a.state = state

end BundleRun

/-- A validation that is still to be run, or its result. -/
def Delivery.IsValidation (delivery : Delivery) : Prop :=
  (∃ txs, delivery = .validation txs) ∨ ∃ indexes, delivery = .validated indexes

namespace TrackerNetwork

/-- The phases of a bundle that `A` has started, with the bundles that `A` and `B` have added
under its key. -/
inductive Phase (net : TrackerNetwork) (A B : CPubKey) (run : BundleRun) :
    List (List CTransaction) → List (List CTransaction) → Prop
  | started {txs : List CTransaction} {delivery : Delivery} (hA : run.Has A .originInitial txs)
      (hfits : (vector CTransaction.networkCodec).Fits txs) (hB : run.actions B = none)
      (hpending : run.pending = [⟨A, delivery⟩]) (hdelivery : delivery.IsValidation) :
      Phase net A B run [] []
  | asked {txs : List CTransaction} {message : CMessage}
      (hA : run.Has A (.propagateBundle {B.getID net.env.hashes}) txs)
      (hfits : (vector CTransaction.networkCodec).Fits txs) (hB : run.actions B = none)
      (hpending : run.pending = [⟨B, .message A message⟩])
      (hsent : net.Sent A .transactions ((vector CTransaction.networkCodec).encode txs) message) :
      Phase net A B run [] []
  | answered {txs : List CTransaction} {delivery : Delivery}
      (hA : run.Has A (.propagateBundle {B.getID net.env.hashes}) txs)
      (hB : run.Receives B A .passBundle txs) (hpending : run.pending = [⟨B, delivery⟩])
      (hdelivery : delivery.IsValidation) : Phase net A B run [] []
  | alone {txs : List CTransaction} {validate partners : Finset CKeyID}
      (hA : run.Has A (.propagateBundle {B.getID net.env.hashes}) txs)
      (hB : run.Receives B A (.broadcastBundle {A.getID net.env.hashes} validate partners) txs)
      (hpending : run.pending = [⟨B, .noMedium⟩]) : Phase net A B run [] []
  | validated {txs : List CTransaction} {message : CMessage} {exceptions : Finset CKeyID}
      (hA : run.Has A (.propagateBundle {B.getID net.env.hashes}) txs)
      (hB : run.Receives B A (.passBundleValidate exceptions) txs)
      (hpending : run.pending = [⟨A, .message B message⟩])
      (hsent : net.Sent B .statusTransactions (int32.encode CBundleStatus.validated.toInt) message) :
      Phase net A B run [] []
  | confirmed {txs : List CTransaction} {message : CMessage} {exceptions : Finset CKeyID}
      {others : List Parcel} (hA : run.Over A .approved)
      (hB : run.Receives B A (.passBundleValidate exceptions) txs)
      (hpending : run.pending = ⟨B, .message A message⟩ :: others)
      (hothers : ∀ p ∈ others, p = ⟨A, .noMedium⟩)
      (hsent : net.Sent A .statusTransactions (int32.encode CBundleStatus.confirmed.toInt) message) :
      Phase net A B run [txs] []
  | done {txs : List CTransaction} (hA : run.Over A .approved) (hB : run.Over B .approved)
      (hpending : ∀ p ∈ run.pending, p = ⟨A, .noMedium⟩ ∨ p = ⟨B, .noMedium⟩) :
      Phase net A B run [txs] [txs]
  | refused {txs : List CTransaction} {message : CMessage}
      (hA : run.Has A (.propagateBundle {B.getID net.env.hashes}) txs)
      (hB : run.Over B .passBundleInvalidate)
      (hpending : run.pending = [⟨A, .message B message⟩])
      (hsent : net.Sent B .statusTransactions (int32.encode CBundleStatus.notValid.toInt) message) :
      Phase net A B run [] []
  | rejected (hA : run.Over A .rejected) (hB : run.Over B .passBundleInvalidate)
      (hpending : run.pending = []) : Phase net A B run [] []

section Media

variable {net : TrackerNetwork} {x y : CPubKey}

/-- The network consists of the two trackers. -/
structure Pair (net : TrackerNetwork) (A B : CPubKey) : Prop where
  honest : net.Honest
  left : A ∈ net.trackers
  right : B ∈ net.trackers
  others_left : net.others A = [B]
  others_right : net.others B = [A]

theorem Pair.symm {A B : CPubKey} (h : net.Pair A B) : net.Pair B A :=
  ⟨h.honest, h.right, h.left, h.others_right, h.others_left⟩

theorem Pair.ne {A B : CPubKey} (h : net.Pair A B) : A ≠ B := by
  rintro rfl
  have hmem : A ∈ net.others A := by rw [h.others_left]; exact List.mem_singleton_self A
  simp [others] at hmem

variable (hothers : net.others x = [y])
include hothers

theorem send_trackers (message : CMessage) :
    net.send x .trackers message = [⟨y, .message x message⟩] := by
  have hmediums : net.getMediums x .trackers = [y] := hothers
  rw [send_of_ne (by rw [hmediums]; exact List.cons_ne_nil _ _), hmediums, List.map_singleton]

theorem getMediums_byKey : net.getMediums x (.byKey y) = [y] := by
  simp [getMediums, hothers]

theorem send_byKey (message : CMessage) :
    net.send x (.byKey y) message = [⟨y, .message x message⟩] := by
  have hmediums := getMediums_byKey hothers
  rw [send_of_ne (by rw [hmediums]; exact List.cons_ne_nil _ _), hmediums, List.map_singleton]

theorem send_nodes (message : CMessage) :
    net.send x (.nodes {y.getID net.env.hashes}) message = [⟨y, .message x message⟩] := by
  have hmediums : net.getMediums x (.nodes {y.getID net.env.hashes}) = [y] := by
    simp [getMediums, hothers]
  rw [send_of_ne (by rw [hmediums]; exact List.cons_ne_nil _ _), hmediums, List.map_singleton]

theorem send_trackersExcept {exceptions : Finset CKeyID}
    (hexcept : y.getID net.env.hashes ∈ exceptions) (message : CMessage) :
    net.send x (.trackersExcept exceptions) message = [⟨x, .noMedium⟩] := by
  apply send_of_nil
  simp [getMediums, hothers, hexcept]

theorem activePartners_context (s : NetworkState) :
    (net.context s x).activePartners = {y.getID net.env.hashes} := by
  simp [NodeContext.activePartners, context, hothers]

end Media

section Frames

variable {net : TrackerNetwork} {s s' : NetworkState} {x : CPubKey} {k : Uint256} {stamp : Stamp}
  {rest : List Parcel} {a : CValidateTransactionsAction}

theorem arrive_ack (ha : (s.bundles k).actions x = some a) :
    net.arrive s k stamp rest ⟨x, .ack⟩ = net.act s x k stamp rest a .ack := by
  rw [arrive]
  dsimp only
  rw [ha]

theorem arrive_noMedium (ha : (s.bundles k).actions x = some a) :
    net.arrive s k stamp rest ⟨x, .noMedium⟩ = net.act s x k stamp rest a .noMedium := by
  rw [arrive]
  dsimp only
  rw [ha]

theorem arrive_validated (ha : (s.bundles k).actions x = some a) (indexes : List ℕ) :
    net.arrive s k stamp rest ⟨x, .validated indexes⟩ =
      net.act s x k stamp rest a (.validation indexes) := by
  rw [arrive]
  dsimp only
  rw [ha]

theorem arrive_status (ha : (s.bundles k).actions x = some a) {sender : CPubKey}
    {message : CMessage}
    (hkind : message.header.payloadKind = CPayloadKind.statusTransactions.toInt) :
    net.arrive s k stamp rest ⟨x, .message sender message⟩ =
      net.act s x k stamp rest a (.messageResult message sender) := by
  rw [arrive]
  dsimp only
  rw [ha]
  exact if_pos hkind

theorem arrive_transactions (ha : (s.bundles k).actions x = none) {sender : CPubKey}
    {message : CMessage} (hkind : message.header.payloadKind = CPayloadKind.transactions.toInt) :
    net.arrive s k stamp rest ⟨x, .message sender message⟩ =
      net.act s x k stamp rest (.passing k) (.messageResult message sender) := by
  rw [arrive]
  dsimp only
  rw [ha]
  exact if_pos hkind

end Frames

end TrackerNetwork

namespace BundleRun

/-- Nothing changes but an action that is approved, or one that is removed at its end. -/
def Settles (run run' : BundleRun) : Prop :=
  ∀ x, run'.actions x = run.actions x ∨
    (∃ a a', run.actions x = some a ∧ a.state = .approved ∧ run'.actions x = some a' ∧
      a'.state = .approved) ∨
    ∃ a, run.actions x = some a ∧ a.exit = true ∧ run'.actions x = none

variable {run run' : BundleRun} {x initiator : CPubKey} {state : ValidationState}
  {txs : List CTransaction}

theorem Settles.action (h : run.Settles run') {a : CValidateTransactionsAction}
    (ha : run.actions x = some a) (hstate : a.state ≠ .approved) (hexit : a.exit = false) :
    run'.actions x = some a := by
  rcases h x with hsame | ⟨b, b', hb, happroved, -⟩ | ⟨b, hb, hend, -⟩
  · rw [hsame, ha]
  · rw [ha] at hb
    cases hb
    exact absurd happroved hstate
  · rw [ha] at hb
    cases hb
    rw [hexit] at hend
    cases hend

theorem Settles.none (h : run.Settles run') (hnone : run.actions x = none) :
    run'.actions x = none := by
  rcases h x with hsame | ⟨b, b', hb, -⟩ | ⟨b, hb, -⟩
  · rw [hsame, hnone]
  · rw [hnone] at hb
    cases hb
  · rw [hnone] at hb
    cases hb

theorem Has.settles (h : run.Has x state txs) (hstate : state ≠ .approved)
    (hsettles : run.Settles run') : run'.Has x state txs := by
  obtain ⟨a, ha, rfl, hexit, htxs⟩ := h
  exact ⟨a, hsettles.action ha hstate hexit, rfl, hexit, htxs⟩

theorem Receives.settles (h : run.Receives x initiator state txs) (hstate : state ≠ .approved)
    (hsettles : run.Settles run') : run'.Receives x initiator state txs := by
  obtain ⟨b, message, hb, rfl, hexit, hrest⟩ := h
  exact ⟨b, message, hsettles.action hb hstate hexit, rfl, hexit, hrest⟩

theorem Over.settles (h : run.Over x state) (hsettles : run.Settles run') : run'.Over x state := by
  intro a' ha'
  rcases hsettles x with hsame | ⟨b, b', hb, happroved, hb', happroved'⟩ | ⟨b, -, -, hnone⟩
  · exact h a' (hsame ▸ ha')
  · rw [ha'] at hb'
    cases hb'
    rw [happroved', ← happroved]
    exact h b hb
  · rw [hnone] at ha'
    cases ha'

end BundleRun

namespace TrackerNetwork
open BundleRun

variable {net : TrackerNetwork} {A B : CPubKey} {run run' : BundleRun}
  {atA atB : List (List CTransaction)}

theorem Phase.settles (h : net.Phase A B run atA atB) (hsettles : run.Settles run')
    (hsame : run'.pending = run.pending) : net.Phase A B run' atA atB := by
  cases h with
  | started hA hfits hB hpending hdelivery =>
    exact .started (hA.settles nofun hsettles) hfits (hsettles.none hB) (hsame.trans hpending)
      hdelivery
  | asked hA hfits hB hpending hsent =>
    exact .asked (hA.settles nofun hsettles) hfits (hsettles.none hB) (hsame.trans hpending) hsent
  | answered hA hB hpending hdelivery =>
    exact .answered (hA.settles nofun hsettles) (hB.settles nofun hsettles) (hsame.trans hpending)
      hdelivery
  | alone hA hB hpending =>
    exact .alone (hA.settles nofun hsettles) (hB.settles nofun hsettles) (hsame.trans hpending)
  | validated hA hB hpending hsent =>
    exact .validated (hA.settles nofun hsettles) (hB.settles nofun hsettles)
      (hsame.trans hpending) hsent
  | confirmed hA hB hpending hothers hsent =>
    exact .confirmed (hA.settles hsettles) (hB.settles nofun hsettles) (hsame.trans hpending)
      hothers hsent
  | done hA hB hpending =>
    refine .done (hA.settles hsettles) (hB.settles hsettles) ?_
    rwa [hsame]
  | refused hA hB hpending hsent =>
    exact .refused (hA.settles nofun hsettles) (hB.settles hsettles) (hsame.trans hpending) hsent
  | rejected hA hB hpending =>
    exact .rejected (hA.settles hsettles) (hB.settles hsettles) (hsame.trans hpending)

end TrackerNetwork

end Dims

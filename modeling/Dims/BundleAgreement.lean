import Dims.DoubleSpend
import Dims.PhaseSteps
import Dims.StalledBundles

/-!
# The trackers agree

What every run of the network comes to. No tracker adds two bundles that spend a common output,
what one has added the others add as well, and in the end the ledgers are the same, if every
bundle that a tracker takes up after its validation is apart from the bundles that are held.
-/

namespace Dims
open ByteCodec Serialize CValidateTransactionsAction Transfer

namespace TrackerNetwork

variable (net : TrackerNetwork)

section Agreement

/-- No action of the bundle goes on, or nothing is under way to one. -/
def Settled (s : NetworkState) (k : Uint256) : Prop :=
  (∀ x ∈ net.trackers, ∀ a, (s.bundles k).actions x = some a → a.exit = true) ∨
    (s.bundles k).underWay = []

structure Agree (s : NetworkState) : Prop where
  exclusive : ∀ x ∈ net.trackers,
    (s.applied x).Pairwise fun p q => ∀ o ∈ spends p.2, o ∉ spends q.2
  shared : ∀ k, net.Settled s k → ∀ x ∈ net.trackers, ∀ y ∈ net.trackers, ∀ txs,
    (k, txs) ∈ s.applied x → (k, txs) ∈ s.applied y
  same : (∀ k, net.Settled s k) → ∀ x ∈ net.trackers, ∀ y ∈ net.trackers,
    (s.managers x).coinsViewCache.unspent = (s.managers y).coinsViewCache.unspent

end Agreement

section TwoTrackers

variable {net} {s s' : NetworkState} {A B x y : CPubKey} {k : Uint256}
  {start : COutPoint → Option CTxOut}

/-- A bundle that nobody has started, or one in its phase. -/
def Staged (net : TrackerNetwork) (A B : CPubKey) (s : NetworkState) (k : Uint256) : Prop :=
  ((s.bundles k).initiator = none ∧ (∀ x, (s.bundles k).actions x = none) ∧
      (s.bundles k).underWay = [] ∧ s.entries A k = [] ∧ s.entries B k = []) ∨
    (s.bundles k).initiator ≠ none ∧ (net.InPhase A B s k ∨ net.InPhase B A s k)

theorem mem_entries {txs : List CTransaction} : txs ∈ s.entries x k ↔ (k, txs) ∈ s.applied x := by
  simp only [NetworkState.entries, List.mem_map, List.mem_filter, decide_eq_true_eq]
  constructor
  · rintro ⟨⟨k', txs'⟩, ⟨hmem, rfl⟩, rfl⟩
    exact hmem
  · intro hmem
    exact ⟨(k, txs), ⟨hmem, rfl⟩, rfl⟩

theorem Coherent.readyFor (h : net.Coherent start s) (k : Uint256) : net.Ready s k := by
  intro x a txs ha hheld
  obtain ⟨hstable, happlicable⟩ := h.ready x k a txs ha hheld
  have hholds : (net.replicas s).held x k = some (bundleTransfer net.env.hashes txs) := by
    rw [replicas]
    dsimp only
    rw [ha, Option.bind_some, hheld, Option.map_some]
  obtain ⟨manager, hadd, -⟩ := addValidated_of_fits hstable happlicable (h.sound.fits x k _ hholds)
  rw [hadd]

theorem InPhase.congr (h : net.InPhase A B s k) (hbundles : s'.bundles k = s.bundles k)
    (hentries : ∀ y, s'.entries y k = s.entries y k) : net.InPhase A B s' k := by
  rw [InPhase, hbundles, hentries, hentries]
  exact h

theorem Staged.congr (h : net.Staged A B s k) (hbundles : s'.bundles k = s.bundles k)
    (hentries : ∀ y, s'.entries y k = s.entries y k) : net.Staged A B s' k := by
  rw [Staged, hbundles, hentries, hentries]
  exact h.imp_right fun hphase => ⟨hphase.1, hphase.2.imp (·.congr hbundles hentries)
    (·.congr hbundles hentries)⟩

theorem Pair.cases (hpair : net.Pair A B) (hx : x ∈ net.trackers) : x = A ∨ x = B := by
  by_cases hA : x = A
  · exact .inl hA
  · have hmem : x ∈ net.others A := mem_others.mpr ⟨hx, hA⟩
    rw [hpair.others_left] at hmem
    exact .inr (List.mem_singleton.mp hmem)

theorem InPhase.of_new (hne : A ≠ B) {txs : List CTransaction}
    (hfits : (vector CTransaction.networkCodec).Fits txs)
    (hnone : (s.bundles k).actions B = none) (hentA : s.entries A k = [])
    (hentB : s.entries B k = []) :
    net.InPhase A B (s.put k ⟨some A, Function.update (s.bundles k).actions A
      (some (.origin k txs)), [⟨A, .validation txs⟩]⟩) k := by
  have hbundle : (s.put k ⟨some A, Function.update (s.bundles k).actions A
      (some (.origin k txs)), [⟨A, .validation txs⟩]⟩).bundles k =
      ⟨some A, Function.update (s.bundles k).actions A (some (.origin k txs)),
        [⟨A, .validation txs⟩]⟩ := Function.update_self ..
  have hentries : ∀ y, (s.put k ⟨some A, Function.update (s.bundles k).actions A
      (some (.origin k txs)), [⟨A, .validation txs⟩]⟩).entries y k = s.entries y k :=
    fun y => rfl
  rw [InPhase, hbundle, hentries, hentries, hentA, hentB]
  refine .started ⟨.origin k txs, Function.update_self .., rfl, rfl, rfl⟩ hfits ?_ rfl
    (.inl ⟨txs, rfl⟩)
  rw [← hnone]
  exact Function.update_of_ne hne.symm ..

theorem InPhase.cleanup (h : net.InPhase A B s k) {a : CValidateTransactionsAction}
    (ha : (s.bundles k).actions x = some a) (hexit : a.exit = true) :
    net.InPhase A B (s.put k { s.bundles k with
      actions := Function.update (s.bundles k).actions x none }) k := by
  have hbundle : (s.put k { s.bundles k with
      actions := Function.update (s.bundles k).actions x none }).bundles k =
      { s.bundles k with actions := Function.update (s.bundles k).actions x none } :=
    Function.update_self ..
  have hentries : ∀ y, (s.put k { s.bundles k with
      actions := Function.update (s.bundles k).actions x none }).entries y k = s.entries y k :=
    fun y => rfl
  rw [InPhase, hbundle, hentries, hentries]
  refine h.settles (fun y => ?_) rfl
  dsimp only
  by_cases hy : y = x
  · subst hy
    exact .inr (.inr ⟨a, ha, hexit, Function.update_self ..⟩)
  · exact .inl (Function.update_of_ne hy ..)

theorem Staged.step (hpair : net.Pair A B) (hcoherent : net.Coherent start s)
    (h : ∀ k, net.Staged A B s k) {event : NetworkEvent} (horderly : net.Orderly (some s) event)
    (hstep : net.step s event = some s') : ∀ k, net.Staged A B s' k := by
  intro k'
  by_cases hk : k' = event.actionKey
  · subst hk
    cases event with
    | start x k transactions =>
      rw [TrackerNetwork.step] at hstep
      split at hstep
      case isTrue hstarts =>
        obtain rfl := Option.some.inj hstep
        rcases h k with ⟨-, hactions, -, hentA, hentB⟩ | ⟨hstarted, -⟩
        · refine .inr ⟨?_, ?_⟩
          · rw [NetworkState.put]
            dsimp only [NetworkEvent.actionKey]
            rw [Function.update_self]
            exact Option.some_ne_none x
          · rcases hpair.cases hstarts.1 with rfl | rfl
            · exact .inl (.of_new hpair.ne horderly (hactions B) hentA hentB)
            · exact .inr (.of_new hpair.ne.symm horderly (hactions A) hentB hentA)
        · exact absurd hstarts.2 hstarted
      case isFalse => cases hstep
    | deliver k index stamp =>
      obtain ⟨parcel, hparcel, harrive⟩ := Option.bind_eq_some_iff.mp hstep
      rcases h k with ⟨-, -, hunderWay, -⟩ | ⟨hstarted, hphase⟩
      · rw [hunderWay] at hparcel
        cases hparcel
      · refine .inr ⟨?_, hphase.imp
          (InPhase.arrive hpair (hcoherent.readyFor k) · hparcel harrive)
          (InPhase.arrive hpair.symm (hcoherent.readyFor k) · hparcel harrive)⟩
        obtain ⟨⟨run, hbundles, hinitiator⟩, -⟩ := arrive_changes harrive
        dsimp only [NetworkEvent.actionKey]
        rw [hbundles, Function.update_self, hinitiator]
        exact hstarted
    | cleanup x k =>
      obtain ⟨a, ha, hexit⟩ := Option.bind_eq_some_iff.mp hstep
      split at hexit
      case isTrue hend =>
        obtain rfl := Option.some.inj hexit
        rcases h k with ⟨-, hactions, -⟩ | ⟨hstarted, hphase⟩
        · rw [hactions x] at ha
          cases ha
        · refine .inr ⟨?_, hphase.imp (·.cleanup ha hend) (·.cleanup ha hend)⟩
          rw [NetworkState.put]
          dsimp only [NetworkEvent.actionKey]
          rw [Function.update_self]
          exact hstarted
      case isFalse => cases hexit
  · obtain ⟨hbundles, hentries⟩ := step_frame hk hstep
    exact (h k').congr hbundles hentries

theorem staged_of_guarded (hpair : net.Pair A B)
    {managers : CPubKey → CTransactionRecordManager} {events : List NetworkEvent}
    (hmanagers : ∀ x, (managers x).coinsViewCache.unspent = start)
    (hguarded : GuardedRun.Guarded net.next net.Orderly (some (.initial managers)) events)
    (hrun : GuardedRun.run net.next (some (.initial managers)) events = some s) :
    ∀ k, net.Staged A B s k := by
  have hkeeps : ∀ (s : Option NetworkState) (event : NetworkEvent),
      (∀ s', s = some s' → net.Coherent start s' ∧ ∀ k, net.Staged A B s' k) →
      net.Orderly s event →
      ∀ s', net.next s event = some s' → net.Coherent start s' ∧ ∀ k, net.Staged A B s' k := by
    intro s event hs horderly s' hs'
    obtain ⟨s₀, rfl, hstep⟩ := Option.bind_eq_some_iff.mp hs'
    obtain ⟨hcoherent, hstaged⟩ := hs s₀ rfl
    exact ⟨hcoherent.step horderly hstep, Staged.step hpair hcoherent hstaged horderly hstep⟩
  refine (hguarded.invariant hkeeps (fun s' hs' => ?_) s hrun).2
  obtain rfl := Option.some.inj hs'
  exact ⟨coherent_initial hmanagers, fun k => .inl ⟨rfl, fun _ => rfl, rfl, rfl, rfl⟩⟩

/-- Once a bundle is settled, both trackers have added it or none has. -/
theorem InPhase.entries_eq (hpair : net.Pair A B) (h : net.InPhase A B s k)
    (hsettled : net.Settled s k) : s.entries A k = s.entries B k := by
  rw [InPhase] at h
  generalize hentA : s.entries A k = atA at h
  generalize hentB : s.entries B k = atB at h
  cases h with
  | started => rfl
  | asked => rfl
  | answered => rfl
  | alone => rfl
  | validated => rfl
  | done => rfl
  | refused => rfl
  | rejected => rfl
  | confirmed hA hB hpending hothers hsent =>
    rcases hsettled with hended | hnothing
    · obtain ⟨b, message, hb, -, hexit, -⟩ := hB
      rw [hended B hpair.right b hb] at hexit
      cases hexit
    · rw [BundleRun.pending, hnothing] at hpending
      cases hpending

theorem Staged.entries_eq (hpair : net.Pair A B) (h : net.Staged A B s k)
    (hsettled : net.Settled s k) : s.entries A k = s.entries B k := by
  rcases h with ⟨-, -, -, hentA, hentB⟩ | ⟨-, hphase | hphase⟩
  · rw [hentA, hentB]
  · exact hphase.entries_eq hpair hsettled
  · exact (hphase.entries_eq hpair.symm hsettled).symm

end TwoTrackers

section Single

variable {net : TrackerNetwork} {managers : CPubKey → CTransactionRecordManager}
  {events : List NetworkEvent} {start : COutPoint → Option CTxOut} {k : Uint256}
  {index : ℕ} {stamp : Stamp}

theorem bundles_of_single (hsingle : ∀ event ∈ events, event.actionKey = k) {s : NetworkState}
    (hrun : GuardedRun.run net.next (some (.initial managers)) events = some s) {k' : Uint256}
    (hk : k' ≠ k) (x : CPubKey) : (s.bundles k').actions x = none := by
  induction events using List.reverseRecOn generalizing s with
  | nil =>
    obtain rfl := Option.some.inj hrun
    rfl
  | append_singleton events event ih =>
    rw [GuardedRun.run_append] at hrun
    obtain ⟨s₀, hs₀, hstep⟩ := Option.bind_eq_some_iff.mp hrun
    have hkey : event.actionKey = k := hsingle event (by simp)
    rw [(step_frame (by rwa [hkey]) hstep).1]
    exact ih (fun event' hmem => hsingle event' (List.mem_append_left _ hmem)) hs₀

/-- In a run about one bundle, a tracker that has added nothing may take up what fits the common
ledger. -/
theorem orderly_of_single (hmanagers : ∀ x, (managers x).coinsViewCache.unspent = start)
    (hguarded : GuardedRun.Guarded net.next net.Orderly (some (.initial managers)) events)
    (hsingle : ∀ event ∈ events, event.actionKey = k) {txs : List CTransaction}
    (htaken : ∀ p ∈ (GuardedRun.run net.next (some (.initial managers)) events).bind
      (fun s => (s.takenUpBy k index).map fun p => (p.2, s.applied p.1)), p = (txs, []))
    (hstable : StableUnspent start) (happlicable : Applicable net.env.hashes txs)
    (hfits : (bundleTransfer net.env.hashes txs).Fits start []) :
    net.Orderly (GuardedRun.run net.next (some (.initial managers)) events)
      (.deliver k index stamp) := by
  intro s hrun y txs' htaken'
  rw [hrun, Option.bind_some, htaken', Option.map_some] at htaken
  obtain ⟨rfl, hnothing⟩ := Prod.mk.inj (htaken _ rfl)
  have hcoherent := coherent_of_guarded hmanagers hguarded hrun
  have happlied : (net.replicas s).applied y = [] := by
    rw [replicas]
    dsimp only
    rw [hnothing, List.map_nil]
  have hledger : (net.replicas s).ledger y = start := by
    rw [hcoherent.sound.ledger, happlied]
    rfl
  refine ⟨?_, happlicable, ?_, fun z k' t hk ht => ?_⟩
  · rwa [hledger]
  · rwa [hledger, happlied]
  · rw [replicas] at ht
    dsimp only at ht
    rw [bundles_of_single hsingle hrun hk z] at ht
    cases ht

end Single

section Networks

variable {net} {s : NetworkState} {start : COutPoint → Option CTxOut}

theorem Honest.nodup (hnet : net.Honest) : net.trackers.Nodup := hnet.distinct.of_map _

theorem crowded_of_length (hnet : net.Honest) (hlength : 3 ≤ net.trackers.length) :
    net.Crowded := by
  intro x id
  by_contra hnone
  have hsubset : net.trackers.map (CPubKey.getID net.env.hashes) ⊆
      [x.getID net.env.hashes, id] := by
    intro id' hid'
    obtain ⟨y, hy, rfl⟩ := List.mem_map.mp hid'
    by_cases hyx : y = x
    · rw [hyx]
      exact List.mem_cons_self
    · have hid : y.getID net.env.hashes = id := by
        by_contra hne
        exact hnone ⟨y, mem_others.mpr ⟨hy, hyx⟩, hne⟩
      rw [hid]
      exact List.mem_cons_of_mem _ List.mem_cons_self
  have hle := (List.subperm_of_subset hnet.distinct hsubset).length_le
  rw [List.length_map, List.length_cons, List.length_cons, List.length_nil] at hle
  omega

theorem size_cases (hnet : net.Honest) :
    (∀ x ∈ net.trackers, ∀ y ∈ net.trackers, x = y) ∨ (∃ A B, net.Pair A B) ∨ net.Crowded := by
  have hnodup := hnet.nodup
  rcases htrackers : net.trackers with _ | ⟨A, _ | ⟨B, _ | ⟨C, others⟩⟩⟩
  · exact .inl fun x hx => absurd hx List.not_mem_nil
  · refine .inl fun x hx y hy => ?_
    rw [List.mem_singleton.mp hx, List.mem_singleton.mp hy]
  · refine .inr (.inl ⟨A, B, hnet, ?_, ?_, ?_, ?_⟩)
    · rw [htrackers]
      exact List.mem_cons_self
    · rw [htrackers]
      exact List.mem_cons_of_mem _ List.mem_cons_self
    · rw [htrackers] at hnodup
      have hne : A ≠ B := fun heq => (List.nodup_cons.mp hnodup).1 (heq ▸ List.mem_cons_self)
      simp [others, htrackers, hne.symm]
    · rw [htrackers] at hnodup
      have hne : A ≠ B := fun heq => (List.nodup_cons.mp hnodup).1 (heq ▸ List.mem_cons_self)
      simp [others, htrackers, hne]
  · refine .inr (.inr (crowded_of_length hnet ?_))
    rw [htrackers]
    simp

/-- Bundles that take different outputs have none in common. -/
theorem Coherent.exclusive (h : net.Coherent start s) (x : CPubKey) :
    (s.applied x).Pairwise fun p q => ∀ o ∈ spends p.2, o ∉ spends q.2 := by
  have hpairwise := List.pairwise_map.mp (h.sound.legal x).pairwise
  have hspent : ∀ {txs : List CTransaction} {o : COutPoint}, o ∈ spends txs →
      o ∈ (bundleTransfer net.env.hashes txs).spent := by
    intro txs o ho
    obtain ⟨tx, htx, -, hin⟩ := mem_spends.mp ho
    exact List.mem_flatMap.mpr ⟨tx, htx, hin⟩
  exact hpairwise.imp fun hdisjoint o ho ho' => hdisjoint o (hspent ho) (hspent ho')

/-- Trackers that have added the same bundles have the same unspent outputs. -/
theorem Coherent.unspent_eq (h : net.Coherent start s) {x y : CPubKey}
    (hsame : ∀ p, p ∈ s.applied x ↔ p ∈ s.applied y) :
    (s.managers x).coinsViewCache.unspent = (s.managers y).coinsViewCache.unspent := by
  have hledger : (net.replicas s).ledger x = (net.replicas s).ledger y := by
    rw [h.sound.ledger x, h.sound.ledger y]
    refine (h.sound.legal x).run_congr (h.sound.legal y) fun t => ?_
    rw [replicas]
    simp only [List.mem_map, hsame]
  exact hledger

/-- In an orderly run of honest trackers the bundles agree. -/
theorem agree_of_orderly (hnet : net.Honest) {managers : CPubKey → CTransactionRecordManager}
    (hmanagers : ∀ x y, (managers x).coinsViewCache.unspent = (managers y).coinsViewCache.unspent)
    {events : List NetworkEvent}
    (hguarded : GuardedRun.Guarded net.next net.Orderly (some (.initial managers)) events)
    (hrun : GuardedRun.run net.next (some (.initial managers)) events = some s) :
    net.Agree s := by
  have hcoherent := coherent_of_guarded (fun x => hmanagers x .invalid) hguarded hrun
  have hshared : ∀ k, net.Settled s k → ∀ x ∈ net.trackers, ∀ y ∈ net.trackers, ∀ txs,
      (k, txs) ∈ s.applied x → (k, txs) ∈ s.applied y := by
    intro k hsettled x hx y hy txs hmem
    rcases size_cases hnet with hone | ⟨A, B, hpair⟩ | hcrowded
    · rwa [← hone x hx y hy]
    · have hentries := (staged_of_guarded hpair (fun x => hmanagers x .invalid) hguarded hrun
        k).entries_eq hpair hsettled
      rw [← mem_entries] at hmem ⊢
      rcases hpair.cases hx with rfl | rfl <;> rcases hpair.cases hy with rfl | rfl
      · exact hmem
      · rwa [← hentries]
      · rwa [hentries]
      · exact hmem
    · rw [(stalled_of_run hnet hcrowded hrun).applied x] at hmem
      cases hmem
  refine ⟨fun x _ => hcoherent.exclusive x, hshared, fun hsettled x hx y hy =>
    hcoherent.unspent_eq fun p => ⟨fun hp => ?_, fun hp => ?_⟩⟩
  · exact hshared p.1 (hsettled p.1) x hx y hy p.2 hp
  · exact hshared p.1 (hsettled p.1) y hy x hx p.2 hp

end Networks

end TrackerNetwork

namespace TwoBundles
open TrackerNetwork

def left : CPubKey := CPubKey.ofBytes (2 :: List.replicate 32 1)

def right : CPubKey := CPubKey.ofBytes (3 :: List.replicate 32 1)

/-- Two trackers, for which `[1]` is the signature of everything. -/
def network : TrackerNetwork :=
  ⟨OneCoin.env, ⟨fun _ _ sig => sig = [1]⟩, fun _ _ => [1], [left, right]⟩

def ledger : CTransactionRecordManager :=
  ⟨⟨fun _ => none, fun h => if h = 7 then some ⟨[⟨5, []⟩, ⟨6, []⟩]⟩ else none⟩, .empty⟩

def stamp : Stamp := ⟨0, 0, false⟩

/-- What arrives for one bundle after another, until both trackers have added it. -/
def indexes : List ℕ := [0, 0, 0, 1, 1, 1, 1, 1]

theorem honest_network : network.Honest where
  distinct := by decide
  verifies x hx hash := by
    have hvalid : ∀ y ∈ network.trackers, y.isValid = true := by decide
    rw [SignatureScheme.verify, hvalid x hx]
    rfl

def lone : List NetworkEvent :=
  .start left 1 [OneCoin.spend 1 5] :: indexes.map fun index => .deliver 1 index stamp

theorem unspent_ledger {o : COutPoint} {out : CTxOut}
    (h : ledger.coinsViewCache.unspent o = some out) :
    o.hash = 7 ∧ out ∈ [CTxOut.mk 5 [], CTxOut.mk 6 []] := by
  obtain ⟨coins, hcoins, hunspent⟩ := Option.bind_eq_some_iff.mp h
  have hview : (if o.hash = 7 then some (CCoins.mk [⟨5, []⟩, ⟨6, []⟩]) else none) = some coins :=
    hcoins
  split at hview
  next hhash =>
    obtain rfl := Option.some.inj hview
    exact ⟨hhash, List.mem_of_getElem? (CCoins.unspent_eq_some.mp hunspent).1⟩
  next => cases hview

theorem stable_ledger : StableUnspent ledger.coinsViewCache.unspent := by
  intro o out hout
  have hstored : ∀ out ∈ [CTxOut.mk 5 [], CTxOut.mk 6 []], out.stored = out := by decide
  exact hstored out (unspent_ledger hout).2

theorem applicable_spend : Applicable OneCoin.env.hashes [OneCoin.spend 1 5] :=
  ⟨by decide, by decide, by decide⟩

theorem fits_spend : (bundleTransfer OneCoin.env.hashes [OneCoin.spend 1 5]).Fits
    ledger.coinsViewCache.unspent [] where
  available := by decide
  fresh o ho := by
    have hother : ∀ tx ∈ [OneCoin.spend 1 5], tx.getHash OneCoin.env.hashes ≠ 7 := by decide
    refine ⟨?_, List.not_mem_nil⟩
    rw [bundleTransfer, Option.isSome_map] at ho
    by_contra hunspent
    obtain ⟨out, hout⟩ := Option.ne_none_iff_exists'.mp hunspent
    rcases createdView_cases OneCoin.env.hashes [OneCoin.spend 1 5] (fun _ => none) o.hash with
      ⟨tx, htx, hhash, -⟩ | ⟨-, hnone⟩
    · exact hother tx htx (hhash.trans (unspent_ledger hout).1)
    · rw [hnone] at ho
      cases ho

theorem message_spend : (vector CTransaction.networkCodec).Fits [OneCoin.spend 1 5] := by
  have hone : compactSize.Fits 1 := show 1 ≤ maxSize by decide
  have hin : ∀ txIn ∈ (OneCoin.spend 1 5).vin, CTxIn.codec.Fits txIn :=
    List.forall_mem_singleton.mpr ⟨⟨uint256_fits _, uint32_fits _⟩, hone, uint32_fits _⟩
  have hout : ∀ txOut ∈ (OneCoin.spend 1 5).vout, CTxOut.codec.Fits txOut :=
    List.forall_mem_singleton.mpr ⟨int64_fits _, Nat.zero_le maxSize⟩
  have hcontents : CTransaction.contentsCodec.Fits (OneCoin.spend 1 5).contents :=
    ⟨int32_fits _, ⟨hone, hin⟩, ⟨hone, hout⟩, uint32_fits _⟩
  exact ⟨hone, List.forall_mem_singleton.mpr ⟨hcontents, rfl⟩⟩

theorem guarded_lone :
    GuardedRun.Guarded network.next network.Orderly (some (.initial fun _ => ledger)) lone := by
  have hsingle : ∀ event ∈ lone, event.actionKey = 1 := by decide
  have htaken : ∀ n < lone.length, ∀ index ∈ indexes[n]?,
      ∀ p ∈ (GuardedRun.run network.next (some (.initial fun _ => ledger)) (lone.take (n + 1))).bind
        (fun s => (s.takenUpBy 1 index).map fun p => (p.2, s.applied p.1)),
      p = ([OneCoin.spend 1 5], []) := by decide +kernel
  have hprefix : ∀ n, GuardedRun.Guarded network.next network.Orderly
      (some (.initial fun _ => ledger)) (lone.take (n + 1)) := by
    intro n
    induction n with
    | zero => exact ⟨message_spend, trivial⟩
    | succ n ih =>
      rw [List.take_add_one, GuardedRun.guarded_append]
      refine ⟨ih, ?_⟩
      rw [lone, List.getElem?_cons_succ, List.getElem?_map]
      cases hindex : indexes[n]? with
      | none => trivial
      | some index =>
        have hlt : n < lone.length :=
          (List.getElem?_eq_some_iff.mp hindex).1.trans (by decide)
        exact ⟨orderly_of_single (fun _ => rfl) ih
          (fun event hmem => hsingle event (List.mem_of_mem_take hmem)) (htaken n hlt index hindex)
          stable_ledger applicable_spend fits_spend, trivial⟩
  exact hprefix 8

/-- Both trackers add it. -/
theorem lone_agrees : ∃ s, GuardedRun.run network.next (some (.initial fun _ => ledger)) lone =
    some s ∧ s.applied left = [(1, [OneCoin.spend 1 5])] ∧
      s.applied right = [(1, [OneCoin.spend 1 5])] ∧ network.Agree s := by
  have hadded : (GuardedRun.run network.next (some (.initial fun _ => ledger)) lone).map
      (fun s => (s.applied left, s.applied right)) =
        some ([(1, [OneCoin.spend 1 5])], [(1, [OneCoin.spend 1 5])]) := by decide +kernel
  obtain ⟨s, hrun, happlied⟩ := Option.map_eq_some_iff.mp hadded
  obtain ⟨hleft, hright⟩ := Prod.mk.inj happlied
  exact ⟨s, hrun, hleft, hright,
    agree_of_orderly honest_network (fun _ _ => rfl) guarded_lone hrun⟩

/-- Each tracker starts a bundle that spends the first output, and the steps of the two bundles
take turns. -/
def conflict : List NetworkEvent :=
  [.start left 1 [OneCoin.spend 1 5], .start right 2 [OneCoin.spend 2 5]] ++
    indexes.flatMap fun index => [.deliver 1 index stamp, .deliver 2 index stamp]

/-- Both trackers add both bundles. -/
theorem conflict_added :
    ¬∀ (net : TrackerNetwork) (managers : CPubKey → CTransactionRecordManager)
      (events : List NetworkEvent) (s : NetworkState), net.Honest →
      (∀ x y, (managers x).coinsViewCache.unspent = (managers y).coinsViewCache.unspent) →
      GuardedRun.run net.next (some (.initial managers)) events = some s → net.Agree s := by
  intro h
  have hadded : (GuardedRun.run network.next (some (.initial fun _ => ledger)) conflict).map
      (fun s => s.applied left) =
        some [(1, [OneCoin.spend 1 5]), (2, [OneCoin.spend 2 5])] := by decide +kernel
  obtain ⟨s, hrun, happlied⟩ := Option.map_eq_some_iff.mp hadded
  have hexclusive := (h network (fun _ => ledger) conflict s honest_network (fun _ _ => rfl)
    hrun).exclusive left List.mem_cons_self
  rw [happlied] at hexclusive
  have hcommon := (List.pairwise_cons.mp hexclusive).1 _ List.mem_cons_self ⟨7, 0⟩
  exact hcommon (by decide) (by decide)

end TwoBundles

end Dims

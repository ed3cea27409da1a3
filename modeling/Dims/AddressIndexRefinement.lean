import Dims.AddressIndex
import Dims.GuardedRun
import Mathlib.Data.Set.Basic

/-!
# The address index as a map

What the index answers, seen from outside: a map from keys to sets of hashes, whose
additions take effect with the next flush. The calls that the view cache offers keep
to it as long as a flush finds its slots and does not start a key's cached entries
beside entries that only the database has.
-/

namespace Dims

section Deferred

universe u v

/-- A map to sets whose additions wait. -/
structure DeferredMap (κ : Type u) (α : Type v) where
  stored : κ → Set α
  pending : κ → Set α

namespace DeferredMap

variable {κ : Type u} {α : Type v} [DecidableEq κ]

def ofStored (stored : κ → Set α) : DeferredMap κ α := ⟨stored, fun _ => ∅⟩

def set (m : DeferredMap κ α) (key : κ) (value : α) : DeferredMap κ α :=
  { m with pending := Function.update m.pending key (insert value (m.pending key)) }

def erase (m : DeferredMap κ α) (key : κ) (value : α) : DeferredMap κ α :=
  { m with stored := Function.update m.stored key (m.stored key \ {value}) }

def flush (m : DeferredMap κ α) : DeferredMap κ α := ofStored fun key => m.stored key ∪ m.pending key

def discard (m : DeferredMap κ α) : DeferredMap κ α := ofStored m.stored

def clear : DeferredMap κ α := ofStored fun _ => ∅

end DeferredMap

end Deferred

/-- The view cache with the keys that its two multimaps may have entries for. -/
structure CoinsView extends CAddressToCoinsViewCache where
  keys : Finset CKeyID
  finite : ∀ keyId, keyId ∉ keys → cacheCoins keyId = [] ∧ insertCacheCoins keyId = []

namespace CAddressToCoinsViewCache

theorem fetchCoins_frame {s s' : CAddressToCoinsViewCache} {keyId : CKeyID}
    (h : s.fetchCoins keyId = some s') :
    s'.addressToCoins = s.addressToCoins ∧ s'.insertCacheCoins = s.insertCacheCoins ∧
      ∀ k, k ≠ keyId → s'.cacheCoins k = s.cacheCoins k := by
  unfold fetchCoins at h
  split at h
  · split at h
    · cases h
      exact ⟨rfl, rfl, fun _ _ => rfl⟩
    · cases h
  · split at h
    · cases h
      exact ⟨rfl, rfl, fun _ _ => rfl⟩
    · split at h
      · cases h
        exact ⟨rfl, rfl, fun k hk => Function.update_of_ne hk _ _⟩
      · cases h

end CAddressToCoinsViewCache

namespace CoinsView

def ofDatabase (db : CAddressToCoins) : CoinsView := ⟨⟨db, fun _ => [], fun _ => []⟩, ∅, fun _ _ => ⟨rfl, rfl⟩⟩

/-- `fetchCoins`, after which the key may be among the cached ones. -/
def fetch (s : CoinsView) (keyId : CKeyID) : Option CoinsView :=
  match h : s.toCAddressToCoinsViewCache.fetchCoins keyId with
  | none => none
  | some s' => some ⟨s', insert keyId s.keys, fun k hk => by
      obtain ⟨-, hinserted, hcached⟩ := CAddressToCoinsViewCache.fetchCoins_frame h
      rw [Finset.mem_insert, not_or] at hk
      rw [hcached k hk.1, hinserted]
      exact s.finite k hk.2⟩

def getCoins (s : CoinsView) (keyId : CKeyID) : Option (List Uint256 × CoinsView) :=
  (s.fetch keyId).map fun s' => (s'.cacheCoins keyId, s')

/-- `haveCoins` compares what `fetchCoins` found with the end of the whole multimap:
where the key has no entry, that is the next entry of a greater key. -/
def haveCoins (s : CoinsView) (keyId : CKeyID) : Option (Bool × CoinsView) :=
  (s.fetch keyId).map fun s' => (decide (∃ k ∈ s'.keys, keyId ≤ k ∧ s'.cacheCoins k ≠ []), s')

def setCoins (s : CoinsView) (keyId : CKeyID) (coin : Uint256) : CoinsView :=
  ⟨s.toCAddressToCoinsViewCache.setCoins keyId coin, insert keyId s.keys, fun k hk => by
    rw [Finset.mem_insert, not_or] at hk
    refine ⟨(s.finite k hk.2).1, ?_⟩
    exact (Function.update_of_ne hk.1 _ _).trans (s.finite k hk.2).2⟩

def eraseCoins (s : CoinsView) (keyId : CKeyID) (coin : Uint256) : CoinsView :=
  ⟨s.toCAddressToCoinsViewCache.eraseCoins keyId coin, s.keys, fun k hk => by
    refine ⟨?_, (s.finite k hk).2⟩
    change Function.update s.cacheCoins keyId _ k = []
    by_cases hkey : k = keyId
    · subst hkey
      rw [Function.update_self, (s.finite k hk).1]
      rfl
    · rw [Function.update_of_ne hkey]
      exact (s.finite k hk).1⟩

def flush (s : CoinsView) : CoinsView :=
  ⟨s.toCAddressToCoinsViewCache.flush, s.keys, fun k hk => by
    refine ⟨?_, rfl⟩
    change CAddressToCoinsViewCache.insertNew (s.cacheCoins k) (s.insertCacheCoins k) = []
    rw [(s.finite k hk).1, (s.finite k hk).2]
    rfl⟩

/-- `clearView`, which empties the database too. -/
def clearView (_ : CoinsView) : CoinsView := ofDatabase .empty

def discard (s : CoinsView) : CoinsView := ofDatabase s.addressToCoins

end CoinsView

/-- The calls of the view cache, and the loss of the cache. -/
inductive CoinsCall
  | setCoins (keyId : CKeyID) (coin : Uint256)
  | eraseCoins (keyId : CKeyID) (coin : Uint256)
  | getCoins (keyId : CKeyID)
  | haveCoins (keyId : CKeyID)
  | flush
  | clearView
  | discard

namespace CoinsView

def step (s : Option CoinsView) (call : CoinsCall) : Option CoinsView :=
  s.bind fun s => match call with
    | .setCoins keyId coin => some (s.setCoins keyId coin)
    | .eraseCoins keyId coin => some (s.eraseCoins keyId coin)
    | .getCoins keyId => (s.getCoins keyId).map Prod.snd
    | .haveCoins keyId => (s.haveCoins keyId).map Prod.snd
    | .flush => some s.flush
    | .clearView => some s.clearView
    | .discard => some s.discard

/-- What the call does to the map that the index stands for. -/
def specStep (m : DeferredMap CKeyID Uint256) : CoinsCall → DeferredMap CKeyID Uint256
  | .setCoins keyId coin => m.set keyId coin
  | .eraseCoins keyId coin => m.erase keyId coin
  | .getCoins _ => m
  | .haveCoins _ => m
  | .flush => m.flush
  | .clearView => .clear
  | .discard => m.discard

def plainStep (m : CKeyID → Set Uint256) : CoinsCall → CKeyID → Set Uint256
  | .setCoins keyId coin => Function.update m keyId (insert coin (m keyId))
  | .eraseCoins keyId coin => Function.update m keyId (m keyId \ {coin})
  | .clearView => fun _ => ∅
  | _ => m

def contents (db : CAddressToCoins) (keyId : CKeyID) : Set Uint256 := {c | db.Holds keyId c}

/-- What the calls rely on: a flush finds a slot for each new entry and adds to no
key whose other entries are in the database alone; and the key that `haveCoins`
finds empty is followed by no cached one. -/
def Calm (s : CoinsView) : CoinsCall → Prop
  | .flush => ∀ keyId, s.addressToCoins.HasRoom keyId (s.insertCacheCoins keyId) ∧
      (s.insertCacheCoins keyId ≠ [] → s.cacheCoins keyId ≠ [] ∨ s.addressToCoins.getCoins keyId = [])
  | .haveCoins keyId => s.addressToCoins.getCoins keyId = [] → ∀ k, keyId < k → s.cacheCoins k = []
  | _ => True

/-- The view says what the map says. -/
structure Refines (s : CoinsView) (m : DeferredMap CKeyID Uint256) : Prop where
  wellFormed : s.addressToCoins.WellFormed
  holds : ∀ keyId c, s.addressToCoins.Holds keyId c ↔ c ∈ m.stored keyId
  nodup : ∀ keyId, (s.cacheCoins keyId).Nodup
  cached : ∀ keyId, s.cacheCoins keyId = [] ∨
    ∀ c, c ∈ s.cacheCoins keyId ↔ c ∈ m.stored keyId
  pending : ∀ keyId c, c ∈ s.insertCacheCoins keyId ↔ c ∈ m.pending keyId

variable {s : CoinsView} {m : DeferredMap CKeyID Uint256}

theorem refines_ofDatabase {db : CAddressToCoins} (h : db.WellFormed) :
    (ofDatabase db).Refines (.ofStored (contents db)) where
  wellFormed := h
  holds _ _ := Iff.rfl
  nodup _ := List.nodup_nil
  cached _ := .inl rfl
  pending _ _ := by simp [ofDatabase, DeferredMap.ofStored]

theorem Refines.mem_getCoins (h : s.Refines m) (keyId : CKeyID) (c : Uint256) :
    c ∈ s.addressToCoins.getCoins keyId ↔ c ∈ m.stored keyId := by
  rw [h.wellFormed.mem_getCoins, h.holds]

/-- The assertions of `fetchCoins` hold, and afterwards the key is loaded. -/
theorem Refines.fetch (h : s.Refines m) (keyId : CKeyID) :
    ∃ s', s.fetch keyId = some s' ∧ s'.Refines m ∧ s'.addressToCoins = s.addressToCoins ∧
      (∀ c, c ∈ s'.cacheCoins keyId ↔ c ∈ m.stored keyId) ∧
      ∀ k, k ≠ keyId → s'.cacheCoins k = s.cacheCoins k := by
  -- it is enough to say what is loaded
  suffices hload : ∃ s', s.toCAddressToCoinsViewCache.fetchCoins keyId = some s' ∧
      (s'.cacheCoins keyId).Nodup ∧ ∀ c, c ∈ s'.cacheCoins keyId ↔ c ∈ m.stored keyId by
    obtain ⟨s', hs', hnodup, hmem⟩ := hload
    obtain ⟨hdb, hinserted, hframe⟩ := CAddressToCoinsViewCache.fetchCoins_frame hs'
    have hfetch : ∃ v, s.fetch keyId = some v ∧ v.toCAddressToCoinsViewCache = s' := by
      unfold CoinsView.fetch
      split
      next hnone =>
        rw [hs'] at hnone
        cases hnone
      next s'' hsome =>
        rw [hs'] at hsome
        cases hsome
        exact ⟨_, rfl, rfl⟩
    obtain ⟨v, hv, rfl⟩ := hfetch
    refine ⟨v, hv, ⟨?_, fun k c => ?_, fun k => ?_, fun k => ?_, fun k c => ?_⟩, hdb, hmem, hframe⟩
    · rw [hdb]
      exact h.wellFormed
    · rw [hdb]
      exact h.holds k c
    · by_cases hk : k = keyId
      · subst hk
        exact hnodup
      · rw [hframe k hk]
        exact h.nodup k
    · by_cases hk : k = keyId
      · subst hk
        exact .inr hmem
      · rw [hframe k hk]
        exact h.cached k
    · rw [hinserted]
      exact h.pending k c
  have hlength := CAddressToCoins.length_getCoins s.addressToCoins keyId
  unfold CAddressToCoinsViewCache.fetchCoins
  by_cases hempty : s.cacheCoins keyId = []
  · rw [if_neg (not_not.mpr hempty)]
    by_cases hnone : s.addressToCoins.getCoins keyId = []
    · rw [if_pos hnone]
      refine ⟨_, rfl, h.nodup keyId, fun c => ?_⟩
      rw [← h.mem_getCoins, hnone, hempty]
    · rw [if_neg hnone, if_pos hlength]
      have hloaded : Function.update s.cacheCoins keyId (s.addressToCoins.getCoins keyId) keyId =
          s.addressToCoins.getCoins keyId := Function.update_self ..
      refine ⟨_, rfl, ?_, fun c => ?_⟩
      · dsimp only
        rw [hloaded]
        exact h.wellFormed.nodup_getCoins
      · dsimp only
        rw [hloaded]
        exact h.mem_getCoins keyId c
  · have hmem := (h.cached keyId).resolve_left hempty
    have hperm : (s.cacheCoins keyId).Perm (s.addressToCoins.getCoins keyId) :=
      (List.perm_ext_iff_of_nodup (h.nodup keyId) h.wellFormed.nodup_getCoins).mpr fun c =>
        (hmem c).trans (h.mem_getCoins keyId c).symm
    rw [if_pos hempty, if_pos (hperm.length_eq.trans hlength)]
    exact ⟨_, rfl, h.nodup keyId, hmem⟩

section Calls

theorem Refines.setCoins (h : s.Refines m) (keyId : CKeyID) (coin : Uint256) :
    (s.setCoins keyId coin).Refines (m.set keyId coin) := by
  refine ⟨h.wellFormed, h.holds, h.nodup, h.cached, fun k c => ?_⟩
  change c ∈ Function.update s.insertCacheCoins keyId (s.insertCacheCoins keyId ++ [coin]) k ↔
    c ∈ Function.update m.pending keyId (insert coin (m.pending keyId)) k
  by_cases hk : k = keyId
  · subst hk
    rw [Function.update_self, Function.update_self, List.mem_append, List.mem_singleton, h.pending,
      Set.mem_insert_iff, or_comm]
  · rw [Function.update_of_ne hk, Function.update_of_ne hk]
    exact h.pending k c

theorem Refines.eraseCoins (h : s.Refines m) (keyId : CKeyID) (coin : Uint256) :
    (s.eraseCoins keyId coin).Refines (m.erase keyId coin) := by
  have hstored : ∀ k c, c ∈ (m.erase keyId coin).stored k ↔
      c ∈ m.stored k ∧ ¬(k = keyId ∧ c = coin) := by
    intro k c
    change c ∈ Function.update m.stored keyId (m.stored keyId \ {coin}) k ↔ _
    by_cases hk : k = keyId
    · subst hk
      simp
    · simp [hk]
  refine ⟨h.wellFormed.eraseCoin keyId coin, fun k c => ?_, fun k => ?_, fun k => ?_, h.pending⟩
  · rw [hstored, ← h.holds]
    exact h.wellFormed.holds_eraseCoin coin k c
  · change (Function.update s.cacheCoins keyId ((s.cacheCoins keyId).erase coin) k).Nodup
    by_cases hk : k = keyId
    · subst hk
      rw [Function.update_self]
      exact (h.nodup k).erase coin
    · rw [Function.update_of_ne hk]
      exact h.nodup k
  · change Function.update s.cacheCoins keyId ((s.cacheCoins keyId).erase coin) k = [] ∨
      ∀ c, c ∈ Function.update s.cacheCoins keyId ((s.cacheCoins keyId).erase coin) k ↔ _
    by_cases hk : k = keyId
    · subst hk
      rw [Function.update_self]
      rcases h.cached k with hempty | hmem
      · rw [hempty]
        exact .inl rfl
      · refine .inr fun c => ?_
        rw [(h.nodup k).mem_erase_iff, hstored, hmem]
        simp [and_comm]
    · rw [Function.update_of_ne hk]
      refine (h.cached k).imp_right fun hmem c => ?_
      rw [hstored, hmem]
      simp [hk]

/-- A key that is loaded or has no stored entries has exactly the map's entries
cached after the flush. -/
theorem Refines.flush (h : s.Refines m) (hcalm : s.Calm .flush) : s.flush.Refines m.flush := by
  obtain ⟨hwritten, hholds⟩ :=
    h.wellFormed.batchWrite s.insertCacheCoins fun keyId => (hcalm keyId).1
  refine ⟨hwritten, fun k c => ?_, fun k => ?_, fun k => ?_, fun k c => ?_⟩
  · change (s.addressToCoins.batchWrite s.insertCacheCoins).Holds k c ↔ _
    rw [hholds, h.holds, h.pending]
    rfl
  · exact CAddressToCoinsViewCache.nodup_insertNew (h.nodup k) _
  · change CAddressToCoinsViewCache.insertNew (s.cacheCoins k) (s.insertCacheCoins k) = [] ∨
      ∀ c, c ∈ CAddressToCoinsViewCache.insertNew (s.cacheCoins k) (s.insertCacheCoins k) ↔ _
    by_cases hnew : s.insertCacheCoins k = []
    · rw [hnew]
      refine (h.cached k).imp_right fun hmem c => ?_
      have hpending : c ∉ m.pending k := by
        rw [← h.pending, hnew]
        exact List.not_mem_nil
      refine (hmem c).trans (Iff.symm ?_)
      exact or_iff_left hpending
    · refine .inr fun c => ?_
      rw [CAddressToCoinsViewCache.mem_insertNew, h.pending]
      refine or_congr ?_ Iff.rfl
      by_cases hempty : s.cacheCoins k = []
      · have hnone := ((hcalm k).2 hnew).resolve_left (not_not.mpr hempty)
        rw [hempty, ← h.mem_getCoins, hnone]
      · exact (h.cached k).resolve_left hempty c
  · exact ⟨fun hc => absurd hc List.not_mem_nil, fun hc => hc.elim⟩

theorem Refines.discard (h : s.Refines m) : s.discard.Refines m.discard where
  wellFormed := h.wellFormed
  holds := h.holds
  nodup _ := List.nodup_nil
  cached _ := .inl rfl
  pending _ _ := ⟨fun hc => absurd hc List.not_mem_nil, fun hc => hc.elim⟩

theorem refines_clearView (s : CoinsView) : s.clearView.Refines .clear where
  wellFormed := CAddressToCoins.wellFormed_empty
  holds k c := ⟨fun ⟨_, hi⟩ => (by cases hi), fun hc => hc.elim⟩
  nodup _ := List.nodup_nil
  cached _ := .inl rfl
  pending _ _ := ⟨fun hc => absurd hc List.not_mem_nil, fun hc => hc.elim⟩

end Calls

section Answers

theorem Refines.getCoins (h : s.Refines m) (keyId : CKeyID) :
    ∃ coins s', s.getCoins keyId = some (coins, s') ∧ s'.Refines m ∧ coins.Nodup ∧
      ∀ c, c ∈ coins ↔ c ∈ m.stored keyId := by
  obtain ⟨s', hs', hrefines, -, hmem, -⟩ := h.fetch keyId
  refine ⟨s'.cacheCoins keyId, s', ?_, hrefines, hrefines.nodup keyId, hmem⟩
  rw [CoinsView.getCoins, hs']
  rfl

theorem Refines.haveCoins (h : s.Refines m) (keyId : CKeyID) :
    ∃ have_ s', s.haveCoins keyId = some (have_, s') ∧ s'.Refines m ∧
      (s.Calm (.haveCoins keyId) → (have_ = true ↔ (m.stored keyId).Nonempty)) := by
  obtain ⟨s', hs', hrefines, hdb, hmem, hframe⟩ := h.fetch keyId
  refine ⟨_, s', by rw [CoinsView.haveCoins, hs', Option.map_some], hrefines, fun hcalm => ?_⟩
  rw [decide_eq_true_iff]
  constructor
  · rintro ⟨k, -, hle, hcached⟩
    by_contra hnone
    have hempty : ∀ c, c ∉ m.stored keyId := fun c hc => hnone ⟨c, hc⟩
    by_cases hk : k = keyId
    · subst hk
      obtain ⟨c, hc⟩ := List.exists_mem_of_ne_nil _ hcached
      exact hempty c ((hmem c).mp hc)
    · have hgetCoins : s.addressToCoins.getCoins keyId = [] :=
        List.eq_nil_iff_forall_not_mem.mpr fun c hc => hempty c ((h.mem_getCoins keyId c).mp hc)
      have hlt : keyId < k := BitVec.lt_of_le_ne hle (Ne.symm hk)
      rw [hframe k hk] at hcached
      exact hcached (hcalm hgetCoins k hlt)
  · rintro ⟨c, hc⟩
    have hcached : s'.cacheCoins keyId ≠ [] := List.ne_nil_of_mem ((hmem c).mpr hc)
    have hkey : keyId ∈ s'.keys := by
      by_contra hkey
      exact hcached (s'.finite keyId hkey).1
    exact ⟨keyId, hkey, BitVec.le_refl keyId, hcached⟩

end Answers

section Run

theorem Refines.step (h : s.Refines m) {call : CoinsCall} (hcalm : s.Calm call) :
    ∃ s', CoinsView.step (some s) call = some s' ∧ s'.Refines (specStep m call) := by
  cases call with
  | setCoins keyId coin => exact ⟨_, rfl, h.setCoins keyId coin⟩
  | eraseCoins keyId coin => exact ⟨_, rfl, h.eraseCoins keyId coin⟩
  | getCoins keyId =>
    obtain ⟨coins, s', hs', hrefines, -⟩ := h.getCoins keyId
    refine ⟨s', ?_, hrefines⟩
    change (s.getCoins keyId).map Prod.snd = _
    rw [hs']
    rfl
  | haveCoins keyId =>
    obtain ⟨have_, s', hs', hrefines, -⟩ := h.haveCoins keyId
    refine ⟨s', ?_, hrefines⟩
    change (s.haveCoins keyId).map Prod.snd = _
    rw [hs']
    rfl
  | flush => exact ⟨_, rfl, h.flush hcalm⟩
  | clearView => exact ⟨_, rfl, refines_clearView s⟩
  | discard => exact ⟨_, rfl, h.discard⟩

/-- What a view answers, if it stands for the map. -/
def Answers (s : CoinsView) (stored : CKeyID → Set Uint256) : Prop :=
  ∀ keyId,
    (∃ coins s', s.getCoins keyId = some (coins, s') ∧ coins.Nodup ∧
      ∀ c, c ∈ coins ↔ c ∈ stored keyId) ∧
    (s.Calm (.haveCoins keyId) →
      ∃ have_ s', s.haveCoins keyId = some (have_, s') ∧ (have_ = true ↔ (stored keyId).Nonempty))

theorem Refines.answers (h : s.Refines m) : s.Answers m.stored := by
  intro keyId
  constructor
  · obtain ⟨coins, s', hs', -, hnodup, hmem⟩ := h.getCoins keyId
    exact ⟨coins, s', hs', hnodup, hmem⟩
  · intro hcalm
    obtain ⟨have_, s', hs', -, hiff⟩ := h.haveCoins keyId
    exact ⟨have_, s', hs', hiff hcalm⟩

/-- The calls of a run each rely on the state they meet. -/
def CalmCall (s : Option CoinsView) (call : CoinsCall) : Prop := ∀ v, s = some v → v.Calm call

theorem Refines.after {calls : List CoinsCall} (h : s.Refines m)
    (hguarded : GuardedRun.Guarded CoinsView.step CalmCall (some s) calls) :
    ∃ s', GuardedRun.run CoinsView.step (some s) calls = some s' ∧
      s'.Refines (GuardedRun.run specStep m calls) := by
  induction calls generalizing s m with
  | nil => exact ⟨s, rfl, h⟩
  | cons call calls ih =>
    obtain ⟨hcalm, hrest⟩ := hguarded
    obtain ⟨s', hs', hrefines⟩ := h.step (hcalm s rfl)
    rw [GuardedRun.run_cons, GuardedRun.run_cons, hs']
    rw [hs'] at hrest
    exact ih hrefines hrest

/-- After any calls over a well-formed database the view answers what the map holds;
a flush brings the waiting additions in, and losing the cache after it changes no
answer. -/
theorem answers_as_map {db : CAddressToCoins} (hdb : db.WellFormed) {calls : List CoinsCall}
    (hguarded : GuardedRun.Guarded step CalmCall (some (ofDatabase db)) calls) :
    let spec := GuardedRun.run specStep (.ofStored (contents db)) calls
    ∃ s, GuardedRun.run step (some (ofDatabase db)) calls = some s ∧ s.Answers spec.stored ∧
      (s.Calm .flush → s.flush.Answers spec.flush.stored ∧
        s.flush.discard.Answers spec.flush.stored) := by
  obtain ⟨s, hs, hrefines⟩ := (refines_ofDatabase hdb).after hguarded
  refine ⟨s, hs, hrefines.answers, fun hcalm => ⟨(hrefines.flush hcalm).answers, ?_⟩⟩
  exact (hrefines.flush hcalm).discard.answers

end Run

end CoinsView

namespace SetBeforeFlush
open CoinsView

def calls : List CoinsCall := [.setCoins 0 1]

theorem hasRoom_single (keyId : CKeyID) {coins : List Uint256} (h : coins.length ≤ 2) :
    CAddressToCoins.empty.HasRoom keyId coins := by
  intro c _
  calc (CAddressToCoins.empty.newCoins keyId (getBucket c) coins).card
      ≤ (coins.filter fun d => getBucket d = getBucket c ∧
          d ∉ CAddressToCoins.empty.bucketCoins keyId (getBucket c)).length :=
        List.toFinset_card_le _
    _ ≤ coins.length := List.length_filter_le _ _
    _ ≤ 2 := h
    _ ≤ CAddressToCoins.empty.capacity keyId (getBucket c) := le_max_left _ _

/-- With the flush the entry is there. -/
theorem answers_flushed :
    let spec := GuardedRun.run specStep (.ofStored (contents .empty)) (calls ++ [.flush])
    ∃ s, GuardedRun.run step (some (ofDatabase .empty)) (calls ++ [.flush]) = some s ∧
      s.Answers spec.stored ∧ (s.Calm .flush → s.flush.Answers spec.flush.stored ∧
        s.flush.discard.Answers spec.flush.stored) := by
  have hguarded : GuardedRun.Guarded step CalmCall (some (ofDatabase .empty))
      (calls ++ [.flush]) := by
    refine ⟨fun _ _ => trivial, fun v hv keyId => ?_, trivial⟩
    cases hv
    have hlength : (((ofDatabase .empty).setCoins 0 1).insertCacheCoins keyId).length ≤ 2 := by
      change (Function.update (fun _ => []) 0 ([] ++ [1]) keyId : List Uint256).length ≤ 2
      by_cases hkey : keyId = 0
      · subst hkey
        simp
      · rw [Function.update_of_ne hkey]
        exact Nat.zero_le 2
    refine ⟨hasRoom_single keyId hlength, fun _ => .inr ?_⟩
    exact List.eq_nil_iff_forall_not_mem.mpr fun c hc => by
      obtain ⟨i, hi⟩ := CAddressToCoins.wellFormed_empty.mem_getCoins.mp hc
      cases hi
  exact answers_as_map CAddressToCoins.wellFormed_empty hguarded

/-- Without it the view does not list the entry that a plain map holds. -/
theorem absent_before_flush :
    ∃ s coins s', GuardedRun.run step (some (ofDatabase .empty)) calls = some s ∧
      s.getCoins 0 = some (coins, s') ∧ 1 ∉ coins ∧
      1 ∈ GuardedRun.run plainStep (contents .empty) calls 0 := by
  have hrefines := (refines_ofDatabase CAddressToCoins.wellFormed_empty).setCoins 0 1
  obtain ⟨coins, s', hs', -, -, hmem⟩ := hrefines.getCoins 0
  refine ⟨(ofDatabase .empty).setCoins 0 1, coins, s', rfl, hs', fun hc => ?_, ?_⟩
  · obtain ⟨i, hi⟩ := (hmem 1).mp hc
    cases hi
  · change 1 ∈ Function.update (contents .empty) 0 (insert 1 (contents .empty 0)) 0
    rw [Function.update_self]
    exact Set.mem_insert 1 _

end SetBeforeFlush

end Dims

import Dims.AddressToCoins
import Mathlib.Data.Finset.Card
import Mathlib.Data.List.Perm.Basic

/-!
# What the address index holds

A well formed database keeps every hash of a key once, in the bucket of that
hash and below the amount of the bucket. Erasing keeps this form. A batch keeps
it as long as the new hashes of a bucket find room: the amount that `batchWrite`
has looked up is not raised a second time, so a batch fills the free slots and
goes one slot beyond them, or two if no slot was free.
-/

namespace Dims

namespace BucketBatch

variable (slots : ℕ → Option Uint256) (stored : ℕ)

def written (batch : BucketBatch) : ℕ → Option Uint256 :=
  fun i => (batch.coinsBatch i).or (slots i)

def writtenAmount (batch : BucketBatch) : ℕ := batch.amountBatch.getD stored

/-- The number of slots that the next coin is compared with. -/
def searched (batch : BucketBatch) : ℕ := batch.amount.getD stored

def freeSlots (slots : ℕ → Option Uint256) (amount : ℕ) : Finset ℕ :=
  (Finset.range amount).filter fun i => slots i = none

/-- How many coins that are new to the bucket still find a slot. -/
def room (batch : BucketBatch) : ℕ :=
  match batch.amount with
  | none => max 2 ((freeSlots slots stored).card + 1)
  | some amount =>
    if batch.writtenAmount stored = amount then
      (freeSlots (batch.written slots) amount).card + 1
    else 0

/-- The batch as it is while its coins find room. -/
structure Coherent (batch : BucketBatch) : Prop where
  recent : batch.recentlyIncluded = batch.coinsBatch
  reached : stored ≤ batch.searched stored
  kept : ∀ i c, slots i = some c → batch.written slots i = some c
  distinct : ∀ i j c, batch.written slots i = some c → batch.written slots j = some c → i = j
  bounded : ∀ i, batch.writtenAmount stored ≤ i → batch.written slots i = none
  untouched : batch.amount = none → batch = empty
  /-- The slot beyond those searched is filled only when none of them is free. -/
  beyond : batch.writtenAmount stored = batch.searched stored ∨
    batch.writtenAmount stored = batch.searched stored + 1 ∧ batch.amount.isSome = true ∧
      ∀ i < batch.searched stored, batch.written slots i ≠ none

variable {slots stored}

theorem mem_freeSlots {f : ℕ → Option Uint256} {amount i : ℕ} :
    i ∈ freeSlots f amount ↔ i < amount ∧ f i = none := by
  simp [freeSlots]

theorem card_freeSlots_update {f : ℕ → Option Uint256} {amount i : ℕ} (coin : Uint256)
    (hi : i < amount) (hfree : f i = none) :
    (freeSlots (Function.update f i (some coin)) amount).card + 1 = (freeSlots f amount).card := by
  have herase : freeSlots (Function.update f i (some coin)) amount =
      (freeSlots f amount).erase i := by
    ext j
    rw [Finset.mem_erase, mem_freeSlots, mem_freeSlots]
    by_cases hj : j = i
    · simp [hj]
    · simp [hj]
  rw [herase]
  exact Finset.card_erase_add_one (mem_freeSlots.mpr ⟨hi, hfree⟩)

theorem freeSlots_eq_empty {f : ℕ → Option Uint256} {amount : ℕ}
    (h : ∀ i < amount, f i ≠ none) : freeSlots f amount = ∅ := by
  apply Finset.eq_empty_of_forall_notMem
  intro i hi
  rcases mem_freeSlots.mp hi with ⟨hlt, hnone⟩
  exact h i hlt hnone

theorem exists_update_iff {f : ℕ → Option Uint256} {slot : ℕ} (hfree : f slot = none)
    {coin c : Uint256} :
    (∃ i, Function.update f slot (some coin) i = some c) ↔ (∃ i, f i = some c) ∨ c = coin := by
  constructor
  · rintro ⟨i, hi⟩
    by_cases hislot : i = slot
    · rw [hislot, Function.update_self, Option.some.injEq] at hi
      exact .inr hi.symm
    · rw [Function.update_of_ne hislot] at hi
      exact .inl ⟨i, hi⟩
  · rintro (⟨i, hi⟩ | rfl)
    · refine ⟨i, ?_⟩
      rw [Function.update_of_ne, hi]
      rintro rfl
      rw [hfree] at hi
      cases hi
    · exact ⟨slot, Function.update_self _ _ _⟩

theorem distinct_update {f : ℕ → Option Uint256}
    (hdistinct : ∀ i j c, f i = some c → f j = some c → i = j) {coin : Uint256} {slot : ℕ}
    (hnew : ∀ i, i ≠ slot → f i ≠ some coin) {i j : ℕ} {c : Uint256}
    (hi : Function.update f slot (some coin) i = some c)
    (hj : Function.update f slot (some coin) j = some c) : i = j := by
  by_cases hislot : i = slot
  · by_cases hjslot : j = slot
    · rw [hislot, hjslot]
    · rw [hislot, Function.update_self] at hi
      rw [Function.update_of_ne hjslot, ← hi] at hj
      exact absurd hj (hnew j hjslot)
  · rw [Function.update_of_ne hislot] at hi
    by_cases hjslot : j = slot
    · rw [hjslot, Function.update_self] at hj
      rw [← hj] at hi
      exact absurd hi (hnew i hislot)
    · rw [Function.update_of_ne hjslot] at hj
      exact hdistinct i j c hi hj

theorem searchSlots_cons (recentlyIncluded slots : ℕ → Option Uint256) (coin : Uint256) (i : ℕ)
    (ids : List ℕ) (found : Option ℕ) :
    searchSlots recentlyIncluded slots coin (i :: ids) found =
      match (recentlyIncluded i).or (slots i) with
      | none => searchSlots recentlyIncluded slots coin ids (some i)
      | some c => if c = coin then none else searchSlots recentlyIncluded slots coin ids found := by
  cases hrecent : recentlyIncluded i with
  | none =>
    cases hslot : slots i with
    | none => simp [searchSlots, hrecent, hslot]
    | some c => simp [searchSlots, hrecent, hslot]
  | some c => simp [searchSlots, hrecent]

/-- The search ends without a value at a slot that has the coin; else it has
gone through all slots and names a free one if there is one. -/
theorem searchSlots_spec (recentlyIncluded slots : ℕ → Option Uint256) (coin : Uint256)
    (ids : List ℕ) (found : Option ℕ) :
    (searchSlots recentlyIncluded slots coin ids found = none ∧
      ∃ i ∈ ids, (recentlyIncluded i).or (slots i) = some coin) ∨
    ∃ result, searchSlots recentlyIncluded slots coin ids found = some result ∧
      (∀ i ∈ ids, (recentlyIncluded i).or (slots i) ≠ some coin) ∧
      (result = none → found = none ∧ ∀ i ∈ ids, (recentlyIncluded i).or (slots i) ≠ none) ∧
      ∀ j, result = some j →
        found = some j ∨ j ∈ ids ∧ (recentlyIncluded j).or (slots j) = none := by
  induction ids generalizing found with
  | nil => exact .inr ⟨found, rfl, by simp, by simp, fun j hj => .inl hj⟩
  | cons i ids ih =>
    rw [searchSlots_cons]
    cases hslot : (recentlyIncluded i).or (slots i) with
    | none =>
      rcases ih (some i) with ⟨hnone, j, hj, hcoin⟩ | ⟨result, hresult, hmiss, hnone, hsome⟩
      · exact .inl ⟨hnone, j, List.mem_cons_of_mem _ hj, hcoin⟩
      · refine .inr ⟨result, hresult, List.forall_mem_cons.mpr ⟨by simp [hslot], hmiss⟩, ?_, ?_⟩
        · intro hr
          cases (hnone hr).1
        · intro j hj
          rcases hsome j hj with heq | ⟨hmem, hfree⟩
          · cases heq
            exact .inr ⟨List.mem_cons_self, hslot⟩
          · exact .inr ⟨List.mem_cons_of_mem _ hmem, hfree⟩
    | some c =>
      by_cases hc : c = coin
      · subst hc
        exact .inl ⟨if_pos rfl, i, List.mem_cons_self, hslot⟩
      · dsimp only
        rw [if_neg hc]
        rcases ih found with ⟨hnone, j, hj, hcoin⟩ | ⟨result, hresult, hmiss, hnone, hsome⟩
        · exact .inl ⟨hnone, j, List.mem_cons_of_mem _ hj, hcoin⟩
        · refine .inr ⟨result, hresult, List.forall_mem_cons.mpr ⟨by simpa [hslot] using hc, hmiss⟩,
            ?_, ?_⟩
          · intro hr
            exact ⟨(hnone hr).1, List.forall_mem_cons.mpr ⟨by simp [hslot], (hnone hr).2⟩⟩
          · intro j hj
            exact (hsome j hj).imp_right fun ⟨hmem, hfree⟩ => ⟨List.mem_cons_of_mem _ hmem, hfree⟩

variable {batch : BucketBatch} {coin : Uint256}

/-- Whatever the batch looks at, it compares with what will be in the slots. -/
theorem Coherent.search (hb : Coherent slots stored batch) (i : ℕ) :
    (batch.recentlyIncluded i).or (slots i) = batch.written slots i := by
  rw [hb.recent, written]

theorem includeCoin_of_none
    (h : searchSlots batch.recentlyIncluded slots coin (List.range (batch.searched stored)) none =
      none) : batch.includeCoin slots stored coin = batch := by
  unfold searched at h
  simp only [includeCoin, h]

theorem includeCoin_of_some {found : Option ℕ}
    (h : searchSlots batch.recentlyIncluded slots coin (List.range (batch.searched stored)) none =
      some found) :
    batch.includeCoin slots stored coin =
      { amount := some (batch.amount.getD (found.elim (stored + 1) fun _ => stored))
        recentlyIncluded := Function.update batch.recentlyIncluded
          (found.getD (batch.searched stored))
          (some ((batch.recentlyIncluded (found.getD (batch.searched stored))).getD coin))
        amountBatch := some (found.elim (batch.searched stored + 1) fun _ => batch.searched stored)
        coinsBatch := Function.update batch.coinsBatch (found.getD (batch.searched stored))
          (some coin) } := by
  unfold searched at h
  simp only [includeCoin, h]
  cases found with
  | none => cases hamount : batch.amount <;> simp [searched, hamount]
  | some slot => cases hamount : batch.amount <;> simp [searched, hamount]

/-- Where a coin goes if the search sees what will be in the slots: nowhere, into a free slot,
or into the slot after those searched. -/
theorem includeCoin_cases
    (hsearch : ∀ i < batch.searched stored,
      (batch.recentlyIncluded i).or (slots i) = batch.written slots i)
    {after : BucketBatch} (hafter : batch.includeCoin slots stored coin = after) :
    (after = batch ∧ ∃ i, batch.written slots i = some coin) ∨
    (∀ i < batch.searched stored, batch.written slots i ≠ some coin) ∧ ∃ slot,
      after.recentlyIncluded = Function.update batch.recentlyIncluded slot
        (some ((batch.recentlyIncluded slot).getD coin)) ∧
      after.coinsBatch = Function.update batch.coinsBatch slot (some coin) ∧
      after.written slots = Function.update (batch.written slots) slot (some coin) ∧
      (slot < batch.searched stored ∧ batch.written slots slot = none ∧
          after.amount = some (batch.searched stored) ∧
          after.amountBatch = some (batch.searched stored) ∨
        slot = batch.searched stored ∧ (∀ i < slot, batch.written slots i ≠ none) ∧
          after.amount = some (batch.amount.getD (stored + 1)) ∧
          after.amountBatch = some (slot + 1)) := by
  rcases searchSlots_spec batch.recentlyIncluded slots coin
    (List.range (batch.searched stored)) none with ⟨hnone, i, hi, hcoin⟩ | ⟨found, hfound, hmiss, hnone, hsome⟩
  · rw [includeCoin_of_none hnone] at hafter
    rw [hsearch i (List.mem_range.mp hi)] at hcoin
    exact .inl ⟨hafter.symm, i, hcoin⟩
  right
  rw [includeCoin_of_some hfound] at hafter
  subst hafter
  refine ⟨?_, found.getD (batch.searched stored), rfl, rfl, ?_, ?_⟩
  · intro i hi
    rw [← hsearch i hi]
    exact hmiss i (List.mem_range.mpr hi)
  · funext i
    by_cases hi : i = found.getD (batch.searched stored)
    · simp [written, hi]
    · simp [written, hi]
  · cases found with
    | none =>
      refine .inr ⟨rfl, ?_, rfl, rfl⟩
      intro i hi
      rw [← hsearch i hi]
      exact (hnone rfl).2 i (List.mem_range.mpr hi)
    | some j =>
      rcases hsome j rfl with hfalse | ⟨hj, hfree⟩
      · cases hfalse
      · have hlt := List.mem_range.mp hj
        rw [hsearch j hlt] at hfree
        refine .inl ⟨hlt, hfree, ?_, rfl⟩
        cases hamount : batch.amount <;> simp [searched, hamount]

theorem Coherent.includeCoin_of_mem (hb : Coherent slots stored batch)
    (hslots : ∀ i, stored ≤ i → slots i = none) {i : ℕ}
    (hi : batch.written slots i = some coin) : batch.includeCoin slots stored coin = batch := by
  rcases searchSlots_spec batch.recentlyIncluded slots coin
    (List.range (batch.searched stored)) none with ⟨hnone, -⟩ | ⟨found, hfound, hmiss, -, hsome⟩
  · exact includeCoin_of_none hnone
  · -- the coin is in the one slot that is not searched
    have hbeyond : batch.searched stored ≤ i := by
      by_contra hlt
      exact hmiss i (List.mem_range.mpr (by omega)) (by rw [hb.search, hi])
    have hlast : i < batch.writtenAmount stored := by
      by_contra hge
      rw [hb.bounded i (by omega)] at hi
      cases hi
    rcases hb.beyond with hopen | ⟨hclosed, hamount, hfull⟩
    · omega
    · have hslot : i = batch.searched stored := by omega
      subst hslot
      have hcoins : batch.coinsBatch (batch.searched stored) = some coin := by
        rwa [written, hslots _ hb.reached, Option.or_none] at hi
      have hnotfound : found = none := by
        cases hr : found with
        | none => rfl
        | some j =>
          rcases hsome j hr with hfalse | ⟨hj, hfree⟩
          · cases hfalse
          · rw [hb.search] at hfree
            exact absurd hfree (hfull j (List.mem_range.mp hj))
      have hbatch : batch.amountBatch = some (batch.searched stored + 1) := by
        have hreached := hb.reached
        unfold writtenAmount at hclosed
        cases hbatch : batch.amountBatch with
        | none => rw [hbatch, Option.getD_none] at hclosed; omega
        | some m => rw [hbatch, Option.getD_some] at hclosed; rw [hclosed]
      rcases Option.isSome_iff_exists.mp hamount with ⟨amount, hamount⟩
      rw [includeCoin_of_some hfound, hnotfound, hamount]
      simp only [Option.getD_some, Option.getD_none, Option.elim_none, hb.recent, hcoins]
      rw [← hcoins, Function.update_eq_self, ← hbatch, ← hamount]
      nth_rewrite 1 [← hb.recent]
      rfl

theorem Coherent.open_of_room (hb : Coherent slots stored batch)
    (hroom : 0 < batch.room slots stored) : batch.writtenAmount stored = batch.searched stored := by
  rcases hb.beyond with hopen | ⟨hclosed, hamount, -⟩
  · exact hopen
  · rcases Option.isSome_iff_exists.mp hamount with ⟨amount, hamount⟩
    unfold room at hroom
    unfold searched at hclosed
    simp only [hamount, Option.getD_some] at hroom hclosed
    rw [hclosed, if_neg (by omega)] at hroom
    omega

theorem Coherent.includeCoin_slot (hb : Coherent slots stored batch)
    (hnew : ∀ i, batch.written slots i ≠ some coin)
    (hopen : batch.writtenAmount stored = batch.searched stored)
    {after : BucketBatch} (hafter : batch.includeCoin slots stored coin = after) :
    after.recentlyIncluded = after.coinsBatch ∧ ∃ slot, batch.written slots slot = none ∧
      after.written slots = Function.update (batch.written slots) slot (some coin) ∧
      (slot < batch.searched stored ∧ after.amount = some (batch.searched stored) ∧
          after.amountBatch = some (batch.searched stored) ∨
        slot = batch.searched stored ∧ (∀ i < slot, batch.written slots i ≠ none) ∧
          after.amount = some (batch.amount.getD (stored + 1)) ∧
          after.amountBatch = some (slot + 1)) := by
  rcases includeCoin_cases (fun i _ => hb.search i) hafter with
    ⟨-, i, hi⟩ | ⟨-, slot, hrecent, hcoins, hwritten, hcase⟩
  · exact absurd hi (hnew i)
  · have hfree : batch.written slots slot = none := by
      rcases hcase with ⟨-, hfree, -⟩ | ⟨heq, -⟩
      · exact hfree
      · exact hb.bounded slot (by omega)
    have hempty : batch.coinsBatch slot = none := (Option.or_eq_none_iff.mp hfree).1
    refine ⟨?_, slot, hfree, hwritten, ?_⟩
    · rw [hrecent, hcoins, hb.recent, hempty, Option.getD_none]
    · exact hcase.imp_left fun ⟨hlt, _, hamount, hbatch⟩ => ⟨hlt, hamount, hbatch⟩

theorem Coherent.includeCoin (hb : Coherent slots stored batch)
    (hnew : ∀ i, batch.written slots i ≠ some coin)
    (hopen : batch.writtenAmount stored = batch.searched stored) :
    Coherent slots stored (batch.includeCoin slots stored coin) := by
  rcases hb.includeCoin_slot hnew hopen rfl with ⟨hrecent, slot, hfree, hwritten, hcase⟩
  generalize batch.includeCoin slots stored coin = after at *
  have hreached := hb.reached
  have hamounts : after.amount.isSome = true ∧ slot < after.writtenAmount stored ∧
      batch.searched stored ≤ after.writtenAmount stored ∧ stored ≤ after.searched stored := by
    rcases hcase with ⟨hlt, hamount, hbatch⟩ | ⟨heq, -, hamount, hbatch⟩
    · simp only [searched, writtenAmount, hamount, hbatch, Option.getD_some] at *
      exact ⟨rfl, hlt, le_rfl, hreached⟩
    · cases hfirst : batch.amount with
      | none =>
        simp only [searched, writtenAmount, hamount, hbatch, hfirst, Option.getD_some,
          Option.getD_none] at *
        exact ⟨rfl, by omega, by omega, by omega⟩
      | some amount =>
        simp only [searched, writtenAmount, hamount, hbatch, hfirst, Option.getD_some] at *
        exact ⟨rfl, by omega, by omega, by omega⟩
  constructor
  · exact hrecent
  · exact hamounts.2.2.2
  · intro i c hi
    have hold := hb.kept i c hi
    rw [hwritten, Function.update_of_ne, hold]
    rintro rfl
    rw [hfree] at hold
    cases hold
  · intro i j c hi hj
    rw [hwritten] at hi hj
    exact distinct_update hb.distinct (fun i _ => hnew i) hi hj
  · intro i hi
    rw [hwritten, Function.update_of_ne (by omega)]
    exact hb.bounded i (by omega)
  · intro hnone
    rw [hnone] at hamounts
    cases hamounts.1
  · rcases hcase with ⟨hlt, hamount, hbatch⟩ | ⟨heq, hfull, hamount, hbatch⟩
    · left
      simp only [searched, writtenAmount, hamount, hbatch, Option.getD_some]
    · cases hfirst : batch.amount with
      | none =>
        left
        simp only [searched, writtenAmount, hamount, hbatch, hfirst, heq, Option.getD_some,
          Option.getD_none]
      | some amount =>
        right
        have hsearched : after.searched stored = slot := by
          rw [heq, searched, searched, hamount, hfirst, Option.getD_some, Option.getD_some,
            Option.getD_some]
        refine ⟨?_, hamounts.1, ?_⟩
        · rw [hsearched, writtenAmount, hbatch, Option.getD_some]
        · intro i hi
          rw [hsearched] at hi
          rw [hwritten, Function.update_of_ne (by omega)]
          exact hfull i hi

theorem Coherent.room_eq (hb : Coherent slots stored batch)
    (hopen : batch.writtenAmount stored = batch.searched stored) :
    batch.room slots stored =
      match batch.amount with
      | none => max 2 ((freeSlots (batch.written slots) (batch.searched stored)).card + 1)
      | some _ => (freeSlots (batch.written slots) (batch.searched stored)).card + 1 := by
  cases hamount : batch.amount with
  | none =>
    rw [hb.untouched hamount]
    rfl
  | some amount =>
    have hsearched : batch.searched stored = amount := by
      rw [searched, hamount, Option.getD_some]
    simp only [room, hamount]
    rw [if_pos (by rw [hopen, hsearched]), hsearched]

theorem Coherent.room_includeCoin (hb : Coherent slots stored batch)
    (hnew : ∀ i, batch.written slots i ≠ some coin)
    (hopen : batch.writtenAmount stored = batch.searched stored) :
    batch.room slots stored ≤ (batch.includeCoin slots stored coin).room slots stored + 1 := by
  have hbefore := hb.room_eq hopen
  have hcoherent := hb.includeCoin hnew hopen
  rcases hb.includeCoin_slot hnew hopen rfl with ⟨-, slot, hfree, hwritten, hcase⟩
  generalize batch.includeCoin slots stored coin = after at *
  rcases hcase with ⟨hlt, hamount, hbatch⟩ | ⟨heq, hfull, hamount, hbatch⟩
  · -- one free slot less below the same amount
    have hcard := card_freeSlots_update coin hlt hfree
    rw [← hwritten] at hcard
    have hsearched : after.searched stored = batch.searched stored := by
      rw [searched, hamount, Option.getD_some]
    have hafter := hcoherent.room_eq (by rw [writtenAmount, hbatch, hsearched, Option.getD_some])
    rw [hamount, hsearched] at hafter
    cases hfirst : batch.amount with
    | none =>
      rw [hfirst] at hbefore
      simp only at hbefore hafter
      omega
    | some amount =>
      rw [hfirst] at hbefore
      simp only at hbefore hafter
      omega
  · -- no slot was free
    rw [heq] at hfull
    rw [freeSlots_eq_empty hfull, Finset.card_empty] at hbefore
    cases hfirst : batch.amount with
    | some amount =>
      rw [hfirst] at hbefore
      simp only at hbefore
      omega
    | none =>
      rw [hfirst] at hbefore hamount
      have hsearched : batch.searched stored = stored := by
        rw [searched, hfirst, Option.getD_none]
      have hafter := hcoherent.room_eq (by
        rw [writtenAmount, hbatch, searched, hamount, heq, hsearched]
        rfl)
      rw [hamount] at hafter
      simp only at hbefore hafter
      omega

/-- The batch of a bucket holds the coins of the bucket and those it was given,
if there is room for the new ones. -/
theorem Coherent.includeAll (hb : Coherent slots stored batch)
    (hslots : ∀ i, stored ≤ i → slots i = none) (coins : List Uint256) (new : Finset Uint256)
    (hnew : ∀ c ∈ coins, c ∈ new ∨ ∃ i, batch.written slots i = some c)
    (hroom : new.card ≤ batch.room slots stored) :
    Coherent slots stored (coins.foldl (BucketBatch.includeCoin slots stored) batch) ∧
      ∀ c, (∃ i, (coins.foldl (BucketBatch.includeCoin slots stored) batch).written slots i = some c) ↔
        (∃ i, batch.written slots i = some c) ∨ c ∈ coins := by
  induction coins generalizing batch new with
  | nil => exact ⟨hb, by simp⟩
  | cons coin coins ih =>
    rw [List.foldl_cons]
    by_cases hold : ∃ i, batch.written slots i = some coin
    · rcases hold with ⟨i, hi⟩
      rw [hb.includeCoin_of_mem hslots hi]
      rcases ih hb new (fun c hc => hnew c (List.mem_cons_of_mem _ hc)) hroom with ⟨hrest, hmem⟩
      refine ⟨hrest, ?_⟩
      intro c
      rw [hmem c, List.mem_cons]
      constructor
      · rintro (h | h)
        · exact .inl h
        · exact .inr (.inr h)
      · rintro (h | rfl | h)
        · exact .inl h
        · exact .inl ⟨i, hi⟩
        · exact .inr h
    · push Not at hold
      have hcoin : coin ∈ new := by
        rcases hnew coin List.mem_cons_self with h | ⟨i, hi⟩
        · exact h
        · exact absurd hi (hold i)
      have hcard := Finset.card_erase_add_one hcoin
      have hopen := hb.open_of_room (by omega)
      have hstep := hb.includeCoin hold hopen
      have htaken := hb.room_includeCoin hold hopen
      rcases hb.includeCoin_slot hold hopen rfl with ⟨-, slot, hfree, hwritten, -⟩
      have hheld : ∀ c, (∃ i, (batch.includeCoin slots stored coin).written slots i = some c) ↔
          (∃ i, batch.written slots i = some c) ∨ c = coin := by
        intro c
        rw [hwritten]
        exact exists_update_iff hfree
      have hrest := ih hstep (new.erase coin) (by
        intro c hc
        rcases hnew c (List.mem_cons_of_mem _ hc) with h | h
        · by_cases hcc : c = coin
          · exact .inr ((hheld c).mpr (.inr hcc))
          · exact .inl (Finset.mem_erase.mpr ⟨hcc, h⟩)
        · exact .inr ((hheld c).mpr (.inl h))) (by omega)
      refine ⟨hrest.1, ?_⟩
      intro c
      rw [hrest.2 c, hheld c, List.mem_cons, or_assoc]

theorem coherent_empty (hslots : ∀ i, stored ≤ i → slots i = none)
    (hdistinct : ∀ i j c, slots i = some c → slots j = some c → i = j) :
    Coherent slots stored empty where
  recent := rfl
  reached := le_rfl
  kept _ _ h := h
  distinct := hdistinct
  bounded := hslots
  untouched _ := rfl
  beyond := .inl rfl

end BucketBatch

namespace CAddressToCoins

def Holds (db : CAddressToCoins) (keyId : CKeyID) (coin : Uint256) : Prop :=
  ∃ i, db.coins (getBucket coin) keyId i = some coin

structure WellFormed (db : CAddressToCoins) : Prop where
  bounded : ∀ bucket keyId i, db.storedAmount keyId bucket ≤ i → db.coins bucket keyId i = none
  distinct : ∀ bucket keyId i j c, db.coins bucket keyId i = some c →
    db.coins bucket keyId j = some c → i = j
  bucket : ∀ bucket keyId i c, db.coins bucket keyId i = some c → getBucket c = bucket

def newCoins (db : CAddressToCoins) (keyId : CKeyID) (bucket : UInt8) (coins : List Uint256) :
    Finset Uint256 :=
  (coins.filter fun c => getBucket c = bucket ∧ c ∉ db.bucketCoins keyId bucket).toFinset

/-- How many new hashes one batch can add to a key's bucket. -/
def capacity (db : CAddressToCoins) (keyId : CKeyID) (bucket : UInt8) : ℕ :=
  max 2 (db.storedAmount keyId bucket - (db.bucketCoins keyId bucket).length + 1)

def HasRoom (db : CAddressToCoins) (keyId : CKeyID) (coins : List Uint256) : Prop :=
  ∀ c ∈ coins, (db.newCoins keyId (getBucket c) coins).card ≤ db.capacity keyId (getBucket c)

variable {db : CAddressToCoins} {keyId : CKeyID}

theorem wellFormed_empty : WellFormed empty where
  bounded _ _ _ _ := rfl
  distinct _ _ _ _ _ h := by cases h
  bucket _ _ _ _ h := by cases h

theorem WellFormed.mem_bucketCoins (h : db.WellFormed) {bucket : UInt8} {c : Uint256} :
    c ∈ db.bucketCoins keyId bucket ↔ ∃ i, db.coins bucket keyId i = some c := by
  unfold bucketCoins
  rw [List.mem_filterMap]
  constructor
  · rintro ⟨i, -, hi⟩
    exact ⟨i, hi⟩
  · rintro ⟨i, hi⟩
    refine ⟨i, List.mem_range.mpr ?_, hi⟩
    by_contra hge
    rw [h.bounded bucket keyId i (by omega)] at hi
    cases hi

theorem WellFormed.mem_getCoins (h : db.WellFormed) {c : Uint256} :
    c ∈ db.getCoins keyId ↔ db.Holds keyId c := by
  unfold getCoins Holds
  rw [List.mem_flatMap]
  constructor
  · rintro ⟨n, -, hc⟩
    rcases h.mem_bucketCoins.mp hc with ⟨i, hi⟩
    refine ⟨i, ?_⟩
    rw [h.bucket _ _ _ _ hi, hi]
  · rintro hc
    refine ⟨(getBucket c).toNat, List.mem_range.mpr (getBucket c).toNat_lt, ?_⟩
    rw [UInt8.ofNat_toNat]
    exact h.mem_bucketCoins.mpr hc

theorem WellFormed.nodup_bucketCoins (h : db.WellFormed) (bucket : UInt8) :
    (db.bucketCoins keyId bucket).Nodup := by
  apply List.Nodup.filterMap _ List.nodup_range
  intro i j c hi hj
  exact h.distinct bucket keyId i j c hi hj

theorem WellFormed.nodup_getCoins (h : db.WellFormed) : (db.getCoins keyId).Nodup := by
  apply List.nodup_flatMap.mpr
  refine ⟨fun n _ => h.nodup_bucketCoins _, ?_⟩
  apply List.nodup_range.imp_of_mem
  intro m n hm hn hne c hcm hcn
  rcases h.mem_bucketCoins.mp hcm with ⟨i, hi⟩
  rcases h.mem_bucketCoins.mp hcn with ⟨j, hj⟩
  apply hne
  have hbucket := (h.bucket _ _ _ _ hi).symm.trans (h.bucket _ _ _ _ hj)
  have hnat := congrArg UInt8.toNat hbucket
  simp only [UInt8.toNat_ofNat'] at hnat
  have hm := List.mem_range.mp hm
  have hn := List.mem_range.mp hn
  omega

theorem length_getCoins (db : CAddressToCoins) (keyId : CKeyID) :
    (db.getCoins keyId).length = db.getCoinsAmount keyId := by
  unfold getCoins getCoinsAmount bucketCoins
  rw [List.length_flatMap]
  congr 1
  apply List.map_congr_left
  intro bucket _
  rw [List.length_filterMap_eq_countP, List.countP_eq_length_filter]

theorem card_freeSlots (db : CAddressToCoins) (keyId : CKeyID) (bucket : UInt8) :
    (BucketBatch.freeSlots (db.coins bucket keyId) (db.storedAmount keyId bucket)).card =
      db.storedAmount keyId bucket - (db.bucketCoins keyId bucket).length := by
  have hlength : (db.bucketCoins keyId bucket).length =
      ((Finset.range (db.storedAmount keyId bucket)).filter fun i =>
        ¬ db.coins bucket keyId i = none).card := by
    unfold bucketCoins
    rw [List.length_filterMap_eq_countP, List.countP_eq_length_filter]
    change _ = ((List.range _).filter fun i => ¬ db.coins bucket keyId i = none).length
    congr 1
    apply List.filter_congr
    intro i _
    cases db.coins bucket keyId i <;> rfl
  have hsum := Finset.card_filter_add_card_filter_not (s := Finset.range (db.storedAmount keyId bucket))
    fun i => db.coins bucket keyId i = none
  rw [← hlength, Finset.card_range] at hsum
  unfold BucketBatch.freeSlots
  omega

theorem storedAmount_eraseCoin (db : CAddressToCoins) (keyId keyId' : CKeyID) (coin : Uint256)
    (bucket : UInt8) :
    (db.eraseCoin keyId coin).storedAmount keyId' bucket = db.storedAmount keyId' bucket := by
  unfold eraseCoin
  split <;> rfl

theorem WellFormed.coins_eraseCoin (h : db.WellFormed) (coin : Uint256) (bucket : UInt8)
    (keyId' : CKeyID) (i : ℕ) :
    (db.eraseCoin keyId coin).coins bucket keyId' i =
      if keyId' = keyId ∧ db.coins bucket keyId' i = some coin then none
      else db.coins bucket keyId' i := by
  unfold eraseCoin
  cases hfind : db.findSlot keyId coin with
  | none =>
    rw [if_neg]
    rintro ⟨rfl, hi⟩
    have hbucket := h.bucket _ _ _ _ hi
    have hlt : i < db.storedAmount keyId' (getBucket coin) := by
      by_contra hge
      rw [← hbucket, h.bounded _ _ _ (by omega)] at hi
      cases hi
    have hmiss := List.find?_eq_none.mp hfind i (List.mem_range.mpr hlt)
    rw [hbucket, hi] at hmiss
    simp at hmiss
  | some slot =>
    have hslot : db.coins (getBucket coin) keyId slot = some coin := by
      simpa using List.find?_some hfind
    dsimp only
    by_cases hkey : keyId' = keyId
    · subst hkey
      by_cases hi : db.coins bucket keyId' i = some coin
      · have hbucket := h.bucket _ _ _ _ hi
        subst hbucket
        rw [if_pos ⟨rfl, rfl, h.distinct _ _ _ _ _ hi hslot⟩, if_pos ⟨rfl, hi⟩]
      · rw [if_neg, if_neg (by simp [hi])]
        rintro ⟨rfl, -, rfl⟩
        exact hi hslot
    · rw [if_neg (by simp [hkey]), if_neg (by simp [hkey])]

theorem WellFormed.eraseCoin (h : db.WellFormed) (keyId : CKeyID) (coin : Uint256) :
    (db.eraseCoin keyId coin).WellFormed := by
  have hsub : ∀ bucket keyId' i c, (db.eraseCoin keyId coin).coins bucket keyId' i = some c →
      db.coins bucket keyId' i = some c := by
    intro bucket keyId' i c hc
    rw [h.coins_eraseCoin] at hc
    split at hc
    · cases hc
    · exact hc
  refine ⟨?_, fun b k i j c hi hj => h.distinct b k i j c (hsub _ _ _ _ hi) (hsub _ _ _ _ hj),
    fun b k i c hi => h.bucket b k i c (hsub _ _ _ _ hi)⟩
  intro bucket keyId' i hi
  rw [storedAmount_eraseCoin] at hi
  rw [h.coins_eraseCoin, h.bounded _ _ _ hi]
  simp

theorem WellFormed.holds_eraseCoin (h : db.WellFormed) (coin : Uint256) (keyId' : CKeyID)
    (c : Uint256) :
    (db.eraseCoin keyId coin).Holds keyId' c ↔ db.Holds keyId' c ∧ ¬ (keyId' = keyId ∧ c = coin) := by
  unfold Holds
  constructor
  · rintro ⟨i, hi⟩
    rw [h.coins_eraseCoin] at hi
    split at hi
    case isTrue => cases hi
    case isFalse hkept =>
      refine ⟨⟨i, hi⟩, ?_⟩
      rintro ⟨rfl, rfl⟩
      exact hkept ⟨rfl, hi⟩
  · rintro ⟨⟨i, hi⟩, hne⟩
    refine ⟨i, ?_⟩
    rw [h.coins_eraseCoin, if_neg, hi]
    rintro ⟨hkey, hc⟩
    rw [hi, Option.some.injEq] at hc
    exact hne ⟨hkey, hc⟩

theorem writeKey_eq (db : CAddressToCoins) (keyId : CKeyID) (coins : List Uint256)
    (bucket : UInt8) :
    db.writeKey keyId coins bucket = (coins.filter fun c => getBucket c = bucket).foldl
      (BucketBatch.includeCoin (db.coins bucket keyId) (db.storedAmount keyId bucket)) .empty := by
  unfold writeKey
  generalize hbatch : (fun _ : UInt8 => BucketBatch.empty) = batch
  have hstart : BucketBatch.empty = batch bucket := by rw [← hbatch]
  rw [hstart]
  clear hbatch hstart
  induction coins generalizing batch with
  | nil => rfl
  | cons coin coins ih =>
    rw [List.foldl_cons, ih, List.filter_cons]
    by_cases hbucket : getBucket coin = bucket
    · subst hbucket
      simp
    · have hne : bucket ≠ getBucket coin := fun heq => hbucket heq.symm
      simp [hbucket, hne]

theorem storedAmount_batchWrite (db : CAddressToCoins) (mapCoins : CKeyID → List Uint256)
    (keyId : CKeyID) (bucket : UInt8) :
    (db.batchWrite mapCoins).storedAmount keyId bucket =
      (db.writeKey keyId (mapCoins keyId) bucket).writtenAmount (db.storedAmount keyId bucket) := by
  unfold storedAmount batchWrite BucketBatch.writtenAmount
  dsimp only
  cases (db.writeKey keyId (mapCoins keyId) bucket).amountBatch <;> rfl

/-- A written batch adds its hashes to what the keys hold, if there is room. -/
theorem WellFormed.batchWrite (h : db.WellFormed) (mapCoins : CKeyID → List Uint256)
    (hroom : ∀ keyId, db.HasRoom keyId (mapCoins keyId)) :
    (db.batchWrite mapCoins).WellFormed ∧ ∀ keyId c,
      (db.batchWrite mapCoins).Holds keyId c ↔ db.Holds keyId c ∨ c ∈ mapCoins keyId := by
  have hbucket : ∀ bucket keyId, BucketBatch.Coherent (db.coins bucket keyId)
      (db.storedAmount keyId bucket) (db.writeKey keyId (mapCoins keyId) bucket) ∧
      ∀ c, (∃ i, (db.batchWrite mapCoins).coins bucket keyId i = some c) ↔
        (∃ i, db.coins bucket keyId i = some c) ∨
          c ∈ (mapCoins keyId).filter fun c => getBucket c = bucket := by
    intro bucket keyId
    have hslots := h.bounded bucket keyId
    have hempty := BucketBatch.coherent_empty hslots (h.distinct bucket keyId)
    have hall := hempty.includeAll hslots ((mapCoins keyId).filter fun c => getBucket c = bucket)
      (db.newCoins keyId bucket (mapCoins keyId)) (by
        intro c hc
        rcases List.mem_filter.mp hc with ⟨hmem, hb⟩
        by_cases hheld : c ∈ db.bucketCoins keyId bucket
        · exact .inr (h.mem_bucketCoins.mp hheld)
        · left
          simpa [newCoins, hmem, hheld] using hb) (by
        by_cases hnone : (mapCoins keyId).filter (fun c => getBucket c = bucket) = []
        · have hcard : db.newCoins keyId bucket (mapCoins keyId) = ∅ := by
            apply Finset.eq_empty_of_forall_notMem
            intro c hc
            have hfilter : c ∈ (mapCoins keyId).filter fun c => getBucket c = bucket := by
              simp only [newCoins, List.mem_toFinset, List.mem_filter, decide_eq_true_eq] at hc ⊢
              exact ⟨hc.1, hc.2.1⟩
            rw [hnone] at hfilter
            cases hfilter
          simp [hcard]
        · rcases List.exists_mem_of_ne_nil _ hnone with ⟨c, hc⟩
          rcases List.mem_filter.mp hc with ⟨hmem, hb⟩
          have hcard := hroom keyId c hmem
          rw [of_decide_eq_true hb] at hcard
          rw [capacity, ← card_freeSlots] at hcard
          exact hcard)
    rw [← writeKey_eq] at hall
    exact hall
  refine ⟨⟨?_, ?_, ?_⟩, ?_⟩
  · intro bucket keyId i hi
    rw [storedAmount_batchWrite] at hi
    exact (hbucket bucket keyId).1.bounded i hi
  · exact fun bucket keyId => (hbucket bucket keyId).1.distinct
  · intro bucket keyId i c hi
    rcases ((hbucket bucket keyId).2 c).mp ⟨i, hi⟩ with ⟨j, hj⟩ | hc
    · exact h.bucket _ _ _ _ hj
    · simpa using (List.mem_filter.mp hc).2
  · intro keyId c
    unfold Holds
    rw [(hbucket (getBucket c) keyId).2 c]
    simp

end CAddressToCoins

namespace CAddressToCoinsViewCache

/-- The database and the cached entries of the index both say `R`. -/
structure Faithful (s : CAddressToCoinsViewCache) (R : CKeyID → Uint256 → Prop) : Prop where
  wellFormed : s.addressToCoins.WellFormed
  holds : ∀ keyId c, s.addressToCoins.Holds keyId c ↔ R keyId c
  nodup : ∀ keyId, (s.cacheCoins keyId).Nodup
  cached : ∀ keyId c, c ∈ s.cacheCoins keyId ↔ R keyId c

variable {s : CAddressToCoinsViewCache} {R : CKeyID → Uint256 → Prop}

theorem faithful_empty : empty.Faithful fun _ _ => False where
  wellFormed := CAddressToCoins.wellFormed_empty
  holds _ _ := by simp [CAddressToCoins.Holds, empty, CAddressToCoins.empty]
  nodup _ := List.nodup_nil
  cached _ _ := by simp [empty]

theorem Faithful.congr {R' : CKeyID → Uint256 → Prop} (h : s.Faithful R)
    (heq : ∀ keyId c, R keyId c ↔ R' keyId c) : s.Faithful R' where
  wellFormed := h.wellFormed
  holds keyId c := (h.holds keyId c).trans (heq keyId c)
  nodup := h.nodup
  cached keyId c := (h.cached keyId c).trans (heq keyId c)

/-- The assertion of `fetchCoins` holds, and `getCoins` lists what the index says. -/
theorem Faithful.getCoins (h : s.Faithful R) (keyId : CKeyID) :
    ∃ coins s', s.getCoins keyId = some (coins, s') ∧ ∀ c, c ∈ coins ↔ R keyId c := by
  have hmem : ∀ c, c ∈ s.cacheCoins keyId ↔ c ∈ s.addressToCoins.getCoins keyId := by
    intro c
    rw [h.cached, h.wellFormed.mem_getCoins, h.holds]
  have hperm := (List.perm_ext_iff_of_nodup (h.nodup keyId) h.wellFormed.nodup_getCoins).mpr hmem
  have hlength : (s.cacheCoins keyId).length = s.addressToCoins.getCoinsAmount keyId := by
    rw [hperm.length_eq, CAddressToCoins.length_getCoins]
  refine ⟨s.cacheCoins keyId, s, ?_, h.cached keyId⟩
  unfold CAddressToCoinsViewCache.getCoins fetchCoins
  by_cases hempty : s.cacheCoins keyId = []
  · have hnone : s.addressToCoins.getCoins keyId = [] := by
      rw [hempty] at hperm
      exact hperm.symm.eq_nil
    simp [hempty, hnone]
  · simp [hempty, hlength]

theorem Faithful.eraseCoins (h : s.Faithful R) (keyId : CKeyID) (coin : Uint256) :
    (s.eraseCoins keyId coin).Faithful fun keyId' c => R keyId' c ∧ ¬ (keyId' = keyId ∧ c = coin) := by
  constructor
  · exact h.wellFormed.eraseCoin keyId coin
  · intro keyId' c
    rw [← h.holds]
    exact h.wellFormed.holds_eraseCoin coin keyId' c
  · intro keyId'
    by_cases hkey : keyId' = keyId
    · subst hkey
      simpa [CAddressToCoinsViewCache.eraseCoins] using (h.nodup keyId').erase coin
    · simpa [CAddressToCoinsViewCache.eraseCoins, hkey] using h.nodup keyId'
  · intro keyId' c
    rw [← h.cached]
    by_cases hkey : keyId' = keyId
    · subst hkey
      simp [CAddressToCoinsViewCache.eraseCoins, (h.nodup keyId').mem_erase_iff, and_comm]
    · simp [CAddressToCoinsViewCache.eraseCoins, hkey]

def eraseAll (s : CAddressToCoinsViewCache) (entries : List (CKeyID × Uint256)) :
    CAddressToCoinsViewCache :=
  entries.foldl (fun s p => s.eraseCoins p.1 p.2) s

theorem Faithful.eraseAll (h : s.Faithful R) (entries : List (CKeyID × Uint256)) :
    (s.eraseAll entries).Faithful fun keyId c => R keyId c ∧ (keyId, c) ∉ entries := by
  induction entries generalizing s R with
  | nil => exact h.congr (by simp)
  | cons p entries ih =>
    apply (ih (h.eraseCoins p.1 p.2)).congr
    intro keyId c
    rw [List.mem_cons, Prod.ext_iff, not_or, and_assoc]

theorem insertCacheCoins_eraseAll (s : CAddressToCoinsViewCache)
    (entries : List (CKeyID × Uint256)) :
    (s.eraseAll entries).insertCacheCoins = s.insertCacheCoins := by
  induction entries generalizing s with
  | nil => rfl
  | cons p entries ih => exact ih (s.eraseCoins p.1 p.2)

/-- Neither the collected entries nor the input keys are part of what the index says. -/
theorem Faithful.collected (h : s.Faithful R) (inputs : Uint256 → Option (List CKeyID))
    (collected : CKeyID → List Uint256) :
    (CAddressToCoinsViewCache.mk ⟨s.addressToCoins.amounts, s.addressToCoins.coins, inputs⟩
      s.cacheCoins collected).Faithful R where
  wellFormed := ⟨h.wellFormed.bounded, h.wellFormed.distinct, h.wellFormed.bucket⟩
  holds := h.holds
  nodup := h.nodup
  cached := h.cached

theorem mem_insertNew {cached coins : List Uint256} {c : Uint256} :
    c ∈ insertNew cached coins ↔ c ∈ cached ∨ c ∈ coins := by
  induction coins generalizing cached with
  | nil => simp [insertNew]
  | cons coin coins ih =>
    rw [insertNew, ih, List.mem_cons]
    by_cases hcoin : coin ∈ cached
    · rw [if_pos hcoin]
      constructor
      · rintro (h | h)
        · exact .inl h
        · exact .inr (.inr h)
      · rintro (h | rfl | h)
        · exact .inl h
        · exact .inl hcoin
        · exact .inr h
    · rw [if_neg hcoin, List.mem_append, List.mem_singleton, or_assoc]

theorem nodup_insertNew {cached : List Uint256} (h : cached.Nodup) (coins : List Uint256) :
    (insertNew cached coins).Nodup := by
  induction coins generalizing cached with
  | nil => exact h
  | cons coin coins ih =>
    rw [insertNew]
    apply ih
    by_cases hcoin : coin ∈ cached
    · rwa [if_pos hcoin]
    · rw [if_neg hcoin]
      exact List.nodup_append.mpr ⟨h, List.nodup_singleton _, by
        intro a ha b hb
        rw [List.mem_singleton] at hb
        rintro rfl
        exact hcoin (hb ▸ ha)⟩

/-- A flush adds the collected entries, if the database has room for them. -/
theorem Faithful.flush (h : s.Faithful R)
    (hroom : ∀ keyId, s.addressToCoins.HasRoom keyId (s.insertCacheCoins keyId)) :
    s.flush.Faithful fun keyId c => R keyId c ∨ c ∈ s.insertCacheCoins keyId := by
  rcases h.wellFormed.batchWrite s.insertCacheCoins hroom with ⟨hwritten, hholds⟩
  constructor
  · exact hwritten
  · intro keyId c
    rw [← h.holds]
    exact hholds keyId c
  · exact fun keyId => nodup_insertNew (h.nodup keyId) _
  · intro keyId c
    rw [← h.cached]
    exact mem_insertNew

end CAddressToCoinsViewCache

end Dims

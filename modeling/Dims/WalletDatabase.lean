import Dims.Wallet
import Dims.GuardedRun
import Mathlib.Data.List.Lex
import Mathlib.Data.List.Perm.Basic

/-!
# The database of the wallet

walletdb.cpp. The coins of a key are written as one record under its type and the key, and the
inputs of a transaction under their type and its hash. `loadWallet` goes through the records
and hands them to the wallet.
-/

namespace Dims
open ByteCodec Serialize

inductive WalletRecord
  | coins (coins : List CAvailableCoin)
  | inputs (inputs : List CKeyID)

/-- The records by the bytes of their keys. -/
abbrev CWalletDB := OrderedMap Bytes WalletRecord

namespace CWalletDB

/-- `"coins"` -/
def coinsType : Bytes := [0x63, 0x6f, 0x69, 0x6e, 0x73]

/-- `"inputs"` -/
def inputsType : Bytes := [0x69, 0x6e, 0x70, 0x75, 0x74, 0x73]

def coinsKey (keyId : CKeyID) : Bytes := byteVector.encode coinsType ++ uint160.encode keyId

def inputsKey (hash : Uint256) : Bytes := byteVector.encode inputsType ++ uint256.encode hash

/-- `Read` of the coins under the key itself, which is not the key of a record of coins. -/
def readCoins (db : CWalletDB) (keyId : CKeyID) : List CAvailableCoin :=
  match db.lookup (uint160.encode keyId) with
  | some (.coins coins) => coins
  | _ => []

def writeCoin (db : CWalletDB) (keyId : CKeyID) (coins : List CAvailableCoin) : CWalletDB :=
  db.assign (coinsKey keyId) (.coins coins)

def eraseCoin (db : CWalletDB) (keyId : CKeyID) : CWalletDB := db.erase (coinsKey keyId)

def addCoins (db : CWalletDB) (keyId : CKeyID) (availableCoins : List CAvailableCoin) : CWalletDB :=
  let combine := db.readCoins keyId
  (db.eraseCoin keyId).writeCoin keyId (combine ++ availableCoins)

def replaceCoins (db : CWalletDB) (keyId : CKeyID) (availableCoins : List CAvailableCoin) :
    CWalletDB :=
  (db.eraseCoin keyId).writeCoin keyId availableCoins

def replaceInputs (db : CWalletDB) (hash : Uint256) (inputs : List CKeyID) : CWalletDB :=
  (db.erase (inputsKey hash)).assign (inputsKey hash) (.inputs inputs)

/-- The branches of `ReadKeyValue` for coins and inputs. What cannot be read is passed over. -/
def readKeyValue (w : CWallet) (record : Bytes × WalletRecord) : CWallet :=
  match byteVector.decode record.1 with
  | none => w
  | some (strType, ssKey) =>
    if strType = coinsType then
      match uint160.decode ssKey, record.2 with
      | some (keyId, _), .coins coins => w.addCoins keyId coins
      | _, _ => w
    else if strType = inputsType then
      match uint256.decode ssKey, record.2 with
      | some (hash, _), .inputs inputs => w.addInputs (OrderedMap.empty.assign hash inputs)
      | _, _ => w
    else w

def loadWallet (db : CWalletDB) : CWallet := db.entries.foldl readKeyValue .empty

end CWalletDB

/-- The running wallet with its database. -/
structure StoredWallet where
  wallet : CWallet
  database : CWalletDB

namespace StoredWallet

def init : StoredWallet := ⟨.empty, .empty⟩

inductive Operation
  | addAvailableCoins (keyId : CKeyID) (coins : List CAvailableCoin)
  | replaceAvailableCoins (keyId : CKeyID) (coins : List CAvailableCoin)
  | removeCoins (keyId : CKeyID) (previousCoins : List CAvailableCoin)
  | addInputs (inputs : OrderedMap Uint256 (List CKeyID))

def step (s : StoredWallet) : Operation → StoredWallet
  | .addAvailableCoins keyId coins =>
    ⟨s.wallet.addCoins keyId coins, s.database.addCoins keyId coins⟩
  | .replaceAvailableCoins keyId coins =>
    ⟨s.wallet.replaceCoins keyId coins, s.database.replaceCoins keyId coins⟩
  | .removeCoins keyId previousCoins =>
    ⟨s.wallet.removeCoins keyId previousCoins,
      s.database.replaceCoins keyId (s.wallet.leftCoins keyId previousCoins)⟩
  | .addInputs inputs =>
    ⟨s.wallet.addInputs inputs,
      inputs.entries.foldl (fun db input => db.replaceInputs input.1 input.2) s.database⟩

/-- A wallet that is loaded from the database has the coins of every key and the inputs. -/
structure Restores (s : StoredWallet) : Prop where
  coins : ∀ keyId, (s.database.loadWallet.availableCoins.equalRange keyId).Perm
    (s.wallet.availableCoins.equalRange keyId)
  inputs : ∀ hash, s.database.loadWallet.inputs.lookup hash = s.wallet.inputs.lookup hash

/-- Coins are added for a key without coins, and inputs that are there already come again as
they are. -/
def Keeps (s : StoredWallet) : Operation → Prop
  | .addAvailableCoins keyId _ => s.wallet.availableCoins.equalRange keyId = []
  | .replaceAvailableCoins _ _ => True
  | .removeCoins _ _ => True
  | .addInputs inputs => ∀ hash ids kept, inputs.lookup hash = some ids →
      s.wallet.inputs.lookup hash = some kept → ids = kept

end StoredWallet

namespace CWalletDB

/-- The records are of coins and of inputs, each under its own kind of key. -/
def WellFormed (db : CWalletDB) : Prop :=
  ∀ key record, db.lookup key = some record →
    (∃ keyId coins, key = coinsKey keyId ∧ record = .coins coins) ∨
      ∃ hash inputs, key = inputsKey hash ∧ record = .inputs inputs

def storedCoins (db : CWalletDB) (keyId : CKeyID) : List CAvailableCoin :=
  match db.lookup (coinsKey keyId) with
  | some (.coins coins) => coins
  | _ => []

def storedInputs (db : CWalletDB) (hash : Uint256) : Option (List CKeyID) :=
  match db.lookup (inputsKey hash) with
  | some (.inputs inputs) => some inputs
  | _ => none

section Keys

theorem byteVector_coinsType (rest : Bytes) :
    byteVector.decode (byteVector.encode coinsType ++ rest) = some (coinsType, rest) :=
  byteVector.decode_encode coinsType rest (byteVector_fits (by decide))

theorem byteVector_inputsType (rest : Bytes) :
    byteVector.decode (byteVector.encode inputsType ++ rest) = some (inputsType, rest) :=
  byteVector.decode_encode inputsType rest (byteVector_fits (by decide))

theorem coinsKey_inj {keyId keyId' : CKeyID} : coinsKey keyId = coinsKey keyId' ↔ keyId = keyId' := by
  refine ⟨fun h => ?_, fun h => h ▸ rfl⟩
  exact uint160.encode_injective (uint160_fits _) (uint160_fits _) (List.append_cancel_left h)

theorem inputsKey_inj {hash hash' : Uint256} : inputsKey hash = inputsKey hash' ↔ hash = hash' := by
  refine ⟨fun h => ?_, fun h => h ▸ rfl⟩
  exact uint256.encode_injective (uint256_fits _) (uint256_fits _) (List.append_cancel_left h)

theorem length_uint160 (keyId : CKeyID) : (uint160.encode keyId).length = 20 := length_leBytes 20 _

theorem length_coinsKey (keyId : CKeyID) : (coinsKey keyId).length = 26 := by
  rw [coinsKey, List.length_append, length_uint160]
  rfl

theorem length_inputsKey (hash : Uint256) : (inputsKey hash).length = 39 := by
  have hhash : (uint256.encode hash).length = 32 := length_leBytes 32 _
  rw [inputsKey, List.length_append, hhash]
  rfl

theorem coinsKey_ne_inputsKey (keyId : CKeyID) (hash : Uint256) : coinsKey keyId ≠ inputsKey hash := by
  intro h
  have hlength := congrArg List.length h
  rw [length_coinsKey, length_inputsKey] at hlength
  cases hlength

end Keys

section Records

variable {db : CWalletDB}

theorem WellFormed.readCoins (hdb : db.WellFormed) (keyId : CKeyID) : db.readCoins keyId = [] := by
  have hnone : db.lookup (uint160.encode keyId) = none := by
    refine Option.eq_none_iff_forall_ne_some.mpr fun record hrecord => ?_
    have hlength := length_uint160 keyId
    rcases hdb _ _ hrecord with ⟨keyId', -, hkey, -⟩ | ⟨hash, -, hkey, -⟩
    · rw [hkey, length_coinsKey] at hlength
      cases hlength
    · rw [hkey, length_inputsKey] at hlength
      cases hlength
  rw [CWalletDB.readCoins, hnone]

theorem wellFormed_empty : WellFormed .empty := by
  intro key record hrecord
  cases hrecord

theorem WellFormed.replaceCoins (hdb : db.WellFormed) (keyId : CKeyID) (coins : List CAvailableCoin) :
    (db.replaceCoins keyId coins).WellFormed := by
  intro key record hrecord
  rcases OrderedMap.eq_or_lookup_of_assign hrecord with ⟨rfl, rfl⟩ | hold
  · exact .inl ⟨keyId, coins, rfl, rfl⟩
  · rw [eraseCoin, OrderedMap.erase, OrderedMap.lookup_filter, Option.filter_eq_some_iff] at hold
    exact hdb key record hold.1

theorem WellFormed.replaceInputs (hdb : db.WellFormed) (hash : Uint256) (inputs : List CKeyID) :
    (db.replaceInputs hash inputs).WellFormed := by
  intro key record hrecord
  rcases OrderedMap.eq_or_lookup_of_assign hrecord with ⟨rfl, rfl⟩ | hold
  · exact .inr ⟨hash, inputs, rfl, rfl⟩
  · rw [OrderedMap.erase, OrderedMap.lookup_filter, Option.filter_eq_some_iff] at hold
    exact hdb key record hold.1

theorem WellFormed.addCoins (hdb : db.WellFormed) (keyId : CKeyID) (coins : List CAvailableCoin) :
    db.addCoins keyId coins = db.replaceCoins keyId coins := by
  rw [CWalletDB.addCoins, hdb.readCoins, List.nil_append]
  rfl

theorem storedCoins_replaceCoins (keyId key : CKeyID) (coins : List CAvailableCoin) :
    (db.replaceCoins keyId coins).storedCoins key =
      if keyId = key then coins else db.storedCoins key := by
  rw [storedCoins, replaceCoins, writeCoin, eraseCoin]
  by_cases hkey : keyId = key
  · subst hkey
    rw [OrderedMap.lookup_assign_self, if_pos rfl]
  · have hne : coinsKey key ≠ coinsKey keyId := fun h => hkey (coinsKey_inj.mp h).symm
    rw [OrderedMap.lookup_assign_of_ne hne, OrderedMap.lookup_erase_of_ne hne, if_neg hkey]
    rfl

theorem storedInputs_replaceCoins (keyId : CKeyID) (coins : List CAvailableCoin) (hash : Uint256) :
    (db.replaceCoins keyId coins).storedInputs hash = db.storedInputs hash := by
  have hne := (coinsKey_ne_inputsKey keyId hash).symm
  rw [storedInputs, replaceCoins, writeCoin, eraseCoin, OrderedMap.lookup_assign_of_ne hne,
    OrderedMap.lookup_erase_of_ne hne]
  rfl

theorem storedCoins_replaceInputs (hash : Uint256) (inputs : List CKeyID) (keyId : CKeyID) :
    (db.replaceInputs hash inputs).storedCoins keyId = db.storedCoins keyId := by
  have hne := coinsKey_ne_inputsKey keyId hash
  rw [storedCoins, replaceInputs, OrderedMap.lookup_assign_of_ne hne, OrderedMap.lookup_erase_of_ne hne]
  rfl

theorem storedInputs_replaceInputs (hash hash' : Uint256) (inputs : List CKeyID) :
    (db.replaceInputs hash inputs).storedInputs hash' =
      if hash = hash' then some inputs else db.storedInputs hash' := by
  rw [storedInputs, replaceInputs]
  by_cases hhash : hash = hash'
  · subst hhash
    rw [OrderedMap.lookup_assign_self, if_pos rfl]
  · have hne : inputsKey hash' ≠ inputsKey hash := fun h => hhash (inputsKey_inj.mp h).symm
    rw [OrderedMap.lookup_assign_of_ne hne, OrderedMap.lookup_erase_of_ne hne, if_neg hhash]
    rfl

end Records

def RecordWellFormed (record : Bytes × WalletRecord) : Prop :=
  (∃ keyId coins, record = (coinsKey keyId, .coins coins)) ∨
    ∃ hash inputs, record = (inputsKey hash, .inputs inputs)

section Loading

variable {w : CWallet}

theorem readKeyValue_coins (keyId : CKeyID) (coins : List CAvailableCoin) :
    readKeyValue w (coinsKey keyId, .coins coins) = w.addCoins keyId coins := by
  have hkey : uint160.decode (uint160.encode keyId) = some (keyId, []) := by
    have hdecode := uint160.decode_encode keyId [] (uint160_fits keyId)
    rwa [List.append_nil] at hdecode
  simp only [readKeyValue, coinsKey, byteVector_coinsType, hkey, if_true]

theorem readKeyValue_inputs (hash : Uint256) (inputs : List CKeyID) :
    readKeyValue w (inputsKey hash, .inputs inputs) =
      w.addInputs (OrderedMap.empty.assign hash inputs) := by
  have hhash : uint256.decode (uint256.encode hash) = some (hash, []) := by
    have hdecode := uint256.decode_encode hash [] (uint256_fits hash)
    rwa [List.append_nil] at hdecode
  have htype : inputsType ≠ coinsType := by decide
  simp only [readKeyValue, inputsKey, byteVector_inputsType, hhash, if_neg htype, if_true]

theorem equalRange_load {records : List (Bytes × WalletRecord)}
    (h : ∀ record ∈ records, RecordWellFormed record) (keyId : CKeyID) :
    (records.foldl readKeyValue w).availableCoins.equalRange keyId =
      w.availableCoins.equalRange keyId ++
        (records.filter fun record => record.1 = coinsKey keyId).flatMap fun record =>
          match record.2 with
          | .coins coins => coins
          | .inputs _ => [] := by
  induction records generalizing w with
  | nil => simp
  | cons record records ih =>
    obtain ⟨hfirst, hrest⟩ := List.forall_mem_cons.mp h
    rw [List.foldl_cons, ih hrest, List.filter_cons]
    rcases hfirst with ⟨keyId', coins, rfl⟩ | ⟨hash, inputs, rfl⟩
    · rw [readKeyValue_coins, CWallet.equalRange_addCoins, List.append_assoc]
      by_cases hkey : keyId' = keyId
      · simp [hkey]
      · simp [hkey, coinsKey_inj]
    · have hne : inputsKey hash ≠ coinsKey keyId := (coinsKey_ne_inputsKey keyId hash).symm
      rw [readKeyValue_inputs, if_neg (by simpa using hne)]
      rfl

theorem inputs_load {records : List (Bytes × WalletRecord)}
    (h : ∀ record ∈ records, RecordWellFormed record) (hash : Uint256) :
    (records.foldl readKeyValue w).inputs.lookup hash =
      (w.inputs.lookup hash).or
        ((records.filter fun record => record.1 = inputsKey hash).findSome? fun record =>
          match record.2 with
          | .coins _ => none
          | .inputs inputs => some inputs) := by
  induction records generalizing w with
  | nil => simp
  | cons record records ih =>
    obtain ⟨hfirst, hrest⟩ := List.forall_mem_cons.mp h
    rw [List.foldl_cons, ih hrest, List.filter_cons]
    rcases hfirst with ⟨keyId, coins, rfl⟩ | ⟨hash', inputs, rfl⟩
    · rw [readKeyValue_coins, if_neg (by simpa using coinsKey_ne_inputsKey keyId hash)]
      rfl
    · rw [readKeyValue_inputs, CWallet.lookup_addInputs, Option.or_assoc]
      by_cases hhash : hash' = hash
      · simp [hhash]
      · have hne : hash ≠ hash' := Ne.symm hhash
        simp [OrderedMap.lookup_assign_of_ne hne, inputsKey_inj, hhash]

variable {db : CWalletDB}

theorem WellFormed.records (hdb : db.WellFormed) : ∀ record ∈ db.entries, RecordWellFormed record := by
  rintro ⟨key, record⟩ hrecord
  rcases hdb key record (OrderedMap.mem_entries.mp hrecord) with
    ⟨keyId, coins, rfl, rfl⟩ | ⟨hash, inputs, rfl, rfl⟩
  · exact .inl ⟨keyId, coins, rfl⟩
  · exact .inr ⟨hash, inputs, rfl⟩

theorem filter_records (db : CWalletDB) (key : Bytes) :
    db.entries.filter (fun record => record.1 = key) = ((db.lookup key).map (Prod.mk key)).toList := by
  rw [← db.filter_entries key]
  exact List.filter_congr fun record _ => decide_eq_decide.mpr Iff.rfl

theorem equalRange_loadWallet (hdb : db.WellFormed) (keyId : CKeyID) :
    db.loadWallet.availableCoins.equalRange keyId = db.storedCoins keyId := by
  rw [loadWallet, equalRange_load hdb.records, filter_records, storedCoins]
  rcases db.lookup (coinsKey keyId) with _ | (coins | inputs) <;> simp [CWallet.empty]

theorem lookup_loadWallet (hdb : db.WellFormed) (hash : Uint256) :
    db.loadWallet.inputs.lookup hash = db.storedInputs hash := by
  rw [loadWallet, inputs_load hdb.records, filter_records, storedInputs]
  rcases db.lookup (inputsKey hash) with _ | (coins | inputs) <;> simp [CWallet.empty]

theorem WellFormed.replaceAllInputs (hdb : db.WellFormed)
    (inputs : List (Uint256 × List CKeyID)) :
    (inputs.foldl (fun db input => db.replaceInputs input.1 input.2) db).WellFormed := by
  induction inputs generalizing db with
  | nil => exact hdb
  | cons input inputs ih => exact ih (hdb.replaceInputs input.1 input.2)

theorem storedCoins_replaceAllInputs (inputs : List (Uint256 × List CKeyID)) (keyId : CKeyID) :
    (inputs.foldl (fun db input => db.replaceInputs input.1 input.2) db).storedCoins keyId =
      db.storedCoins keyId := by
  induction inputs generalizing db with
  | nil => rfl
  | cons input inputs ih => rw [List.foldl_cons, ih, storedCoins_replaceInputs]

theorem storedInputs_replaceAllInputs (inputs : OrderedMap Uint256 (List CKeyID)) (hash : Uint256) :
    (inputs.entries.foldl (fun db input => db.replaceInputs input.1 input.2) db).storedInputs hash =
      (inputs.lookup hash).or (db.storedInputs hash) := by
  refine OrderedMap.seen_foldl_entries storedInputs replaceInputs ?_ inputs db hash
  intro db input keys hash
  exact storedInputs_replaceInputs input hash keys

end Loading

end CWalletDB

namespace StoredWallet

open CWalletDB

variable {s : StoredWallet}

theorem wellFormed_step (hs : s.database.WellFormed) (op : Operation) :
    (s.step op).database.WellFormed := by
  cases op with
  | addAvailableCoins keyId coins =>
    rw [step, hs.addCoins]
    exact hs.replaceCoins keyId coins
  | replaceAvailableCoins keyId coins => exact hs.replaceCoins keyId coins
  | removeCoins keyId previousCoins => exact hs.replaceCoins keyId _
  | addInputs inputs => exact hs.replaceAllInputs inputs.entries

theorem restores_iff_stored (hs : s.database.WellFormed) :
    s.Restores ↔
      (∀ keyId, (s.database.storedCoins keyId).Perm (s.wallet.availableCoins.equalRange keyId)) ∧
        ∀ hash, s.database.storedInputs hash = s.wallet.inputs.lookup hash := by
  constructor
  · rintro ⟨hcoins, hinputs⟩
    refine ⟨fun keyId => ?_, fun hash => ?_⟩
    · exact equalRange_loadWallet hs keyId ▸ hcoins keyId
    · exact lookup_loadWallet hs hash ▸ hinputs hash
  · rintro ⟨hcoins, hinputs⟩
    refine ⟨fun keyId => ?_, fun hash => ?_⟩
    · exact (equalRange_loadWallet hs keyId).symm ▸ hcoins keyId
    · exact (lookup_loadWallet hs hash).symm ▸ hinputs hash

/-- Inputs that come again differ in the wallet, which keeps the old ones, and in the database,
which takes the new ones. -/
theorem inputs_agree_iff {kept stored : Option (List CKeyID)} {new : Option (List CKeyID)}
    (h : stored = kept) :
    new.or stored = kept.or new ↔ ∀ ids old, new = some ids → kept = some old → ids = old := by
  subst h
  cases new with
  | none => simp
  | some ids => cases stored <;> simp

theorem restores_step_iff (hs : s.database.WellFormed) (hrestores : s.Restores) (op : Operation) :
    (s.step op).Restores ↔ s.Keeps op := by
  obtain ⟨hcoins, hinputs⟩ := (restores_iff_stored hs).mp hrestores
  rw [restores_iff_stored (wellFormed_step hs op)]
  cases op with
  | addAvailableCoins keyId coins =>
    simp only [step, hs.addCoins, storedCoins_replaceCoins, storedInputs_replaceCoins,
      CWallet.equalRange_addCoins, Keeps]
    constructor
    · rintro ⟨hperm, -⟩
      have hlength := (hperm keyId).length_eq
      rw [if_pos rfl, if_pos rfl, List.length_append] at hlength
      exact List.length_eq_zero_iff.mp (by omega)
    · intro hnone
      refine ⟨fun key => ?_, hinputs⟩
      by_cases hkey : keyId = key
      · subst hkey
        simp [hnone]
      · simpa [hkey] using hcoins key
  | replaceAvailableCoins keyId coins =>
    refine iff_of_true ⟨fun key => ?_, fun hash => ?_⟩ trivial
    · simp only [step, storedCoins_replaceCoins, CWallet.equalRange_replaceCoins]
      by_cases hkey : keyId = key
      · simp [hkey]
      · simpa [hkey] using hcoins key
    · exact (storedInputs_replaceCoins keyId coins hash).trans (hinputs hash)
  | removeCoins keyId previousCoins =>
    refine iff_of_true ⟨fun key => ?_, fun hash => ?_⟩ trivial
    · simp only [step, storedCoins_replaceCoins, CWallet.equalRange_removeCoins, CWallet.leftCoins]
      by_cases hkey : keyId = key
      · simp [hkey]
      · simpa [hkey] using hcoins key
    · exact (storedInputs_replaceCoins keyId _ hash).trans (hinputs hash)
  | addInputs inputs =>
    simp only [step, storedCoins_replaceAllInputs, storedInputs_replaceAllInputs,
      CWallet.lookup_addInputs, inputs_agree_iff (hinputs _), Keeps]
    exact and_iff_right hcoins

theorem restores_init : Restores init :=
  ⟨fun _ => .refl _, fun _ => rfl⟩

/-- A load gives the coins and the inputs of the running wallet after every operation if and
only if coins are added only for keys without coins and no inputs come again with a change. -/
theorem restores_iff (operations : List Operation) :
    (∀ past, past <+: operations → (GuardedRun.run step init past).Restores) ↔
      GuardedRun.Guarded step Keeps init operations :=
  @GuardedRun.always_iff _ _ step Keeps (fun s => s.database.WellFormed) Restores
    (fun _ op hs => wellFormed_step hs op)
    (fun _ op hs hrestores => restores_step_iff hs hrestores op) init operations wellFormed_empty
    restores_init

namespace TwoAdditions

def coin (position : UInt32) : CAvailableCoin := ⟨⟨5, .setDestination 7⟩, position, 1⟩

def operations : List Operation :=
  [.addAvailableCoins 7 [coin 0], .addAvailableCoins 7 [coin 1]]

/-- The coin that has been added first is lost. -/
theorem coin_lost : ¬∀ operations : List Operation, (GuardedRun.run step init operations).Restores := by
  intro h
  have hlength := ((h operations).coins 7).length_eq
  revert hlength
  decide +kernel

end TwoAdditions

end StoredWallet

end Dims

import Dims.Coins
import Dims.AddressToCoins

/-!
# The transaction record manager

Validation looks at the coins view alone; application spends the inputs of a
whole bundle, then sets the coins of its transactions, and keeps the address
index beside the view. An application that stops early keeps what it has done.
-/

namespace Dims
open ByteCodec

/-- The code outside the ledger: hashes, script execution, and the output found
where a position lies outside of the coins, which C++ leaves undefined. -/
structure Environment where
  hashes : HashFunctions
  verifier : ScriptVerifier
  stray : CCoins → UInt32 → CTxOut

structure CTransactionRecordManager where
  coinsViewCache : CCoinsViewCache
  addressToCoinsViewCache : CAddressToCoinsViewCache

inductive BundleResult
  | returned (value : Bool)
  | threw
  | aborted
  deriving DecidableEq, Repr

def BundleResult.Failed (result : BundleResult) : Prop := result ≠ .returned true

section Scripts

variable (H : HashFunctions)

/-- `retrieveKeyIds`: the key id an unspent output pays, if its type is allowed,
in place of `keyId`. No value where the script cannot be read to its end. -/
def retrieveKeyIds (txout : CTxOut) (keyId : CKeyID) (allowed : TxnOutType → Bool) :
    Option CKeyID :=
  if txout.scriptPubKey.parses then
    match solver txout.scriptPubKey with
    | some (.pubkey, solution :: _) =>
      some (if allowed .pubkey ∧ ¬ txout.isNull then H.hash160 solution else keyId)
    | some (.pubkeyhash, solution :: _) =>
      some (if allowed .pubkeyhash ∧ ¬ txout.isNull then uint160OfBytes solution else keyId)
    | _ => some keyId
  else none

def pubkeyOnly : TxnOutType → Bool
  | .pubkey => true
  | _ => false

def pubkeyOrHash : TxnOutType → Bool
  | .pubkey => true
  | .pubkeyhash => true
  | _ => false

/-- The key id under which an unspent output is indexed. -/
def payee (txout : CTxOut) : Option CKeyID :=
  if txout.isNull ∨ ¬ txout.scriptPubKey.parses then none
  else match solver txout.scriptPubKey with
    | some (.pubkey, solution :: _) => some (H.hash160 solution)
    | some (.pubkeyhash, solution :: _) => some (uint160OfBytes solution)
    | _ => none

/-- An output that pays nobody keeps the key id it is given. -/
theorem retrieveKeyIds_eq (txout : CTxOut) (keyId : CKeyID) :
    retrieveKeyIds H txout keyId pubkeyOrHash =
      if txout.scriptPubKey.parses then some ((payee H txout).getD keyId) else none := by
  unfold retrieveKeyIds payee
  by_cases hparses : txout.scriptPubKey.parses = true
  · cases hnull : txout.isNull with
    | false =>
      simp only [hparses, if_true, Bool.false_eq_true, not_true_eq_false, or_self, if_false]
      split <;> simp [pubkeyOrHash]
    | true =>
      simp only [hparses, if_true, true_or]
      split <;> simp
  · simp [hparses]

/-- `retrieveInputIds`: the key presented by the input, replaced by the key of
the spent output if that output pays to a public key. -/
def retrieveInputIds (stray : CCoins → UInt32 → CTxOut) (txIn : CTxIn) (keyId : CKeyID)
    (prevCoins : CCoins) : Option CKeyID :=
  (findKeyPush txIn.scriptSig).map fun data =>
    let presented := match data with
      | some data => (CPubKey.ofBytes data).getID H
      | none => keyId
    let prevOut := (prevCoins.vout[txIn.prevout.n.toNat]?).getD (stray prevCoins txIn.prevout.n)
    (retrieveKeyIds H prevOut presented pubkeyOnly).getD presented

end Scripts

namespace CTransactionRecordManager

variable (env : Environment)

def empty : CTransactionRecordManager := ⟨.empty, .empty⟩

/-- `CheckInputs` with all script checks of the transaction taken together: no
value where it returns false, else whether the checks succeed. -/
def checkInputs (view : CCoinsViewCache) (tx : CTransaction) : Option Bool × CCoinsViewCache :=
  if tx.isCoinBase then (some true, view)
  else
    let found := view.haveInputs tx
    if found.1 then
      (some (tx.vin.zipIdx.all fun p =>
        match (found.2.view p.1.prevout.hash).bind fun c => c.vout[p.1.prevout.n.toNat]? with
        | some prevOut => env.verifier.verifyScript p.1.scriptSig prevOut.scriptPubKey tx p.2
        | none => false), found.2)
    else (none, found.2)

/-- `validateTransactionBundle` from the transaction with the given index on: its
result and the indexes it appends to the invalid ones. -/
def validateFrom (view : CCoinsViewCache) :
    ℕ → List CTransaction → (Bool × List ℕ) × CCoinsViewCache
  | _, [] => ((true, []), view)
  | transactionIndex, tx :: txs =>
    let checked := checkInputs env view tx
    match checked.1 with
    | none => ((false, []), checked.2)
    | some valid =>
      let rest := validateFrom checked.2 (transactionIndex + 1) txs
      ((rest.1.1, if valid then rest.1.2 else transactionIndex :: rest.1.2), rest.2)

def validateTransactionBundle (s : CTransactionRecordManager) (txs : List CTransaction) :
    (Bool × List ℕ) × CTransactionRecordManager :=
  let validated := validateFrom env s.coinsViewCache 0 txs
  (validated.1, { s with coinsViewCache := validated.2 })

/-- The transactions whose indexes are not reported. -/
def dropInvalid (txs : List CTransaction) (invalidTransactions : List ℕ) : List CTransaction :=
  (txs.zipIdx.filter fun p => p.2 ∉ invalidTransactions).map Prod.fst

/-- One input of the first loop of `addValidatedTransactionBundle`; no result
where the loop goes on. -/
def spendInput (s : CTransactionRecordManager) (txIn : CTxIn) :
    Option BundleResult × CTransactionRecordManager :=
  let found := s.coinsViewCache.getCoins txIn.prevout.hash
  match found.1 with
  | none => (some (.returned false), { s with coinsViewCache := found.2 })
  | some coins =>
    match retrieveInputIds env.hashes env.stray txIn 0 coins with
    | none => (some (.returned false), { s with coinsViewCache := found.2 })
    | some keyId =>
      let index := s.addressToCoinsViewCache.eraseCoins keyId txIn.prevout.hash
      if txIn.prevout.n.toNat < coins.vout.length then
        (none, ⟨found.2.setCoins txIn.prevout.hash (coins.setNull txIn.prevout.n.toNat), index⟩)
      else (some .threw, ⟨found.2, index⟩)

def spendInputs (s : CTransactionRecordManager) :
    List CTxIn → Option BundleResult × CTransactionRecordManager
  | [] => (none, s)
  | txIn :: vin =>
    let spent := s.spendInput env txIn
    match spent.1 with
    | none => spendInputs spent.2 vin
    | some result => (some result, spent.2)

/-- One transaction of the second loop, which `addRetrivedTransactionBundle`
shares. -/
def createCoins (s : CTransactionRecordManager) (tx : CTransaction) :
    Option BundleResult × CTransactionRecordManager :=
  let coins := CCoins.ofTransaction tx
  let hash := tx.getHash env.hashes
  let view := s.coinsViewCache.setCoins hash coins
  match coins.vout.mapM fun o => retrieveKeyIds env.hashes o 0 pubkeyOrHash with
  | none => (some (.returned false), { s with coinsViewCache := view })
  | some keyIds =>
    match getTransactionInputs env.hashes tx.vin with
    | none => (some .aborted, { s with coinsViewCache := view })
    | some inputs =>
      let index := s.addressToCoinsViewCache.setTransactionInputs hash inputs
      (none, ⟨view, keyIds.foldl (fun index keyId => index.setCoins keyId hash) index⟩)

def createAllCoins (s : CTransactionRecordManager) :
    List CTransaction → Option BundleResult × CTransactionRecordManager
  | [] => (none, s)
  | tx :: txs =>
    let created := s.createCoins env tx
    match created.1 with
    | none => createAllCoins created.2 txs
    | some result => (some result, created.2)

def flush (s : CTransactionRecordManager) : CTransactionRecordManager :=
  ⟨s.coinsViewCache.flush, s.addressToCoinsViewCache.flush⟩

def addRetrivedTransactionBundle (s : CTransactionRecordManager) (txs : List CTransaction) :
    BundleResult × CTransactionRecordManager :=
  let created := s.createAllCoins env txs
  match created.1 with
  | some result => (result, created.2)
  | none => (.returned true, created.2.flush)

def addValidatedTransactionBundle (s : CTransactionRecordManager) (txs : List CTransaction) :
    BundleResult × CTransactionRecordManager :=
  let spent := s.spendInputs env (txs.flatMap CTransaction.vin)
  match spent.1 with
  | some result => (result, spent.2)
  | none => spent.2.addRetrivedTransactionBundle env txs

def addCoinbaseTransaction (s : CTransactionRecordManager) (tx : CTransaction) (keyId : CKeyID) :
    BundleResult × CTransactionRecordManager :=
  let hash := tx.getHash env.hashes
  let view := s.coinsViewCache.setCoins hash (CCoins.ofTransaction tx)
  let index := s.addressToCoinsViewCache.setCoins keyId hash
  match getTransactionInputs env.hashes tx.vin with
  | none => (.aborted, ⟨view, index⟩)
  | some inputs =>
    (.returned true, flush ⟨view, index.setTransactionInputs hash inputs⟩)

/-- The state a validation leaves. -/
def validated (s : CTransactionRecordManager) (txs : List CTransaction) :
    CTransactionRecordManager :=
  (s.validateTransactionBundle env txs).2

/-- The transactions a validation leaves. -/
def keptTransactions (s : CTransactionRecordManager) (txs : List CTransaction) :
    List CTransaction :=
  dropInvalid txs (s.validateTransactionBundle env txs).1.2

/-- A bundle is validated and what is left of it applied, if something is left. -/
def processBundle (s : CTransactionRecordManager) (txs : List CTransaction) :
    CTransactionRecordManager :=
  if s.keptTransactions env txs = [] then s.validated env txs
  else ((s.validated env txs).addValidatedTransactionBundle env (s.keptTransactions env txs)).2

end CTransactionRecordManager

end Dims

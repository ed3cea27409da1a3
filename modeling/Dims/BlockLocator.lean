import Dims.BestChain

/-!
# Locators

A node that asks for headers sends hashes of its chain, densely at the tip and then ever
further apart, down to the root. The other side looks for the first that is in its chain
and sends what follows it there.
-/

namespace Dims

namespace CChain

variable (mapBlockIndex : BlockMap)

def next (chain : CChain) (hash : Uint256) (pindex : CBlockIndexEntry) : Option Uint256 :=
  if chain.contains hash pindex then chain.at' (pindex.nHeight + 1) else none

/-- The inner loop of `GetLocator`: down to a height, or to what is in the chain. -/
def descend (chain : CChain) (nHeight : ℕ) : ℕ → Uint256 → Option (Uint256 × CBlockIndexEntry)
  | 0, _ => none
  | fuel + 1, hash => do
    let pindex ← mapBlockIndex.lookup hash
    if nHeight < pindex.nHeight ∧ ¬ chain.contains hash pindex then
      let prev ← pindex.pprev
      descend chain nHeight fuel prev
    else some (hash, pindex)

/-- The outer loop; the height that is aimed at is not below 0. -/
def locatorFrom (chain : CChain) : ℕ → Uint256 → ℕ → List Uint256 → Option (List Uint256)
  | 0, _, _, _ => none
  | fuel + 1, hash, nStep, vHave => do
    let pindex ← mapBlockIndex.lookup hash
    let vHave := vHave ++ [hash]
    if pindex.nHeight = 0 then some vHave
    else
      let nHeight := pindex.nHeight - nStep
      let (hash, pindex) ← descend mapBlockIndex chain nHeight mapBlockIndex.entries.length hash
      let nStep := if 10 < vHave.length then nStep * 2 else nStep
      if nHeight < pindex.nHeight then
        match chain.at' nHeight with
        | none => some vHave
        | some hash => locatorFrom chain fuel hash nStep vHave
      else locatorFrom chain fuel hash nStep vHave

/-- Without an entry the locator starts at the tip. -/
def getLocator (chain : CChain) (pindex : Option Uint256) : Option (List Uint256) :=
  match pindex.or chain.tip with
  | none => some []
  | some hash => locatorFrom mapBlockIndex chain mapBlockIndex.entries.length hash 1 []

def findFork (chain : CChain) (locator : List Uint256) : Option Uint256 :=
  (locator.find? fun hash => (mapBlockIndex.lookup hash).any (chain.contains hash)).or
    chain.genesis

/-- The loop of the answer to `getheaders`, which ends after the given number of headers or
with the one to stop at. -/
def headersFrom (chain : CChain) (hashStop : Uint256) :
    ℕ → Option Uint256 → Option (List CBlockHeader)
  | 0, _ => some []
  | _ + 1, none => some []
  | nLimit + 1, some hash => do
    let pindex ← mapBlockIndex.lookup hash
    if hash = hashStop then some [pindex.getBlockHeader]
    else
      let rest ← headersFrom chain hashStop nLimit (chain.next hash pindex)
      some (pindex.getBlockHeader :: rest)

end CChain

namespace ChainState

/-- `getheaders`: the headers that are sent, if there is an answer. -/
def getHeaders (locator : List Uint256) (hashStop : Uint256) (s : ChainState) :
    Option (Option (List CBlockHeader)) :=
  if locator = [] then
    match s.mapBlockIndex.lookup hashStop with
    | none => some none
    | some _ => (s.chainActive.headersFrom s.mapBlockIndex hashStop 2000 (some hashStop)).map some
  else
    match s.chainActive.findFork s.mapBlockIndex locator with
    | none => (s.chainActive.headersFrom s.mapBlockIndex hashStop 2000 none).map some
    | some fork => do
      let pindex ← s.mapBlockIndex.lookup fork
      let headers ← s.chainActive.headersFrom s.mapBlockIndex hashStop 2000
        (s.chainActive.next fork pindex)
      some (some headers)

end ChainState

namespace BlockMap.Tree

variable {m : BlockMap} {node : Uint256 → Prop} {root : Uint256} {path : List Uint256}

theorem contains_iff (h : m.Tree node root) (hpath : IsPath m.parent path)
    (hnodes : ∀ k ∈ path, node k) {hash : Uint256} {pindex : CBlockIndexEntry}
    (hentry : m.lookup hash = some pindex) :
    CChain.contains (path.map some) hash pindex = true ↔ hash ∈ path := by
  simp only [CChain.contains, CChain.at', List.getElem?_map, decide_eq_true_eq]
  constructor
  · intro hat
    apply List.mem_of_getElem? (i := pindex.nHeight)
    simpa [Option.join_eq_some_iff] using hat
  · intro hmem
    obtain ⟨i, hi⟩ := List.mem_iff_getElem?.mp hmem
    obtain ⟨entry, hlookup, hheight, -⟩ := h.entry hpath hnodes hi
    obtain rfl : entry = pindex := Option.some.inj (hlookup.symm.trans hentry)
    rw [hheight, hi]
    rfl

theorem next_path (h : m.Tree node root) (hpath : IsPath m.parent path)
    (hnodes : ∀ k ∈ path, node k) {hash : Uint256} {pindex : CBlockIndexEntry}
    (hentry : m.lookup hash = some pindex) {i : ℕ} (hhash : path[i]? = some hash) :
    CChain.next (path.map some) hash pindex = path[i + 1]? := by
  obtain ⟨entry, hlookup, hheight, -⟩ := h.entry hpath hnodes hhash
  obtain rfl : entry = pindex := Option.some.inj (hlookup.symm.trans hentry)
  have hcontains := (h.contains_iff hpath hnodes hentry).mpr (List.mem_of_getElem? hhash)
  rw [CChain.next, if_pos hcontains, hheight, CChain.at', List.getElem?_map]
  cases path[i + 1]? <;> rfl

theorem locatorFrom_step (h : m.Tree node root) (hpath : IsPath m.parent path)
    (hnodes : ∀ k ∈ path, node k) {height : ℕ} {hash next : Uint256}
    (hhash : path[height + 1]? = some hash) {nStep : ℕ} (hstep : 0 < nStep)
    (hnext : path[height + 1 - nStep]? = some next) (fuel : ℕ) (vHave : List Uint256) :
    CChain.locatorFrom m (path.map some) (fuel + 1) hash nStep vHave =
      CChain.locatorFrom m (path.map some) fuel next
        (if 10 < vHave.length + 1 then nStep * 2 else nStep) (vHave ++ [hash]) := by
  obtain ⟨pindex, hlookup, hheight, -⟩ := h.entry hpath hnodes hhash
  have hcontains : CChain.contains (path.map some) hash pindex = true :=
    (h.contains_iff hpath hnodes hlookup).mpr (List.mem_of_getElem? hhash)
  have hpos : 0 < m.entries.length := by
    have hlen := h.length_le_entries hpath hnodes
    have hlt := (List.getElem?_eq_some_iff.mp hhash).1
    omega
  obtain ⟨entries, hentries⟩ : ∃ n, m.entries.length = n + 1 := ⟨m.entries.length - 1, by omega⟩
  have hdescend : CChain.descend m (path.map some) (height + 1 - nStep) m.entries.length hash =
      some (hash, pindex) := by
    simp only [hentries, CChain.descend, hlookup, Option.bind_eq_bind, Option.bind_some]
    rw [if_neg (by simp [hcontains])]
  have hat : CChain.at' (path.map some) (height + 1 - nStep) = some next := by
    rw [CChain.at', List.getElem?_map, hnext]
    rfl
  rw [CChain.locatorFrom]
  simp only [hlookup, Option.bind_eq_bind, Option.bind_some, hheight, hdescend, hat,
    List.length_append, List.length_singleton]
  rw [if_neg (by omega), if_pos (by omega)]

theorem locatorFrom_root (h : m.Tree node root) (hpath : IsPath m.parent path)
    (hnodes : ∀ k ∈ path, node k) {hash : Uint256} (hhash : path[0]? = some hash) (fuel : ℕ)
    (nStep : ℕ) (vHave : List Uint256) :
    CChain.locatorFrom m (path.map some) (fuel + 1) hash nStep vHave = some (vHave ++ [hash]) := by
  obtain ⟨pindex, hlookup, hheight, -⟩ := h.entry hpath hnodes hhash
  simp only [CChain.locatorFrom, hlookup, Option.bind_eq_bind, Option.bind_some, hheight, if_true]

theorem locatorFrom_extends (h : m.Tree node root) (hpath : IsPath m.parent path)
    (hnodes : ∀ k ∈ path, node k) (fuel : ℕ) :
    ∀ {height : ℕ} {hash : Uint256} {nStep : ℕ} (vHave : List Uint256), height < fuel →
      path[height]? = some hash → 0 < nStep →
      ∃ more, CChain.locatorFrom m (path.map some) fuel hash nStep vHave =
        some (vHave ++ hash :: more) := by
  induction fuel with
  | zero =>
    intro height hash nStep vHave hfuel
    omega
  | succ fuel ih =>
    intro height hash nStep vHave hfuel hhash hstep
    cases height with
    | zero => exact ⟨[], h.locatorFrom_root hpath hnodes hhash fuel nStep vHave⟩
    | succ height =>
      have hlt := (List.getElem?_eq_some_iff.mp hhash).1
      have hnext : path[height + 1 - nStep]? = some path[height + 1 - nStep] :=
        List.getElem?_eq_getElem (by omega)
      have hpos : 0 < if 10 < vHave.length + 1 then nStep * 2 else nStep := by split <;> omega
      obtain ⟨more, hmore⟩ := ih (vHave ++ [hash]) (by omega) hnext hpos
      refine ⟨path[height + 1 - nStep] :: more, ?_⟩
      rw [h.locatorFrom_step hpath hnodes hhash hstep hnext, hmore, List.append_assoc]
      rfl

/-- If everything of the path up to a place is accepted, the first hash of the locator that
is accepted lies at most twice as deep as that place. -/
theorem find?_locatorFrom (h : m.Tree node root) (hpath : IsPath m.parent path)
    (hnodes : ∀ k ∈ path, node k) {p : Uint256 → Bool} {top place : ℕ}
    (hp : ∀ i k, i ≤ place → path[i]? = some k → p k = true) (hplace : place ≤ top)
    (fuel : ℕ) :
    ∀ (height : ℕ) (hash : Uint256) (nStep : ℕ) (vHave : List Uint256), height < fuel →
      height ≤ top → path[height]? = some hash → 0 < nStep → (∀ k ∈ vHave, p k = false) →
      vHave.length ≤ top - height ∨ height = 0 → nStep ≤ max 1 (top - height) ∨ height = 0 →
      top - height ≤ 2 * (top - place) →
      ∃ locator g k, CChain.locatorFrom m (path.map some) fuel hash nStep vHave = some locator ∧
        locator.find? p = some k ∧ path[g]? = some k ∧ top - g ≤ 2 * (top - place) := by
  induction fuel with
  | zero =>
    intro height hash nStep vHave hfuel
    omega
  | succ fuel ih =>
    intro height hash nStep vHave hfuel htop hhash hstep hrejected hcount hbound hdepth
    by_cases haccepted : p hash = true
    · obtain ⟨more, hmore⟩ := h.locatorFrom_extends hpath hnodes (fuel + 1) vHave hfuel hhash hstep
      refine ⟨_, height, hash, hmore, ?_, hhash, hdepth⟩
      rw [List.find?_append, List.find?_eq_none.mpr (by simpa using hrejected),
        List.find?_cons_of_pos haccepted]
      rfl
    · -- the place is below, so the step is not longer than what has been passed already
      have habove : place < height := by
        by_contra hle
        exact haccepted (hp height hash (by omega) hhash)
      obtain ⟨height, rfl⟩ : ∃ n, height = n + 1 := ⟨height - 1, by omega⟩
      have hlt := (List.getElem?_eq_some_iff.mp hhash).1
      have hnext : path[height + 1 - nStep]? = some path[height + 1 - nStep] :=
        List.getElem?_eq_getElem (by omega)
      rw [h.locatorFrom_step hpath hnodes hhash hstep hnext]
      refine ih _ _ _ _ (by omega) (by omega) hnext (by split <;> omega) ?_ ?_ ?_ ?_
      · intro k hk
        rcases List.mem_append.mp hk with hold | hlast
        · exact hrejected k hold
        · rw [List.mem_singleton.mp hlast]
          simpa using haccepted
      · rw [List.length_append, List.length_singleton]
        omega
      · split <;> omega
      · omega

end BlockMap.Tree

end Dims

import Dims.BlockLocator

/-!
# One node asks another for headers

A node sends the locator of its chain, the other answers with what follows in its own chain,
and the first takes that up. If the answer reaches the tip of the other node, the first has
afterwards a chain with as much work.
-/

namespace Dims

namespace CBlockHeader

variable (H : HashFunctions)

/-- The headers up to the one to stop at. -/
def uptoStop (hashStop : Uint256) : List CBlockHeader → List CBlockHeader
  | [] => []
  | block :: rest =>
    if block.getHash H = hashStop then [block] else block :: uptoStop hashStop rest

variable {H} {root : Uint256}

theorem uptoStop_eq_self {hashStop : Uint256} {headers : List CBlockHeader}
    (h : ∀ block ∈ headers, block.getHash H ≠ hashStop) :
    uptoStop H hashStop headers = headers := by
  induction headers with
  | nil => rfl
  | cons block rest ih =>
    obtain ⟨hblock, hrest⟩ := List.forall_mem_cons.mp h
    rw [uptoStop, if_neg hblock, ih hrest]

theorem Leads.prev {branch : List CBlockHeader} :
    ∀ {root : Uint256}, Leads H root branch → ∀ {i : ℕ} {block : CBlockHeader},
      branch[i]? = some block → (hashes H root branch)[i]? = some block.hashPrevBlock := by
  induction branch with
  | nil =>
    intro root _ i block hblock
    simp at hblock
  | cons first rest ih =>
    rintro root ⟨rfl, hleads⟩ i block hblock
    cases i with
    | zero =>
      obtain rfl : first = block := by simpa using hblock
      rfl
    | succ i =>
      have hrest := ih hleads (i := i) (by simpa using hblock)
      simpa [hashes] using hrest

theorem Leads.drop {branch : List CBlockHeader} :
    ∀ {root : Uint256}, Leads H root branch → ∀ {i : ℕ} {hash : Uint256},
      (hashes H root branch)[i]? = some hash → Leads H hash (branch.drop i) := by
  induction branch with
  | nil =>
    intro root _ i hash _
    rw [List.drop_nil]
    trivial
  | cons first rest ih =>
    rintro root hleads i hash hhash
    cases i with
    | zero =>
      obtain rfl : root = hash := by simpa [hashes] using hhash
      exact hleads
    | succ i => exact ih hleads.2 (i := i) (by simpa [hashes] using hhash)

theorem getElem?_hashes_succ {branch : List CBlockHeader} {i : ℕ} {hash : Uint256} :
    (hashes H root branch)[i + 1]? = some hash ↔
      ∃ block, branch[i]? = some block ∧ block.getHash H = hash := by
  simp [hashes]

/-- Two branches that meet have the same headers before, if the hashes are different for
different headers and none is that of the root. -/
theorem take_eq_of_meet {branch other : List CBlockHeader} (hleads : Leads H root branch)
    (hother : Leads H root other) (hroot : ∀ block ∈ branch ++ other, block.getHash H ≠ root)
    (hfree : ∀ block ∈ branch, ∀ block' ∈ other, block.getHash H = block'.getHash H →
      block = block') (i : ℕ) :
    ∀ {j : ℕ} {hash : Uint256}, (hashes H root branch)[i]? = some hash →
      (hashes H root other)[j]? = some hash → i = j ∧ branch.take i = other.take i := by
  induction i with
  | zero =>
    intro j hash hi hj
    obtain rfl : root = hash := by simpa [hashes] using hi
    cases j with
    | zero => simp
    | succ j =>
      obtain ⟨block, hblock, hhash⟩ := getElem?_hashes_succ.mp hj
      have hmem := List.mem_append_right branch (List.mem_of_getElem? hblock)
      exact absurd hhash (hroot block hmem)
  | succ i ih =>
    intro j hash hi hj
    obtain ⟨block, hblock, rfl⟩ := getElem?_hashes_succ.mp hi
    cases j with
    | zero =>
      have hmem := List.mem_append_left other (List.mem_of_getElem? hblock)
      obtain hhash : root = block.getHash H := by simpa [hashes] using hj
      exact absurd hhash.symm (hroot block hmem)
    | succ j =>
      obtain ⟨block', hblock', hhash⟩ := getElem?_hashes_succ.mp hj
      obtain rfl := hfree block (List.mem_of_getElem? hblock) block'
        (List.mem_of_getElem? hblock') hhash.symm
      obtain ⟨rfl, htake⟩ := ih (hleads.prev hblock) (hother.prev hblock')
      refine ⟨rfl, ?_⟩
      rw [List.take_add_one, List.take_add_one, htake, hblock, hblock']

end CBlockHeader

namespace ChainState

open CBlockHeader

variable (H : HashFunctions) (address : Uint256 → ℕ)

/-- No header is refused for its age when it comes. -/
def timely : List CBlockHeader → ChainState → Bool
  | [], _ => true
  | block :: rest, s =>
    leavesOld block s == some false &&
      match addToBlockIndex H address block s with
      | none => true
      | some (_, s) => timely rest s

/-- What another node answers to `PushGetHeaders` for the tip. -/
def askHeaders (s other : ChainState) : Option (List CBlockHeader) := do
  let locator ← s.chainActive.getLocator s.mapBlockIndex s.chainActive.tip
  let answer ← other.getHeaders locator 0
  answer

variable {H address} {root base : Uint256} {accepted : List CBlockHeader} {s : ChainState}

/-- A header that leads on from a connected entry is clear. It is there afterwards, also if it was
before, and connected. -/
theorem addToBlockIndex_leading (h : Follows H address root base accepted s) {block : CBlockHeader}
    (hself : block.hashPrevBlock ≠ block.getHash H) (hroot : block.getHash H ≠ root)
    (hconnected : s.mapBlockIndex.Connected s.m_hashToPreviousHash block.hashPrevBlock)
    (hfree : ∀ block' ∈ accepted, block.getHash H = block'.getHash H → block = block')
    (hyoung : leavesOld block s = some false) :
    ∃ added s', addToBlockIndex H address block s = some (added, s') ∧
      Follows H address root base (if added then accepted ++ [block] else accepted) s' ∧
      (block ∈ if added then accepted ++ [block] else accepted) ∧
      s'.mapBlockIndex.Connected s'.m_hashToPreviousHash (block.getHash H) := by
  obtain ⟨⟨previous, hprevious⟩, hnotWaiting⟩ := hconnected
  have hclear : clear H block s = true := by
    refine clear_iff.mpr ⟨hself, ?_⟩
    intro waitingHash hashPrev hwait
    refine ⟨?_, fun _ => ⟨previous, hprevious⟩⟩
    rintro rfl
    rw [hnotWaiting] at hwait
    contradiction
  obtain ⟨added, s', hadd, hfollows, hrefused⟩ := addToBlockIndex_follows h hclear
  have hpresent : block ∈ if added then accepted ++ [block] else accepted := by
    cases added with
    | true => simp
    | false =>
      rcases hrefused rfl with hold | ⟨pindex, hknown⟩
      · rw [hyoung] at hold
        contradiction
      · rcases h.filed.known _ _ hknown with hisRoot | ⟨block', hblock', hhash⟩
        · exact absurd hisRoot hroot
        · obtain rfl := hfree block' hblock' hhash.symm
          exact hblock'
  have hpreviousNow : ∃ pindex, s'.mapBlockIndex.lookup block.hashPrevBlock = some pindex := by
    rcases h.filed.known _ _ hprevious with hisRoot | ⟨b, hb, hhash⟩
    · obtain ⟨rootEntry, hrootEntry, -⟩ := hfollows.filed.root_entry
      exact ⟨rootEntry, by rw [hisRoot, hrootEntry]⟩
    · rw [← hhash]
      refine hfollows.filed.exists_entry ?_
      split
      · exact List.mem_append_left _ hb
      · exact hb
  refine ⟨added, s', hadd, hfollows, hpresent, hfollows.filed.exists_entry hpresent, ?_⟩
  cases hwait : s'.m_hashToPreviousHash.lookup (block.getHash H) with
  | none => rfl
  | some hashPrev =>
    obtain ⟨-, alone, -, hnone, -⟩ := hfollows.filed.alone block hpresent hashPrev hwait
    obtain ⟨pindex, hpindex⟩ := hpreviousNow
    rw [hnone] at hpindex
    contradiction

/-- Of headers that lead on from a connected entry, one after the other, none is missing
afterwards. -/
theorem addHeaders_leading {headers : List CBlockHeader}
    (hself : ∀ block ∈ headers, block.hashPrevBlock ≠ block.getHash H)
    (hroot : ∀ block ∈ headers, block.getHash H ≠ root) :
    ∀ {accepted : List CBlockHeader} {s : ChainState} {hash : Uint256},
      Follows H address root base accepted s →
      s.mapBlockIndex.Connected s.m_hashToPreviousHash hash → Leads H hash headers →
      (∀ block ∈ headers, ∀ block' ∈ accepted ++ headers, block.getHash H = block'.getHash H →
        block = block') →
      timely H address headers s = true →
      ∃ more s', addHeaders H address headers s = some (more, s') ∧
        Follows H address root base (accepted ++ more) s' ∧
        ∀ block ∈ headers, block ∈ accepted ++ more := by
  induction headers with
  | nil =>
    intro accepted s hash h _ _ _ _
    exact ⟨[], s, rfl, by rwa [List.append_nil], by simp⟩
  | cons block rest ih =>
    intro accepted s hash h hconnected hleads hfree htimely
    obtain ⟨rfl, hleads⟩ := hleads
    obtain ⟨hself, hselfRest⟩ := List.forall_mem_cons.mp hself
    obtain ⟨hroot, hrootRest⟩ := List.forall_mem_cons.mp hroot
    rw [timely, Bool.and_eq_true, beq_iff_eq] at htimely
    obtain ⟨hyoung, htimely⟩ := htimely
    obtain ⟨added, s₁, hadd, hfollows, hpresent, hconnectedNow⟩ :=
      addToBlockIndex_leading h hself hroot hconnected
        (fun b hb => hfree block List.mem_cons_self b (List.mem_append_left _ hb)) hyoung
    simp only [hadd] at htimely
    have hfreeNow : ∀ b ∈ rest, ∀ b' ∈ (if added then accepted ++ [block] else accepted) ++ rest,
        b.getHash H = b'.getHash H → b = b' := by
      intro b hb b' hb'
      refine hfree b (List.mem_cons_of_mem _ hb) b' ?_
      cases added with
      | true => simpa using hb'
      | false =>
        rcases List.mem_append.mp hb' with hold | hnew
        · exact List.mem_append_left _ hold
        · exact List.mem_append_right _ (List.mem_cons_of_mem _ hnew)
    obtain ⟨more, s₂, hmore, hfollows', hall⟩ :=
      ih hselfRest hrootRest hfollows hconnectedNow hleads hfreeNow htimely
    simp only [addHeaders, hadd, hmore, Option.bind_eq_bind, Option.bind_some]
    cases added with
    | true =>
      refine ⟨block :: more, s₂, rfl, by simpa using hfollows', ?_⟩
      rw [List.forall_mem_cons]
      exact ⟨by simp, by simpa using hall⟩
    | false =>
      refine ⟨more, s₂, rfl, hfollows', ?_⟩
      rw [List.forall_mem_cons]
      exact ⟨List.mem_append_left _ hpresent, hall⟩

theorem headersFrom_branch (h : s.mapBlockIndex.Filed H s.m_hashToPreviousHash root base accepted)
    {branch : List CBlockHeader}
    (hpath : IsPath s.mapBlockIndex.parent (hashes H root branch))
    (hnodes : ∀ k ∈ hashes H root branch,
      s.mapBlockIndex.Connected s.m_hashToPreviousHash k)
    (hmem : ∀ block ∈ branch, block ∈ accepted) (hashStop : Uint256) (nLimit : ℕ) :
    ∀ i, CChain.headersFrom s.mapBlockIndex ((hashes H root branch).map some) hashStop nLimit
        (hashes H root branch)[i + 1]? =
      some (uptoStop H hashStop ((branch.drop i).take nLimit)) := by
  induction nLimit with
  | zero =>
    intro i
    rw [List.take_zero]
    rfl
  | succ nLimit ih =>
    intro i
    cases hblock : branch[i]? with
    | none =>
      have hnone : (hashes H root branch)[i + 1]? = none := by simp [hashes, hblock]
      rw [hnone, List.drop_eq_nil_of_le (List.getElem?_eq_none_iff.mp hblock)]
      rfl
    | some block =>
      have hhash : (hashes H root branch)[i + 1]? = some (block.getHash H) :=
        getElem?_hashes_succ.mpr ⟨block, hblock, rfl⟩
      have hin := List.mem_of_getElem? hhash
      obtain ⟨-, alone, previous, hrecords, -, hentry⟩ :=
        h.linked block (hmem block (List.mem_of_getElem? hblock)) (hnodes _ hin).2
      have hheader : (alone.linkTo block.hashPrevBlock previous).getBlockHeader = block := by
        rw [hrecords]
        rfl
      have hnext := h.tree.next_path hpath hnodes hentry hhash
      obtain ⟨hlt, hget⟩ := List.getElem?_eq_some_iff.mp hblock
      rw [hhash, CChain.headersFrom, List.drop_eq_getElem_cons hlt, hget, List.take_succ_cons]
      simp only [hentry, Option.bind_eq_bind, Option.bind_some, hheader, hnext, ih (i + 1),
        uptoStop]
      split <;> rfl

/-- The answer goes on from a place that the two chains have in common, and which is not
further from the tip of the one that asks than twice the part it has for itself. -/
theorem askHeaders_answer {other : ChainState} {mine theirs : List CBlockHeader}
    {accepted' : List CBlockHeader} {address' : Uint256 → ℕ} {base' : Uint256}
    (h : Follows H address root base accepted s)
    (h' : Follows H address' root base' accepted' other)
    (hmine : s.chainActive = (hashes H root mine).map some)
    (htheirs : other.chainActive = (hashes H root theirs).map some)
    (hmem : ∀ block ∈ theirs, block ∈ accepted') {common : ℕ}
    (hcommon : common ≤ mine.length)
    (hsame : (hashes H root mine).take (common + 1) = (hashes H root theirs).take (common + 1)) :
    ∃ i j hash, askHeaders s other = some (uptoStop H 0 ((theirs.drop j).take 2000)) ∧
      (hashes H root mine)[i]? = some hash ∧ (hashes H root theirs)[j]? = some hash ∧
      mine.length - i ≤ 2 * (mine.length - common) := by
  obtain ⟨tip, hpath, hnodes, hlast⟩ := h.branch hmine
  obtain ⟨-, hpath', hnodes', -⟩ := h'.branch htheirs
  have hlen : (hashes H root mine).length = mine.length + 1 := by simp [hashes]
  have hplace : (hashes H root mine)[mine.length]? = some tip := by
    rw [← hlast, List.getLast?_eq_getElem?, hlen, Nat.add_sub_cancel]
  have htip : s.chainActive.tip = some tip := by
    rw [CChain.tip, hmine, List.getLast?_map, hlast]
    rfl
  have hknown : ∀ i k, i ≤ common → (hashes H root mine)[i]? = some k →
      (other.mapBlockIndex.lookup k).any (other.chainActive.contains k) = true := by
    intro i k hi hk
    have hboth : (hashes H root theirs)[i]? = some k := by
      have hlt : i < common + 1 := by omega
      rw [← hk, ← List.getElem?_take_of_lt hlt, ← hsame, List.getElem?_take_of_lt hlt]
    have hin := List.mem_of_getElem? hboth
    obtain ⟨pindex, hentry⟩ := (hnodes' k hin).1
    rw [hentry, htheirs]
    exact (h'.filed.tree.contains_iff hpath' hnodes' hentry).mpr hin
  have hfuel := h.filed.tree.length_le_entries hpath hnodes
  obtain ⟨locator, i, hash, hlocator, hfind, hi, hdepth⟩ :=
    h.filed.tree.find?_locatorFrom hpath hnodes hknown hcommon s.mapBlockIndex.entries.length
      mine.length tip 1 [] (by omega) le_rfl hplace (by omega) (by simp) (by simp) (by simp)
      (by omega)
  have haccepted := List.find?_some hfind
  rw [Option.any_eq_true] at haccepted
  obtain ⟨pindex, hentry, hcontains⟩ := haccepted
  rw [htheirs] at hcontains
  have hin := (h'.filed.tree.contains_iff hpath' hnodes' hentry).mp hcontains
  obtain ⟨j, hj⟩ := List.mem_iff_getElem?.mp hin
  refine ⟨i, j, hash, ?_, hi, hj, hdepth⟩
  have hne : locator ≠ [] := by
    rintro rfl
    contradiction
  have hnext := h'.filed.tree.next_path hpath' hnodes' hentry hj
  have hsent := headersFrom_branch h'.filed hpath' hnodes' hmem 0 2000 j
  have hgetLocator : s.chainActive.getLocator s.mapBlockIndex s.chainActive.tip =
      some locator := by
    rw [CChain.getLocator, htip, Option.some_or, hmine]
    exact hlocator
  have hfork : other.chainActive.findFork other.mapBlockIndex locator = some hash := by
    rw [CChain.findFork, hfind, Option.some_or]
  rw [← htheirs] at hnext hsent
  simp only [askHeaders, hgetLocator, Option.bind_eq_bind, Option.bind_some, getHeaders, hne,
    if_false, hfork, hentry, hnext, hsent]

theorem prev_ne_of_linked (h : s.mapBlockIndex.Filed H s.m_hashToPreviousHash root base accepted)
    {block : CBlockHeader} (hblock : block ∈ accepted)
    (hconnected : s.m_hashToPreviousHash.lookup (block.getHash H) = none) :
    block.hashPrevBlock ≠ block.getHash H := by
  obtain ⟨-, alone, previous, -, hprevious, hentry⟩ := h.linked block hblock hconnected
  intro heq
  rw [heq, hentry] at hprevious
  have hheight := congrArg CBlockIndexEntry.nHeight (Option.some.inj hprevious)
  simp [CBlockIndexEntry.linkTo] at hheight

/-- One question and its answer make up for all the work of the other node, unless a header
is refused for its age: the nodes have the same root, no two headers have the same hash and
none has the hash that stands for no end, and what the chains have for themselves fits into
one answer. -/
theorem tipWork_le_of_askHeaders {other : ChainState} {accepted' : List CBlockHeader}
    {address' : Uint256 → ℕ} (hs : Reached H address root base accepted s)
    (hother : Reached H address' root base accepted' other)
    (hfree : ∀ block ∈ accepted ++ accepted', ∀ block' ∈ accepted ++ accepted',
      block.getHash H = block'.getHash H → block = block')
    (hstop : ∀ block ∈ accepted', block.getHash H ≠ 0) {common : ℕ}
    (hsame : s.chainActive.take (common + 1) = other.chainActive.take (common + 1))
    (hmine : common < s.chainActive.length) (htheirs : common < other.chainActive.length)
    (hfew : (s.chainActive.length - (common + 1)) + (other.chainActive.length - (common + 1)) ≤
      2000) :
    ∃ headers, askHeaders s other = some headers ∧
      (timely H address headers s = true →
        ∃ more s' theirWork myWork, addHeaders H address headers s = some (more, s') ∧
          other.tipWork = some theirWork ∧ s'.tipWork = some myWork ∧ theirWork ≤ myWork) := by
  have h := hs.follows
  have h' := hother.follows
  obtain ⟨mine, hactive, -, -, ⟨hmineLeads, hmineMem⟩, -⟩ := h.bestBranch
  obtain ⟨theirs, hactive', -, hwork', ⟨htheirsLeads, htheirsMem⟩, -⟩ := h'.bestBranch
  have hmineLen : s.chainActive.length = mine.length + 1 := by simp [hactive, hashes]
  have htheirsLen : other.chainActive.length = theirs.length + 1 := by simp [hactive', hashes]
  have hsameHashes : (hashes H root mine).take (common + 1) =
      (hashes H root theirs).take (common + 1) := by
    rw [hactive, hactive', ← List.map_take, ← List.map_take] at hsame
    exact List.map_injective_iff.mpr (Option.some_injective _) hsame
  obtain ⟨i, j, hash, hask, hi, hj, hdepth⟩ :=
    askHeaders_answer h h' hactive hactive' htheirsMem (by omega) hsameHashes
  obtain ⟨rfl, htake⟩ := take_eq_of_meet hmineLeads htheirsLeads
    (by
      intro block hblock
      rcases List.mem_append.mp hblock with hb | hb
      · exact h.filed.ne_root block (hmineMem block hb)
      · exact h'.filed.ne_root block (htheirsMem block hb))
    (fun block hb block' hb' => hfree block (List.mem_append_left _ (hmineMem block hb)) block'
      (List.mem_append_right _ (htheirsMem block' hb')))
    i hi hj
  have hrest : ∀ block ∈ theirs.drop i, block ∈ accepted' := fun block hb =>
    htheirsMem block (List.mem_of_mem_drop hb)
  rw [List.take_of_length_le (by rw [List.length_drop]; omega),
    uptoStop_eq_self fun block hb => hstop block (hrest block hb)] at hask
  refine ⟨theirs.drop i, hask, ?_⟩
  intro htimely
  obtain ⟨tip, -, hnodes, -⟩ := h.branch hactive
  obtain ⟨tip', -, hnodes', -⟩ := h'.branch hactive'
  obtain ⟨more, s', hadd, hfollows, hall⟩ := addHeaders_leading 
    (by
      intro block hb
      have hb' := List.mem_of_mem_drop hb
      refine prev_ne_of_linked h'.filed (hrest block hb) (hnodes' _ ?_).2
      exact List.mem_cons_of_mem _ (List.mem_map_of_mem hb'))
    (fun block hb => h'.filed.ne_root block (hrest block hb)) h
    (hnodes hash (List.mem_of_getElem? hi)) (htheirsLeads.drop hj)
    (by
      intro block hb block' hb'
      refine hfree block (List.mem_append_right _ (hrest block hb)) block' ?_
      rcases List.mem_append.mp hb' with hold | hnew
      · exact List.mem_append_left _ hold
      · exact List.mem_append_right _ (hrest block' hnew))
    htimely
  obtain ⟨best, -, -, hwork, -, hbest⟩ := hfollows.bestBranch
  refine ⟨more, s', base + work theirs, base + work best, hadd, hwork', hwork, ?_⟩
  refine hbest theirs ⟨htheirsLeads, ?_⟩
  intro block hb
  rw [← List.take_append_drop i theirs, List.mem_append, ← htake] at hb
  rcases hb with hfirst | hlast
  · exact List.mem_append_left _ (hmineMem block (List.mem_of_mem_take hfirst))
  · exact hall block hlast

open NumberedHeaders in
theorem tipWork_le_of_askHeaders_numbered :
    ∃ more s' theirWork myWork,
      addHeaders NumberedHeaders.hashes BitVec.toNat [header 4 2, header 5 4]
        (taken BitVec.toNat [header 2 1, header 3 2]).2 = some (more, s') ∧
      (taken (fun _ => 0) [header 2 1, header 4 2, header 5 4]).2.tipWork = some theirWork ∧
      s'.tipWork = some myWork ∧ theirWork ≤ myWork := by
  have hsame : (taken BitVec.toNat [header 2 1, header 3 2]).2.chainActive.take (1 + 1) =
      (taken (fun _ => 0) [header 2 1, header 4 2, header 5 4]).2.chainActive.take (1 + 1) := by
    decide +kernel
  obtain ⟨headers, hask, hsync⟩ := tipWork_le_of_askHeaders
    (reached BitVec.toNat [header 2 1, header 3 2] (by decide +kernel) (by decide +kernel))
    (reached (fun _ => 0) [header 2 1, header 4 2, header 5 4] (by decide +kernel)
      (by decide +kernel))
    (by decide +kernel) (by decide +kernel) hsame (by decide +kernel) (by decide +kernel)
    (by decide +kernel)
  have hsent : askHeaders (taken BitVec.toNat [header 2 1, header 3 2]).2
      (taken (fun _ => 0) [header 2 1, header 4 2, header 5 4]).2 =
      some [header 4 2, header 5 4] := by decide +kernel
  obtain rfl := Option.some.inj (hask.symm.trans hsent)
  exact hsync (by decide +kernel)

end ChainState

end Dims

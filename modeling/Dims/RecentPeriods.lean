import Dims.PaymentTraces
import Mathlib.Data.List.Chain

/-!
# How long recent transactions are kept

The periods of `setTransactionToTemporary` begin more than 240 seconds apart. What is kept are
the last five of them, so a transaction stays for at least four whole periods after it was put.
-/

namespace Dims

namespace CRecentTransactions

/-- Consecutive periods begin more than 240 seconds apart. -/
def Spaced (opened : List (BitVec 64)) : Prop :=
  opened.IsChain fun a b => a.toNat + usedTimePeriod.toNat < b.toNat

/-- The periods after a call at the time, by their beginnings. -/
def nextOpened (opened : List (BitVec 64)) (time : BitVec 64) : List (BitVec 64) :=
  if usedTimePeriod < time - opened.getLastD 0 then opened ++ [time] else opened

/-- All periods up to the last of the times; the first one begins at zero. -/
def openings (times : List (BitVec 64)) : List (BitVec 64) := times.foldl nextOpened [0]

/-- The last five periods, or all if there are fewer. -/
def lastPeriods (opened : List (BitVec 64)) : List (BitVec 64) :=
  opened.drop (opened.length - (periodsCount + 1))

theorem length_lastPeriods_le (opened : List (BitVec 64)) :
    (lastPeriods opened).length ≤ periodsCount + 1 := by
  rw [lastPeriods, List.length_drop]
  omega

/-- A new period takes the place of the oldest one. -/
theorem lastPeriods_append (opened : List (BitVec 64)) (time : BitVec 64) :
    lastPeriods (opened ++ [time]) =
      (if periodsCount + 1 ≤ opened.length then (lastPeriods opened).tail else lastPeriods opened) ++
        [time] := by
  unfold lastPeriods
  rw [List.length_append, List.length_singleton, List.drop_append_of_le_length (by omega)]
  congr 1
  split
  case isTrue h => rw [List.tail_drop]; congr 1; omega
  case isFalse h => congr 1; omega

/-- What is kept belongs to the last periods. -/
structure Windowed (opened : List (BitVec 64)) (s : CRecentTransactions) : Prop where
  nonempty : opened ≠ []
  spaced : Spaced opened
  window : s.usedTimes.elements ++ [s.lastUsedTime] = lastPeriods opened
  keyed : ∀ time, (s.recentTransactions.lookup time).isSome → time ∈ lastPeriods opened

/-- A transaction that was put at the time is kept in its period, or its period has gone. -/
def Retained (s : CRecentTransactions) (opened : List (BitVec 64)) (hash : Uint256)
    (time : BitVec 64) : Prop :=
  ∃ period ∈ opened, period.toNat ≤ time.toNat ∧ time.toNat ≤ period.toNat + usedTimePeriod.toNat ∧
    (period ∈ lastPeriods opened → ∃ bucket, s.recentTransactions.lookup period = some bucket ∧
      (bucket.lookup hash).isSome)

variable {s : CRecentTransactions} {opened : List (BitVec 64)} {time : BitVec 64}

theorem Windowed.getLast (h : s.Windowed opened) : opened.getLastD 0 = s.lastUsedTime := by
  have hlast : (lastPeriods opened).getLast? = opened.getLast? := by
    have hpos := List.length_pos_iff.mpr h.nonempty
    rw [lastPeriods, List.getLast?_drop, if_neg (by unfold periodsCount; omega)]
  rw [← h.window, List.getLast?_concat] at hlast
  rw [List.getLastD_eq_getLast?, ← hlast, Option.getD_some]

theorem Windowed.length_usedTimes (h : s.Windowed opened) :
    s.usedTimes.elements.length = periodsCount ↔ periodsCount + 1 ≤ opened.length := by
  have hlength := congrArg List.length h.window
  have hpos := List.length_pos_iff.mpr h.nonempty
  rw [lastPeriods, List.length_append, List.length_singleton, List.length_drop] at hlength
  unfold periodsCount at hlength ⊢
  omega

theorem Spaced.pairwise (h : Spaced opened) : opened.Pairwise fun a b => a.toNat < b.toNat := by
  have hchain : opened.IsChain fun a b => a.toNat < b.toNat := h.imp fun _ _ hlt => by omega
  exact List.isChain_iff_pairwise.mp hchain

theorem Spaced.add_le (h : Spaced opened) {i d : ℕ} {a b : BitVec 64} (ha : opened[i]? = some a)
    (hb : opened[i + d]? = some b) : a.toNat + d * (usedTimePeriod.toNat + 1) ≤ b.toNat := by
  induction d generalizing b with
  | zero =>
    rw [Nat.add_zero, ha] at hb
    cases hb
    omega
  | succ d ih =>
    obtain ⟨hlt, rfl⟩ := List.getElem?_eq_some_iff.mp hb
    have hprev := ih (List.getElem?_eq_getElem (by omega))
    have hgap := List.isChain_iff_getElem.mp h (i + d) (by omega)
    rw [Nat.succ_mul]
    simp only [← Nat.add_assoc] at hgap ⊢
    omega

theorem Spaced.gone (h : Spaced opened) {period last : BitVec 64} (hperiod : period ∈ opened)
    (hgone : period ∉ lastPeriods opened) (hlast : opened.getLast? = some last) :
    period.toNat + (periodsCount + 1) * (usedTimePeriod.toNat + 1) ≤ last.toNat := by
  obtain ⟨i, hi⟩ := List.mem_iff_getElem?.mp hperiod
  have hlt : i < opened.length - (periodsCount + 1) := by
    by_contra hge
    refine hgone (List.mem_iff_getElem?.mpr ⟨i - (opened.length - (periodsCount + 1)), ?_⟩)
    rw [lastPeriods, List.getElem?_drop, ← hi]
    congr 1
    omega
  rw [List.getLast?_eq_getElem?] at hlast
  have hfar := h.add_le (d := opened.length - 1 - i) hi (by rw [← hlast]; congr 1; omega)
  refine le_trans (Nat.add_le_add_left (Nat.mul_le_mul_right _ ?_) _) hfar
  omega

theorem dropPeriod_cases (s : CRecentTransactions) :
    s.usedTimes.elements.length ≠ periodsCount ∧ s.dropPeriod = s ∨
      s.usedTimes.elements.length = periodsCount ∧ ∃ oldest later,
        s.usedTimes.elements = oldest :: later ∧ s.dropPeriod = { s with
          recentTransactions := s.recentTransactions.erase oldest
          usedTimes := s.usedTimes.erase oldest } := by
  unfold dropPeriod
  split
  case isTrue hfull =>
    right
    cases helements : s.usedTimes.elements with
    | nil =>
      rw [helements] at hfull
      cases hfull
    | cons oldest later => exact ⟨helements ▸ hfull, oldest, later, rfl, rfl⟩
  case isFalse hfew => exact .inl ⟨hfew, rfl⟩

/-- What is left when there is room for a new period. -/
structure Dropped (opened : List (BitVec 64)) (s s' : CRecentTransactions) : Prop where
  last : s'.lastUsedTime = s.lastUsedTime
  window : s'.usedTimes.elements ++ [s.lastUsedTime] =
    if periodsCount + 1 ≤ opened.length then (lastPeriods opened).tail else lastPeriods opened
  lookup : ∀ time, s'.recentTransactions.lookup time =
    if time ∈ s'.usedTimes.elements ++ [s.lastUsedTime] then s.recentTransactions.lookup time
    else none

theorem Windowed.dropPeriod (h : s.Windowed opened) : Dropped opened s s.dropPeriod := by
  have hperiods := h.window
  obtain ⟨hfew, hdrop⟩ | ⟨hfull, oldest, later, helements, hdrop⟩ := s.dropPeriod_cases
  · rw [hdrop]
    refine ⟨rfl, ?_, fun time => ?_⟩
    · rw [if_neg fun hlong => hfew (h.length_usedTimes.mpr hlong), hperiods]
    · split
      case isTrue => rfl
      case isFalse hout =>
        rw [hperiods] at hout
        exact Option.not_isSome_iff_eq_none.mp fun hsome => hout (h.keyed time hsome)
  · have hlater : s.dropPeriod.usedTimes.elements = later := by
      rw [hdrop]
      exact OrderedSet.elements_erase_head helements
    have hne : oldest ∉ later ++ [s.lastUsedTime] := by
      have hpairwise : (lastPeriods opened).Pairwise fun a b => a.toNat < b.toNat :=
        h.spaced.pairwise.sublist (List.drop_sublist ..)
      rw [← hperiods, helements, List.cons_append] at hpairwise
      intro hin
      exact absurd ((List.pairwise_cons.mp hpairwise).1 oldest hin) (by omega)
    refine ⟨by rw [hdrop], ?_, fun time => ?_⟩
    · rw [hlater, if_pos (h.length_usedTimes.mp hfull), ← hperiods, helements]
      rfl
    · rw [hlater, hdrop]
      change (s.recentTransactions.erase oldest).lookup time = _
      by_cases hold : time = oldest
      · subst hold
        rw [OrderedMap.lookup_erase_self, if_neg hne]
      · rw [OrderedMap.lookup_erase_of_ne hold]
        split
        case isTrue => rfl
        case isFalse hout =>
          refine Option.not_isSome_iff_eq_none.mp fun hsome => hout ?_
          have hkey := h.keyed time hsome
          rw [← hperiods, helements, List.cons_append] at hkey
          exact (List.mem_cons.mp hkey).resolve_left hold

theorem usedTimePeriod_lt_sub {last time : BitVec 64} (hle : last.toNat ≤ time.toNat) :
    usedTimePeriod < time - last ↔ last.toNat + usedTimePeriod.toNat < time.toNat := by
  have hsub : (time - last).toNat = time.toNat - last.toNat := by
    have hlt := time.isLt
    rw [BitVec.toNat_sub]
    omega
  rw [BitVec.lt_def, hsub]
  omega

/-- What a call finds when it puts its transaction. -/
structure Opened (opened : List (BitVec 64)) (time : BitVec 64) (s s' : CRecentTransactions) :
    Prop where
  windowed : s'.Windowed (nextOpened opened time)
  begun : s'.lastUsedTime.toNat ≤ time.toNat
  recent : time.toNat ≤ s'.lastUsedTime.toNat + usedTimePeriod.toNat
  lookup : ∀ period ∈ opened, period ∈ lastPeriods (nextOpened opened time) →
    period ∈ lastPeriods opened ∧
      s'.recentTransactions.lookup period = s.recentTransactions.lookup period

theorem Windowed.nextOpened_eq (h : s.Windowed opened) (hle : s.lastUsedTime.toNat ≤ time.toNat) :
    nextOpened opened time =
      if s.lastUsedTime.toNat + usedTimePeriod.toNat < time.toNat then opened ++ [time]
      else opened := by
  rw [nextOpened, h.getLast]
  exact if_congr (usedTimePeriod_lt_sub hle) rfl rfl

theorem Windowed.getLast? (h : s.Windowed opened) : opened.getLast? = some s.lastUsedTime := by
  have hlast := h.getLast
  rw [List.getLastD_eq_getLast?] at hlast
  obtain ⟨last, hsome⟩ := Option.isSome_iff_exists.mp (List.getLast?_isSome.mpr h.nonempty)
  rw [hsome, Option.getD_some] at hlast
  rw [hsome, hlast]

theorem Windowed.le_last (h : s.Windowed opened) {period : BitVec 64} (hperiod : period ∈ opened) :
    period.toNat ≤ s.lastUsedTime.toNat := by
  obtain ⟨i, hi⟩ := List.mem_iff_getElem?.mp hperiod
  obtain ⟨hlt, -⟩ := List.getElem?_eq_some_iff.mp hi
  have hlast := h.getLast?
  rw [List.getLast?_eq_getElem?] at hlast
  have hfar := h.spaced.add_le (d := opened.length - 1 - i) hi (by rw [← hlast]; congr 1; omega)
  omega

theorem Windowed.begin (h : s.Windowed opened)
    (hnew : s.lastUsedTime.toNat + usedTimePeriod.toNat < time.toNat) :
    Windowed (opened ++ [time]) { s.dropPeriod with
      usedTimes := s.dropPeriod.usedTimes.insert s.dropPeriod.lastUsedTime
      lastUsedTime := time } := by
  obtain ⟨hlast, hwindow, hlookup⟩ := h.dropPeriod
  have hkept : ∀ period ∈ s.dropPeriod.usedTimes.elements ++ [s.lastUsedTime],
      period ∈ lastPeriods opened := by
    rw [hwindow]
    split
    · exact fun period => List.mem_of_mem_tail
    · exact fun period => id
  have hinserted : OrderedSet.insertElement s.lastUsedTime s.dropPeriod.usedTimes.elements =
      s.dropPeriod.usedTimes.elements ++ [s.lastUsedTime] := by
    refine OrderedSet.insertElement_of_forall_lt fun a ha => ?_
    have hpairwise : (lastPeriods opened).Pairwise fun a b => a.toNat < b.toNat :=
      h.spaced.pairwise.sublist (List.drop_sublist ..)
    have hsuffix : (s.dropPeriod.usedTimes.elements ++ [s.lastUsedTime]).Pairwise
        fun a b => a.toNat < b.toNat := by
      rw [hwindow]
      split
      · exact hpairwise.sublist (List.tail_sublist _)
      · exact hpairwise
    exact (List.pairwise_append.mp hsuffix).2.2 a ha _ (List.mem_singleton_self _)
  refine ⟨by simp, ?_, ?_, fun period hsome => ?_⟩
  · refine List.isChain_append.mpr ⟨h.spaced, .singleton _, fun a ha b hb => ?_⟩
    rw [h.getLast?] at ha
    cases ha
    cases hb
    exact hnew
  · change OrderedSet.insertElement s.dropPeriod.lastUsedTime _ ++ [time] = _
    rw [hlast, hinserted, hwindow, lastPeriods_append]
  · rw [lastPeriods_append, ← hwindow]
    change (s.dropPeriod.recentTransactions.lookup period).isSome at hsome
    rw [hlookup] at hsome
    split at hsome
    case isTrue hin => exact List.mem_append_left _ hin
    case isFalse => cases hsome

theorem Windowed.openPeriod (h : s.Windowed opened) (hle : s.lastUsedTime.toNat ≤ time.toNat) :
    Opened opened time s (s.openPeriod time) := by
  have hnext := h.nextOpened_eq hle
  unfold CRecentTransactions.openPeriod
  split
  case isFalse hstays =>
    rw [usedTimePeriod_lt_sub hle] at hstays
    rw [if_neg hstays] at hnext
    refine ⟨by rwa [hnext], hle, by omega, fun period _ hin => ?_⟩
    rw [hnext] at hin
    exact ⟨hin, rfl⟩
  case isTrue hnew =>
    rw [usedTimePeriod_lt_sub hle] at hnew
    rw [if_pos hnew] at hnext
    obtain ⟨-, hwindow, hlookup⟩ := h.dropPeriod
    refine ⟨by rw [hnext]; exact h.begin hnew, le_rfl, Nat.le_add_right _ _, fun period hold hin => ?_⟩
    rw [hnext, lastPeriods_append, ← hwindow] at hin
    have hkept : period ∈ s.dropPeriod.usedTimes.elements ++ [s.lastUsedTime] := by
      refine (List.mem_append.mp hin).resolve_right fun hlast => ?_
      have hperiod := h.le_last hold
      rw [List.mem_singleton.mp hlast] at hperiod
      omega
    refine ⟨?_, (hlookup period).trans (if_pos hkept)⟩
    rw [hwindow] at hkept
    split at hkept
    · exact List.mem_of_mem_tail hkept
    · exact hkept

variable {H : HashFunctions} {tx : CTransaction} {hash : Uint256}

theorem Retained.setTransactionToTemporary {put : BitVec 64} (hretained : s.Retained opened hash put)
    (hopened : Opened opened time s (s.openPeriod time)) :
    (s.setTransactionToTemporary H time tx).Retained (nextOpened opened time) hash put := by
  obtain ⟨period, hperiod, hbegun, hrecent, hkept⟩ := hretained
  have hstill : period ∈ nextOpened opened time := by
    unfold nextOpened
    split
    · exact List.mem_append_left _ hperiod
    · exact hperiod
  refine ⟨period, hstill, hbegun, hrecent, fun hin => ?_⟩
  obtain ⟨hold, hsame⟩ := hopened.lookup period hperiod hin
  obtain ⟨bucket, hbucket, hfound⟩ := hkept hold
  rw [← hsame] at hbucket
  unfold CRecentTransactions.setTransactionToTemporary
  by_cases hcurrent : period = (s.openPeriod time).lastUsedTime
  · subst hcurrent
    refine ⟨_, OrderedMap.lookup_assign_self .., ?_⟩
    rw [hbucket, Option.getD_some]
    exact OrderedMap.isSome_lookup_insertNew.mpr (.inr hfound)
  · exact ⟨bucket, (OrderedMap.lookup_assign_of_ne hcurrent _).trans hbucket, hfound⟩

theorem retained_set (hopened : Opened opened time s (s.openPeriod time)) :
    (s.setTransactionToTemporary H time tx).Retained (nextOpened opened time) (tx.getHash H)
      time := by
  have hlast := List.mem_of_getLast? hopened.windowed.getLast?
  refine ⟨(s.openPeriod time).lastUsedTime, hlast, hopened.begun, hopened.recent, fun _ => ?_⟩
  exact ⟨_, OrderedMap.lookup_assign_self .., OrderedMap.isSome_lookup_insertNew.mpr (.inl rfl)⟩

theorem Windowed.setTransactionToTemporary (hopened : Opened opened time s (s.openPeriod time)) :
    (s.setTransactionToTemporary H time tx).Windowed (nextOpened opened time) := by
  obtain ⟨hnonempty, hspaced, hwindow, hkeyed⟩ := hopened.windowed
  refine ⟨hnonempty, hspaced, hwindow, fun period hsome => ?_⟩
  obtain rfl | hold := OrderedMap.isSome_lookup_assign.mp hsome
  · rw [← hwindow]
    exact List.mem_append_right _ (List.mem_singleton_self _)
  · exact hkeyed period hold

def run (H : HashFunctions) (calls : List (BitVec 64 × CTransaction)) : CRecentTransactions :=
  calls.foldl (fun s call => s.setTransactionToTemporary H call.1 call.2) empty

theorem run_concat (calls : List (BitVec 64 × CTransaction)) (call : BitVec 64 × CTransaction) :
    run H (calls ++ [call]) = (run H calls).setTransactionToTemporary H call.1 call.2 :=
  List.foldl_append

theorem openings_concat (times : List (BitVec 64)) (time : BitVec 64) :
    openings (times ++ [time]) = nextOpened (openings times) time := List.foldl_append

/-- What the calls up to now have led to. -/
structure Kept (H : HashFunctions) (calls : List (BitVec 64 × CTransaction))
    (s : CRecentTransactions) : Prop where
  windowed : s.Windowed (openings (calls.map Prod.fst))
  clock : s.lastUsedTime = 0 ∨ ∃ call ∈ calls, s.lastUsedTime = call.1
  retained : ∀ call ∈ calls,
    s.Retained (openings (calls.map Prod.fst)) (call.2.getHash H) call.1
  byHash : s.KeptByHash H

theorem Kept.le {calls : List (BitVec 64 × CTransaction)} (h : Kept H calls s)
    (hle : ∀ call ∈ calls, call.1 ≤ time) : s.lastUsedTime.toNat ≤ time.toNat := by
  obtain hzero | ⟨call, hcall, hlast⟩ := h.clock
  · rw [hzero]
    exact Nat.zero_le _
  · rw [hlast]
    exact BitVec.le_def.mp (hle call hcall)

theorem Kept.step {calls : List (BitVec 64 × CTransaction)} (h : Kept H calls s)
    (call : BitVec 64 × CTransaction) (hle : ∀ earlier ∈ calls, earlier.1 ≤ call.1) :
    Kept H (calls ++ [call]) (s.setTransactionToTemporary H call.1 call.2) := by
  have hopened := h.windowed.openPeriod (h.le hle)
  have hperiods : openings ((calls ++ [call]).map Prod.fst) =
      nextOpened (openings (calls.map Prod.fst)) call.1 := by
    rw [List.map_append]
    exact openings_concat _ _
  refine ⟨?_, ?_, fun earlier hearlier => ?_, h.byHash.setTransactionToTemporary _ _⟩
  · rw [hperiods]
    exact Windowed.setTransactionToTemporary hopened
  · have hlast : (s.openPeriod call.1).lastUsedTime = s.lastUsedTime ∨
        (s.openPeriod call.1).lastUsedTime = call.1 := by
      unfold CRecentTransactions.openPeriod
      split
      · exact .inr rfl
      · exact .inl rfl
    obtain hsame | hnew := hlast
    · refine h.clock.imp (fun hzero => hsame.trans hzero) ?_
      rintro ⟨earlier, hin, heq⟩
      exact ⟨earlier, List.mem_append_left _ hin, hsame.trans heq⟩
    · exact .inr ⟨call, List.mem_append_right _ (List.mem_singleton_self _), hnew⟩
  · rw [hperiods]
    obtain hin | hnow := List.mem_append.mp hearlier
    · exact (h.retained earlier hin).setTransactionToTemporary hopened
    · rw [List.mem_singleton.mp hnow]
      exact retained_set hopened

theorem kept_run (H : HashFunctions) (calls : List (BitVec 64 × CTransaction))
    (hclock : (calls.map Prod.fst).Pairwise (· ≤ ·)) : Kept H calls (run H calls) := by
  induction calls using List.reverseRecOn with
  | nil =>
    refine ⟨⟨List.cons_ne_nil _ _, .singleton _, rfl, ?_⟩, .inl rfl, nofun, keptByHash_empty⟩
    intro time hsome
    cases hsome
  | append_singleton calls call ih =>
    rw [List.map_append, List.pairwise_append] at hclock
    rw [run_concat]
    refine (ih hclock.1).step call fun earlier hearlier => ?_
    exact hclock.2.2 _ (List.mem_map_of_mem hearlier) _ (List.mem_singleton_self _)

theorem Kept.found {calls : List (BitVec 64 × CTransaction)} (h : Kept H calls s)
    {call : BitVec 64 × CTransaction} (hcall : call ∈ calls) {now : BitVec 64}
    (hnow : ∀ earlier ∈ calls, earlier.1 ≤ now)
    (hrecent : now.toNat ≤ call.1.toNat + periodsCount * usedTimePeriod.toNat) :
    ∃ tx, s.getTransaction (call.2.getHash H) = some tx ∧ tx.getHash H = call.2.getHash H := by
  obtain ⟨period, hperiod, -, hput, hkept⟩ := h.retained call hcall
  have hin : period ∈ lastPeriods (openings (calls.map Prod.fst)) := by
    by_contra hgone
    have hfar := h.windowed.spaced.gone hperiod hgone h.windowed.getLast?
    have hlast := h.le hnow
    have hcount : periodsCount = 4 := rfl
    rw [hcount] at hfar hrecent
    omega
  obtain ⟨bucket, hbucket, hfound⟩ := hkept hin
  obtain ⟨tx, htx⟩ := Option.isSome_iff_exists.mp
    (StatusTracker.getTransaction_isSome_iff.mpr ⟨period, bucket, hbucket, hfound⟩)
  exact ⟨tx, htx, h.byHash.getTransaction htx⟩

theorem Kept.length_le {calls : List (BitVec 64 × CTransaction)} (h : Kept H calls s) :
    s.recentTransactions.entries.length ≤ periodsCount + 1 := by
  have hnodup : (s.recentTransactions.entries.map Prod.fst).Nodup :=
    (List.pairwise_map.mpr s.recentTransactions.sorted).imp ne_of_lt
  have hsub : s.recentTransactions.entries.map Prod.fst ⊆
      lastPeriods (openings (calls.map Prod.fst)) := by
    intro time htime
    obtain ⟨entry, hentry, rfl⟩ := List.mem_map.mp htime
    exact h.windowed.keyed _ (Option.isSome_of_mem (OrderedMap.mem_entries.mp hentry))
  have hle := (hnodup.subperm hsub).length_le
  rw [List.length_map] at hle
  exact hle.trans (length_lastPeriods_le _)

/-- With a clock that does not go back, what was put within four periods is found, and only the
buckets of the last five periods are kept, whose keys are the last used time and the used ones. -/
theorem recent_retrievable (H : HashFunctions) (calls : List (BitVec 64 × CTransaction))
    (hclock : (calls.map Prod.fst).Pairwise (· ≤ ·)) :
    (∀ call ∈ calls, ∀ now : BitVec 64, (∀ earlier ∈ calls, earlier.1 ≤ now) →
        now.toNat ≤ call.1.toNat + periodsCount * usedTimePeriod.toNat →
        ∃ tx, (run H calls).getTransaction (call.2.getHash H) = some tx ∧
          tx.getHash H = call.2.getHash H) ∧
      (run H calls).recentTransactions.entries.length ≤ periodsCount + 1 ∧
      ∀ time, ((run H calls).recentTransactions.lookup time).isSome →
        (time = (run H calls).lastUsedTime ∨ time ∈ (run H calls).usedTimes) ∧
          time ∈ lastPeriods (openings (calls.map Prod.fst)) := by
  have hkept := kept_run H calls hclock
  refine ⟨fun call hcall now hnow hrecent => hkept.found hcall hnow hrecent, hkept.length_le,
    fun time hsome => ?_⟩
  have hin := hkept.windowed.keyed time hsome
  refine ⟨?_, hin⟩
  rw [← hkept.windowed.window] at hin
  obtain hused | hlast := List.mem_append.mp hin
  · exact .inr hused
  · exact .inl (List.mem_singleton.mp hlast)

namespace LongPause

def calls : List (BitVec 64 × CTransaction) :=
  [(100, ⟨1, [], [], 0, 0⟩), (100, ⟨2, [], [], 0, 0⟩), (1000, ⟨3, [], [], 0, 0⟩),
    (5000, ⟨4, [], [], 0, 0⟩)]

/-- Each transaction has its version as its hash. -/
def hashes : HashFunctions := ⟨fun bytes => BitVec.ofNat 256 (bytes.headD 0).toNat, fun _ => 0⟩

theorem last_found : ∃ tx, (run hashes calls).getTransaction 4 = some tx ∧ tx.getHash hashes = 4 :=
  (recent_retrievable hashes calls (by decide)).1 (5000, ⟨4, [], [], 0, 0⟩) (by decide) 5960
    (by decide) (by decide)

end LongPause

end CRecentTransactions

end Dims

import Dims.Key
import Dims.OrderedMap
import Dims.CliqueGroups
import Mathlib.Data.Finset.Card
import Mathlib.Data.List.Sort
import Mathlib.Logic.Equiv.Basic

/-!
# The groups of monitors that a client finds

Each monitor reports its allies, and the client goes through all pairs of reports, in the order
of the keys. A pair is admitted if the second monitor lists the first one; whether the first
one lists the second is not looked at.
-/

namespace Dims
open CliqueGroups

abbrev MonitorReport := CPubKey × List CPubKey

/-- `m_monitorInputData` -/
abbrev MonitorInputData := OrderedMap CPubKey (List CPubKey)

/-- The first report of a monitor is kept, with the monitor itself put at the end. -/
def MonitorInputData.insertReport (data : MonitorInputData) (report : MonitorReport) :
    MonitorInputData :=
  data.insertNew report.1 (report.2 ++ [report.1])

def MonitorInputData.ofReports (reports : List MonitorReport) : MonitorInputData :=
  reports.foldl insertReport .empty

def validMembers (monitorData monitorReferenceData : MonitorReport) (output : Finset CPubKey) :
    Finset CPubKey :=
  output.filter fun outMonitor => outMonitor = monitorData.1 ∨ outMonitor = monitorReferenceData.1 ∨
    outMonitor ∈ monitorData.2 ∧ outMonitor ∈ monitorReferenceData.2

/-- Both monitors are admitted. A group that they join takes the place of the old one. -/
def admitBoth (monitorData monitorReferenceData : MonitorReport)
    (m_monitorOutput : Finset (Finset CPubKey)) : Finset (Finset CPubKey) :=
  if m_monitorOutput = ∅ then {{monitorData.1}}
  else
    let newOutputGroup := (m_monitorOutput.filter fun output =>
      (validMembers monitorData monitorReferenceData output).card ≠ output.card).image
        (validMembers monitorData monitorReferenceData)
    let changeGroup := m_monitorOutput.filter fun output =>
      (validMembers monitorData monitorReferenceData output).card = output.card
    (m_monitorOutput ∪ newOutputGroup) \ changeGroup ∪
      changeGroup.image (· ∪ {monitorData.1, monitorReferenceData.1})

/-- What `m_monitorOutput` is in the end. -/
def analyseAllData (m_monitorInputData : MonitorInputData) : Finset (Finset CPubKey) :=
  m_monitorInputData.entries.foldl (fun m_monitorOutput monitorData =>
    m_monitorInputData.entries.foldl (fun m_monitorOutput monitorReferenceData =>
      if monitorData.1 ∈ monitorReferenceData.2 ∧ monitorData.1 ∈ monitorData.2 then
        admitBoth monitorData monitorReferenceData m_monitorOutput
      else m_monitorOutput) m_monitorOutput) ∅

/-- The report of a monitor is kept, and the other one is in it. -/
def Lists (data : MonitorInputData) (monitor other : CPubKey) : Prop :=
  other ∈ (data.lookup monitor).getD []

instance (data : MonitorInputData) : DecidableRel (Lists data) := fun _ _ =>
  inferInstanceAs (Decidable (_ ∈ _))

/-- The groups are cliques of monitors, and each pair that lists each other is in one. -/
structure Recognised (data : MonitorInputData) (groups : Finset (Finset CPubKey)) : Prop where
  monitors : ∀ group ∈ groups, group ⊆ data.keys
  cliques : ∀ group ∈ groups, ∀ a ∈ group, ∀ b ∈ group, a ≠ b → Lists data a b
  complete : ∀ a b, a ≠ b → Lists data a b → Lists data b a → ∃ group ∈ groups, a ∈ group ∧ b ∈ group

/-- A monitor that has reported lists those monitors that list it and have reported. -/
def Mutual (data : MonitorInputData) : Prop :=
  ∀ a ∈ data.keys, ∀ b ∈ data.keys, Lists data a b → Lists data b a

section Reports

variable {data : MonitorInputData} {reports : List MonitorReport} {a b : CPubKey}

theorem mem_entries_keys :
    a ∈ data.entries.map Prod.fst ↔ a ∈ data.keys := by
  rw [OrderedMap.keys, List.mem_toFinset]

theorem lookup_foldl_insertReport (reports : List MonitorReport) (data : MonitorInputData)
    (a : CPubKey) : (reports.foldl MonitorInputData.insertReport data).lookup a =
      (data.lookup a).or ((reports.find? (·.1 = a)).map fun report => report.2 ++ [report.1]) := by
  induction reports generalizing data with
  | nil => simp
  | cons report reports ih =>
    rw [List.foldl_cons, ih, List.find?_cons, MonitorInputData.insertReport]
    by_cases heq : report.1 = a
    · subst heq
      rw [OrderedMap.lookup_insertNew_self]
      cases data.lookup report.1 <;> simp
    · rw [OrderedMap.lookup_insertNew_of_ne (Ne.symm heq)]
      simp [heq]

theorem lookup_ofReports (reports : List MonitorReport) (a : CPubKey) :
    (MonitorInputData.ofReports reports).lookup a =
      (reports.find? (·.1 = a)).map fun report => report.2 ++ [report.1] := by
  rw [MonitorInputData.ofReports, lookup_foldl_insertReport, OrderedMap.lookup_empty, Option.none_or]

theorem lists_self (ha : a ∈ (MonitorInputData.ofReports reports).keys) :
    Lists (MonitorInputData.ofReports reports) a a := by
  obtain ⟨list, hlist⟩ := OrderedMap.mem_keys.mp ha
  rw [Lists, hlist]
  rw [lookup_ofReports] at hlist
  obtain ⟨report, hreport, rfl⟩ := Option.map_eq_some_iff.mp hlist
  have hkey : report.1 = a := by simpa using List.find?_some hreport
  simp [hkey]

theorem mem_keys_of_lists (h : Lists data a b) : a ∈ data.keys := by
  rw [OrderedMap.mem_keys]
  cases hlookup : data.lookup a with
  | some list => exact ⟨list, rfl⟩
  | none =>
    rw [Lists, hlookup] at h
    exact absurd h List.not_mem_nil

end Reports

section Groups

variable {data : MonitorInputData} {reports : List MonitorReport}

theorem lists_of_mem_entries {monitorData : MonitorReport} (h : monitorData ∈ data.entries)
    (other : CPubKey) : Lists data monitorData.1 other ↔ other ∈ monitorData.2 := by
  have hlookup : data.lookup monitorData.1 = some monitorData.2 := OrderedMap.mem_entries.mp h
  rw [Lists, hlookup]
  rfl

theorem admitBoth_eq {monitorData monitorReferenceData : MonitorReport}
    (h : monitorData ∈ data.entries) (h' : monitorReferenceData ∈ data.entries)
    (groups : Finset (Finset CPubKey)) : admitBoth monitorData monitorReferenceData groups =
      joinGroups (Lists data) monitorData.1 monitorReferenceData.1 groups := by
  have hvalid : validMembers monitorData monitorReferenceData =
      valid (Lists data) monitorData.1 monitorReferenceData.1 := by
    funext output
    exact Finset.filter_congr fun a _ => by rw [lists_of_mem_entries h, lists_of_mem_entries h']
  have hcompatible : ∀ output : Finset CPubKey,
      (valid (Lists data) monitorData.1 monitorReferenceData.1 output).card = output.card ↔
        Compatible (Lists data) monitorData.1 monitorReferenceData.1 output := fun output =>
    ⟨fun hcard => Finset.eq_of_subset_of_card_le valid_subset hcard.ge, congrArg Finset.card⟩
  simp only [admitBoth, joinGroups, hvalid, ne_eq, hcompatible]

theorem analyseAllData_eq (data : MonitorInputData)
    (hself : ∀ monitor ∈ data.keys, Lists data monitor monitor) :
    analyseAllData data = groups (Lists data) (data.entries.map Prod.fst) := by
  rw [analyseAllData, groups, List.foldl_map]
  refine List.foldl_ext _ _ _ fun outer monitorData hdata => ?_
  rw [row, List.foldl_map]
  refine List.foldl_ext _ _ _ fun inner monitorReferenceData hreference => ?_
  have hkey : monitorData.1 ∈ data.keys := mem_entries_keys.mp (List.mem_map_of_mem hdata)
  have hown : monitorData.1 ∈ monitorData.2 := (lists_of_mem_entries hdata _).mp (hself _ hkey)
  simp only [step, hown, and_true, lists_of_mem_entries hreference,
    admitBoth_eq hdata hreference]

theorem recognised_of_mutual (h : Mutual (MonitorInputData.ofReports reports)) :
    Recognised (MonitorInputData.ofReports reports)
      (analyseAllData (MonitorInputData.ofReports reports)) := by
  have hrefl : ∀ a ∈ (MonitorInputData.ofReports reports).entries.map Prod.fst,
      Lists (MonitorInputData.ofReports reports) a a := fun a ha => lists_self (mem_entries_keys.mp ha)
  have hsymm : ∀ a ∈ (MonitorInputData.ofReports reports).entries.map Prod.fst,
      ∀ b ∈ (MonitorInputData.ofReports reports).entries.map Prod.fst,
        Lists (MonitorInputData.ofReports reports) a b →
          Lists (MonitorInputData.ofReports reports) b a := fun a ha b hb =>
    h a (mem_entries_keys.mp ha) b (mem_entries_keys.mp hb)
  rw [analyseAllData_eq _ fun _ => lists_self]
  have hcliques := cliques_groups hrefl hsymm
  refine ⟨fun group hgroup a ha => mem_entries_keys.mp (hcliques.members group hgroup a ha),
    fun group hgroup a ha b hb _ => hcliques.related group hgroup a ha b hb, fun a b hne hab hba => ?_⟩
  have ha := mem_entries_keys.mpr (mem_keys_of_lists hab)
  have hb := mem_entries_keys.mpr (mem_keys_of_lists hba)
  obtain ⟨group, hgroup, hsub⟩ := covers_groups hrefl hsymm ha hb hne hab
  exact ⟨group, hgroup, hsub (by simp), hsub (by simp)⟩

end Groups

section Exchange

variable {reports : List MonitorReport} {e : Equiv.Perm CPubKey}

/-- The same report when the monitors have other keys. -/
def exchange (e : Equiv.Perm CPubKey) (report : MonitorReport) : MonitorReport :=
  (e report.1, report.2.map e)

theorem lookup_exchange (e : Equiv.Perm CPubKey) (reports : List MonitorReport) (a : CPubKey) :
    (MonitorInputData.ofReports (reports.map (exchange e))).lookup (e a) =
      ((MonitorInputData.ofReports reports).lookup a).map (List.map e) := by
  have hkey : ((fun report : MonitorReport => decide (report.1 = e a)) ∘ exchange e) =
      fun report => decide (report.1 = a) := by
    funext report
    simp [exchange]
  rw [lookup_ofReports, lookup_ofReports, List.find?_map, hkey, Option.map_map, Option.map_map]
  refine congrArg (fun f => Option.map f _) (funext fun report => ?_)
  simp [exchange]

theorem lists_exchange (a b : CPubKey) :
    Lists (MonitorInputData.ofReports (reports.map (exchange e))) (e a) (e b) ↔
      Lists (MonitorInputData.ofReports reports) a b := by
  rw [Lists, Lists, lookup_exchange]
  cases (MonitorInputData.ofReports reports).lookup a with
  | none => simp
  | some list => simp

theorem mem_keys_exchange (a : CPubKey) :
    e a ∈ (MonitorInputData.ofReports (reports.map (exchange e))).keys ↔
      a ∈ (MonitorInputData.ofReports reports).keys := by
  simp only [OrderedMap.mem_keys, lookup_exchange, Option.map_eq_some_iff]
  constructor
  · rintro ⟨-, list, hlist, -⟩
    exact ⟨list, hlist⟩
  · rintro ⟨list, hlist⟩
    exact ⟨_, list, hlist, rfl⟩

theorem Mutual.exchange (h : Mutual (MonitorInputData.ofReports reports)) (e : Equiv.Perm CPubKey) :
    Mutual (MonitorInputData.ofReports (reports.map (exchange e))) := by
  intro a ha b hb hlists
  rw [← e.apply_symm_apply a] at ha hlists ⊢
  rw [← e.apply_symm_apply b] at hb hlists ⊢
  rw [lists_exchange] at hlists ⊢
  exact h _ ((mem_keys_exchange _).mp ha) _ ((mem_keys_exchange _).mp hb) hlists

theorem exists_perm_pair {κ : Type*} [DecidableEq κ] {key key' first second : κ} {after : List κ}
    (hkeys : key ≠ key') (hne : first ≠ second) (hfirst : first ∈ key :: key' :: after)
    (hsecond : second ∈ key :: key' :: after) :
    ∃ e : Equiv.Perm κ, e first = key ∧ e second = key' ∧
      ∀ c, e c ∈ key :: key' :: after ↔ c ∈ key :: key' :: after := by
  have hkey : key ∈ key :: key' :: after := List.mem_cons_self
  have hkey' : key' ∈ key :: key' :: after := List.mem_cons_of_mem _ List.mem_cons_self
  have hpreserves : ∀ a b c : κ, a ∈ key :: key' :: after → b ∈ key :: key' :: after →
      (Equiv.swap a b c ∈ key :: key' :: after ↔ c ∈ key :: key' :: after) := by
    intro a b c ha hb
    rw [Equiv.swap_apply_def]
    split_ifs with hca hcb
    · exact iff_of_true hb (hca ▸ ha)
    · exact iff_of_true ha (hcb ▸ hb)
    · exact Iff.rfl
  have hleft : Equiv.swap first key first = key := Equiv.swap_apply_left first key
  have hother : Equiv.swap first key second ≠ key := fun heq =>
    hne ((Equiv.swap first key).injective (hleft.trans heq.symm))
  have hin : Equiv.swap first key second ∈ key :: key' :: after :=
    (hpreserves _ _ _ hfirst hkey).mpr hsecond
  refine ⟨(Equiv.swap first key).trans (Equiv.swap (Equiv.swap first key second) key'), ?_, ?_,
    fun c => ?_⟩
  · rw [Equiv.trans_apply, hleft]
    exact Equiv.swap_apply_of_ne_of_ne hother.symm hkeys
  · rw [Equiv.trans_apply, Equiv.swap_apply_left]
  · rw [Equiv.trans_apply, hpreserves _ _ _ hin hkey', hpreserves _ _ _ hfirst hkey]

/-- The keys of the monitors can be exchanged so that two of them have the first two keys. -/
theorem exists_exchange {first second : CPubKey}
    (hfirst : first ∈ (MonitorInputData.ofReports reports).keys)
    (hsecond : second ∈ (MonitorInputData.ofReports reports).keys) (hne : first ≠ second) :
    ∃ (e : Equiv.Perm CPubKey) (after : List CPubKey),
      (MonitorInputData.ofReports (reports.map (exchange e))).entries.map Prod.fst =
        e first :: e second :: after := by
  have hsorted : ∀ data : MonitorInputData, (data.entries.map Prod.fst).Pairwise (· < ·) :=
    fun data => List.pairwise_map.mpr data.sorted
  have hsorted' := hsorted (MonitorInputData.ofReports reports)
  rw [← mem_entries_keys] at hfirst hsecond
  match hkeys : (MonitorInputData.ofReports reports).entries.map Prod.fst with
  | [] =>
    rw [hkeys] at hfirst
    exact absurd hfirst List.not_mem_nil
  | [key] =>
    rw [hkeys] at hfirst hsecond
    rw [List.mem_singleton.mp hfirst, List.mem_singleton.mp hsecond] at hne
    exact absurd rfl hne
  | key :: key' :: after =>
    rw [hkeys] at hfirst hsecond hsorted'
    have hkeys_ne : key ≠ key' := ((List.pairwise_cons.mp hsorted').1 key' List.mem_cons_self).ne
    obtain ⟨e, hefirst, hesecond, hpreserves⟩ := exists_perm_pair hkeys_ne hne hfirst hsecond
    refine ⟨e, after, ?_⟩
    rw [hefirst, hesecond]
    -- both lists are sorted and have the same members
    have hexchanged := hsorted (MonitorInputData.ofReports (reports.map (exchange e)))
    have hsame : ∀ a, a ∈ (MonitorInputData.ofReports (reports.map (exchange e))).entries.map Prod.fst ↔
        a ∈ key :: key' :: after := by
      intro a
      rw [mem_entries_keys, ← e.apply_symm_apply a, mem_keys_exchange, ← mem_entries_keys, hkeys,
        hpreserves]
    have hperm := (List.perm_ext_iff_of_nodup (hexchanged.imp fun h => h.ne)
      (hsorted'.imp fun h => h.ne)).mpr hsame
    exact hperm.eq_of_pairwise (fun a b _ _ h h' => absurd h (not_lt.mpr h'.le)) hexchanged hsorted'

/-- The groups are the right ones, whichever keys the monitors have, if and only if the lists are
mutual. -/
theorem groups_recognised_iff (reports : List MonitorReport) :
    (∀ e : Equiv.Perm CPubKey, Recognised (MonitorInputData.ofReports (reports.map (exchange e)))
      (analyseAllData (MonitorInputData.ofReports (reports.map (exchange e))))) ↔
      Mutual (MonitorInputData.ofReports reports) := by
  constructor
  · intro h a ha b hb hlists
    by_contra hnot
    have hne : b ≠ a := by
      rintro rfl
      exact hnot hlists
    obtain ⟨e, after, hkeys⟩ := exists_exchange hb ha hne
    have hrecognised := h e
    rw [analyseAllData_eq _ fun _ => lists_self, hkeys] at hrecognised
    have hself : Lists (MonitorInputData.ofReports (reports.map (exchange e))) (e b) (e b) :=
      lists_self ((mem_keys_exchange b).mpr hb)
    have hcovers : Covers (groups (Lists (MonitorInputData.ofReports (reports.map (exchange e))))
        (e b :: e a :: after)) {e b, e a} :=
      covers_of_first _ hself ((lists_exchange a b).mpr hlists)
    obtain ⟨group, hgroup, hsub⟩ := hcovers
    have hback := hrecognised.cliques group hgroup (e b) (hsub (by simp)) (e a) (hsub (by simp))
      fun heq => hne (e.injective heq)
    exact hnot ((lists_exchange b a).mp hback)
  · exact fun h e => recognised_of_mutual (h.exchange e)

end Exchange

namespace OneSidedAlly

def first : CPubKey := CPubKey.ofBytes (2 :: List.replicate 32 1)

def second : CPubKey := CPubKey.ofBytes (3 :: List.replicate 32 1)

theorem group_not_clique :
    ¬∀ reports, Recognised (MonitorInputData.ofReports reports)
      (analyseAllData (MonitorInputData.ofReports reports)) := by
  intro h
  have hrecognised := h [(first, []), (second, [first])]
  have hgroup : ({first, second} : Finset CPubKey) ∈
      analyseAllData (MonitorInputData.ofReports [(first, []), (second, [first])]) := by decide
  have hlists := hrecognised.cliques _ hgroup first (by simp) second (by simp) (by decide)
  exact absurd hlists (by decide)

end OneSidedAlly

end Dims

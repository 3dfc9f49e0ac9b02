import Mathlib.Data.List.Nodup
import Mathlib.Data.List.Range
import Profiler.Proofs.Ledger.Refinement
import Profiler.Proofs.Timer.Preorder

/-!
# Reports show the ledger

The tree that a timer copies into a report is the tree of the paths of its ledger: below each path
come the names that lead on from it, in their order (`Timer.Represents.childNames_eq`). There are as
many entries as nodes (`Timer.Represents.size_eq`), and the reports are the same
(`Timer.Represents.copy_eq`).
-/

namespace Profiler

/-! ### Names below a path -/

namespace Ledger

theorem mem_childNames_iff (ledger : Ledger) (path : List String) (name : String) :
    name ∈ ledger.childNames path ↔ path ++ [name] ∈ ledger.entries.keys := by
  rw [childNames, List.mem_mergeSort, List.mem_filterMap]
  constructor
  · rintro ⟨key, hkey, hsome⟩
    split_ifs at hsome with hpath
    obtain ⟨init, rfl⟩ := List.getLast?_eq_some_iff.mp hsome
    rw [List.dropLast_concat] at hpath
    rwa [← hpath]
  · intro hkey
    exact ⟨path ++ [name], hkey, by rw [if_pos List.dropLast_concat, List.getLast?_concat]⟩

theorem nodup_childNames (ledger : Ledger) (path : List String) :
    (ledger.childNames path).Nodup := by
  rw [childNames, List.nodup_mergeSort]
  refine List.Nodup.filterMap ?_ ledger.entries.nodup
  intro key key' name hname hname'
  rw [Option.mem_def] at hname hname'
  split_ifs at hname hname' with hpath hpath'
  obtain ⟨init, rfl⟩ := List.getLast?_eq_some_iff.mp hname
  obtain ⟨init', rfl⟩ := List.getLast?_eq_some_iff.mp hname'
  rw [List.dropLast_concat] at hpath hpath'
  rw [hpath, hpath']

theorem pairwise_childNames (ledger : Ledger) (path : List String) :
    (ledger.childNames path).Pairwise (· ≤ ·) := by
  have hsorted := @List.pairwise_mergeSort String (fun a b => decide (a ≤ b))
    (fun a b c hab hbc => decide_eq_true (le_trans (of_decide_eq_true hab) (of_decide_eq_true hbc)))
    (fun a b => by
      rcases le_total a b with hab | hba
      · rw [decide_eq_true hab, Bool.true_or]
      · rw [decide_eq_true hba, Bool.or_true])
    (ledger.entries.keys.filterMap fun key => if key.dropLast = path then key.getLast? else none)
  exact hsorted.imp of_decide_eq_true

end Ledger

namespace Timer.Represents

variable {timer : Timer} {ledger : Ledger} (wf : timer.WellFormed) (h : timer.Represents ledger)
include wf h

omit wf in
theorem mem_keys_iff (path : List String) :
    path ∈ ledger.entries.keys ↔ ∃ id < timer.nodes.size, timer.path id = path := by
  rw [Keyed.mem_keys_iff]
  constructor
  · rintro ⟨totals, hget⟩
    obtain ⟨id, hid, hpath, -⟩ := (h.collected path totals).mp hget
    exact ⟨id, hid, hpath⟩
  · rintro ⟨id, hid, hpath⟩
    exact ⟨_, (h.collected path _).mpr ⟨id, hid, hpath, rfl⟩⟩

/-- **The names below a path are those of the children** of its node, in their order. -/
theorem childNames_eq {id : Nat} (hid : id < timer.nodes.size) :
    ledger.childNames (timer.path id) = timer.childNames id := by
  have hnodup : (timer.childNames id).Nodup := (wf.sorted id).imp fun hlt => ne_of_lt hlt
  -- Two lists in the same order with the same members are the same.
  refine List.Perm.eq_of_pairwise (fun a b _ _ hab hba => le_antisymm hab hba)
    (ledger.pairwise_childNames _) ((wf.sorted id).imp fun hlt => le_of_lt hlt) ?_
  rw [List.perm_ext_iff_of_nodup (ledger.nodup_childNames _) hnodup]
  intro name
  rw [ledger.mem_childNames_iff, mem_keys_iff h, childNames, List.mem_map]
  constructor
  · rintro ⟨child, hchild, hpath⟩
    exact ⟨child, mem_children_of_path wf hid hchild hpath⟩
  · rintro ⟨child, hchild, rfl⟩
    exact ⟨child, (wf.lt_of_mem_children hchild).2, path_of_mem_children wf hchild⟩

/-- There are as many entries as nodes. -/
theorem size_eq : ledger.entries.size = timer.nodes.size := by
  have hpaths : ((List.range timer.nodes.size).map timer.path).Nodup := by
    refine List.Nodup.map_on ?_ List.nodup_range
    intro id hid other hother heq
    exact path_injective wf (List.mem_range.mp hid) (List.mem_range.mp hother) heq
  have hkeys : ledger.entries.keys.Nodup := ledger.entries.nodup
  have hperm : ledger.entries.keys.Perm ((List.range timer.nodes.size).map timer.path) := by
    rw [List.perm_ext_iff_of_nodup hkeys hpaths]
    intro path
    rw [mem_keys_iff h, List.mem_map]
    simp only [List.mem_range]
  have hlength := hperm.length_eq
  rwa [List.length_map, List.length_range, Keyed.keys, List.length_map] at hlength

theorem forest_eq (fuel : Nat) {id : Nat} (hid : id < timer.nodes.size) :
    timer.forest fuel (timer.node id).children = ledger.forest fuel (timer.path id) := by
  induction fuel generalizing id with
  | zero => rw [forest, Ledger.forest]
  | succ fuel ih =>
    rw [forest, Ledger.forest, childNames_eq wf h hid, childNames, List.foldr_map]
    refine List.foldr_ext _ _ _ fun child hchild later => ?_
    have hlt := (wf.lt_of_mem_children hchild).2
    have hpath := path_of_mem_children wf hchild
    rw [ih hlt, hpath, ← hpath, totals_path h hlt]
    rfl

/-- **A timer and its ledger copy the same report.** -/
theorem copy_eq : timer.copy = ledger.copy := by
  have htop : (timer.node 0).region = (ledger.totals []).region ledger.top := by
    rw [← path_zero wf, totals_path h wf.size_pos, h.top_eq]
    rfl
  have hforest := forest_eq wf h timer.nodes.size wf.size_pos
  rw [path_zero wf] at hforest
  rw [copy, Ledger.copy, htop, hforest, size_eq wf h, h.metrics_eq]

theorem region?_eq (name : String) : timer.region? name = ledger.region? name := by
  rw [region?_eq_find?_rows wf, copy_eq wf h, Ledger.region?]

end Timer.Represents

end Profiler

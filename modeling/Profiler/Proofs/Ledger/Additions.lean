import Mathlib.Algebra.BigOperators.Group.List.Basic
import Mathlib.Algebra.GroupWithZero.Nat
import Profiler.Proofs.Ledger.Parallel

/-!
# Additions one after the other

Additions are sums that stop at a limit, so only the amounts count and not their order: what a field
has after any number of additions is known from the sum of the amounts
(`Ledger.of_totals_addAll`). Permuted additions may put the entries in another order, but each path
gets the same totals (`Ledger.sameEntries_addAll`).
-/

namespace Profiler

/-- What additions to the region `name` add to a field. Those that are not accepted add nothing. -/
def Field.added (field : Field) (metrics : Metrics) (additions : List (String × Addition))
    (name : String) : Nat :=
  (additions.map fun (called, addition) =>
    if called = name ∧ metrics.accepts addition then field.amount addition else 0).sum

theorem Field.added_cons (field : Field) (metrics : Metrics) (called : String) (addition : Addition)
    (rest : List (String × Addition)) (name : String) :
    field.added metrics ((called, addition) :: rest) name =
      (if called = name ∧ metrics.accepts addition then field.amount addition else 0) +
        field.added metrics rest name :=
  List.sum_cons

theorem Field.added_eq_of_perm (field : Field) (metrics : Metrics)
    {additions permuted : List (String × Addition)} (hperm : additions.Perm permuted)
    (name : String) : field.added metrics additions name = field.added metrics permuted name :=
  (hperm.map _).sum_eq

/-- Totals are known by their fields. -/
theorem Totals.ext_fields {totals other : Totals}
    (h : ∀ field : Field, field.of totals = field.of other) : totals = other := by
  obtain ⟨wall, cpu, count, reads, writes⟩ := totals
  have hwall : wall = other.wall := Capped.ext (h (.collected .wall))
  have hcpu : cpu = other.cpu := Capped.ext (h (.collected .cpu))
  have hcount : count = other.count := Capped.ext (h .entries)
  have hreads : reads = other.reads := Capped.ext (h (.collected .reads))
  have hwrites : writes = other.writes := Capped.ext (h (.collected .writes))
  rw [hwall, hcpu, hcount, hreads, hwrites]

namespace Ledger

/-- The ledger after additions that are made one after the other. -/
def addAll (ledger : Ledger) (additions : List (String × Addition)) : Ledger :=
  additions.foldl (fun ledger (name, addition) => ledger.add name addition) ledger

/-- The ledgers differ at most in the order of their entries. -/
structure SameEntries (ledger other : Ledger) : Prop where
  rest_eq : ledger = { other with entries := ledger.entries }
  get?_eq : ∀ path, ledger.entries.get? path = other.entries.get? path

/-! ### One addition -/

section

variable (ledger : Ledger) (called : String) (addition : Addition)

@[simp] theorem path_add : (ledger.add called addition).path = ledger.path := by
  rw [add_eq]
  rfl

@[simp] theorem metrics_add : (ledger.add called addition).metrics = ledger.metrics := by
  rw [add_eq]

theorem of_totals_add_child (field : Field) (name : String) :
    field.of ((ledger.add called addition).totals (ledger.path ++ [name])) =
      min (field.of (ledger.totals (ledger.path ++ [name])) +
        if called = name ∧ ledger.metrics.accepts addition then field.amount addition else 0)
        field.limit := by
  have hgoes : ledger.path ++ [name] = ledger.path ++ [called] ↔ called = name := by
    rw [List.append_right_inj, List.singleton_inj, eq_comm]
  rw [of_totals_add, if_congr (and_congr_left' hgoes) rfl rfl]

theorem totals_add_of_not_child {path : List String} (hpath : ∀ name, path ≠ ledger.path ++ [name]) :
    (ledger.add called addition).totals path = ledger.totals path := by
  unfold add
  split_ifs
  · rw [totals_update, if_neg (hpath called)]
  · rfl

theorem mem_keys_add (path : List String) :
    path ∈ (ledger.add called addition).entries.keys ↔ path ∈ ledger.entries.keys ∨
      ledger.metrics.accepts addition = true ∧ ledger.path ++ [called] = path := by
  unfold add
  split_ifs with haccepts
  · rw [update, Keyed.mem_keys_insert]
    simp only [haccepts, true_and, or_comm, eq_comm]
  · simp [haccepts]

end

/-! ### Any number of additions -/

section

variable (ledger : Ledger) (additions : List (String × Addition))

theorem addAll_eq :
    ledger.addAll additions = { ledger with entries := (ledger.addAll additions).entries } := by
  induction additions generalizing ledger with
  | nil => rfl
  | cons step rest ih =>
    show (ledger.add step.1 step.2).addAll rest =
      { ledger with entries := ((ledger.add step.1 step.2).addAll rest).entries }
    rw [ih, add_eq]

/-- **A field of a child has the sum of the additions to it**, up to the limit. -/
theorem of_totals_addAll (field : Field) (name : String) :
    field.of ((ledger.addAll additions).totals (ledger.path ++ [name])) =
      min (field.of (ledger.totals (ledger.path ++ [name])) +
        field.added ledger.metrics additions name) field.limit := by
  induction additions generalizing ledger with
  | nil => exact (Nat.min_eq_left (field.of_le_limit _)).symm
  | cons step rest ih =>
    obtain ⟨called, addition⟩ := step
    have hfirst := ledger.of_totals_add_child called addition field name
    have hrest := ih (ledger.add called addition)
    rw [path_add, metrics_add, hfirst] at hrest
    refine hrest.trans ?_
    rw [field.added_cons]
    -- What the limit cut off before does not matter any more.
    omega

theorem totals_addAll_of_not_child {path : List String}
    (hpath : ∀ name, path ≠ ledger.path ++ [name]) :
    (ledger.addAll additions).totals path = ledger.totals path := by
  induction additions generalizing ledger with
  | nil => rfl
  | cons step rest ih =>
    have hrest := ih (ledger.add step.1 step.2) (by rwa [path_add])
    exact hrest.trans (ledger.totals_add_of_not_child step.1 step.2 hpath)

/-- Additions make entries for the children that accepted ones go to, and no others. -/
theorem mem_keys_addAll (path : List String) :
    path ∈ (ledger.addAll additions).entries.keys ↔ path ∈ ledger.entries.keys ∨
      ∃ step ∈ additions, ledger.metrics.accepts step.2 = true ∧ ledger.path ++ [step.1] = path := by
  induction additions generalizing ledger with
  | nil => simp [addAll]
  | cons step rest ih =>
    have hrest := ih (ledger.add step.1 step.2)
    rw [path_add, metrics_add, mem_keys_add, or_assoc] at hrest
    rw [List.exists_mem_cons_iff]
    exact hrest

end

/-! ### Permuted additions -/

/-- The entry of a path is known from whether there is one and from the totals. -/
theorem get?_eq (ledger : Ledger) (path : List String) : ledger.entries.get? path =
    if path ∈ ledger.entries.keys then some (ledger.totals path) else none := by
  cases hget : ledger.entries.get? path with
  | none =>
    have hnot : path ∉ ledger.entries.keys := by
      rw [Keyed.mem_keys_iff, hget]
      rintro ⟨_, ⟨⟩⟩
    rw [if_neg hnot]
  | some collected =>
    rw [if_pos ((Keyed.mem_keys_iff _ _).mpr ⟨collected, hget⟩), totals, hget]
    rfl

/-- **The order of additions shows in the order of entries only.** -/
theorem sameEntries_addAll (ledger : Ledger) {additions permuted : List (String × Addition)}
    (hperm : additions.Perm permuted) :
    (ledger.addAll additions).SameEntries (ledger.addAll permuted) where
  rest_eq := by rw [ledger.addAll_eq permuted, ← ledger.addAll_eq additions]
  get?_eq path := by
    have hkeys : path ∈ (ledger.addAll additions).entries.keys ↔
        path ∈ (ledger.addAll permuted).entries.keys := by
      rw [mem_keys_addAll, mem_keys_addAll]
      simp only [hperm.mem_iff]
    have htotals : (ledger.addAll additions).totals path = (ledger.addAll permuted).totals path := by
      by_cases hchild : ∃ name, path = ledger.path ++ [name]
      · obtain ⟨name, rfl⟩ := hchild
        refine Totals.ext_fields fun field => ?_
        rw [of_totals_addAll, of_totals_addAll, field.added_eq_of_perm _ hperm]
      · rw [not_exists] at hchild
        rw [totals_addAll_of_not_child _ _ hchild, totals_addAll_of_not_child _ _ hchild]
    rw [get?_eq, get?_eq, if_congr hkeys rfl rfl, htotals]

end Ledger

end Profiler

import Mathlib.Algebra.GroupWithZero.Nat
import Mathlib.Data.List.Dedup
import Mathlib.Data.List.Induction
import Mathlib.Data.List.Nodup
import Mathlib.Order.Basic
import Profiler.Proofs.Text.ByteOrder
import Profiler.Sampler.Report

/-!
# Reports count exactly and have one form

A histogram counts every label as often as it was recorded (`Histogram.get?_tally`). The report on
it lists each of these labels once, the most frequent first and equally frequent ones in the order
of their bytes. As no two entries have the same place in this order, the list is the same whatever
the order of the samples was and however the histogram holds its entries
(`Histogram.ranked_eq_of_perm`).
-/

namespace Profiler

/-! ### Entries under a key -/

/-- Of entries with distinct keys, the first one under a key is the only one. -/
theorem map_find?_eq_some_iff {κ α : Type} [DecidableEq κ] {entries : List (κ × α)}
    (h : (entries.map Prod.fst).Nodup) (k : κ) (a : α) :
    (entries.find? fun entry => entry.1 = k).map Prod.snd = some a ↔ (k, a) ∈ entries := by
  rw [Option.map_eq_some_iff]
  constructor
  · rintro ⟨entry, hfind, rfl⟩
    obtain rfl : entry.1 = k := by simpa using List.find?_some hfind
    exact List.mem_of_find?_eq_some hfind
  · intro hmem
    cases hfind : entries.find? fun entry => entry.1 = k with
    | none => exact absurd (List.find?_eq_none.mp hfind _ hmem) (by simp)
    | some entry =>
      have hkey : entry.1 = k := by simpa using List.find?_some hfind
      have heq := List.inj_on_of_nodup_map h (List.mem_of_find?_eq_some hfind) hmem hkey
      exact ⟨entry, rfl, congrArg Prod.snd heq⟩

namespace Keyed

theorem nodup_entries {κ α : Type} (m : Keyed κ α) : m.entries.Nodup := List.Nodup.of_map _ m.nodup

theorem mem_entries_iff {κ α : Type} [DecidableEq κ] (m : Keyed κ α) (k : κ) (a : α) :
    (k, a) ∈ m.entries ↔ m.get? k = some a :=
  (map_find?_eq_some_iff m.nodup k a).symm

end Keyed

namespace Histogram

/-! ### Counting -/

/-- The histogram of labels that were recorded one after the other. -/
def tally (labels : List String) : Histogram := labels.foldl record .empty

theorem tally_append (labels : List String) (label : String) :
    tally (labels ++ [label]) = (tally labels).record label :=
  List.foldl_append

theorem get?_tally (labels : List String) (label : String) :
    (tally labels).get? label =
      if label ∈ labels then some (Capped.ofNat (labels.count label)) else none := by
  induction labels using List.reverseRecOn with
  | nil => rfl
  | append_singleton labels last ih =>
    rw [tally_append, record, Keyed.get?_insert]
    split_ifs with hlast hmem hmem
    · subst hlast
      rw [ih, List.count_append, List.count_singleton_self, Option.some_inj]
      apply Capped.ext
      split_ifs with hbefore
      · simp only [Option.getD_some, Capped.val_add, Capped.val_ofNat]
        omega
      · simp [List.count_eq_zero_of_not_mem hbefore]
    · exact absurd (List.mem_append_right _ (List.mem_singleton.mpr hlast)) hmem
    · have hbefore : label ∈ labels := by simpa [hlast] using hmem
      rw [ih, if_pos hbefore, List.count_append, List.count_singleton,
        if_neg (by simpa using Ne.symm hlast), Nat.add_zero]
    · rw [ih, if_neg fun hbefore => hmem (List.mem_append_left _ hbefore)]

/-- A histogram has as many entries as labels were recorded that differ. -/
theorem size_tally (labels : List String) : (tally labels).size = labels.dedup.length := by
  have hperm : (tally labels).keys.Perm labels.dedup := by
    refine (List.perm_ext_iff_of_nodup (tally labels).nodup labels.nodup_dedup).mpr fun label => ?_
    rw [← Keyed.keys, Keyed.mem_keys_iff, get?_tally, List.mem_dedup]
    split_ifs with hmem <;> simp [hmem]
  rw [← hperm.length_eq, Keyed.keys, List.length_map, Keyed.size]

/-! ### Ranking -/

/-- An entry is before another if its label was seen more often, or as often and comes first in the
order of bytes. -/
def Precedes (a b : String × Count) : Prop :=
  b.2.val < a.2.val ∨ (a.2.val = b.2.val ∧ utf8 a.1.toList < utf8 b.1.toList)

theorem ranksBefore_iff (a b : String × Count) :
    ranksBefore a b ↔ b.2.val < a.2.val ∨ (a.2.val = b.2.val ∧ a.1 ≤ b.1) := by
  simp [ranksBefore]

theorem ranksBefore_trans (a b c : String × Count) (hab : ranksBefore a b) (hbc : ranksBefore b c) :
    ranksBefore a c := by
  rw [ranksBefore_iff] at hab hbc ⊢
  rcases hab with hab | ⟨hab, hlabel⟩ <;> rcases hbc with hbc | ⟨hbc, hlabel'⟩
  · exact .inl (hbc.trans hab)
  · exact .inl (hbc ▸ hab)
  · exact .inl (hab ▸ hbc)
  · exact .inr ⟨hab.trans hbc, hlabel.trans hlabel'⟩

theorem ranksBefore_total (a b : String × Count) : (ranksBefore a b || ranksBefore b a) := by
  rw [Bool.or_eq_true, ranksBefore_iff, ranksBefore_iff]
  rcases Nat.lt_trichotomy a.2.val b.2.val with hlt | heq | hgt
  · exact .inr (.inl hlt)
  · rcases le_total a.1 b.1 with hle | hle
    · exact .inl (.inr ⟨heq, hle⟩)
    · exact .inr (.inr ⟨heq.symm, hle⟩)
  · exact .inl (.inl hgt)

theorem ranksBefore_antisymm {a b : String × Count} (hab : ranksBefore a b)
    (hba : ranksBefore b a) : a = b := by
  rw [ranksBefore_iff] at hab hba
  rcases hab with hab | ⟨hcount, hlabel⟩ <;> rcases hba with hba | ⟨hcount', hlabel'⟩
  · omega
  · omega
  · omega
  · exact Prod.ext (le_antisymm hlabel hlabel') (Capped.ext hcount)

theorem ranked_perm (histogram : Histogram) : histogram.ranked.Perm histogram.entries :=
  List.mergeSort_perm _ _

theorem nodup_ranked (histogram : Histogram) : (histogram.ranked.map Prod.fst).Nodup :=
  ((ranked_perm histogram).map Prod.fst).nodup_iff.mpr histogram.nodup

theorem pairwise_ranked (histogram : Histogram) :
    histogram.ranked.Pairwise fun a b => ranksBefore a b :=
  List.pairwise_mergeSort ranksBefore_trans ranksBefore_total _

/-- **No two entries have the same rank.** -/
theorem pairwise_precedes (histogram : Histogram) : histogram.ranked.Pairwise Precedes := by
  have hlabels := List.pairwise_map.mp histogram.nodup_ranked
  refine (histogram.pairwise_ranked.and hlabels).imp fun {a b} h => ?_
  rw [Precedes, utf8_lt_utf8_iff]
  exact ((ranksBefore_iff a b).mp h.1).imp_right fun ⟨hcount, hle⟩ =>
    ⟨hcount, lt_of_le_of_ne hle h.2⟩

/-- **The ranking does not depend on how the entries are held.** -/
theorem ranked_eq_of_perm {histogram other : Histogram}
    (h : histogram.entries.Perm other.entries) : histogram.ranked = other.ranked :=
  List.Perm.eq_of_pairwise (fun _ _ _ _ hab hba => ranksBefore_antisymm hab hba)
    histogram.pairwise_ranked other.pairwise_ranked
    ((ranked_perm histogram).trans (h.trans (ranked_perm other).symm))

/-- Nor does the tally depend on the order in which the labels came. -/
theorem perm_entries_tally {labels others : List String} (h : labels.Perm others) :
    (tally labels).entries.Perm (tally others).entries := by
  rw [List.perm_ext_iff_of_nodup (Keyed.nodup_entries _) (Keyed.nodup_entries _)]
  rintro ⟨label, count⟩
  simp only [Keyed.mem_entries_iff, get?_tally, h.mem_iff, h.count_eq]

end Histogram

namespace SampleReport

open Histogram

variable (name : String) (elapsed : Duration)

/-! ### Reports -/

theorem count_ofHistogram (histogram : Histogram) (label : String) :
    (ofHistogram name elapsed histogram).count label = (histogram.get? label).getD 0 := by
  rw [count, show (ofHistogram name elapsed histogram).entries = histogram.ranked from rfl]
  congr 1
  ext found
  rw [map_find?_eq_some_iff histogram.nodup_ranked, (ranked_perm histogram).mem_iff,
    Keyed.mem_entries_iff]

theorem count_tally (labels : List String) (label : String) :
    (ofHistogram name elapsed (tally labels)).count label = Capped.ofNat (labels.count label) := by
  rw [count_ofHistogram, get?_tally]
  split_ifs with hmem
  · rfl
  · rw [List.count_eq_zero_of_not_mem hmem]
    rfl

theorem foldl_add (entries : List (String × Count)) (total : Count) :
    entries.foldl (fun total entry => total + entry.2) total =
      Capped.ofNat (total.val + (entries.map fun entry => entry.2.val).sum) := by
  induction entries generalizing total with
  | nil =>
    apply Capped.ext
    have hle := total.val_le
    simp
    omega
  | cons entry entries ih =>
    rw [List.foldl_cons, ih, List.map_cons, List.sum_cons]
    apply Capped.ext
    simp only [Capped.val_ofNat, Capped.val_add]
    omega

/-- What a report says of labels that were seen one after the other. -/
structure Tells (report : SampleReport) (labels : List String) : Prop where
  count_eq : ∀ label, report.count label = Capped.ofNat (labels.count label)
  mem_entries_iff : ∀ label count, (label, count) ∈ report.entries ↔
    count = report.count label ∧ count ≠ 0
  nodup : (report.entries.map Prod.fst).Nodup
  pairwise_precedes : report.entries.Pairwise Precedes
  total_eq : report.total = Capped.ofNat (report.entries.map fun entry => entry.2.val).sum
  /-- The labels may have been seen in any order, and their histogram may hold them in any order. -/
  eq_of_perm : ∀ others : List String, others.Perm labels →
    ∀ histogram : Histogram, histogram.entries.Perm (tally others).entries →
      ofHistogram report.name report.elapsed histogram = report

/-- **Reports count exactly and have one form.** -/
theorem tells_ofHistogram (labels : List String) :
    (ofHistogram name elapsed (tally labels)).Tells labels where
  count_eq := count_tally name elapsed labels
  mem_entries_iff label count := by
    show (label, count) ∈ (tally labels).ranked ↔ _
    rw [(ranked_perm _).mem_iff, Keyed.mem_entries_iff, get?_tally, count_tally]
    split_ifs with hmem
    · have hpos := List.count_pos_iff.mpr hmem
      rw [Option.some_inj, eq_comm]
      refine (and_iff_left_of_imp ?_).symm
      rintro rfl hzero
      have hval := congrArg Capped.val hzero
      simp only [Capped.val_ofNat, Capped.val_zero] at hval
      have hcap : 0 < UInt64.size - 1 := by decide
      omega
    · rw [List.count_eq_zero_of_not_mem hmem]
      exact ⟨nofun, fun h => absurd h.1 h.2⟩
  nodup := nodup_ranked _
  pairwise_precedes := Histogram.pairwise_precedes _
  total_eq := by
    rw [total, foldl_add, Capped.val_zero, Nat.zero_add]
  eq_of_perm others hothers histogram hhistogram :=
    congrArg (SampleReport.mk name elapsed)
      (ranked_eq_of_perm (hhistogram.trans (perm_entries_tally hothers)))

end SampleReport

end Profiler

import Mathlib.Data.List.Infix
import Mathlib.Data.List.Range
import Profiler.Proofs.Timer.Paths
import Profiler.Timer.Search

/-!
# Every node is listed once, at its depth

`Timer.below` lists the nodes below some others, each before its children. Given more levels than
there are nodes it is complete (`Timer.mem_below_iff`) and lists no node twice
(`Timer.nodup_below`), so all nodes of a timer are in `Timer.preorder` exactly once
(`Timer.preorder_perm`). The rows of a report are these nodes with their numbers of ancestors
(`Timer.rows_copy`), and a search for a name goes through the same rows
(`Timer.region?_eq_find?_rows`).
-/

namespace Profiler.Timer

/-- The nodes `ids` and those below them, each before its children, cut at `fuel` levels. -/
def below (timer : Timer) : Nat → List Nat → List Nat
  | 0, _ => []
  | fuel + 1, ids => ids.flatMap fun id => id :: timer.below fuel (timer.node id).children

/-- All nodes, each before its children, siblings in the order of their names. -/
def preorder (timer : Timer) : List Nat := timer.below timer.nodes.size [0]

/-- The nodes around a node, the top-level one last. -/
def ancestors (timer : Timer) (id : Nat) : List Nat := (timer.lineage id).tail

/-- With `fuel` levels nothing below the nodes `ids` is cut. -/
def Uncut (timer : Timer) (fuel : Nat) (ids : List Nat) : Prop :=
  ∀ id ∈ ids, id < timer.nodes.size ∧ timer.nodes.size ≤ id + fuel

section

variable {timer : Timer} (wf : timer.WellFormed)
include wf

/-! ### Ancestors -/

/-- A node is above those that one of its children is above, and above itself. -/
theorem mem_lineage_iff {id other : Nat} (h : other < timer.nodes.size) :
    id ∈ timer.lineage other ↔
      id = other ∨ ∃ child ∈ (timer.node id).children, child ∈ timer.lineage other := by
  refine wf.induction (P := fun other => id ∈ timer.lineage other ↔
    id = other ∨ ∃ child ∈ (timer.node id).children, child ∈ timer.lineage other) ?_ ?_ h
  · rw [lineage_zero wf]
    simp only [List.mem_singleton]
    constructor
    · exact .inl
    · rintro (hid | ⟨child, hchild, rfl⟩)
      · exact hid
      · exact absurd (wf.lt_of_mem_children hchild).1 (Nat.not_lt_zero id)
  · intro other parent hother hparent ih
    rw [lineage_of_parent wf hparent, List.mem_cons]
    -- Either `other` is itself a child of `id`, or the child comes further up.
    have hchild : parent = id ↔ other ∈ (timer.node id).children := by
      rw [wf.mem_children, hparent, Option.some_inj]
      exact ⟨fun heq => ⟨hother, heq⟩, fun h => h.2⟩
    constructor
    · rintro (heq | hmem)
      · exact .inl heq
      · rcases ih.mp hmem with heq | ⟨child, hchildren, hmem⟩
        · exact .inr ⟨other, hchild.mp heq.symm, List.mem_cons_self ..⟩
        · exact .inr ⟨child, hchildren, List.mem_cons_of_mem _ hmem⟩
    · rintro (heq | ⟨child, hchildren, hmem⟩)
      · exact .inl heq
      · rcases List.mem_cons.mp hmem with rfl | hmem
        · exact .inr (ih.mpr (.inl (hchild.mpr hchildren).symm))
        · exact .inr (ih.mpr (.inr ⟨child, hchildren, hmem⟩))

/-- The way up from an ancestor is the end of the way up. -/
theorem lineage_suffix {id other : Nat} (h : other < timer.nodes.size)
    (hid : id ∈ timer.lineage other) : timer.lineage id <:+ timer.lineage other := by
  refine wf.induction (P := fun other => id ∈ timer.lineage other →
    timer.lineage id <:+ timer.lineage other) ?_ ?_ h hid
  · intro hid
    rw [lineage_zero wf, List.mem_singleton] at hid
    rw [hid]
  · intro other parent _ hparent ih hid
    rw [lineage_of_parent wf hparent] at hid ⊢
    rcases List.mem_cons.mp hid with rfl | hmem
    · rw [lineage_of_parent wf hparent]
    · exact (ih hmem).trans (List.suffix_cons _ _)

/-- No node is below two siblings. -/
theorem sibling_eq_of_mem_lineage {parent child sibling other : Nat}
    (h : other < timer.nodes.size) (hchild : child ∈ (timer.node parent).children)
    (hsibling : sibling ∈ (timer.node parent).children) (hmem : child ∈ timer.lineage other)
    (hmem' : sibling ∈ timer.lineage other) : child = sibling := by
  have hlineage := lineage_of_parent wf ((wf.mem_children parent child).mp hchild).2
  have hlineage' := lineage_of_parent wf ((wf.mem_children parent sibling).mp hsibling).2
  have hsuffix := List.suffix_of_suffix_length_le (lineage_suffix wf h hmem)
    (lineage_suffix wf h hmem') (by rw [hlineage, hlineage']; rfl)
  have heq := hsuffix.eq_of_length (by rw [hlineage, hlineage']; rfl)
  rw [hlineage, hlineage'] at heq
  exact (List.cons.inj heq).1

/-- A child has one more ancestor than its parent. -/
theorem length_ancestors_of_mem_children {id child : Nat}
    (h : child ∈ (timer.node id).children) :
    (timer.ancestors child).length = (timer.ancestors id).length + 1 := by
  obtain ⟨hlt, hchild⟩ := wf.lt_of_mem_children h
  have hne := lineage_ne_nil wf (hlt.trans hchild)
  rw [ancestors, lineage_of_parent wf ((wf.mem_children id child).mp h).2, List.tail_cons,
    ancestors, List.length_tail]
  have := List.length_pos_of_ne_nil hne
  omega

/-! ### The nodes below others -/

omit wf in
theorem uncut_of_lt {ids : List Nat} (h : ∀ id ∈ ids, id < timer.nodes.size) :
    timer.Uncut timer.nodes.size ids :=
  fun id hid => ⟨h id hid, Nat.le_add_left _ _⟩

theorem Uncut.children {fuel id : Nat} {ids : List Nat} (h : timer.Uncut (fuel + 1) ids)
    (hid : id ∈ ids) : timer.Uncut fuel (timer.node id).children := by
  intro child hchild
  have hlt := wf.lt_of_mem_children hchild
  have := (h id hid).2
  exact ⟨hlt.2, by omega⟩

/-- **Nothing is left out**: the listed nodes are those with one of `ids` above them. -/
theorem mem_below_iff {fuel other : Nat} {ids : List Nat} (h : timer.Uncut fuel ids)
    (hother : other < timer.nodes.size) :
    other ∈ timer.below fuel ids ↔ ∃ id ∈ ids, id ∈ timer.lineage other := by
  induction fuel generalizing ids with
  | zero =>
    rw [below]
    constructor
    · intro hmem
      cases hmem
    · rintro ⟨id, hid, -⟩
      have := h id hid
      omega
  | succ fuel ih =>
    rw [below, List.mem_flatMap]
    refine exists_congr fun id => and_congr_right fun hid => ?_
    rw [List.mem_cons, ih (Uncut.children wf h hid), mem_lineage_iff wf hother, eq_comm]

theorem lt_of_mem_below {fuel other : Nat} {ids : List Nat} (h : timer.Uncut fuel ids)
    (hother : other ∈ timer.below fuel ids) : other < timer.nodes.size := by
  induction fuel generalizing ids with
  | zero => cases hother
  | succ fuel ih =>
    rw [below, List.mem_flatMap] at hother
    obtain ⟨id, hid, hmem⟩ := hother
    rcases List.mem_cons.mp hmem with rfl | hmem
    · exact (h other hid).1
    · exact ih (Uncut.children wf h hid) hmem

/-- **Nothing is listed twice**, if no node is below two of `ids`. -/
theorem nodup_below {fuel : Nat} {ids : List Nat} (h : timer.Uncut fuel ids)
    (hapart : ids.Pairwise fun id id' => ∀ other < timer.nodes.size,
      id ∈ timer.lineage other → id' ∉ timer.lineage other) : (timer.below fuel ids).Nodup := by
  induction fuel generalizing ids with
  | zero => exact List.nodup_nil
  | succ fuel ih =>
    rw [below, List.nodup_flatMap]
    have hmem : ∀ id ∈ ids, ∀ other ∈ id :: timer.below fuel (timer.node id).children,
        other < timer.nodes.size ∧ id ∈ timer.lineage other := by
      intro id hid other hother
      have hlt : other < timer.nodes.size := by
        rcases List.mem_cons.mp hother with rfl | hbelow
        · exact (h other hid).1
        · exact lt_of_mem_below wf (Uncut.children wf h hid) hbelow
      rw [List.mem_cons, mem_below_iff wf (Uncut.children wf h hid) hlt, eq_comm,
        ← mem_lineage_iff wf hlt] at hother
      exact ⟨hlt, hother⟩
    constructor
    · intro id hid
      refine List.nodup_cons.mpr ⟨?_, ih (Uncut.children wf h hid) ?_⟩
      · -- A node is not below its own children, which have larger numbers.
        rw [mem_below_iff wf (Uncut.children wf h hid) (h id hid).1]
        rintro ⟨child, hchild, hlineage⟩
        exact absurd (le_of_mem_lineage wf (h id hid).1 hlineage)
          (not_le.mpr (wf.lt_of_mem_children hchild).1)
      · refine (wf.nodup_children id).pairwise_of_forall_ne ?_
        intro child hchild sibling hsibling hne other hother hmem hmem'
        exact hne (sibling_eq_of_mem_lineage wf hother hchild hsibling hmem hmem')
    · refine hapart.imp_of_mem ?_
      intro id id' hid hid' hdisjoint other hother hother'
      obtain ⟨hlt, hlineage⟩ := hmem id hid other hother
      exact hdisjoint other hlt hlineage (hmem id' hid' other hother').2

/-- More levels than it takes make no difference. -/
theorem below_eq_below {fuel fuel' : Nat} {ids : List Nat} (h : timer.Uncut fuel ids)
    (h' : timer.Uncut fuel' ids) : timer.below fuel ids = timer.below fuel' ids := by
  induction fuel generalizing fuel' ids with
  | zero =>
    cases ids with
    | nil => cases fuel' <;> rfl
    | cons id ids =>
      have := h id (List.mem_cons_self ..)
      omega
  | succ fuel ih =>
    cases fuel' with
    | zero =>
      cases ids with
      | nil => rfl
      | cons id ids =>
        have := h' id (List.mem_cons_self ..)
        omega
    | succ fuel' =>
      rw [below, below]
      refine List.flatMap_congr fun id hid => ?_
      rw [ih (Uncut.children wf h hid) (Uncut.children wf h' hid)]

/-! ### All nodes -/

theorem uncut_top : timer.Uncut timer.nodes.size [0] :=
  uncut_of_lt fun id hid => by rw [List.mem_singleton.mp hid]; exact wf.size_pos

/-- **Every node is listed exactly once.** -/
theorem preorder_perm : timer.preorder.Perm (List.range timer.nodes.size) := by
  have hnodup : timer.preorder.Nodup :=
    nodup_below wf (uncut_top wf) (List.pairwise_singleton _ _)
  rw [List.perm_ext_iff_of_nodup hnodup List.nodup_range]
  intro id
  rw [List.mem_range]
  constructor
  · exact lt_of_mem_below wf (uncut_top wf)
  · intro hid
    refine (mem_below_iff wf (uncut_top wf) hid).mpr ⟨0, List.mem_singleton_self 0, ?_⟩
    exact List.mem_of_getLast? (getLast?_lineage wf hid)

/-- A node is listed before its children, and they before its later siblings. -/
theorem below_cons {id : Nat} {ids : List Nat} (hid : id < timer.nodes.size) :
    timer.below timer.nodes.size (id :: ids) =
      id :: timer.below timer.nodes.size ((timer.node id).children ++ ids) := by
  have huncut : timer.Uncut timer.nodes.size [id] :=
    uncut_of_lt fun other hother => by rwa [List.mem_singleton.mp hother]
  have hmore : timer.Uncut timer.nodes.size (timer.node id).children :=
    uncut_of_lt fun child hchild => (wf.lt_of_mem_children hchild).2
  obtain ⟨size, hsize⟩ := Nat.exists_eq_succ_of_ne_zero wf.size_pos.ne'
  rw [hsize] at huncut hmore ⊢
  have hchildren := Uncut.children wf huncut (List.mem_singleton_self id)
  -- The children have one level less to go than their later siblings, which is enough for them.
  have hbelow := below_eq_below wf hmore hchildren
  rw [below] at hbelow ⊢
  rw [below, List.flatMap_cons, List.flatMap_append, hbelow, List.cons_append]

/-! ### The rows of a report -/

/-- The rows of the trees that are copied are the nodes below, each with its number of ancestors. -/
theorem rows_forest (fuel depth : Nat) (ids : List Nat)
    (h : ∀ id ∈ ids, (timer.ancestors id).length = depth) :
    (timer.forest fuel ids).rows depth = (timer.below fuel ids).map fun id =>
      ((timer.ancestors id).length, (timer.node id).region) := by
  induction fuel generalizing depth ids with
  | zero => rfl
  | succ fuel ih =>
    induction ids with
    | nil => rfl
    | cons id ids ihids =>
      have hids := ihids fun other hother => h other (List.mem_cons_of_mem _ hother)
      have hchildren := ih (depth + 1) (timer.node id).children fun child hchild => by
        rw [length_ancestors_of_mem_children wf hchild, h id (List.mem_cons_self ..)]
      rw [forest] at hids ⊢
      rw [below] at hids ⊢
      rw [List.foldr_cons, Forest.rows, hchildren, hids, List.flatMap_cons, List.map_append,
        List.map_cons, h id (List.mem_cons_self ..), List.cons_append]

/-- **A report lists every region once**, with as many levels above it as it has ancestors. -/
theorem rows_copy : timer.copy.rows = timer.preorder.map fun id =>
    ((timer.ancestors id).length, (timer.node id).region) := by
  have htop : timer.ancestors 0 = [] := by rw [ancestors, lineage_zero wf]; rfl
  have hchildren := rows_forest wf timer.nodes.size 1 (timer.node 0).children
    fun child hchild => by
      rw [length_ancestors_of_mem_children wf hchild, htop]
      rfl
  rw [preorder, below_cons wf wf.size_pos, List.append_nil, List.map_cons, htop, ← hchildren]
  rfl

/-! ### Looking up a name -/

/-- The search for a name goes through the pending nodes and those below them in their order. -/
theorem search_eq_find? (name : String) {fuel : Nat} {pending : List Nat}
    (h : ∀ id ∈ pending, id < timer.nodes.size)
    (hfuel : (timer.below timer.nodes.size pending).length ≤ fuel) :
    timer.search name fuel pending = ((timer.below timer.nodes.size pending).find? fun id =>
      timer.nameOf id = name).map fun id => (timer.node id).region := by
  have hnil : timer.below timer.nodes.size [] = [] := by cases timer.nodes.size <;> rfl
  induction fuel generalizing pending with
  | zero =>
    rw [List.eq_nil_of_length_eq_zero (Nat.le_zero.mp hfuel)]
    rfl
  | succ fuel ih =>
    cases pending with
    | nil =>
      rw [hnil]
      rfl
    | cons id pending =>
      have hid := List.forall_mem_cons.mp h
      rw [below_cons wf hid.1] at hfuel ⊢
      rw [search, List.find?_cons]
      by_cases hname : timer.nameOf id = name
      · rw [if_pos hname, decide_eq_true hname]
        rfl
      · rw [if_neg hname, decide_eq_false hname]
        refine ih ?_ (by simpa using hfuel)
        intro other hother
        rcases List.mem_append.mp hother with hchild | hmem
        · exact (wf.lt_of_mem_children hchild).2
        · exact hid.2 other hmem

/-- **The region of a name is the first row that has it** in a report of the regions as they are. -/
theorem region?_eq_find?_rows (name : String) : timer.region? name =
    (timer.copy.rows.find? fun row => row.2.name = name).map Prod.snd := by
  have hlength := (preorder_perm wf).length_eq
  rw [List.length_range] at hlength
  rw [region?, search_eq_find? wf name _ hlength.le, rows_copy wf, List.find?_map, Option.map_map]
  · rfl
  · intro id hid
    rw [List.mem_singleton.mp hid]
    exact wf.size_pos

end

end Profiler.Timer

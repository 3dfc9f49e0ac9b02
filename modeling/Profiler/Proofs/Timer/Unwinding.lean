import Mathlib.Data.List.TakeWhile
import Profiler.Proofs.Timer.Paths

/-!
# Leaving open regions

`Timer.unwind` leaves the innermost open regions one by one. It closes each of them against its own
marks and nothing else (`Timer.node_unwind`), and the regions outside them stay open
(`Timer.openPath_unwind`). Every exit is such an unwinding: `Timer.tryExit_of_open` says how far it
goes and what is answered.
-/

namespace Profiler.Timer

theorem openPath_eq_lineage (timer : Timer) : timer.openPath = timer.lineage timer.current := rfl

/-- A timer that grows and stays in its current region has the same open regions. -/
theorem Extends.openPath_eq {timer later : Timer} (h : timer.Extends later) (wf : timer.WellFormed)
    (wf' : later.WellFormed) (hcurrent : later.current = timer.current) :
    later.openPath = timer.openPath := by
  rw [openPath_eq_lineage, openPath_eq_lineage, hcurrent, h.lineage_eq wf wf' wf.current_lt]

/-- The timer after the innermost `count` open regions have been closed and left. -/
def unwind (timer : Timer) (clock : Clock) : Nat → Timer
  | 0 => timer
  | count + 1 => (timer.leave clock).unwind clock count

/-! ### One region -/

theorem leave_of_parent (timer : Timer) (clock : Clock) {parent : Nat}
    (h : (timer.node timer.current).parent? = some parent) :
    timer.leave clock = (timer.closeNode timer.current clock).goTo parent := by
  rw [leave, h]

theorem sameTree_openNode (timer : Timer) (id : Nat) (clock : Clock) :
    timer.SameTree (timer.openNode id clock) :=
  timer.sameTree_modifyNode id (keepsPlace_opened _ _)

theorem sameTree_closeNode (timer : Timer) (id : Nat) (clock : Clock) :
    timer.SameTree (timer.closeNode id clock) :=
  timer.sameTree_modifyNode id (keepsPlace_closed _)

theorem sameTree_leave (timer : Timer) (clock : Clock) : timer.SameTree (timer.leave clock) := by
  unfold leave
  split
  · exact ⟨rfl, fun _ => rfl, fun _ => rfl, fun _ => rfl, rfl, rfl⟩
  · have same := timer.sameTree_closeNode timer.current clock
    exact ⟨same.size_eq, same.nameOf_eq, same.parent?_eq, same.children_eq, rfl, rfl⟩

/-- The reading that the regions are closed with does not change while they are. -/
theorem reading_leave (timer : Timer) (clock clock' : Clock) :
    (timer.leave clock).reading clock' = timer.reading clock' := by
  have same := timer.sameTree_leave clock
  rw [reading, reading, same.metrics_eq, same.scope_eq]

section

variable {timer : Timer} (wf : timer.WellFormed) (clock : Clock)
include wf

theorem openPath_ne_nil : timer.openPath ≠ [] := lineage_ne_nil wf wf.current_lt

theorem isAtTop_iff : timer.isAtTop = true ↔ timer.current = 0 := by
  rw [isAtTop, Option.isNone_iff_eq_none, wf.parent?_eq_none_iff wf.current_lt]

/-- The open regions are the current one and those around it. -/
theorem openPath_eq_cons : ∃ outer, timer.openPath = timer.current :: outer := by
  have hhead := head?_lineage wf wf.current_lt
  rw [← openPath_eq_lineage, List.head?_eq_some_iff] at hhead
  exact hhead

theorem current_eq_of_cons {id : Nat} {outer : List Nat} (h : timer.openPath = id :: outer) :
    timer.current = id := by
  obtain ⟨outer', h'⟩ := openPath_eq_cons wf
  exact (List.cons.inj (h'.symm.trans h)).1

theorem lt_of_mem_openPath {id : Nat} (h : id ∈ timer.openPath) : id < timer.nodes.size :=
  lt_of_le_of_lt (le_of_mem_lineage wf wf.current_lt h) wf.current_lt

theorem zero_mem_openPath : 0 ∈ timer.openPath :=
  List.mem_of_getLast? (getLast?_lineage wf wf.current_lt)

theorem WellFormed.leave : (timer.leave clock).WellFormed := by
  unfold Timer.leave
  cases hparent : (timer.node timer.current).parent? with
  | none => exact wf
  | some parent =>
    refine (wf.closeNode timer.current clock).goTo ?_
    rw [Timer.closeNode, size_modifyNode]
    exact (wf.parent_lt hparent).1.trans wf.current_lt

/-- An open region is the outermost one exactly if it is the top-level one. -/
theorem outer_eq_nil_iff {inner outer : List Nat} {id : Nat}
    (h : timer.openPath = inner ++ id :: outer) : outer = [] ↔ id = 0 := by
  have hlast := getLast?_lineage wf wf.current_lt
  have hnodup := nodup_lineage wf wf.current_lt
  rw [← openPath_eq_lineage, h] at hlast hnodup
  constructor
  · rintro rfl
    rw [List.getLast?_append_cons, List.getLast?_singleton] at hlast
    exact Option.some.inj hlast
  · rintro rfl
    by_contra hne
    have hmem : 0 ∈ outer := by
      rw [List.getLast?_append_cons, List.getLast?_cons_of_ne_nil hne] at hlast
      exact List.mem_of_getLast? hlast
    exact (List.nodup_cons.mp (List.nodup_append.mp hnodup).2.1).1 hmem

theorem outer_eq_nil_iff_of_cons {outer : List Nat} {id : Nat} (h : timer.openPath = id :: outer) :
    outer = [] ↔ id = 0 :=
  outer_eq_nil_iff wf (show timer.openPath = [] ++ id :: outer from h)

/-- Leaving a region makes the one around it current. -/
theorem openPath_leave {id : Nat} {outer : List Nat} (houter : outer ≠ [])
    (h : timer.openPath = id :: outer) : (timer.leave clock).openPath = outer := by
  have hne : timer.current ≠ 0 := by
    rw [current_eq_of_cons wf h]
    exact fun hzero => houter ((outer_eq_nil_iff_of_cons wf h).mpr hzero)
  obtain ⟨parent, hlt, hparent⟩ := wf.exists_parent _ wf.current_lt hne
  rw [openPath_eq_lineage, lineage_of_parent wf hparent] at h
  have hleft : (timer.leave clock).current = parent := by
    rw [leave_of_parent timer clock hparent, current_goTo]
  rw [openPath_eq_lineage, hleft,
    (timer.sameTree_leave clock).toExtends.lineage_eq wf (wf.leave clock) (hlt.trans wf.current_lt)]
  exact (List.cons.inj h).2

/-- If several regions can be left, the current one is the first of them, and one less can be left
after it. -/
theorem leave_of_lt {count : Nat} (h : count + 1 < timer.openPath.length) : timer.current ≠ 0 ∧
    timer.openPath = timer.current :: (timer.leave clock).openPath ∧
      count < (timer.leave clock).openPath.length := by
  obtain ⟨outer, hpath⟩ := openPath_eq_cons wf
  rw [hpath, List.length_cons] at h
  have houter : outer ≠ [] := List.ne_nil_of_length_pos (by omega)
  have hleft := openPath_leave wf clock houter hpath
  refine ⟨fun hzero => houter ((outer_eq_nil_iff_of_cons wf hpath).mpr hzero), ?_, ?_⟩
  · rw [hpath, hleft]
  · rw [hleft]
    omega

theorem node_leave {parent : Nat} (h : (timer.node timer.current).parent? = some parent) (id : Nat) :
    (timer.leave clock).node id =
      if id = timer.current then (timer.node id).closed (timer.reading clock)
      else timer.node id := by
  rw [leave_of_parent timer clock h, node_goTo, closeNode, node_modifyNode]
  split_ifs with hboth hid hid
  · rw [hid]
  · exact absurd hboth.1 hid
  · exact absurd ⟨hid, wf.current_lt⟩ hboth
  · rfl

/-! ### Several regions -/

theorem WellFormed.unwind (count : Nat) : (timer.unwind clock count).WellFormed := by
  induction count generalizing timer with
  | zero => exact wf
  | succ count ih => exact ih (wf.leave clock)

theorem extends_unwind (count : Nat) : timer.Extends (timer.unwind clock count) := by
  induction count generalizing timer with
  | zero => exact Extends.refl timer
  | succ count ih =>
    exact (timer.sameTree_leave clock).toExtends.trans (ih (wf.leave clock))

/-- Unwinding leaves the outer regions open. -/
theorem openPath_unwind {count : Nat} (h : count < timer.openPath.length) :
    (timer.unwind clock count).openPath = timer.openPath.drop count := by
  induction count generalizing timer with
  | zero => rw [unwind, List.drop_zero]
  | succ count ih =>
    obtain ⟨-, hpath, hlt⟩ := leave_of_lt wf clock h
    rw [unwind, ih (wf.leave clock) hlt, hpath, List.drop_succ_cons]

/-- **Unwinding closes the regions that it leaves** against their own marks, and nothing else. -/
theorem node_unwind {count : Nat} (h : count < timer.openPath.length) (id : Nat) :
    (timer.unwind clock count).node id =
      if id ∈ timer.openPath.take count then (timer.node id).closed (timer.reading clock)
      else timer.node id := by
  induction count generalizing timer with
  | zero => rw [unwind, List.take_zero, if_neg List.not_mem_nil]
  | succ count ih =>
    obtain ⟨hne, hpath, hlt⟩ := leave_of_lt wf clock h
    have hnodup : timer.openPath.Nodup := nodup_lineage wf wf.current_lt
    rw [hpath] at hnodup
    obtain ⟨parent, -, hparent⟩ := wf.exists_parent _ wf.current_lt hne
    rw [unwind, ih (wf.leave clock) hlt, hpath, List.take_succ_cons, reading_leave,
      node_leave wf clock hparent]
    by_cases hid : id = timer.current
    · -- The current region was closed first and is no longer open.
      subst hid
      have hnot : timer.current ∉ (timer.leave clock).openPath.take count := fun hmem =>
        (List.nodup_cons.mp hnodup).1 (List.mem_of_mem_take hmem)
      rw [if_neg hnot, if_pos rfl, if_pos (List.mem_cons_self ..)]
    · simp only [hid, if_false, List.mem_cons, false_or]

theorem current_unwind {count : Nat} (h : count < timer.openPath.length) :
    timer.openPath[count]? = some (timer.unwind clock count).current := by
  have hhead := head?_lineage (wf.unwind clock count) (wf.unwind clock count).current_lt
  rw [← openPath_eq_lineage, openPath_unwind wf clock h, List.head?_drop] at hhead
  exact hhead

/-- A region other than the top-level one is open inside another one, and open only once. -/
theorem exists_outer (h : timer.current ≠ 0) : ∃ outer, timer.openPath = timer.current :: outer ∧
    outer ≠ [] ∧ timer.current ∉ outer := by
  obtain ⟨outer, hpath⟩ := openPath_eq_cons wf
  have hnodup : timer.openPath.Nodup := nodup_lineage wf wf.current_lt
  rw [hpath] at hnodup
  exact ⟨outer, hpath, fun hnil => h ((outer_eq_nil_iff_of_cons wf hpath).mp hnil),
    (List.nodup_cons.mp hnodup).1⟩

/-- Unwinding by the regions inside an open region leads to that region. -/
theorem current_unwind_inner {inner outer : List Nat} {id : Nat}
    (h : timer.openPath = inner ++ id :: outer) : (timer.unwind clock inner.length).current = id := by
  have hlength : inner.length < timer.openPath.length := by
    rw [h, List.length_append, List.length_cons]
    omega
  have hcurrent := current_unwind wf clock hlength
  rw [h, List.getElem?_append_right le_rfl, Nat.sub_self, List.getElem?_cons_zero] at hcurrent
  exact (Option.some.inj hcurrent).symm

theorem isAtTop_unwind_inner {inner outer : List Nat} {id : Nat}
    (h : timer.openPath = inner ++ id :: outer) :
    (timer.unwind clock inner.length).isAtTop = true ↔ outer = [] := by
  have wf' := wf.unwind clock inner.length
  rw [isAtTop_iff wf', current_unwind_inner wf clock h, outer_eq_nil_iff wf h]

omit wf in
theorem leave_unwind (count : Nat) :
    (timer.unwind clock count).leave clock = timer.unwind clock (count + 1) := by
  induction count generalizing timer with
  | zero => rfl
  | succ count ih => exact ih

/-! ### Exits -/

/-- What is said of an exit that closes the regions `nested` first. -/
def closingEvents (timer : Timer) (name : String) (nested : List Nat) : List Event :=
  if nested.isEmpty then [] else [.closingNested name timer.currentName]

omit wf in
theorem foldl_leave (nested : List Nat) :
    nested.foldl (fun timer _ => timer.leave clock) timer = timer.unwind clock nested.length := by
  induction nested generalizing timer with
  | nil => rfl
  | cons _ nested ih => exact ih

omit wf in
/-- An exit of a name that no open region has is refused. -/
theorem tryExit_of_not_open {name : String} (h : ∀ id ∈ timer.openPath, timer.nameOf id ≠ name) :
    timer.tryExit name clock = ⟨.error (.regionNotOpen name timer.currentName), [], timer⟩ := by
  have hany : ¬ timer.openPath.any (fun id => timer.nameOf id = name) = true := by
    rw [List.any_eq_true]
    rintro ⟨id, hid, hname⟩
    exact h id hid (of_decide_eq_true hname)
  rw [tryExit, if_neg hany]

/-- **An exit unwinds to the innermost open region of its name.** That one is left too, unless it is
the top-level region. -/
theorem tryExit_of_open {name : String} {inner outer : List Nat} {id : Nat}
    (hpath : timer.openPath = inner ++ id :: outer)
    (hinner : ∀ other ∈ inner, timer.nameOf other ≠ name) (hname : timer.nameOf id = name) :
    timer.tryExit name clock =
      if outer = [] then
        ⟨.error (.atTopLevel name), timer.closingEvents name inner, timer.unwind clock inner.length⟩
      else
        ⟨.ok (), timer.closingEvents name inner, timer.unwind clock (inner.length + 1)⟩ := by
  have hany : timer.openPath.any (fun id => timer.nameOf id = name) = true := by
    rw [List.any_eq_true]
    exact ⟨id, by rw [hpath]; simp, decide_eq_true hname⟩
  have hnested : timer.nestedIn name = inner := by
    rw [nestedIn, hpath, List.takeWhile_append_of_pos (fun other h => decide_eq_true (hinner other h)),
      List.takeWhile_cons_of_neg (by simp [hname]), List.append_nil]
  have hcurrentName : (timer.unwind clock inner.length).currentName = name := by
    have hid : id < timer.nodes.size := lt_of_mem_openPath wf (by rw [hpath]; simp)
    rw [currentName, current_unwind_inner wf clock hpath,
      (extends_unwind wf clock inner.length).nameOf_eq id hid, hname]
  have htop := isAtTop_unwind_inner wf clock hpath
  rw [tryExit, if_pos hany, hnested]
  dsimp only
  rw [foldl_leave, hcurrentName, leave_unwind]
  by_cases houter : outer = []
  · rw [if_pos houter, if_pos (htop.mpr houter)]
    rfl
  · rw [if_neg houter, if_neg (fun h => houter (htop.mp h))]
    rfl

omit wf in
/-- Either no open region has a name, or there is an innermost one that has it. -/
theorem not_open_or_innermost (timer : Timer) (name : String) :
    (∀ id ∈ timer.openPath, timer.nameOf id ≠ name) ∨
      ∃ inner id outer, timer.openPath = inner ++ id :: outer ∧
        (∀ other ∈ inner, timer.nameOf other ≠ name) ∧ timer.nameOf id = name := by
  induction timer.openPath with
  | nil => exact .inl (by simp)
  | cons id outer ih =>
    by_cases hid : timer.nameOf id = name
    · exact .inr ⟨[], id, outer, rfl, by simp, hid⟩
    · rcases ih with hnone | ⟨inner, id', outer', rfl, hinner, hname⟩
      · exact .inl (List.forall_mem_cons.mpr ⟨hid, hnone⟩)
      · exact .inr ⟨id :: inner, id', outer', rfl, List.forall_mem_cons.mpr ⟨hid, hinner⟩, hname⟩

/-- An exit takes the timer back by some of its open regions, never by the outermost. -/
theorem tryExit_timer (name : String) : ∃ count < timer.openPath.length,
    (timer.tryExit name clock).timer = timer.unwind clock count := by
  rcases not_open_or_innermost timer name with hnone |
    ⟨inner, id, outer, hpath, hinner, hname⟩
  · refine ⟨0, List.length_pos_of_ne_nil (openPath_ne_nil wf), ?_⟩
    rw [tryExit_of_not_open clock hnone]
    rfl
  · rw [tryExit_of_open wf clock hpath hinner hname, hpath, List.length_append, List.length_cons]
    split_ifs with houter
    · exact ⟨inner.length, by omega, rfl⟩
    · have := List.length_pos_of_ne_nil houter
      exact ⟨inner.length + 1, by omega, rfl⟩

end

end Profiler.Timer

import Mathlib.Data.List.Perm.Basic
import Mathlib.Data.List.Sort
import Profiler.Proofs.Ledger.Basic

/-!
# A timer is a ledger

`Timer.Represents` relates a timer to the ledger that it means: the paths of its nodes are the paths
of the entries, with the same totals, and its open nodes are the frames. Each of the four moves of a
timer is the same move of its ledger (`Timer.Represents.enter`, `.leave`, `.add`, `.closeOut`), so
every order is, with the same answer (`Timer.Represents.follow`). Numbers of nodes, links, cursors
and the marks of regions that are not open therefore never show: along every run a timer and its
ledger answer alike (`Timer.replies_eq_ledger`).
-/

namespace Profiler.Timer

/-- The frame of an open node. -/
def frame (timer : Timer) (id : Nat) : Frame :=
  ⟨timer.path id, (timer.node id).marks.tracked timer.metrics⟩

/-- The entries are the totals of the nodes by their paths. -/
def Collected (timer : Timer) (entries : Keyed (List String) Totals) : Prop :=
  ∀ path totals, entries.get? path = some totals ↔
    ∃ id < timer.nodes.size, timer.path id = path ∧ (timer.node id).region.totals = totals

/-- The timer means the ledger. -/
structure Represents (timer : Timer) (ledger : Ledger) : Prop where
  top_eq : ledger.top = timer.topName
  metrics_eq : ledger.metrics = timer.metrics
  scope_eq : ledger.scope = timer.scope
  collected : timer.Collected ledger.entries
  frames_eq : ledger.frames = timer.openPath.map timer.frame

namespace Represents

variable {timer : Timer} {ledger : Ledger} (wf : timer.WellFormed) (h : timer.Represents ledger)
include h

/-! ### What the ledger knows of the timer -/

theorem now_eq (clock : Clock) : ledger.now clock = timer.reading clock := by
  rw [Ledger.now, reading, h.metrics_eq, h.scope_eq]

theorem totals_path {id : Nat} (hid : id < timer.nodes.size) :
    ledger.totals (timer.path id) = (timer.node id).region.totals := by
  have hget := (h.collected (timer.path id) _).mpr ⟨id, hid, rfl, rfl⟩
  rw [Ledger.totals, hget, Option.getD_some]

theorem totals_of_not_path {path : List String}
    (hpath : ∀ id < timer.nodes.size, timer.path id ≠ path) : ledger.totals path = {} := by
  cases hget : ledger.entries.get? path with
  | none => rw [Ledger.totals, hget, Option.getD_none]
  | some totals =>
    obtain ⟨id, hid, heq, -⟩ := (h.collected path totals).mp hget
    exact absurd heq (hpath id hid)

include wf

theorem nameOf_path {id : Nat} (hid : id < timer.nodes.size) :
    ledger.nameOf (timer.path id) = timer.nameOf id := by
  by_cases hzero : id = 0
  · rw [hzero, path_zero wf, Ledger.nameOf, h.top_eq]
    rfl
  · obtain ⟨parent, -, hparent⟩ := wf.exists_parent id hid hzero
    rw [path_of_parent wf hparent, Ledger.nameOf, List.getLast?_concat, Option.getD_some]

omit wf in
/-- The frames but the one at the bottom. -/
theorem inner_eq : ledger.inner = timer.openPath.dropLast.map timer.frame := by
  have hframes := congrArg List.dropLast h.frames_eq
  rwa [Ledger.frames, List.dropLast_concat, ← List.map_dropLast] at hframes

theorem bottom_eq : ledger.bottom = (timer.node 0).marks.tracked timer.metrics := by
  have hlast := congrArg List.getLast? h.frames_eq
  rw [Ledger.frames, List.getLast?_concat, List.getLast?_map, openPath_eq_lineage,
    getLast?_lineage wf wf.current_lt] at hlast
  exact congrArg Frame.entry (Option.some.inj hlast)

theorem path_eq : ledger.path = timer.path timer.current := by
  obtain ⟨outer, hpath⟩ := openPath_eq_cons wf
  rw [Ledger.path, inner_eq h, hpath]
  cases outer with
  | nil =>
    have hzero := (outer_eq_nil_iff_of_cons wf hpath).mp rfl
    rw [hzero, path_zero wf]
    rfl
  | cons _ outer => rfl

theorem currentName_eq : ledger.currentName = timer.currentName := by
  rw [Ledger.currentName, path_eq wf h, nameOf_path wf h wf.current_lt, currentName]

/-- What the ledger has under the path that a node has later on, be the node new or not. -/
theorem totals_before {later : Timer} (hextends : timer.Extends later) (wf' : later.WellFormed)
    {id : Nat} (hid : id < later.nodes.size) :
    ledger.totals (later.path id) = (timer.node id).region.totals := by
  by_cases hold : id < timer.nodes.size
  · rw [hextends.path_eq wf wf' hold, h.totals_path hold]
  · have hnew : ∀ other < timer.nodes.size, timer.path other ≠ later.path id := by
      intro other hother heq
      rw [← hextends.path_eq wf wf' hother] at heq
      have := path_injective wf' (lt_of_lt_of_le hother hextends.size_le) hid heq
      exact hold (this ▸ hother)
    rw [h.totals_of_not_path hnew, node_of_size_le timer (not_lt.mp hold)]
    rfl

end Represents

/-! ### The moves -/

section

variable {timer later : Timer} {ledger : Ledger} {target : Nat} {f : Totals → Totals}
  (wf : timer.WellFormed) (h : timer.Represents ledger) (htouches : timer.Touches later target f)
include wf htouches

theorem Touches.frame_eq {id : Nat} (hid : id < timer.nodes.size) (hne : id ≠ target) :
    later.frame id = timer.frame id := by
  rw [frame, frame, htouches.toExtends.path_eq wf htouches.wellFormed hid,
    htouches.marks_eq id hid hne, htouches.toExtends.metrics_eq]

/-- The frames of nodes other than the one that was touched. -/
theorem Touches.map_frame {ids : List Nat} (hids : ∀ id ∈ ids, id < timer.nodes.size)
    (hnot : target ∉ ids) : ids.map later.frame = ids.map timer.frame :=
  List.map_congr_left fun id hid =>
    htouches.frame_eq wf (hids id hid) fun heq => hnot (heq ▸ hid)

include h

/-- Touching a node is updating the entry of its path. -/
theorem Touches.collected :
    later.Collected (ledger.update (later.path target) f).entries := by
  have hpath := fun id (hid : id < timer.nodes.size) =>
    htouches.toExtends.path_eq wf htouches.wellFormed hid
  have hle := htouches.toExtends.size_le
  intro path totals
  show (ledger.entries.insert (later.path target) _).get? path = some totals ↔ _
  rw [Keyed.get?_insert,
    h.totals_before wf htouches.toExtends htouches.wellFormed htouches.target_lt]
  split_ifs with heq
  · rw [Option.some.injEq, ← htouches.totals_target]
    constructor
    · intro htotals
      exact ⟨target, htouches.target_lt, heq.symm, htotals⟩
    · rintro ⟨id, hid, hid', htotals⟩
      rwa [← path_injective htouches.wellFormed hid htouches.target_lt (hid'.trans heq)]
  · -- Another path is the path of another node, which was not touched.
    rw [h.collected path totals]
    constructor
    · rintro ⟨id, hid, hid', htotals⟩
      have hne : id ≠ target := by
        rintro rfl
        exact heq ((hpath id hid).trans hid').symm
      exact ⟨id, lt_of_lt_of_le hid hle, (hpath id hid).trans hid',
        (htouches.totals_eq id hid hne).trans htotals⟩
    · rintro ⟨id, hid, hid', htotals⟩
      have hne : id ≠ target := by
        rintro rfl
        exact heq hid'.symm
      have hlt := (htouches.lt_or_eq id hid).resolve_right hne
      exact ⟨id, hlt, (hpath id hlt).symm.trans hid',
        (htouches.totals_eq id hlt hne).symm.trans htotals⟩

/-- When a node is touched the timer means the ledger with the entry updated, if its frames are the
open nodes. -/
theorem Touches.represents {path : List String} {ledger' : Ledger}
    (hpath : later.path target = path)
    (hledger : ledger' = { ledger.update path f with
      bottom := ledger'.bottom, inner := ledger'.inner })
    (hframes : ledger'.frames = later.openPath.map later.frame) : later.Represents ledger' where
  top_eq := by
    rw [hledger]
    show ledger.top = _
    rw [h.top_eq, topName, topName, htouches.toExtends.nameOf_eq 0 wf.size_pos]
  metrics_eq := by
    rw [hledger]
    exact h.metrics_eq.trans htouches.toExtends.metrics_eq.symm
  scope_eq := by
    rw [hledger]
    exact h.scope_eq.trans htouches.toExtends.scope_eq.symm
  collected := by
    rw [hledger, ← hpath]
    exact htouches.collected wf h
  frames_eq := hframes

end

namespace Represents

variable {timer : Timer} {ledger : Ledger} (wf : timer.WellFormed) (h : timer.Represents ledger)
include wf h

theorem enter (name : String) (clock : Clock) :
    (timer.enter name clock).Represents (ledger.enter name clock) := by
  have hentered := entered_enter wf name clock
  have htouches := hentered.touches
  have hpath : (timer.enter name clock).path (timer.locateChild timer.current name).1 =
      ledger.path ++ [name] := by rw [hentered.path_eq, path_eq wf h]
  refine htouches.represents wf h hpath ?_ ?_
  · rw [Ledger.enter, h.metrics_eq]
  · show (⟨ledger.path ++ [name], ledger.now clock⟩ : Frame) :: ledger.frames = _
    rw [hentered.openPath_eq, List.map_cons, frame, hpath, htouches.toExtends.metrics_eq,
      hentered.tracked_eq, now_eq h,
      htouches.map_frame wf (fun id hid => lt_of_mem_openPath wf hid) hentered.not_mem, h.frames_eq]

theorem leave (clock : Clock) (hcurrent : timer.current ≠ 0) :
    (timer.leave clock).Represents (ledger.leave clock) := by
  have htouches := touches_leave wf clock hcurrent
  obtain ⟨outer, hopen, houter, hnot⟩ := exists_outer wf hcurrent
  have hinner : ledger.inner = timer.frame timer.current :: outer.dropLast.map timer.frame := by
    rw [inner_eq h, hopen, List.dropLast_cons_of_ne_nil houter, List.map_cons]
  have hleft : ledger.leave clock = { ledger.update (timer.path timer.current)
      (·.elapse ((timer.node timer.current).marks.tracked timer.metrics) (timer.reading clock)) with
      inner := outer.dropLast.map timer.frame } := by
    rw [Ledger.leave, hinner]
    dsimp only [frame]
    rw [now_eq h]
  have hpath := htouches.toExtends.path_eq wf htouches.wellFormed wf.current_lt
  rw [hleft]
  refine htouches.represents wf h hpath rfl ?_
  have hframes : timer.frame timer.current :: (outer.dropLast.map timer.frame ++
      [⟨[], ledger.bottom⟩]) = timer.frame timer.current :: outer.map timer.frame := by
    rw [← List.map_cons, ← hopen, ← h.frames_eq, Ledger.frames, hinner, List.cons_append]
  rw [openPath_leave wf clock houter hopen, htouches.map_frame wf _ hnot]
  · exact (List.cons.inj hframes).2
  · exact fun id hid => lt_of_mem_openPath wf (hopen ▸ List.mem_cons_of_mem _ hid)

theorem unwind (clock : Clock) {count : Nat} (hcount : count < timer.openPath.length) :
    (timer.unwind clock count).Represents (ledger.unwind clock count) := by
  induction count generalizing timer ledger with
  | zero => exact h
  | succ count ih =>
    obtain ⟨hcurrent, -, hlt⟩ := leave_of_lt wf clock hcount
    exact ih (wf.leave clock) (leave wf h clock hcurrent) hlt

theorem add (name : String) (addition : Addition) :
    (timer.add name addition).Represents (ledger.add name addition) := by
  by_cases haccepts : timer.metrics.accepts addition = true
  · have hadded := added_add wf name haccepts
    have htouches := hadded.touches
    rw [Ledger.add, h.metrics_eq, if_pos haccepts]
    refine htouches.represents wf h (hadded.path_eq.trans (by rw [path_eq wf h])) rfl ?_
    show ledger.frames = _
    rw [hadded.openPath_eq,
      htouches.map_frame wf (fun id hid => lt_of_mem_openPath wf hid) hadded.not_mem, h.frames_eq]
  · rw [add_of_not_accepts timer name haccepts, Ledger.add, h.metrics_eq, if_neg haccepts]
    exact h

theorem closeOut (clock : Clock) :
    (timer.closeOut clock).Represents (ledger.closeOut clock) := by
  have htouches := touches_closeOut wf clock
  have hzero : (timer.closeOut clock).path 0 = [] := path_zero htouches.wellFormed
  have hclosed : ledger.closeOut clock = { ledger.update []
      (·.elapse ((timer.node 0).marks.tracked timer.metrics) (timer.reading clock)) with
      bottom := timer.reading clock } := by
    rw [Ledger.closeOut, now_eq h, bottom_eq wf h]
  rw [hclosed]
  refine htouches.represents wf h hzero rfl ?_
  have hsplit : timer.openPath = timer.openPath.dropLast ++ [0] :=
    (List.dropLast_append_getLast? 0 (getLast?_lineage wf wf.current_lt)).symm
  have hnodup : (timer.openPath.dropLast ++ [0]).Nodup :=
    hsplit ▸ nodup_lineage wf wf.current_lt
  -- The frames of the other open regions have marks of their own.
  have hnot : 0 ∉ timer.openPath.dropLast := fun hmem =>
    (List.nodup_append.mp hnodup).2.2 0 hmem 0 (List.mem_singleton_self 0) rfl
  show ledger.inner ++ [(⟨[], timer.reading clock⟩ : Frame)] = _
  rw [openPath_closeOut wf, hsplit, List.map_append, List.map_singleton,
    htouches.map_frame wf _ hnot, ← inner_eq h, frame, hzero, htouches.toExtends.metrics_eq,
    tracked_closeOut wf]
  exact fun id hid => lt_of_mem_openPath wf (List.dropLast_subset _ hid)

end Represents

end Profiler.Timer

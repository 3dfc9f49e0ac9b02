import Profiler.Proofs.Timer.Checked
import Profiler.Proofs.Timer.Openings

/-!
# What an exit does, whatever the name

Open regions may have a name never, once or several times, and one that is nested may share the name
of the top-level region. An exit goes by the name alone: it stops at the first region of that name,
counted from the inside. `Timer.Exited` says what is closed on the way, what is answered and what is
left alone, and `Timer.refused_or_exited` that this, or a refusal without any effect, is all that an
exit ever comes to.
-/

namespace Profiler.Timer

/-- The timer after some nodes have been closed, one after the other. -/
def closeAll (timer : Timer) (clock : Clock) (ids : List Nat) : Timer :=
  ids.foldl (fun timer id => timer.closeNode id clock) timer

/-- What the exit of an open region closes, the innermost first: the regions nested in it and then
the region itself, unless it is the top-level one. -/
def exitClosings (inner : List Nat) (id : Nat) : List Nat := inner ++ if id = 0 then [] else [id]

/-- What an exit comes to where `id` is the innermost open region of the name, with `inner` nested
in it and `outer` around it. -/
structure Exited (timer : Timer) (name : String) (clock : Clock) (inner : List Nat) (id : Nat)
    (outer : List Nat) (outcome : Outcome) : Prop where
  openPath_eq : timer.openPath = inner ++ id :: outer
  nameOf_eq : timer.nameOf id = name
  nameOf_ne : ∀ other ∈ inner, timer.nameOf other ≠ name
  result_eq : outcome.result = if id = 0 then .error (.atTopLevel timer.topName) else .ok ()
  /-- It is said once if regions are nested in the one that is left, and not at all otherwise. -/
  events_eq : outcome.events = if inner = [] then [] else [.closingNested name timer.currentName]
  /-- The closings are all that happens to the nodes, ... -/
  timer_eq : outcome.timer =
    (timer.closeAll clock (exitClosings inner id)).goTo outcome.timer.current
  /-- ... no node is closed twice, ... -/
  nodup : (exitClosings inner id).Nodup
  /-- ... each is closed against its own marks, and the others stay as they are. -/
  node_eq : ∀ other, outcome.timer.node other =
    if other ∈ exitClosings inner id then (timer.node other).closed (timer.reading clock)
    else timer.node other
  size_eq : outcome.timer.nodes.size = timer.nodes.size
  /-- The top-level region stays open. -/
  path_eq : outcome.timer.openPath = if id = 0 then [0] else outer
  current_eq : some outcome.timer.current = if id = 0 then some 0 else outer.head?
  /-- The exit of the top-level region does nothing if no other region is open. -/
  eq_self : inner = [] → id = 0 → outcome.timer = timer

/-! ### Closings -/

theorem closeAll_goTo (timer : Timer) (clock : Clock) (ids : List Nat) (id : Nat) :
    (timer.goTo id).closeAll clock ids = (timer.closeAll clock ids).goTo id := by
  induction ids generalizing timer with
  | nil => rfl
  | cons first ids ih => exact ih (timer.closeNode first clock)

section

variable {timer : Timer} (wf : timer.WellFormed) (clock : Clock)
include wf

/-- **Unwinding is nothing but closing** the regions that are left, from the inside. -/
theorem unwind_eq_closeAll {count : Nat} (h : count < timer.openPath.length) :
    timer.unwind clock count = (timer.closeAll clock (timer.openPath.take count)).goTo
      (timer.unwind clock count).current := by
  induction count generalizing timer with
  | zero => rfl
  | succ count ih =>
    obtain ⟨hne, hpath, hlt⟩ := leave_of_lt wf clock h
    obtain ⟨parent, -, hparent⟩ := wf.exists_parent _ wf.current_lt hne
    have hrest := ih (wf.leave clock) hlt
    rw [leave_of_parent timer clock hparent, closeAll_goTo, goTo_goTo] at hrest
    rw [unwind, hpath, List.take_succ_cons, leave_of_parent timer clock hparent]
    exact hrest

variable {inner outer : List Nat} {id : Nat} (hpath : timer.openPath = inner ++ id :: outer)
include hpath

/-- What an exit closes is the innermost part of what is open, and never all of it. -/
theorem take_exitClosings :
    timer.openPath.take (exitClosings inner id).length = exitClosings inner id ∧
      (exitClosings inner id).length < timer.openPath.length := by
  have houter := outer_eq_nil_iff wf hpath
  unfold exitClosings
  rw [hpath]
  split_ifs with hid
  · simp
  · have hpos := List.length_pos_of_ne_nil (fun hnil => hid (houter.mp hnil))
    constructor
    · rw [List.length_append, List.take_length_add_append]
      rfl
    · simp only [List.length_append, List.length_cons, List.length_nil]
      omega

/-- An exit unwinds by what it closes. -/
theorem tryExit_eq_unwind {name : String} (hinner : ∀ other ∈ inner, timer.nameOf other ≠ name)
    (hname : timer.nameOf id = name) : timer.tryExit name clock =
      ⟨if id = 0 then .error (.atTopLevel timer.topName) else .ok (),
        if inner = [] then [] else [.closingNested name timer.currentName],
        timer.unwind clock (exitClosings inner id).length⟩ := by
  have houter := outer_eq_nil_iff wf hpath
  have hevents : timer.closingEvents name inner =
      if inner = [] then [] else [.closingNested name timer.currentName] := by
    cases inner <;> rfl
  rw [tryExit_of_open wf clock hpath hinner hname, hevents, exitClosings]
  by_cases hid : id = 0
  · have htop : timer.topName = name := by rw [topName, ← hid, hname]
    rw [if_pos (houter.mpr hid), if_pos hid, if_pos hid, htop, List.append_nil]
  · rw [if_neg (fun hnil => hid (houter.mp hnil)), if_neg hid, if_neg hid, List.length_append]
    rfl

theorem exited_tryExit {name : String} (hinner : ∀ other ∈ inner, timer.nameOf other ≠ name)
    (hname : timer.nameOf id = name) :
    timer.Exited name clock inner id outer (timer.tryExit name clock) := by
  obtain ⟨htake, hlength⟩ := take_exitClosings wf hpath
  have hclosings := unwind_eq_closeAll wf clock hlength
  have hnode := node_unwind wf clock hlength
  have hopen : (timer.unwind clock (exitClosings inner id).length).openPath =
      if id = 0 then [0] else outer := by
    rw [openPath_unwind wf clock hlength, hpath, exitClosings]
    split_ifs with hid
    · rw [List.append_nil, List.drop_left, (outer_eq_nil_iff wf hpath).mpr hid, hid]
    · rw [List.length_append, List.drop_length_add_append]
      rfl
  have hcurrent : (timer.unwind clock (exitClosings inner id).length).openPath.head? =
      some (timer.unwind clock (exitClosings inner id).length).current := by
    have wf' := wf.unwind clock (exitClosings inner id).length
    exact head?_lineage wf' wf'.current_lt
  have hnodup : timer.openPath.Nodup := nodup_lineage wf wf.current_lt
  rw [htake] at hclosings hnode
  rw [tryExit_eq_unwind wf clock hpath hinner hname]
  refine ⟨hpath, hname, hinner, rfl, rfl, hclosings, ?_, hnode, size_unwind wf clock _, hopen, ?_,
    ?_⟩
  · rw [← htake]
    exact hnodup.sublist (List.take_sublist _ _)
  · rw [← hcurrent, hopen]
    split_ifs <;> rfl
  · rintro rfl rfl
    rfl

end

/-- **What an exit comes to, whatever the name**, in every state of every timer. If no open region
has the name the exit is refused and nothing happens; otherwise the innermost region of the name is
left with all that is nested in it. The search for the name and the closings stop at the same region,
without a slip. What is refused is told by one more event. -/
theorem refused_or_exited (config : Config) (start : Clock) (orders : List (Clock × Order))
    (name : String) (clock : Clock) :
    let timer := (ofConfig config start).after orders
    let outcome := timer.tryExit name clock
    Checked.tryExit timer name clock = some outcome ∧
    ((∀ id ∈ timer.openPath, timer.nameOf id ≠ name) ∧
        outcome = ⟨.error (.regionNotOpen name timer.currentName), [], timer⟩ ∧
        timer.exit name clock =
          ([.exitIgnored name (.regionNotOpen name timer.currentName)], timer) ∧
        (timer.exit name clock).1.map Event.level = [.error] ∨
      ∃ inner id outer, timer.Exited name clock inner id outer outcome ∧
        timer.exit name clock =
          (outcome.events ++ if id = 0 then [.exitAtTopLevel name timer.topName] else [],
            outcome.timer) ∧
        (timer.exit name clock).1.map Event.level =
          (if inner = [] then [] else [.warn]) ++ if id = 0 then [.warn] else []) := by
  intro timer outcome
  have wf : timer.WellFormed := wellFormed_after config start orders
  refine ⟨Checked.tryExit_eq wf name clock, ?_⟩
  rcases not_open_or_innermost timer name with hnone | ⟨inner, id, outer, hpath, hinner, hname⟩
  · have hrefused : outcome = ⟨.error (.regionNotOpen name timer.currentName), [], timer⟩ :=
      tryExit_of_not_open clock hnone
    have hexit : timer.exit name clock =
        ([.exitIgnored name (.regionNotOpen name timer.currentName)], timer) := by
      rw [exit, tryExit_of_not_open clock hnone]
      rfl
    exact .inl ⟨hnone, hrefused, hexit, by rw [hexit]; rfl⟩
  · have exited : timer.Exited name clock inner id outer outcome :=
      exited_tryExit wf clock hpath hinner hname
    have hexit : timer.exit name clock =
        (outcome.events ++ if id = 0 then [.exitAtTopLevel name timer.topName] else [],
          outcome.timer) := by
      have hresult : (timer.tryExit name clock).result =
          if id = 0 then .error (.atTopLevel timer.topName) else .ok () := exited.result_eq
      rw [exit, hresult]
      split_ifs
      · rfl
      · rw [List.append_nil]
    refine .inr ⟨inner, id, outer, exited, hexit, ?_⟩
    rw [hexit, exited.events_eq]
    split_ifs <;> rfl

/-- The top-level region shares its name with one nested in it, which is the one that is left. -/
example : (((ofConfig { name := "a" } {}).enter "a" {}).enter "b" {}).exit "a" {} =
    ([.closingNested "a" "b"],
      ((((ofConfig { name := "a" } {}).enter "a" {}).enter "b" {}).leave {}).leave {}) := by
  decide +kernel

end Profiler.Timer

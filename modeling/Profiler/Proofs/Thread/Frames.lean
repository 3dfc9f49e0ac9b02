import Mathlib.Data.List.Induction
import Mathlib.Data.List.Nodup
import Mathlib.Logic.Function.Basic
import Profiler.Thread

/-!
# Frames and their guards

A guard keeps no more than a depth, and to drop it is to cut the stack down to that depth, whatever
was pushed or cut since. A `FrameHistory` tells the frames that a thread has pushed and the guards
that were dropped, and says which frames are left by it: `FrameHistory.standing` are those pushed
since which no guard has been dropped that keeps at most their depth. A thread is `Thread.Recorded`
if its stack is what its history says. Guards may be dropped in any order and long after their
frames are gone; all the same a frame that stands is at the depth that its guard keeps
(`FrameHistory.Arises.map_depth`), its guard has not been dropped (`FrameHistory.Arises.mem_live`),
and no frame falls by the guard of a later one (`FrameHistory.Arises.number_le`).
-/

namespace Profiler

/-- A frame that a thread has pushed, with the depth that its guard keeps. Frames are numbered in
the order in which they are pushed. -/
structure StackFrame where
  number : Nat
  depth : Nat
  site : CallSite
deriving DecidableEq

/-- Something that happens to the frames of a thread. -/
inductive FrameEvent where
  | pushed (frame : StackFrame)
  /-- The guard of a frame is dropped. -/
  | dropped (frame : StackFrame)
  /-- The thread ends. -/
  | ended
deriving DecidableEq

namespace FrameEvent

def pushed? : FrameEvent → Option StackFrame
  | pushed frame => some frame
  | _ => none

/-- Whether a frame stays on the stack. -/
def spares (frame : StackFrame) : FrameEvent → Bool
  | dropped guard => frame.depth < guard.depth
  | _ => true

end FrameEvent

/-- What has happened to the frames of a thread, the earliest first. -/
abbrev FrameHistory := List FrameEvent

namespace FrameHistory

/-- All frames that were pushed. -/
def pushes (history : FrameHistory) : List StackFrame := history.filterMap FrameEvent.pushed?

/-- The frames since whose push no guard has been dropped that keeps at most their depth. -/
def standing : FrameHistory → List StackFrame
  | [] => []
  | .pushed frame :: later =>
    if later.all (FrameEvent.spares frame) then frame :: standing later else standing later
  | _ :: later => standing later

/-- The frames whose guards have not been dropped. -/
def live (history : FrameHistory) : List StackFrame :=
  (pushes history).filter fun frame => .dropped frame ∉ history

/-- Every guard that was dropped was that of the latest frame with a live one. -/
def LastInFirstOut (history : FrameHistory) : Prop :=
  ∀ before frame later, history = before ++ .dropped frame :: later →
    (live before).getLast? = some frame

/-- The histories of threads: the guard of a new frame keeps the number of frames that stand, and
each guard is dropped at most once. -/
inductive Arises : FrameHistory → Prop
  | start : Arises []
  | push {history : FrameHistory} (h : Arises history) (site : CallSite) :
    Arises (history ++ [.pushed ⟨(pushes history).length, (standing history).length, site⟩])
  | drop {history : FrameHistory} (h : Arises history) {frame : StackFrame}
    (hlive : frame ∈ live history) : Arises (history ++ [.dropped frame])
  | finish {history : FrameHistory} (h : Arises history) : Arises (history ++ [.ended])

/-! ### One more event -/

theorem pushes_append (history rest : FrameHistory) :
    pushes (history ++ rest) = pushes history ++ pushes rest :=
  List.filterMap_append

theorem standing_append (history : FrameHistory) (event : FrameEvent) :
    standing (history ++ [event]) =
      ((standing history).filter fun frame => event.spares frame) ++ event.pushed?.toList := by
  induction history with
  | nil => cases event <;> rfl
  | cons first history ih =>
    cases first with
    | pushed frame =>
      rw [List.cons_append, standing, standing, ih, List.all_append, List.all_cons, List.all_nil,
        Bool.and_true]
      cases history.all (FrameEvent.spares frame) <;> cases hspares : event.spares frame <;>
        simp [hspares]
    | dropped frame => exact ih
    | ended => exact ih

theorem standing_push (history : FrameHistory) (frame : StackFrame) :
    standing (history ++ [.pushed frame]) = standing history ++ [frame] := by
  rw [standing_append]
  exact congrArg (· ++ [frame]) (List.filter_true _)

theorem standing_drop (history : FrameHistory) (guard : StackFrame) :
    standing (history ++ [.dropped guard]) =
      (standing history).filter fun frame => frame.depth < guard.depth := by
  rw [standing_append]
  exact List.append_nil _

theorem standing_finish (history : FrameHistory) :
    standing (history ++ [.ended]) = standing history := by
  rw [standing_append]
  exact (List.append_nil _).trans (List.filter_true _)

theorem all_spares_iff (history : FrameHistory) (frame : StackFrame) :
    history.all (FrameEvent.spares frame) ↔
      ∀ guard, .dropped guard ∈ history → frame.depth < guard.depth := by
  rw [List.all_eq_true]
  constructor
  · intro h guard hguard
    exact of_decide_eq_true (h _ hguard)
  · intro h event hevent
    cases event with
    | dropped guard => exact decide_eq_true (h guard hevent)
    | pushed _ | ended => rfl

/-- A frame stands exactly if since its push no guard was dropped that keeps at most its depth. -/
theorem mem_standing_iff (history : FrameHistory) (frame : StackFrame) :
    frame ∈ standing history ↔
      ∃ before later, history = before ++ .pushed frame :: later ∧
        ∀ guard, .dropped guard ∈ later → frame.depth < guard.depth := by
  induction history with
  | nil => simp [standing]
  | cons event history ih =>
    -- Either the first event is the push, or the push is among the later ones.
    have hsplit : (∃ before later, event :: history = before ++ .pushed frame :: later ∧
        ∀ guard, .dropped guard ∈ later → frame.depth < guard.depth) ↔
        (event = .pushed frame ∧ history.all (FrameEvent.spares frame)) ∨
          frame ∈ standing history := by
      rw [ih, all_spares_iff]
      constructor
      · rintro ⟨before, later, heq, hlater⟩
        cases before with
        | nil =>
          obtain ⟨rfl, rfl⟩ := List.cons.inj heq
          exact .inl ⟨rfl, hlater⟩
        | cons _ before =>
          obtain ⟨rfl, rfl⟩ := List.cons.inj heq
          exact .inr ⟨before, later, rfl, hlater⟩
      · rintro (⟨rfl, hlater⟩ | ⟨before, later, rfl, hlater⟩)
        · exact ⟨[], history, rfl, hlater⟩
        · exact ⟨event :: before, later, rfl, hlater⟩
    rw [hsplit]
    cases event with
    | pushed first =>
      rw [standing, FrameEvent.pushed.injEq]
      split_ifs with hall
      · rw [List.mem_cons, eq_comm (a := frame)]
        refine or_congr_left ⟨fun heq => ⟨heq, heq ▸ hall⟩, And.left⟩
      · exact (or_iff_right fun ⟨heq, hall'⟩ => hall (heq ▸ hall')).symm
    | dropped guard => simp [standing]
    | ended => simp [standing]

/-- The guard of `b` is stale when it is dropped, as `b` went with `a`. It takes `d` with it, which
is at the same depth. -/
example (a b c d : CallSite) :
    standing [.pushed ⟨0, 0, a⟩, .pushed ⟨1, 1, b⟩, .dropped ⟨0, 0, a⟩, .pushed ⟨2, 0, c⟩,
      .pushed ⟨3, 1, d⟩, .dropped ⟨1, 1, b⟩] = [⟨2, 0, c⟩] :=
  rfl

theorem standing_sublist (history : FrameHistory) :
    (standing history).Sublist (pushes history) := by
  induction history with
  | nil => exact List.Sublist.slnil
  | cons event history ih =>
    cases event with
    | pushed frame =>
      rw [standing]
      split
      · exact ih.cons_cons frame
      · exact ih.cons frame
    | dropped frame => exact ih
    | ended => exact ih

/-- The frames of a stack are numbered by their depths, so a depth tells how many of them are
outside of it. -/
theorem filter_depth_lt {frames : List StackFrame}
    (h : frames.map StackFrame.depth = List.range frames.length) (depth : Nat) :
    (frames.filter fun frame => frame.depth < depth) = frames.take depth := by
  induction frames using List.reverseRecOn with
  | nil => simp
  | append_singleton frames frame ih =>
    rw [List.map_append, List.length_append, List.length_singleton, List.range_succ] at h
    obtain ⟨hframes, hframe⟩ := List.append_inj' h rfl
    rw [List.filter_append, ih hframes]
    have hdepth : frame.depth = frames.length := List.singleton_inj.mp hframe
    by_cases hlt : frame.depth < depth
    · rw [List.take_of_length_le (by omega), List.take_of_length_le (by simp; omega)]
      simp [hlt]
    · rw [List.take_append_of_le_length (by omega)]
      simp [hlt]

namespace Arises

variable {history : FrameHistory} (h : Arises history)
include h

/-! ### Numbers and depths -/

/-- Frames are numbered in the order of their pushes. -/
theorem map_number :
    (pushes history).map StackFrame.number = List.range (pushes history).length := by
  induction h with
  | start => rfl
  | push h site ih =>
    rw [pushes_append, List.map_append, ih, List.length_append]
    exact List.range_succ.symm
  | drop h hlive ih => rwa [pushes_append, show pushes [.dropped _] = [] from rfl, List.append_nil]
  | finish h ih => rwa [pushes_append, show pushes [.ended] = [] from rfl, List.append_nil]

/-- **Every frame stands at the depth that its guard keeps.** -/
theorem map_depth :
    (standing history).map StackFrame.depth = List.range (standing history).length := by
  induction h with
  | start => rfl
  | push h site ih =>
    rw [standing_push, List.map_append, ih, List.length_append]
    exact List.range_succ.symm
  | drop h hlive ih =>
    rw [standing_drop, filter_depth_lt ih, List.map_take, ih, List.take_range, List.length_take]
  | finish h ih => rwa [standing_finish]

/-- Dropping a guard leaves just the outermost frames on the stack. -/
theorem standing_drop (guard : StackFrame) :
    standing (history ++ [.dropped guard]) = (standing history).take guard.depth := by
  rw [FrameHistory.standing_drop, filter_depth_lt h.map_depth]

theorem nodup_pushes : (pushes history).Nodup := by
  apply List.Nodup.of_map StackFrame.number
  rw [h.map_number]
  exact List.nodup_range

theorem pairwise_pushes :
    (pushes history).Pairwise fun frame later => frame.number < later.number := by
  refine List.pairwise_map.mp ?_
  rw [h.map_number]
  exact List.pairwise_lt_range

/-- The frames stand in the order in which they were pushed. -/
theorem pairwise_number :
    (standing history).Pairwise fun frame later => frame.number < later.number :=
  h.pairwise_pushes.sublist (standing_sublist history)

theorem number_lt {frame : StackFrame} (hframe : frame ∈ pushes history) :
    frame.number < (pushes history).length := by
  rw [← List.mem_range, ← h.map_number]
  exact List.mem_map_of_mem hframe

theorem depth_lt {frame : StackFrame} (hframe : frame ∈ standing history) :
    frame.depth < (standing history).length := by
  rw [← List.mem_range, ← h.map_depth]
  exact List.mem_map_of_mem hframe

/-! ### Live guards -/

theorem mem_pushes_of_dropped {frame : StackFrame} (hframe : .dropped frame ∈ history) :
    frame ∈ pushes history := by
  induction h with
  | start => cases hframe
  | push h site ih =>
    rw [pushes_append]
    refine List.mem_append_left _ (ih ?_)
    simpa using hframe
  | @drop history h guard hlive ih =>
    rw [pushes_append]
    refine List.mem_append_left _ ?_
    rcases List.mem_append.mp hframe with hbefore | hlast
    · exact ih hbefore
    · rw [FrameEvent.dropped.inj (List.mem_singleton.mp hlast)]
      exact List.mem_of_mem_filter hlive
  | finish h ih =>
    rw [pushes_append]
    refine List.mem_append_left _ (ih ?_)
    simpa using hframe

theorem live_push (site : CallSite) :
    live (history ++ [.pushed ⟨(pushes history).length, (standing history).length, site⟩]) =
      live history ++ [⟨(pushes history).length, (standing history).length, site⟩] := by
  have hnew : .dropped ⟨(pushes history).length, (standing history).length, site⟩ ∉ history :=
    fun hdropped => absurd (h.number_lt (h.mem_pushes_of_dropped hdropped)) (Nat.lt_irrefl _)
  rw [live, pushes_append, List.filter_append, live]
  congr 1
  · exact List.filter_congr fun frame _ => by simp
  · exact List.filter_cons_of_pos (by simpa using hnew)

omit h in
theorem live_drop (guard : StackFrame) :
    live (history ++ [.dropped guard]) = (live history).filter fun frame => frame ≠ guard := by
  rw [live, pushes_append, show pushes [.dropped guard] = [] from rfl, List.append_nil, live,
    List.filter_filter]
  refine List.filter_congr fun frame _ => ?_
  simp [and_comm]

omit h in
theorem live_finish : live (history ++ [.ended]) = live history := by
  rw [live, pushes_append, show pushes [.ended] = [] from rfl, List.append_nil, live]
  refine List.filter_congr fun frame _ => ?_
  simp

/-- **The guard of a frame that stands has not been dropped.** -/
theorem mem_live {frame : StackFrame} (hframe : frame ∈ standing history) :
    frame ∈ live history := by
  induction h with
  | start => cases hframe
  | push h site ih =>
    rw [standing_push] at hframe
    rw [h.live_push]
    rcases List.mem_append.mp hframe with hbefore | hlast
    · exact List.mem_append_left _ (ih hbefore)
    · exact List.mem_append_right _ hlast
  | drop h hlive ih =>
    rw [FrameHistory.standing_drop] at hframe
    obtain ⟨hbefore, hdepth⟩ := List.mem_filter.mp hframe
    rw [live_drop, List.mem_filter]
    refine ⟨ih hbefore, decide_eq_true ?_⟩
    rintro rfl
    exact absurd (of_decide_eq_true hdepth) (Nat.lt_irrefl _)
  | finish h ih =>
    rw [standing_finish] at hframe
    rw [live_finish]
    exact ih hframe

/-! ### Which guards cut a frame off -/

/-- The guards of frames that were pushed later keep greater depths than a frame that stands. -/
theorem depth_lt_of_number_lt {frame guard : StackFrame} (hframe : frame ∈ standing history)
    (hguard : guard ∈ pushes history) (hlt : frame.number < guard.number) :
    frame.depth < guard.depth := by
  induction h with
  | start => cases hframe
  | push h site ih =>
    rw [standing_push, List.mem_append, List.mem_singleton] at hframe
    rw [pushes_append, List.mem_append] at hguard
    rcases hframe with hframe | rfl
    · rcases hguard with hguard | hguard
      · exact ih hframe hguard
      · rw [List.mem_singleton.mp hguard]
        exact h.depth_lt hframe
    · rcases hguard with hguard | hguard
      · exact absurd (h.number_lt hguard) (Nat.lt_asymm hlt)
      · rw [List.mem_singleton.mp hguard] at hlt
        exact absurd hlt (Nat.lt_irrefl _)
  | drop h hlive ih =>
    rw [FrameHistory.standing_drop] at hframe
    rw [pushes_append, show pushes [.dropped _] = [] from rfl, List.append_nil] at hguard
    exact ih (List.mem_of_mem_filter hframe) hguard
  | finish h ih =>
    rw [standing_finish] at hframe
    rw [pushes_append, show pushes [.ended] = [] from rfl, List.append_nil] at hguard
    exact ih hframe hguard

end Arises

/-- Whatever a history is made of came from an earlier one. -/
theorem Arises.of_append {before later : FrameHistory} (h : Arises (before ++ later)) :
    Arises before := by
  induction later using List.reverseRecOn with
  | nil => rwa [List.append_nil] at h
  | append_singleton later event ih =>
    apply ih
    rw [← List.append_assoc] at h
    generalize hlast : before ++ later ++ [event] = history at h
    cases h with
    | start => simp at hlast
    | push h site | drop h hlive | finish h => exact (List.append_inj' hlast rfl).1 ▸ h

/-- **A frame only ever falls by its own guard or by that of an earlier frame.** -/
theorem Arises.number_le {before : FrameHistory} {event : FrameEvent}
    (h : Arises (before ++ [event])) {frame : StackFrame} (hframe : frame ∈ standing before)
    (hfalls : frame ∉ standing (before ++ [event])) :
    ∃ guard, event = .dropped guard ∧ guard.number ≤ frame.number := by
  have hbefore := h.of_append
  cases event with
  | pushed other =>
    rw [standing_push] at hfalls
    exact absurd (List.mem_append_left _ hframe) hfalls
  | dropped guard =>
    refine ⟨guard, rfl, Nat.le_of_not_lt fun hlt => hfalls ?_⟩
    have hguard : guard ∈ pushes before := by
      have hmem := h.mem_pushes_of_dropped (List.mem_append_right _ (List.mem_singleton_self _))
      rwa [pushes_append, show pushes [.dropped guard] = [] from rfl, List.append_nil] at hmem
    rw [FrameHistory.standing_drop, List.mem_filter]
    exact ⟨hframe, decide_eq_true (hbefore.depth_lt_of_number_lt hframe hguard hlt)⟩
  | ended =>
    rw [standing_finish] at hfalls
    exact absurd hframe hfalls

theorem LastInFirstOut.of_append {before later : FrameHistory}
    (h : LastInFirstOut (before ++ later)) : LastInFirstOut before := by
  rintro first frame rest rfl
  exact h first frame (rest ++ later) (by simp)

/-- **Where guards are dropped in the reverse order, the frames with live guards stand.** -/
theorem Arises.standing_eq_live {history : FrameHistory} (h : Arises history)
    (hlast : LastInFirstOut history) : standing history = live history := by
  induction h with
  | start => rfl
  | push h site ih => rw [standing_push, h.live_push, ih hlast.of_append]
  | @drop history h guard hlive ih =>
    have heq := ih hlast.of_append
    obtain ⟨inner, hinner⟩ := List.getLast?_eq_some_iff.mp (hlast history guard [] rfl)
    have hdepth : guard.depth = inner.length := by
      have hmap := h.map_depth
      rw [heq, hinner, List.map_append, List.length_append, List.length_singleton,
        List.range_succ] at hmap
      exact List.singleton_inj.mp (List.append_inj' hmap rfl).2
    have hnodup : (inner ++ [guard]).Nodup := hinner ▸ h.nodup_pushes.filter _
    rw [h.standing_drop, live_drop, heq, hinner, hdepth, List.take_left, List.filter_append]
    have hguard : [guard].filter (fun frame => decide (frame ≠ guard)) = [] := by simp
    rw [hguard, List.append_nil, List.filter_eq_self.mpr]
    intro frame hframe
    refine decide_eq_true fun heq => ?_
    exact (List.nodup_append.mp hnodup).2.2 frame hframe guard (List.mem_singleton_self _) heq
  | finish h ih => rw [standing_finish, live_finish, ih hlast.of_append]

end FrameHistory

/-! ### Threads -/

open FrameHistory

/-- The history of a thread, and the frames whose guards it holds, by key. -/
structure FrameWatch where
  history : FrameHistory := []
  guards : String → Option StackFrame := fun _ => none

namespace FrameWatch

/-- The frame under a key has been ended, if there is one. -/
def endFrame (watch : FrameWatch) (key : String) : FrameWatch where
  history := watch.history ++ (watch.guards key).toList.map .dropped
  guards := Function.update watch.guards key none

/-- The next frame, if its guard keeps that depth. -/
def next (watch : FrameWatch) (depth : Nat) (site : CallSite) : StackFrame :=
  ⟨(pushes watch.history).length, depth, site⟩

/-- A frame has been pushed whose guard takes the place of the one that was under the key. -/
def push (watch : FrameWatch) (key : String) (depth : Nat) (site : CallSite) : FrameWatch where
  history := watch.history ++ [.pushed (watch.next depth site)]
    ++ (watch.guards key).toList.map .dropped
  guards := Function.update watch.guards key (some (watch.next depth site))

/-- The thread has ended, and before that dropped the guards that it still held. -/
def finish (watch : FrameWatch) (keys : List String) : FrameWatch :=
  let last := keys.foldl endFrame watch
  { last with history := last.history ++ [.ended] }

theorem guards_endFrame (watch : FrameWatch) (key other : String) :
    (watch.endFrame key).guards other = if other = key then none else watch.guards other :=
  Function.update_apply _ _ _ _

theorem guards_push (watch : FrameWatch) (key other : String) (depth : Nat) (site : CallSite) :
    (watch.push key depth site).guards other =
      if other = key then some (watch.next depth site) else watch.guards other :=
  Function.update_apply _ _ _ _

section

variable {watch : FrameWatch} {key : String}

theorem endFrame_of_none (h : watch.guards key = none) : watch.endFrame key = watch := by
  rw [endFrame, h, ← h, Function.update_eq_self, h]
  exact congrArg (FrameWatch.mk · watch.guards) (List.append_nil _)

theorem history_endFrame {guard : StackFrame} (h : watch.guards key = some guard) :
    (watch.endFrame key).history = watch.history ++ [.dropped guard] := by
  rw [endFrame, h]
  rfl

theorem history_push_of_none (h : watch.guards key = none) (depth : Nat) (site : CallSite) :
    (watch.push key depth site).history = watch.history ++ [.pushed (watch.next depth site)] := by
  rw [push, h]
  exact List.append_nil _

theorem history_push_of_some {guard : StackFrame} (h : watch.guards key = some guard) (depth : Nat)
    (site : CallSite) : (watch.push key depth site).history =
      watch.history ++ [.pushed (watch.next depth site)] ++ [.dropped guard] := by
  rw [push, h]
  rfl

end

theorem guards_foldl_endFrame (watch : FrameWatch) (keys : List String) (key : String) :
    (keys.foldl endFrame watch).guards key = if key ∈ keys then none else watch.guards key := by
  induction keys generalizing watch with
  | nil => rfl
  | cons first keys ih =>
    rw [List.foldl_cons, ih, guards_endFrame]
    by_cases hfirst : key = first <;> by_cases hmem : key ∈ keys <;> simp [hfirst, hmem]

/-- The watch holds just the live guards, each under one key. -/
structure Sound (watch : FrameWatch) : Prop where
  arises : Arises watch.history
  mem_live_iff : ∀ frame, frame ∈ live watch.history ↔ ∃ key, watch.guards key = some frame
  key_eq : ∀ {key other frame}, watch.guards key = some frame → watch.guards other = some frame →
    key = other

theorem sound_empty : Sound {} where
  arises := .start
  mem_live_iff frame := by simp [live, pushes]
  key_eq := nofun

namespace Sound

variable {watch : FrameWatch} (h : watch.Sound)
include h

theorem mem_live {key : String} {frame : StackFrame} (hkey : watch.guards key = some frame) :
    frame ∈ live watch.history :=
  (h.mem_live_iff frame).mpr ⟨key, hkey⟩

theorem endFrame (key : String) : (watch.endFrame key).Sound := by
  cases hkey : watch.guards key with
  | none => rwa [endFrame_of_none hkey]
  | some guard =>
    have hhistory := history_endFrame hkey
    have hguards : ∀ other frame, (watch.endFrame key).guards other = some frame ↔
        watch.guards other = some frame ∧ frame ≠ guard := by
      intro other frame
      rw [guards_endFrame]
      split_ifs with hother
      · simp [hother, hkey, eq_comm]
      · exact (and_iff_left_of_imp fun hframe heq => hother (h.key_eq (heq ▸ hframe) hkey)).symm
    refine ⟨?_, fun frame => ?_, fun hframe hother => ?_⟩
    · rw [hhistory]
      exact h.arises.drop (h.mem_live hkey)
    · rw [hhistory, Arises.live_drop, List.mem_filter, h.mem_live_iff, decide_eq_true_iff]
      simp only [hguards, exists_and_right]
    · exact h.key_eq ((hguards _ _).mp hframe).1 ((hguards _ _).mp hother).1

theorem foldl_endFrame (keys : List String) : (keys.foldl FrameWatch.endFrame watch).Sound := by
  induction keys generalizing watch with
  | nil => exact h
  | cons key keys ih => exact ih (h.endFrame key)

/-- The history of a push, which may drop the guard that was under the key. -/
theorem arises_push (key : String) (site : CallSite) :
    Arises (watch.push key (standing watch.history).length site).history ∧
      ∀ frame, frame ∈ live (watch.push key (standing watch.history).length site).history ↔
        (frame ∈ live watch.history ∨ frame = watch.next (standing watch.history).length site) ∧
          watch.guards key ≠ some frame := by
  have hpush := h.arises.push site
  have hmem : ∀ frame, frame ∈ live (watch.history ++
      [.pushed (watch.next (standing watch.history).length site)]) ↔
        frame ∈ live watch.history ∨ frame = watch.next (standing watch.history).length site := by
    intro frame
    rw [next, h.arises.live_push, List.mem_append, List.mem_singleton]
  cases hkey : watch.guards key with
  | none =>
    rw [history_push_of_none hkey]
    exact ⟨hpush, fun frame => (hmem frame).trans (and_iff_left nofun).symm⟩
  | some guard =>
    rw [history_push_of_some hkey]
    refine ⟨hpush.drop ((hmem guard).mpr (.inl (h.mem_live hkey))), fun frame => ?_⟩
    rw [Arises.live_drop, List.mem_filter, hmem, decide_eq_true_iff]
    exact and_congr_right fun _ => ⟨fun hne heq => hne (Option.some.inj heq).symm,
      fun hne heq => hne (congrArg some heq.symm)⟩

theorem push (key : String) (site : CallSite) :
    (watch.push key (standing watch.history).length site).Sound := by
  obtain ⟨harises, hlive⟩ := h.arises_push key site
  set frame := watch.next (standing watch.history).length site with hframe
  have hnew : ∀ other, watch.guards other ≠ some frame := fun other hother =>
    Nat.lt_irrefl _ (h.arises.number_lt (List.mem_of_mem_filter (h.mem_live hother)))
  refine ⟨harises, fun other => ?_, ?_⟩
  · rw [hlive, h.mem_live_iff]
    constructor
    · rintro ⟨⟨key', hkey'⟩ | rfl, hne⟩
      · refine ⟨key', ?_⟩
        have hne' : key' ≠ key := by
          rintro rfl
          exact hne hkey'
        rw [guards_push, if_neg hne']
        exact hkey'
      · exact ⟨key, by rw [guards_push, if_pos rfl]⟩
    · rintro ⟨key', hkey'⟩
      rw [guards_push] at hkey'
      split_ifs at hkey' with heq
      · obtain rfl := Option.some.inj hkey'
        exact ⟨.inr rfl, hnew key⟩
      · exact ⟨.inl ⟨key', hkey'⟩, fun hold => heq (h.key_eq hkey' hold)⟩
  · intro key' other frame' hkey' hother
    rw [guards_push] at hkey' hother
    split_ifs at hkey' hother with heq heq'
    · rw [heq, heq']
    · obtain rfl := Option.some.inj hkey'
      exact absurd hother (hnew other)
    · obtain rfl := Option.some.inj hother
      exact absurd hkey' (hnew key')
    · exact h.key_eq hkey' hother

/-- All guards are dropped when the thread ends. -/
theorem finish {keys : List String} (hkeys : ∀ key, key ∉ keys → watch.guards key = none) :
    (watch.finish keys).Sound ∧ standing (watch.finish keys).history = [] ∧
      ∀ key, (watch.finish keys).guards key = none := by
  have hlast := h.foldl_endFrame keys
  have hnone : ∀ key, (keys.foldl FrameWatch.endFrame watch).guards key = none := by
    intro key
    rw [guards_foldl_endFrame]
    split_ifs with hmem
    · rfl
    · exact hkeys key hmem
  refine ⟨⟨hlast.arises.finish, fun frame => ?_, hlast.key_eq⟩, ?_, hnone⟩
  · rw [FrameWatch.finish, Arises.live_finish, hlast.mem_live_iff]
  · rw [FrameWatch.finish, standing_finish, List.eq_nil_iff_forall_not_mem]
    intro frame hframe
    obtain ⟨key, hkey⟩ := (hlast.mem_live_iff frame).mp (hlast.arises.mem_live hframe)
    rw [hnone key] at hkey
    cases hkey

end Sound

end FrameWatch

namespace Thread

/-- The stack of the thread is what the watch says, and its guards are those that are live. -/
structure Recorded (thread : Thread) (watch : FrameWatch) : Prop where
  sound : watch.Sound
  frames_eq : thread.stack.frames = (standing watch.history).map StackFrame.site
  guards_eq : ∀ key, thread.guards.get? key = (watch.guards key).map StackFrame.depth

namespace Recorded

variable {thread : Thread} {watch : FrameWatch} (h : thread.Recorded watch)
include h

theorem depth_eq : thread.stack.depth = (standing watch.history).length := by
  rw [CallStack.depth, h.frames_eq, List.length_map]

theorem push (key : String) (site : CallSite) :
    (thread.push key site).Recorded (watch.push key thread.stack.depth site) := by
  rw [h.depth_eq]
  refine ⟨h.sound.push key site, ?_, fun other => ?_⟩
  · have hpushed : (thread.stack.push site).frames = (standing (watch.history ++
        [.pushed (watch.next (standing watch.history).length site)])).map StackFrame.site := by
      rw [standing_push, List.map_append, CallStack.frames_push, h.frames_eq]
      rfl
    rw [Thread.push, h.guards_eq key]
    cases hkey : watch.guards key with
    | none =>
      rw [FrameWatch.history_push_of_none hkey]
      exact hpushed
    | some guard =>
      have hstanding := (h.sound.arises.push site).standing_drop guard
      rw [FrameWatch.history_push_of_some hkey]
      show ((thread.stack.push site).truncate guard.depth).frames = _
      rw [CallStack.frames_truncate, hpushed, FrameWatch.next, hstanding, List.map_take]
  · show (thread.guards.insert key thread.stack.depth).get? other = _
    rw [Keyed.get?_insert, FrameWatch.guards_push, h.guards_eq, h.depth_eq]
    split_ifs <;> rfl

theorem endFrame (key : String) :
    ((thread.endFrame? key).getD thread).Recorded (watch.endFrame key) := by
  have hguards := h.guards_eq key
  refine ⟨h.sound.endFrame key, ?_, fun other => ?_⟩
  · rw [endFrame?, hguards]
    cases hkey : watch.guards key with
    | none =>
      rw [FrameWatch.endFrame_of_none hkey]
      exact h.frames_eq
    | some guard =>
      rw [FrameWatch.history_endFrame hkey, h.sound.arises.standing_drop, List.map_take,
        ← h.frames_eq]
      rfl
  · rw [endFrame?, hguards, FrameWatch.guards_endFrame]
    cases hkey : watch.guards key with
    | none =>
      show thread.guards.get? other = _
      rw [h.guards_eq]
      split_ifs with heq
      · rw [heq, hkey]
      · rfl
    | some guard =>
      show (thread.guards.erase key).get? other = _
      rw [Keyed.get?_erase, h.guards_eq]
      split_ifs <;> rfl

theorem finish : thread.finish.Recorded (watch.finish thread.guards.keys) := by
  have hkeys : ∀ key, key ∉ thread.guards.keys → watch.guards key = none := by
    intro key hkey
    by_contra hsome
    obtain ⟨frame, hframe⟩ := Option.ne_none_iff_exists'.mp hsome
    refine hkey ((Keyed.mem_keys_iff _ _).mpr ⟨frame.depth, ?_⟩)
    rw [h.guards_eq, hframe]
    rfl
  obtain ⟨hsound, hstanding, hnone⟩ := h.sound.finish hkeys
  refine ⟨hsound, ?_, fun key => ?_⟩
  · rw [hstanding]
    rfl
  · rw [hnone]
    rfl

end Recorded

/-- A thread that has done nothing yet. -/
theorem recorded_new (name : String) (alive : Bool) : Recorded { name, alive } {} where
  sound := FrameWatch.sound_empty
  frames_eq := rfl
  guards_eq _ := rfl

end Thread

end Profiler

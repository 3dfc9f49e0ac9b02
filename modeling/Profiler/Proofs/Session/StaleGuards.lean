import Mathlib.Data.List.TakeDrop
import Profiler.Proofs.Session.Frames

/-!
# Guards that outlive their frames

When a guard is dropped before those of later frames, their frames go with its own and leave stale
guards behind. A stale guard still keeps a depth, and by the time that it is dropped other frames may
have come to be that deep. `Session.GuardsOf` says when its drop changes nothing, which is not
always, and which frames can be taken away by it: those pushed while it was already stale, at its
depth or deeper. No other frame is lost to a guard that is neither its own nor that of a frame around
it.
-/

namespace Profiler

namespace FrameHistory

/-- The guard has not been dropped, but its frame is gone. -/
def Stale (history : FrameHistory) (guard : StackFrame) : Prop :=
  guard ∈ live history ∧ guard ∉ standing history

theorem mem_pushes_iff (history : FrameHistory) (frame : StackFrame) :
    frame ∈ pushes history ↔ .pushed frame ∈ history := by
  rw [pushes, List.mem_filterMap]
  constructor
  · rintro ⟨event, hevent, hpushed⟩
    cases event with
    | pushed other => rwa [← Option.some.inj hpushed]
    | dropped _ | ended => cases hpushed
  · exact fun hframe => ⟨_, hframe, rfl⟩

theorem pushes_append_cons (before later : FrameHistory) (frame : StackFrame) :
    pushes (before ++ .pushed frame :: later) = pushes before ++ frame :: pushes later :=
  pushes_append before (.pushed frame :: later)

/-- A guard that is not dropped in a history is not dropped in the beginning of it. -/
theorem mem_live_of_append {before later : FrameHistory} {guard : StackFrame}
    (h : guard ∈ live (before ++ later)) (hpushed : guard ∈ pushes before) :
    guard ∈ live before := by
  have hdropped := of_decide_eq_true (List.mem_filter.mp h).2
  exact List.mem_filter.mpr
    ⟨hpushed, decide_eq_true fun hbefore => hdropped (List.mem_append_left _ hbefore)⟩

namespace Arises

theorem mem_live_of_dropped {history : FrameHistory} {guard : StackFrame}
    (h : Arises (history ++ [.dropped guard])) : guard ∈ live history := by
  generalize hlast : history ++ [.dropped guard] = whole at h
  cases h with
  | start => simp at hlast
  | push h site =>
    have hevent := (List.append_inj' hlast rfl).2
    cases hevent
  | drop h hlive =>
    obtain ⟨rfl, hevent⟩ := List.append_inj' hlast rfl
    cases hevent
    exact hlive
  | finish h =>
    have hevent := (List.append_inj' hlast rfl).2
    cases hevent

section

variable {before later : FrameHistory} {frame : StackFrame}
  (h : Arises (before ++ .pushed frame :: later))
include h

/-- Frames that are pushed later have higher numbers. -/
theorem number_lt_of_later {other : StackFrame} (hother : other ∈ pushes later) :
    frame.number < other.number := by
  have hpairwise := h.pairwise_pushes
  rw [pushes_append_cons, List.pairwise_append, List.pairwise_cons] at hpairwise
  exact hpairwise.2.1.1 other hother

/-- A frame that stands has not met a guard that keeps at most its depth. -/
theorem depth_lt_of_dropped (hframe : frame ∈ standing (before ++ .pushed frame :: later))
    {guard : StackFrame} (hguard : .dropped guard ∈ later) : frame.depth < guard.depth := by
  obtain ⟨before', later', heq, hlater⟩ := (mem_standing_iff _ _).mp hframe
  have hnodup := h.nodup_pushes
  rw [pushes_append_cons] at hnodup
  obtain ⟨-, hcons, hdisjoint⟩ := List.nodup_append.mp hnodup
  -- It was pushed only once.
  have hbefore : FrameEvent.pushed frame ∉ before := fun hmem =>
    hdisjoint frame ((mem_pushes_iff _ _).mpr hmem) frame (List.mem_cons_self ..) rfl
  have hlater' : FrameEvent.pushed frame ∉ later := fun hmem =>
    (List.nodup_cons.mp hcons).1 ((mem_pushes_iff _ _).mpr hmem)
  obtain ⟨-, -, rfl⟩ := (List.append_cons_inj_of_notMem hbefore hlater').mp heq
  exact hlater guard hguard

/-- **What a frame can fall by** while its own guard and those of the frames around it are held is
a guard that was stale when it was pushed. -/
theorem mem_standing_of_held (hown : .dropped frame ∉ later)
    (houter : ∀ outer ∈ standing before, .dropped outer ∉ later)
    (hstale : ∀ guard, Stale before guard → .dropped guard ∈ later → frame.depth < guard.depth) :
    frame ∈ standing (before ++ .pushed frame :: later) := by
  induction later using List.reverseRecOn with
  | nil =>
    rw [standing_push]
    exact List.mem_append_right _ (List.mem_singleton_self _)
  | append_singleton later event ih =>
    have hsplit : before ++ .pushed frame :: (later ++ [event]) =
        (before ++ .pushed frame :: later) ++ [event] := by simp
    rw [hsplit] at h
    have hbefore := h.of_append
    have hstands := ih hbefore (fun hmem => hown (List.mem_append_left _ hmem))
      (fun outer hmem hdropped => houter outer hmem (List.mem_append_left _ hdropped))
      fun guard hguard hdropped => hstale guard hguard (List.mem_append_left _ hdropped)
    rw [hsplit, standing_append]
    refine List.mem_append_left _ (List.mem_filter.mpr ⟨hstands, ?_⟩)
    cases event with
    | pushed _ | ended => rfl
    | dropped guard =>
      have hlast : FrameEvent.dropped guard ∈ later ++ [.dropped guard] := by simp
      have hlive := h.mem_live_of_dropped
      have hpushed := List.mem_of_mem_filter hlive
      refine decide_eq_true ?_
      rw [pushes_append_cons] at hpushed
      rcases List.mem_append.mp hpushed with hearlier | hcons
      · by_cases hguard : guard ∈ standing before
        · exact absurd hlast (houter guard hguard)
        · exact hstale guard ⟨mem_live_of_append hlive hearlier, hguard⟩ hlast
      · rcases List.mem_cons.mp hcons with rfl | hlater
        · exact absurd hlast hown
        · exact hbefore.depth_lt_of_number_lt hstands (List.mem_of_mem_filter hlive)
            (hbefore.number_lt_of_later hlater)

end

end Arises

end FrameHistory

/-! ### Threads of a session -/

open FrameHistory

namespace Session

/-- What the guards that the thread `id` holds can do to its frames, as far as the watch has followed
it. -/
structure GuardsOf (id : ThreadId) (session : Session) (watch : FrameWatch) : Prop where
  /-- The drop of a guard leaves as many frames as its depth says, ... -/
  frames_eq : ∀ thread key guard, session.threadId thread = id → watch.guards key = some guard →
    ((session.step ⟨thread, .stack (.endFrame key)⟩).2.thread id).stack.frames =
      (session.thread id).stack.frames.take guard.depth
  /-- ... so that a stale guard, like any other, leaves the stack as it is exactly if no frame is as
  deep as it says. -/
  eq_self_iff : ∀ thread key guard, session.threadId thread = id → watch.guards key = some guard →
    (((session.step ⟨thread, .stack (.endFrame key)⟩).2.thread id).stack = (session.thread id).stack ↔
      (session.thread id).stack.depth ≤ guard.depth)
  /-- While its own guard and those of the frames around it are held, a frame stays on the stack
  exactly if no guard is dropped that was stale when it was pushed and keeps at most its depth. -/
  stands_iff : ∀ before frame later, watch.history = before ++ .pushed frame :: later →
    .dropped frame ∉ later → (∀ outer ∈ standing before, .dropped outer ∉ later) →
      (frame ∈ standing watch.history ↔
        ∀ guard, Stale before guard → .dropped guard ∈ later → frame.depth < guard.depth)
  /-- A frame that stays is on the stack at its depth, ... -/
  getElem?_frames : ∀ frame ∈ standing watch.history,
    (session.thread id).stack.frames[frame.depth]? = some frame.site
  /-- ... and the innermost of them is what samplers see. -/
  top?_eq : .ended ∉ watch.history →
    session.top? id = (standing watch.history).getLast?.map StackFrame.site

/-- **A stale guard is not always inert.** In every state of every session, this is what the drop of
a guard does, and these are the frames that can be lost by the drop of another one's guard. -/
theorem guardsOf_after (steps : List Step) (id : ThreadId) :
    GuardsOf id (start.after steps) (FrameWatch.after {} id start steps) := by
  have records := (records_start id).after steps
  have arises := records.recorded.sound.arises
  set session := start.after steps
  set watch := FrameWatch.after {} id start steps
  have hended : ∀ thread key guard, session.threadId thread = id →
      watch.guards key = some guard →
      ((session.step ⟨thread, .stack (.endFrame key)⟩).2.thread id).stack =
        (session.thread id).stack.truncate guard.depth := by
    rintro thread key guard hthread hguard
    have hlt : id < session.threads.size := hthread ▸ records.threadId_lt thread
    have hdepth : (session.thread id).guards.get? key = some guard.depth := by
      rw [records.recorded.guards_eq, hguard]
      rfl
    show ((session.stackStep (session.threadId thread) (.endFrame key)).2.thread id).stack = _
    rw [hthread, stackStep, Thread.endFrame?, hdepth]
    dsimp only [Option.map_some]
    rw [thread_setThread, if_pos ⟨rfl, hlt⟩]
  refine ⟨?_, ?_, ?_, ?_, ?_⟩
  · intro thread key guard hthread hguard
    rw [hended thread key guard hthread hguard, CallStack.frames_truncate]
  · intro thread key guard hthread hguard
    rw [hended thread key guard hthread hguard, CallStack.depth, ← List.take_eq_self_iff]
    exact ⟨congrArg CallStack.frames, congrArg CallStack.mk⟩
  · intro before frame later heq hown houter
    rw [heq] at arises ⊢
    exact ⟨fun hstands guard _ hguard => arises.depth_lt_of_dropped hstands hguard,
      arises.mem_standing_of_held hown houter⟩
  · intro frame hframe
    obtain ⟨depth, hdepth⟩ := List.getElem?_of_mem hframe
    obtain rfl := (framesOf_after steps id).depth_eq depth frame hdepth
    rw [records.recorded.frames_eq, List.getElem?_map, hdepth]
    rfl
  · intro halive
    by_cases hlt : id < session.threads.size
    · rw [top?, Thread.top?, if_pos ((records.alive_iff hlt).mpr halive), CallStack.top?,
        records.recorded.frames_eq, List.getLast?_map]
    · have hnone : (session.thread id).alive = false := by
        rw [Session.thread, Array.getD_eq_getD_getElem?, Array.getElem?_eq_none (not_lt.mp hlt)]
        rfl
      rw [top?, Thread.top?, hnone, records.unborn (not_lt.mp hlt)]
      rfl

/-! ### A guard that takes another one's frame -/

/-- The frame of `b` goes with the guard of `a`, and then `d` comes to be where `b` was. -/
def overtaken (a b c d : CallSite) : List Step :=
  [⟨"main", .stack (.push "a" a)⟩, ⟨"main", .stack (.push "b" b)⟩, ⟨"main", .stack (.endFrame "a")⟩,
    ⟨"main", .stack (.push "c" c)⟩, ⟨"main", .stack (.push "d" d)⟩]

/-- The guard of `b` is stale, and those of `c` and `d` are held; all the same the drop of the
guard of `b` takes `d` off the stack, and the sampler sees `c`. -/
theorem endFrame_takes_held :
    let a : CallSite := ⟨"A", "outer"⟩
    let b : CallSite := ⟨"B", "inner"⟩
    let c : CallSite := ⟨"C", "next"⟩
    let d : CallSite := ⟨"D", "leaf"⟩
    let session := start.after (overtaken a b c d)
    let watch := FrameWatch.after {} 0 start (overtaken a b c d)
    let ended := session.step ⟨"main", .stack (.endFrame "b")⟩
    watch.guards "b" = some ⟨1, 1, b⟩ ∧ Stale watch.history ⟨1, 1, b⟩ ∧
      watch.guards "c" = some ⟨2, 0, c⟩ ∧ watch.guards "d" = some ⟨3, 1, d⟩ ∧
      (session.thread 0).stack = ⟨[c, d]⟩ ∧ session.top? 0 = some d ∧
      (ended.2.thread 0).stack = ⟨[c]⟩ ∧ ended.2.top? 0 = some c := by
  unfold Stale
  decide +kernel

end Session

end Profiler

import Profiler.Proofs.Session.Parts
import Profiler.Proofs.Thread.Frames

/-!
# The frames of the threads of a session

`FrameWatch.after` follows what a session does to the frames of one thread, and `Session.FramesOf`
says that at any time the stack of the thread is what its history tells, whatever the other threads
do in the meantime, and that everyone who observes the thread sees the innermost of its frames until
the thread ends.
-/

namespace Profiler

open FrameHistory

namespace FrameWatch

/-- What a thread does with its own frames. -/
def follow (watch : FrameWatch) (thread : Thread) : Session.StackAction → FrameWatch
  | .push key site => watch.push key thread.stack.depth site
  | .endFrame key => watch.endFrame key
  | _ => watch

/-- What a step of a session does to the frames of the thread `id`. -/
def step (watch : FrameWatch) (id : ThreadId) (session : Session) (step : Session.Step) :
    FrameWatch :=
  match step.action with
  | .stack action =>
    if session.threadId step.thread = id then watch.follow (session.thread id) action else watch
  | .thread (.join key) =>
    if session.threadIds.get? key = some id then watch.finish (session.thread id).guards.keys
    else watch
  | _ => watch

/-- What steps that are taken one after the other do to the frames of the thread `id`. -/
def after (watch : FrameWatch) (id : ThreadId) (session : Session) : List Session.Step → FrameWatch
  | [] => watch
  | step :: rest => (watch.step id session step).after id (session.step step).2 rest

theorem ended_mem_follow (watch : FrameWatch) (thread : Thread) (action : Session.StackAction) :
    .ended ∈ (watch.follow thread action).history ↔ .ended ∈ watch.history := by
  cases action <;> simp [follow, push, endFrame]

end FrameWatch

namespace Session

/-- The watch tells all about the frames of the thread `id`, and every thread that is known by a key
or to an observer has been started. -/
structure Records (id : ThreadId) (session : Session) (watch : FrameWatch) : Prop where
  recorded : (session.thread id).Recorded watch
  alive_iff : id < session.threads.size →
    ((session.thread id).alive = true ↔ .ended ∉ watch.history)
  unborn : session.threads.size ≤ id → watch = {}
  threadId_lt : ∀ key, session.threadId key < session.threads.size
  observed_lt : ∀ key target, session.observed.get? key = some target →
    target.id < session.threads.size

section

variable {id : ThreadId} {session : Session} {watch : FrameWatch}

namespace Records

variable (records : session.Records id watch)
include records

theorem of_sameThreads {later : Session} (h : SameThreads session later) :
    later.Records id watch where
  recorded := by
    rw [h.thread_eq]
    exact records.recorded
  alive_iff := by
    rw [h.thread_eq, h.threads_eq]
    exact records.alive_iff
  unborn := by
    rw [h.threads_eq]
    exact records.unborn
  threadId_lt key := by
    rw [h.threadId_eq, h.threads_eq]
    exact records.threadId_lt key
  observed_lt := by
    rw [h.observed_eq, h.threads_eq]
    exact records.observed_lt

/-- The thread itself changes. -/
theorem setThread (hlt : id < session.threads.size) {thread : Thread} {later : FrameWatch}
    (hrecorded : thread.Recorded later) (halive : thread.alive = true ↔ .ended ∉ later.history) :
    (session.setThread id thread).Records id later where
  recorded := by rwa [thread_setThread, if_pos ⟨rfl, hlt⟩]
  alive_iff _ := by rwa [thread_setThread, if_pos ⟨rfl, hlt⟩]
  unborn hle := by
    rw [Session.setThread, Array.size_setIfInBounds] at hle
    exact absurd hlt (not_lt.mpr hle)
  threadId_lt key := by
    rw [Session.setThread, Array.size_setIfInBounds]
    exact records.threadId_lt key
  observed_lt := by
    rw [Session.setThread, Array.size_setIfInBounds]
    exact records.observed_lt

/-- Another thread changes. -/
theorem setThread_of_ne {other : ThreadId} (hne : other ≠ id) (thread : Thread) :
    (session.setThread other thread).Records id watch where
  recorded := by
    rw [thread_setThread, if_neg fun h => hne h.1.symm]
    exact records.recorded
  alive_iff := by
    rw [thread_setThread, if_neg fun h => hne h.1.symm, Session.setThread,
      Array.size_setIfInBounds]
    exact records.alive_iff
  unborn := by
    rw [Session.setThread, Array.size_setIfInBounds]
    exact records.unborn
  threadId_lt key := by
    rw [Session.setThread, Array.size_setIfInBounds]
    exact records.threadId_lt key
  observed_lt := by
    rw [Session.setThread, Array.size_setIfInBounds]
    exact records.observed_lt

theorem spawn (key : String) (name? : Option String) :
    (session.spawn key name?).Records id watch := by
  have hsize : (session.spawn key name?).threads.size = session.threads.size + 1 :=
    Array.size_push _
  refine ⟨?_, fun hlt => ?_, fun hle => ?_, fun other => ?_, fun other target hget => ?_⟩
  · rw [thread_spawn]
    split_ifs with hid
    · rw [records.unborn (Nat.le_of_eq hid.symm)]
      exact Thread.recorded_new _ true
    · exact records.recorded
  · rw [hsize] at hlt
    rw [thread_spawn]
    split_ifs with hid
    · rw [records.unborn (Nat.le_of_eq hid.symm)]
      exact ⟨fun _ => List.not_mem_nil, fun _ => rfl⟩
    · exact records.alive_iff (Nat.lt_of_le_of_ne (Nat.le_of_lt_succ hlt) hid)
  · rw [hsize] at hle
    exact records.unborn (Nat.le_of_succ_le hle)
  · rw [hsize]
    show ((session.threadIds.insert key session.threads.size).get? other).getD 0 < _
    rw [Keyed.get?_insert]
    split_ifs
    · exact Nat.lt_succ_self _
    · exact Nat.lt_succ_of_lt (records.threadId_lt other)
  · rw [hsize]
    exact Nat.lt_succ_of_lt (records.observed_lt other target hget)

theorem threadStep (thread : String) (action : ThreadAction) :
    (session.threadStep action).2.Records id (watch.step id session ⟨thread, .thread action⟩) := by
  unfold Session.threadStep FrameWatch.step
  cases action with
  | spawn key name? =>
    dsimp only
    split
    · exact records
    · exact records.spawn key name?
  | join key =>
    dsimp only
    cases hkey : session.threadIds.get? key with
    | none => exact records
    | some other =>
      -- That the shared registry forgets the thread is of no consequence for the frames.
      have hsame : SameThreads (session.setThread other (session.thread other).finish)
          (session.join other) := ⟨rfl, rfl, rfl, rfl⟩
      refine Records.of_sameThreads ?_ hsame
      simp only [Option.some.injEq]
      split_ifs with heq
      · have hlt : other < session.threads.size := by
          have hlt := records.threadId_lt key
          rwa [threadId, hkey] at hlt
        subst heq
        refine records.setThread hlt records.recorded.finish ?_
        simp [Thread.finish, FrameWatch.finish]
      · exact records.setThread_of_ne heq _

theorem stackStep (thread : String) (action : StackAction) :
    (session.stackStep (session.threadId thread) action).2.Records id
      (watch.step id session ⟨thread, .stack action⟩) := by
  have hlt := records.threadId_lt thread
  unfold Session.stackStep FrameWatch.step
  cases action with
  | push key site =>
    dsimp only
    split_ifs with heq
    · rw [heq] at hlt ⊢
      exact records.setThread hlt (records.recorded.push key site)
        ((records.alive_iff hlt).trans (watch.ended_mem_follow _ (.push key site)).not.symm)
    · exact records.setThread_of_ne heq _
  | endFrame key =>
    dsimp only
    split_ifs with heq
    · rw [heq] at hlt ⊢
      have hrecorded := records.recorded.endFrame key
      have halive := (records.alive_iff hlt).trans
        (watch.ended_mem_follow (session.thread id) (.endFrame key)).not.symm
      cases hended : (session.thread id).endFrame? key with
      | none =>
        rw [hended] at hrecorded
        exact ⟨hrecorded, fun _ => halive, fun hle => absurd hlt (not_lt.mpr hle),
          records.threadId_lt, records.observed_lt⟩
      | some ended =>
        rw [hended] at hrecorded
        refine records.setThread hlt hrecorded ?_
        obtain ⟨depth, -, rfl⟩ := Option.map_eq_some_iff.mp hended
        exact halive
    · cases (session.thread (session.threadId thread)).endFrame? key with
      | none => exact records
      | some ended => exact records.setThread_of_ne heq _
  | observe key =>
    show Records id _ (if _ then watch else watch)
    rw [ite_self]
    refine { records with observed_lt := fun other target hget => ?_ }
    have hinsert : (session.observed.insert key (session.observe (session.threadId thread))).get?
        other = some target := hget
    rw [Keyed.get?_insert] at hinsert
    split_ifs at hinsert
    · obtain rfl := Option.some.inj hinsert
      exact hlt
    · exact records.observed_lt other target hinsert
  | look key =>
    show Records id _ (if _ then watch else watch)
    rw [ite_self]
    dsimp only
    split <;> exact records
  | compare site =>
    show Records id _ (if _ then watch else watch)
    rw [ite_self]
    exact records

/-- **The watch keeps up** with every step of the session. -/
theorem step (step : Step) : (session.step step).2.Records id (watch.step id session step) := by
  obtain ⟨thread, action⟩ := step
  match action with
  | .thread action => exact records.threadStep thread action
  | .stack action => exact records.stackStep thread action
  | .sampler action =>
    obtain ⟨samplers, hafter⟩ :=
      session.exists_samplers (session.threadId thread) action
    show Records id (session.samplerStep _ action).2 watch
    rw [hafter]
    exact { records with }
  | .clock _ | .recall _ | .handle _ | .request _ _ | .channel _ =>
    exact records.of_sameThreads (session.sameThreads_step rfl)

theorem after (steps : List Step) :
    (session.after steps).Records id (watch.after id session steps) := by
  induction steps generalizing session watch with
  | nil => exact records
  | cons step steps ih => exact ih (records.step step)

end Records

end

theorem records_start (id : ThreadId) : start.Records id {} where
  recorded := by
    cases id with
    | zero => exact Thread.recorded_new "session" true
    | succ id => exact Thread.recorded_new (unnamed (id + 1)) false
  alive_iff hlt := by
    obtain rfl : id = 0 := Nat.lt_one_iff.mp hlt
    exact ⟨fun _ => List.not_mem_nil, fun _ => rfl⟩
  unborn _ := rfl
  threadId_lt key := by
    show ((Keyed.empty.insert "main" 0).get? key).getD 0 < 1
    rw [Keyed.get?_insert]
    split_ifs <;> exact Nat.zero_lt_one
  observed_lt _ _ := nofun

/-- What is to be known of the frames of the thread `id`, as far as the watch has followed it. -/
structure FramesOf (id : ThreadId) (session : Session) (watch : FrameWatch) : Prop where
  /-- The thread holds a guard under each key that the watch says, with the depth of its frame. -/
  guards_eq : ∀ key, (session.thread id).guards.get? key = (watch.guards key).map StackFrame.depth
  held_iff : ∀ frame, frame ∈ live watch.history ↔ ∃ key, watch.guards key = some frame
  /-- On the stack are the frames that stand, ... -/
  frames_eq : (session.thread id).stack.frames = (standing watch.history).map StackFrame.site
  /-- ... which are those since whose push no guard was dropped that keeps at most their depth. -/
  stands_iff : ∀ frame, frame ∈ standing watch.history ↔
    ∃ before later, watch.history = before ++ .pushed frame :: later ∧
      ∀ guard, .dropped guard ∈ later → frame.depth < guard.depth
  depth_eq : ∀ (depth : Nat) (frame : StackFrame), (standing watch.history)[depth]? = some frame →
    frame.depth = depth
  live_of_stands : ∀ frame ∈ standing watch.history, frame ∈ live watch.history
  /-- They stand in the order of their pushes, by which frames are numbered. -/
  map_number : (pushes watch.history).map StackFrame.number =
    List.range (pushes watch.history).length
  pairwise_number : (standing watch.history).Pairwise fun frame later => frame.number < later.number
  /-- A frame falls by its own guard or by that of an earlier one only. -/
  number_le : ∀ before event later, watch.history = before ++ event :: later →
    ∀ frame ∈ standing before, frame ∉ standing (before ++ [event]) →
      ∃ guard, event = .dropped guard ∧ guard.number ≤ frame.number
  /-- If guards are dropped in the reverse order, the frames with live guards stand. -/
  standing_eq_live : LastInFirstOut watch.history → standing watch.history = live watch.history
  /-- Who observes the thread sees its innermost frame until it ends, and nothing afterwards. -/
  look_eq : ∀ key target, session.observed.get? key = some target → target.id = id →
    ∀ thread, (session.step ⟨thread, .stack (.look key)⟩).1.answer =
      if .ended ∈ watch.history then .thread target.name false none
      else .thread target.name true ((standing watch.history).getLast?.map StackFrame.site)
  /-- What other threads do with their frames is of no consequence. -/
  others : ∀ thread action, session.threadId thread ≠ id →
    (session.step ⟨thread, .stack action⟩).2.thread id = session.thread id

theorem Records.look_eq {id : ThreadId} {session : Session} {watch : FrameWatch}
    (records : session.Records id watch) {key : String} {target : ObservedThread}
    (htarget : session.observed.get? key = some target) (hid : target.id = id) (thread : String) :
    (session.step ⟨thread, .stack (.look key)⟩).1.answer =
      if .ended ∈ watch.history then .thread target.name false none
      else .thread target.name true ((standing watch.history).getLast?.map StackFrame.site) := by
  have hlook : (session.step ⟨thread, .stack (.look key)⟩).1.answer =
      .thread target.name (session.thread id).alive (session.top? id) := by
    show (session.stackStep (session.threadId thread) (.look key)).1.answer = _
    rw [Session.stackStep, htarget, ← hid]
  have halive := records.alive_iff (hid ▸ records.observed_lt key target htarget)
  rw [hlook, top?, Thread.top?]
  split_ifs with hlives hended hended
  · exact absurd hended (halive.mp hlives)
  · rw [CallStack.top?, records.recorded.frames_eq, List.getLast?_map, hlives]
  · rw [Bool.eq_false_iff.mpr hlives]
  · exact absurd (halive.mpr hended) hlives

theorem thread_stackStep_of_ne {session : Session} {thread id : ThreadId} (hne : thread ≠ id)
    (action : StackAction) : (session.stackStep thread action).2.thread id = session.thread id := by
  cases action with
  | push key site => exact (thread_setThread _ _ _ _).trans (if_neg fun h => hne h.1.symm)
  | endFrame key =>
    unfold stackStep
    dsimp only
    split
    · rfl
    · exact (thread_setThread _ _ _ _).trans (if_neg fun h => hne h.1.symm)
  | observe _ | compare _ => rfl
  | look key =>
    unfold stackStep
    dsimp only
    split <;> rfl

/-- **The stack of a thread is what is left of its history**, at any time of any session, in
whatever order the guards of its frames are dropped and whatever other threads do. -/
theorem framesOf_after (steps : List Step) (id : ThreadId) :
    FramesOf id (start.after steps) (FrameWatch.after {} id start steps) := by
  have records := (records_start id).after steps
  have arises := records.recorded.sound.arises
  refine
    { guards_eq := records.recorded.guards_eq
      held_iff := records.recorded.sound.mem_live_iff
      frames_eq := records.recorded.frames_eq
      stands_iff := mem_standing_iff _
      depth_eq := fun depth frame hframe => ?_
      live_of_stands := fun frame hframe => arises.mem_live hframe
      map_number := arises.map_number
      pairwise_number := arises.pairwise_number
      number_le := fun before event later heq frame hframe hfalls => ?_
      standing_eq_live := arises.standing_eq_live
      look_eq := fun key target htarget hid thread => records.look_eq htarget hid thread
      others := fun thread action hne => thread_stackStep_of_ne hne action }
  · obtain ⟨hlt, -⟩ := List.getElem?_eq_some_iff.mp hframe
    have hdepth := congrArg (·[depth]?) arises.map_depth
    rw [List.getElem?_map, hframe, List.getElem?_range hlt] at hdepth
    exact Option.some.inj hdepth
  · rw [heq, List.append_cons] at arises
    exact arises.of_append.number_le hframe hfalls

end Session

end Profiler

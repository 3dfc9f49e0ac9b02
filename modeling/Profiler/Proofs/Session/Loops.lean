import Profiler.Session.Channels

/-!
# Loops of timed calls

Reading exactly some bytes and writing all of them come down to timed calls made one after the
other. `Session.readCalls` and `Session.writeCalls` list them, each with the session in which it is
made, and `Session.makes_readLoop` and `Session.makes_writeLoop` say that the loops do nothing else.
So what holds of a timed call holds of the loops by an induction on `Session.Makes`, without a look
at how they go on.
-/

namespace Profiler.Session

/-- A timed call of a channel's device, with the session in which it is made. -/
structure TimedCall where
  {α : Type}
  session : Session
  channel : Channel
  operation : Operation α

/-- The calls that `readLoop` makes. -/
def readCalls (thread : ThreadId) : Nat → Session → Channel → Nat → List TimedCall
  | _, _, _, 0 => []
  | 0, _, _, _ + 1 => []
  | fuel + 1, session, channel, wanted + 1 =>
    let called := session.timed channel thread (Device.read (wanted + 1))
    ⟨session, channel, Device.read (wanted + 1)⟩ ::
      match called.call with
      | .done [] => []
      | .done (_ :: more) =>
        readCalls thread fuel called.session called.channel (wanted - more.length)
      | .failed failure =>
        if failure.kind = .interrupted then
          readCalls thread fuel called.session called.channel (wanted + 1)
        else []
      | .crashed _ => []

/-- The calls that `writeLoop` makes. -/
def writeCalls (thread : ThreadId) : Nat → Session → Channel → List UInt8 → List TimedCall
  | _, _, _, [] => []
  | 0, _, _, _ :: _ => []
  | fuel + 1, session, channel, byte :: rest =>
    let called := session.timed channel thread (Device.write (byte :: rest))
    ⟨session, channel, Device.write (byte :: rest)⟩ ::
      match called.call with
      | .done 0 => []
      | .done (taken + 1) => writeCalls thread fuel called.session called.channel (rest.drop taken)
      | .failed failure =>
        if failure.kind = .interrupted then
          writeCalls thread fuel called.session called.channel (byte :: rest)
        else []
      | .crashed _ => []

/-- The thread makes the calls one after the other. They lead from the session and the channel to
the later ones, and give rise to the events. -/
inductive Makes (thread : ThreadId) :
    Session → Channel → List TimedCall → Session → Channel → List Event → Prop
  | nil (session : Session) (channel : Channel) : Makes thread session channel [] session channel []
  | cons {α : Type} {session later : Session} {channel channel' : Channel}
      (operation : Operation α) {calls : List TimedCall} {events : List Event}
      (h : Makes thread (session.timed channel thread operation).session
        (session.timed channel thread operation).channel calls later channel' events) :
      Makes thread session channel (⟨session, channel, operation⟩ :: calls) later channel'
        ((session.timed channel thread operation).events ++ events)

section

variable {thread : ThreadId} {session later : Session} {channel channel' : Channel}
  {calls : List TimedCall} {events : List Event}

/-- A single call. -/
theorem Makes.one {α : Type} (operation : Operation α) :
    Makes thread session channel [⟨session, channel, operation⟩]
      (session.timed channel thread operation).session
      (session.timed channel thread operation).channel
      (session.timed channel thread operation).events := by
  have h := Makes.cons operation (.nil (session.timed channel thread operation).session
    (session.timed channel thread operation).channel)
  rwa [List.append_nil] at h

/-- What each timed call keeps up, all of them keep up. -/
theorem Makes.keeps (h : Makes thread session channel calls later channel' events)
    {P : Session → Channel → Prop}
    (htimed : ∀ {α : Type} {session channel} (operation : Operation α), P session channel →
      P (session.timed channel thread operation).session
        (session.timed channel thread operation).channel)
    (hstart : P session channel) : P later channel' := by
  induction h with
  | nil => exact hstart
  | cons operation _ ih => exact ih (htimed operation hstart)

end

/-! ### The two loops -/

theorem makes_readLoop (thread : ThreadId) (fuel : Nat) (session : Session) (channel : Channel)
    (wanted : Nat) (got : List UInt8) :
    Makes thread session channel (readCalls thread fuel session channel wanted)
      (readLoop thread fuel session channel wanted got).session
      (readLoop thread fuel session channel wanted got).channel
      (readLoop thread fuel session channel wanted got).events := by
  induction fuel generalizing session channel wanted got with
  | zero => cases wanted <;> exact .nil session channel
  | succ fuel ih =>
    cases wanted with
    | zero => exact .nil session channel
    | succ wanted =>
      have hone : Makes thread session channel _ _ _ _ := .one (Device.read (wanted + 1))
      unfold readLoop readCalls
      dsimp only
      cases (session.timed channel thread (Device.read (wanted + 1))).call with
      | done bytes =>
        cases bytes with
        | nil => exact hone
        | cons byte more => exact .cons _ (ih _ _ _ _)
      | failed failure =>
        dsimp only
        split
        · exact .cons _ (ih _ _ _ _)
        · exact hone
      | crashed message => exact hone

theorem makes_writeLoop (thread : ThreadId) (fuel : Nat) (session : Session) (channel : Channel)
    (bytes : List UInt8) :
    Makes thread session channel (writeCalls thread fuel session channel bytes)
      (writeLoop thread fuel session channel bytes).session
      (writeLoop thread fuel session channel bytes).channel
      (writeLoop thread fuel session channel bytes).events := by
  induction fuel generalizing session channel bytes with
  | zero => cases bytes <;> exact .nil session channel
  | succ fuel ih =>
    cases bytes with
    | nil => exact .nil session channel
    | cons byte rest =>
      have hone : Makes thread session channel _ _ _ _ := .one (Device.write (byte :: rest))
      unfold writeLoop writeCalls
      dsimp only
      cases (session.timed channel thread (Device.write (byte :: rest))).call with
      | done taken =>
        cases taken with
        | zero => exact hone
        | succ taken => exact .cons _ (ih _ _ _)
      | failed failure =>
        dsimp only
        split
        · exact .cons _ (ih _ _ _)
        · exact hone
      | crashed message => exact hone

end Profiler.Session

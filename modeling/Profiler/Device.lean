import Profiler.Clock
import Profiler.Failure

/-!
# Devices that play a script

A `Device` is a reader or a writer whose behaviour is written down beforehand: each call takes the
next `Act` of the script. An act lets time pass and then crashes, fails or transfers bytes. When the
script is over, a reader has no more input and a writer takes everything.
-/

namespace Profiler

/-- How an act ends. -/
inductive Effect where
  | crash (message : String)
  | fail (failure : Failure)
  /-- A reader has `data`; a writer takes at most `limit?` bytes. -/
  | transfer (data : List UInt8) (limit? : Option Nat)

/-- What a device does when it is called. -/
structure Act where
  time : Duration := 0
  effect : Effect := .transfer [] none

/-- How a call ended. -/
inductive CallResult (α : Type) where
  | done (value : α)
  | failed (failure : Failure)
  | crashed (message : String)

/-- A reader or a writer with what is left of its script. -/
inductive Device where
  | reader (script : List Act)
  | writer (script : List Act) (received : Array UInt8)

/-- A call of a device: how it ended, and the device and the clock after it. -/
abbrev Operation (α : Type) := Device → Clock → CallResult α × Device × Clock

namespace Device

/-- What is left of the script. -/
def script : Device → List Act
  | reader script => script
  | writer script _ => script

/-- The device with another script. -/
def withScript (device : Device) (script : List Act) : Device :=
  match device with
  | reader _ => reader script
  | writer _ received => writer script received

/-- The next act, and the device that has played it. -/
def next (device : Device) : Act × Device :=
  match device.script with
  | [] => ({}, device)
  | act :: rest => (act, device.withScript rest)

/-- A call of the device. The act of its script decides how it ends; if the act transfers bytes,
`transfer` says what that comes to. Time passes in any case. -/
def call {α : Type} (transfer : List UInt8 → Option Nat → Device → α × Device) : Operation α :=
  fun device clock =>
    let (act, played) := device.next
    let later := clock.advance act.time
    match act.effect with
    | .crash message => (.crashed message, played, later)
    | .fail failure => (.failed failure, played, later)
    | .transfer data limit? =>
      let (value, after) := transfer data limit? played
      (.done value, after, later)

/-- The device with bytes that the next call is to transfer, if there are any. -/
def putBack (bytes : List UInt8) (device : Device) : Device :=
  if bytes.isEmpty then device
  else device.withScript ({ effect := .transfer bytes none } :: device.script)

/-- The device with more bytes received. -/
def receive (bytes : List UInt8) : Device → Device
  | reader script => reader script
  | writer script received => writer script (received ++ bytes.toArray)

/-- Reads at most `n` bytes. Bytes that do not fit are what the next call reads. -/
def read (n : Nat) : Operation (List UInt8) :=
  call fun data _ device => (data.take n, device.putBack (data.drop n))

/-- Writes bytes and answers how many of them were taken. -/
def write (bytes : List UInt8) : Operation Nat :=
  call fun _ limit? device =>
    let taken := min bytes.length (limit?.getD bytes.length)
    (taken, device.receive (bytes.take taken))

/-- Asks for everything written to be passed on. -/
def flush : Operation Unit := call fun _ _ device => ((), device)

end Device

end Profiler

import Mathlib.Data.List.Basic
import Profiler.Instrument.Request
import Profiler.Proofs.Timer.UpToDate

/-!
# What a sink gets of a report

A sink may take a few bytes in each call, and no more than it has room for. `Sink.delivery` is what
comes of giving it some bytes: it gets as many of them as fit, and refuses if that is not all. A
delivery in parts is a delivery of the whole (`Sink.delivery_append`), so neither the size of the
calls nor the fragments that are written can be told from what the sink has got in the end
(`Sink.writeLoop_eq`, `Sink.writeFragments_eq`). A report that is written is such a delivery of its
text, and the timer is left as any report leaves it (`Instrument.serve_write`).
-/

namespace Profiler

namespace Sink

/-- Whether so many bytes fit. -/
def fits (sink : Sink) (size : Nat) : Bool := sink.room?.all (size ≤ ·)

/-- What a sink answers when it has got all that it has room for. -/
def refusal (sink : Sink) : Failure :=
  match sink.whenFull with
  | .refuse => .sinkFull
  | .takeNothing => .bufferNotWritten

/-- The sink with as many of the bytes as fit. -/
def taking (sink : Sink) (bytes : List UInt8) : Sink :=
  { sink with received := sink.received ++ (upTo sink.room? bytes).toArray }

/-- What comes of giving a sink some bytes: whether all of them fit, and the sink that has those that
do. -/
def delivery (sink : Sink) (bytes : List UInt8) : Except Failure Unit × Sink :=
  (if sink.fits bytes.length then .ok () else .error sink.refusal, sink.taking bytes)

/-! ### Deliveries in parts -/

section

variable {sink : Sink} {bytes : List UInt8}

theorem upTo_of_all_le {n? : Option Nat} (h : n?.all (bytes.length ≤ ·) = true) :
    upTo n? bytes = bytes := by
  cases n? with
  | none => rfl
  | some n => exact List.take_of_length_le (of_decide_eq_true h)

theorem room?_taking (h : sink.fits bytes.length = true) :
    (sink.taking bytes).room? = sink.room?.map (· - bytes.length) := by
  rw [taking, upTo_of_all_le h]
  cases hlimit : sink.limit? <;> simp [room?, hlimit, Nat.sub_sub]

theorem fits_taking (h : sink.fits bytes.length = true) (size : Nat) :
    (sink.taking bytes).fits size = sink.fits (bytes.length + size) := by
  unfold fits at h ⊢
  rw [room?_taking h]
  cases hroom : sink.room? with
  | none => rfl
  | some room =>
    have hle : bytes.length ≤ room := by simpa [hroom] using h
    simp only [Option.map_some, Option.all_some, decide_eq_decide]
    omega

theorem taking_taking (h : sink.fits bytes.length = true) (rest : List UInt8) :
    (sink.taking bytes).taking rest = sink.taking (bytes ++ rest) := by
  have hboth : upTo sink.room? (bytes ++ rest) =
      bytes ++ upTo (sink.room?.map (· - bytes.length)) rest := by
    cases hroom : sink.room? with
    | none => rfl
    | some room =>
      have hle : bytes.length ≤ room := by simpa [fits, hroom] using h
      show (bytes ++ rest).take room = bytes ++ rest.take (room - bytes.length)
      rw [List.take_append, List.take_of_length_le hle]
  rw [taking, room?_taking h, taking, taking, hboth, upTo_of_all_le h]
  simp

/-- What does not fit is cut off, and nothing after it gets through. -/
theorem taking_of_not_fits (h : sink.fits bytes.length = false) (rest : List UInt8) :
    sink.taking (bytes ++ rest) = sink.taking bytes := by
  cases hroom : sink.room? with
  | none => simp [fits, hroom] at h
  | some room =>
    have hlt : room < bytes.length := by simpa [fits, hroom] using h
    rw [taking, taking, hroom, upTo, upTo, List.take_append_of_le_length hlt.le]

theorem fits_of_fits_add {size more : Nat} (h : sink.fits (size + more) = true) :
    sink.fits size = true := by
  cases hroom : sink.room? with
  | none => simp [fits, hroom]
  | some room =>
    have hle : size + more ≤ room := by simpa [fits, hroom] using h
    have : size ≤ room := by omega
    simpa [fits, hroom] using this

theorem delivery_of_fits (h : sink.fits bytes.length = true) :
    sink.delivery bytes = (.ok (), sink.taking bytes) := by
  rw [delivery, if_pos h]

theorem delivery_of_not_fits (h : sink.fits bytes.length = false) :
    sink.delivery bytes = (.error sink.refusal, sink.taking bytes) := by
  rw [delivery, if_neg (by rw [h]; exact Bool.false_ne_true)]

theorem delivery_nil (sink : Sink) : sink.delivery [] = (.ok (), sink) := by
  have hfits : sink.fits 0 = true := by cases hroom : sink.room? <;> simp [fits, hroom]
  have hnone : upTo sink.room? [] = [] := by cases sink.room? <;> simp [upTo]
  rw [delivery_of_fits hfits, taking, hnone]
  simp

/-- **A delivery in two parts is a delivery of the whole**, up to the first part that does not fit. -/
theorem delivery_append (sink : Sink) (bytes rest : List UInt8) : sink.delivery (bytes ++ rest) =
    match sink.delivery bytes with
    | (.error failure, after) => (.error failure, after)
    | (.ok (), after) => after.delivery rest := by
  cases hfits : sink.fits bytes.length with
  | true =>
    rw [delivery_of_fits hfits]
    dsimp only
    rw [delivery, delivery, taking_taking hfits, fits_taking hfits, List.length_append]
    rfl
  | false =>
    have hboth : sink.fits (bytes ++ rest).length = false := by
      rw [List.length_append, ← Bool.not_eq_true]
      intro h
      rw [fits_of_fits_add h] at hfits
      cases hfits
    rw [delivery_of_not_fits hfits, delivery_of_not_fits hboth, taking_of_not_fits hfits]

end

/-! ### Calls -/

section

variable {sink : Sink}

theorem isPrefix_upTo (n? : Option Nat) (bytes : List UInt8) : upTo n? bytes <+: bytes := by
  cases n? with
  | none => exact List.prefix_rfl
  | some n => exact List.take_prefix n bytes

theorem upTo_ne_nil {n? : Option Nat} {bytes : List UInt8} (h : n? ≠ some 0) (hbytes : bytes ≠ []) :
    upTo n? bytes ≠ [] := by
  cases n? with
  | none => exact hbytes
  | some n =>
    have hn : n ≠ 0 := fun hzero => h (congrArg some hzero)
    simp [upTo, List.take_eq_nil_iff, hn, hbytes]

/-- A full sink gets nothing. -/
theorem delivery_of_full (hroom : sink.room? = some 0) {bytes : List UInt8} (hbytes : bytes ≠ []) :
    sink.delivery bytes = (.error sink.refusal, sink) := by
  have hfits : sink.fits bytes.length = false := by simp [fits, hroom, hbytes]
  rw [delivery_of_not_fits hfits, taking, hroom]
  simp [upTo]

/-- **A call delivers some of what it is given**, unless the sink is full. -/
theorem write_of_room (hpiece : sink.piece? ≠ some 0) (hroom : sink.room? ≠ some 0)
    {bytes : List UInt8} (hbytes : bytes ≠ []) : ∃ taken more, bytes = taken ++ more ∧ taken ≠ [] ∧
      sink.write bytes = (.ok taken.length, sink.taking taken) ∧
        sink.delivery taken = (.ok (), sink.taking taken) := by
  have hprefix := (isPrefix_upTo sink.room? _).trans (isPrefix_upTo sink.piece? bytes)
  obtain ⟨more, hmore⟩ := hprefix
  have hfits : sink.fits (sink.chunk bytes).length = true := by
    unfold fits chunk
    cases sink.room? with
    | none => rfl
    | some room => exact decide_eq_true (List.length_take_le ..)
  refine ⟨sink.chunk bytes, more, hmore.symm, upTo_ne_nil hroom (upTo_ne_nil hpiece hbytes), ?_,
    delivery_of_fits hfits⟩
  rw [write, if_neg (fun h => hroom h.1), taking, upTo_of_all_le hfits]

/-- **Calls that go on as long as there is something left deliver all of it**, whatever the size of
the calls. -/
theorem writeLoop_eq (hpiece : sink.piece? ≠ some 0) {fuel : Nat} {bytes : List UInt8}
    (hfuel : bytes.length ≤ fuel) : writeLoop fuel sink bytes = sink.delivery bytes := by
  induction fuel generalizing sink bytes with
  | zero =>
    rw [List.eq_nil_of_length_eq_zero (Nat.le_zero.mp hfuel), delivery_nil, writeLoop]
  | succ fuel ih =>
    cases bytes with
    | nil => rw [delivery_nil, writeLoop]
    | cons byte rest =>
      rw [writeLoop]
      by_cases hroom : sink.room? = some 0
      · rw [delivery_of_full hroom (List.cons_ne_nil byte rest), write,
          if_pos ⟨hroom, List.cons_ne_nil byte rest⟩, refusal]
        cases sink.whenFull <;> rfl
      · obtain ⟨taken, more, hbytes, htaken, hwrite, hdelivery⟩ :=
          write_of_room hpiece hroom (List.cons_ne_nil byte rest)
        obtain ⟨first, taken, rfl⟩ := List.exists_cons_of_ne_nil htaken
        rw [List.cons_append, List.cons.injEq] at hbytes
        obtain ⟨rfl, rfl⟩ := hbytes
        -- A first part has been delivered, and it is not empty, so the fuel lasts for the rest.
        rw [hwrite, ← List.cons_append, delivery_append, hdelivery]
        dsimp only [List.length_cons]
        rw [List.drop_left]
        have hpiece' : (sink.taking (byte :: taken)).piece? ≠ some 0 := hpiece
        exact ih hpiece' (by rw [List.length_cons, List.length_append] at hfuel; omega)

/-- **Fragments are delivered as the text that they are parts of**, whatever the fragments. -/
theorem writeFragments_eq (hpiece : sink.piece? ≠ some 0) (fragments : List (List UInt8)) :
    sink.writeFragments fragments = sink.delivery fragments.flatten := by
  induction fragments generalizing sink with
  | nil => rw [writeFragments, List.flatten_nil, delivery_nil]
  | cons fragment rest ih =>
    rw [writeFragments, writeAll, writeLoop_eq hpiece le_rfl, List.flatten_cons, delivery_append]
    cases hfits : sink.fits fragment.length with
    | true =>
      rw [delivery_of_fits hfits]
      have hpiece' : (sink.taking fragment).piece? ≠ some 0 := hpiece
      exact ih hpiece'
    | false => rw [delivery_of_not_fits hfits]

end

/-- A sink that has got nothing yet has its whole limit as room. -/
theorem delivery_fresh (limit? piece? : Option Nat) (whenFull : WhenFull) (bytes : List UInt8) :
    let sink : Sink := { limit?, piece?, whenFull }
    (sink.delivery bytes).1 =
        (if limit?.all (bytes.length ≤ ·) then .ok () else .error sink.refusal) ∧
      (sink.delivery bytes).2.received.toList = upTo limit? bytes := by
  intro sink
  have hroom : sink.room? = limit? := by cases limit? <;> rfl
  refine ⟨?_, ?_⟩
  · rw [delivery, fits, hroom]
  · show (#[] ++ (upTo sink.room? bytes).toArray).toList = _
    simp [hroom]

end Sink

/-! ### Reports -/

/-- The lines of a table are parts of its text. -/
theorem Report.flatten_fragments (report : Report) :
    report.fragments.flatten = utf8 report.text.toList := by
  rw [fragments, text, String.toList_ofList, utf8, List.flatMap_assoc, List.flatten_eq_flatMap,
    List.flatMap_map]
  rfl

namespace Instrument

theorem serve_write_live (timer : Timer) (clock : Clock) {sink : Sink}
    (hpiece : sink.piece? ≠ some 0) :
    let bytes := utf8 (timer.report clock).1.text.toList
    (live timer).serve clock (.view (.write sink)) =
      (.written (sink.delivery bytes).1 (sink.delivery bytes).2.received.toList, [],
        live (timer.report clock).2) := by
  intro bytes
  have hwritten : (timer.report clock).1.writeTo sink = sink.delivery bytes := by
    rw [Report.writeTo, Sink.writeFragments_eq hpiece, Report.flatten_fragments]
  simp only [serve, report, View.of, View.written, hwritten]

/-- A report is taken again at the same reading as if it had not been taken before. -/
theorem serve_view_after_report {timer : Timer} {clock later : Clock}
    (h : timer.reading later = timer.reading clock) (view : View) :
    (live (timer.report clock).2).serve later (.view view) =
      (live timer).serve clock (.view view) := by
  simp only [serve, report, Timer.report_report h]

/-- **A sink gets of a report what it has room for, and a failure loses nothing.** Of the text it has
got in the end just the first bytes, as many as its limit allows, whatever it takes in one call and
whatever the fragments in which the text is written. The writing succeeds exactly if that is the
whole text; otherwise it fails as the sink does when it is full. Either way the timer is left as any
report leaves it, and another sink that is then given the report at the same reading gets what it
would have got in the first place. An inert instrument writes nothing, which never fails. -/
theorem serve_write (timer : Timer) (clock : Clock) (limit? piece? : Option Nat)
    (whenFull : WhenFull) (hpiece : piece? ≠ some 0) :
    let sink : Sink := { limit?, piece?, whenFull }
    let bytes := utf8 (timer.report clock).1.text.toList
    let after := (timer.report clock).2
    let result : Except Failure Unit :=
      if limit?.all (bytes.length ≤ ·) then .ok ()
      else .error (match whenFull with
        | .refuse => .sinkFull
        | .takeNothing => .bufferNotWritten)
    let received := match limit? with
      | none => bytes
      | some limit => bytes.take limit
    (∀ fragments : List (List UInt8), fragments.flatten = bytes →
        (sink.writeFragments fragments).1 = result ∧
          (sink.writeFragments fragments).2.received.toList = received) ∧
      (live timer).serve clock (.view (.write sink)) = (.written result received, [], live after) ∧
      (∀ (later : Clock) (another : Sink), timer.reading later = timer.reading clock →
        (live after).serve later (.view (.write another)) =
          (live timer).serve clock (.view (.write another))) ∧
      ∀ any : Sink, inert.serve clock (.view (.write any)) =
        (.written (.ok ()) any.received.toList, [], inert) := by
  intro sink
  obtain ⟨hresult, hreceived⟩ :=
    Sink.delivery_fresh limit? piece? whenFull (utf8 (timer.report clock).1.text.toList)
  refine ⟨fun fragments hfragments => ?_, ?_, fun later another hlater => ?_, fun _ => rfl⟩
  · rw [Sink.writeFragments_eq hpiece, hfragments]
    exact ⟨hresult, hreceived⟩
  · have hpiece' : sink.piece? ≠ some 0 := hpiece
    rw [serve_write_live timer clock hpiece', hresult, hreceived]
    rfl
  · exact serve_view_after_report hlater _

/-- Two bytes in a call, and nine in all: eight spaces and the first letter of the first title. The
sink then takes nothing more, so the writing fails, but the report is still there to be written. -/
theorem serve_write_cut :
    let timer := Timer.ofConfig { metrics := { wall := false, cpu := false } } {}
    let sink : Sink := { limit? := some 9, piece? := some 2, whenFull := .takeNothing }
    let after := (timer.report {}).2
    (live timer).serve {} (.view (.write sink)) =
        (.written (.error .bufferNotWritten) [32, 32, 32, 32, 32, 32, 32, 32, 67], [], live after) ∧
      ∀ another : Sink, (live after).serve {} (.view (.write another)) =
        (live timer).serve {} (.view (.write another)) := by
  intro timer sink after
  have hlong : decide ((utf8 (timer.report {}).1.text.toList).length ≤ 9) = false := by
    decide +kernel
  have hfirst : (utf8 (timer.report {}).1.text.toList).take 9 =
      [32, 32, 32, 32, 32, 32, 32, 32, 67] := by
    decide +kernel
  obtain ⟨-, hserve, hagain, -⟩ := serve_write timer {} (some 9) (some 2) .takeNothing (by decide)
  refine ⟨hserve.trans ?_, fun another => hagain {} another rfl⟩
  rw [Option.all_some, hlong, if_neg Bool.false_ne_true, ← hfirst]

end Instrument

end Profiler

import OsLab.Lunix.Cuts

/-!
# Both builds

The debugging build leaves the loop of a state in its 50th round and drops the rest of the
buffer. `taken` are the bytes of a buffer that a build takes; on them both builds are the
decoder with a memory.
-/

namespace OsLab.Lunix
open Transducer Decoder

namespace Decoder

/-- The rounds of the loop behind the byte `c`, which may enter the next state. -/
def rounds (d : Decoder) (c : UInt8) (iter : Nat) : Nat :=
  if (phase (step d c).1.got).1 = (phase d.got).1 then iter + 1 else 0

/-- The bytes of a buffer up to the end of a packet, or up to the 50th of one state in the debugging
build; the loop of the current state has made `iter` rounds. -/
def taken (debug : Bool) (d : Decoder) (iter : Nat) : List UInt8 → List UInt8
  | [] => []
  | c :: rest =>
    if debug ∧ iter + 1 = 50 then []
    else if (step d c).2 = [] then c :: taken debug (step d c).1 (rounds d c iter) rest
    else [c]

/-- The bytes taken from consecutive buffers. -/
def takenAll (debug : Bool) (d : Decoder) : List (List UInt8) → List UInt8
  | [] => []
  | buf :: bufs => taken debug d 0 buf ++ takenAll debug (run step d (taken debug d 0 buf)).1 bufs

theorem packets_cons (d : Decoder) (c : UInt8) (bytes : List UInt8) :
    packets d (c :: bytes) = (step d c).2 ++ packets (step d c).1 bytes := rfl

section
variable {debug : Bool} {d : Decoder} {iter : Nat} {c : UInt8} {rest : List UInt8}

theorem taken_oops (last : iter + 1 = 50) : taken true d iter (c :: rest) = [] := by
  simp [taken, last]

theorem taken_quiet (few : debug = true → iter + 1 ≠ 50) (quiet : (step d c).2 = []) :
    taken debug d iter (c :: rest) = c :: taken debug (step d c).1 (rounds d c iter) rest := by
  rw [taken, if_neg fun oops => few oops.1 oops.2, if_pos quiet]

theorem taken_last (few : debug = true → iter + 1 ≠ 50) (packet : (step d c).2 ≠ []) :
    taken debug d iter (c :: rest) = [c] := by
  rw [taken, if_neg fun oops => few oops.1 oops.2, if_neg packet]

end

/-- The decoder next to the memory of the packet, which is output when a packet is complete. -/
def memoryStep (m : Decoder × (Nat → UInt8)) (c : UInt8) : (Decoder × (Nat → UInt8)) × List (Nat → UInt8) :=
  (((step m.1 c).1, store m.1 c m.2), if (step m.1 c).2 = [] then [] else [store m.1 c m.2])

theorem run_memoryStep (d : Decoder) (packet : Nat → UInt8) (bytes : List UInt8) :
    (run memoryStep (d, packet) bytes).1.1 = (run step d bytes).1 := by
  induction bytes generalizing d packet with
  | nil => rfl
  | cons c bytes ih => rw [run_cons, run_cons, memoryStep, ih]

end Decoder

/-- The updates of a complete packet in the memory of the parser. -/
def updatesFrom (cnt : Int) (packet : Nat → UInt8) : List SensorUpdate :=
  lunixProtocolUpdateSensors cnt { zeroedState with packet := packet }

/-- A call goes over the bytes that the build takes. -/
theorem resume_taken (debug : Bool) {s : ProtocolState} {d : Decoder} (r : Represents s d) (iter : Nat) (buf : List UInt8) :
    ∃ s', Represents s' (run step d (taken debug d iter buf)).1 ∧
      s'.packet = (run memoryStep (d, s.packet) (taken debug d iter buf)).1.2 ∧ ∀ cnt,
        resume debug cnt iter s buf =
          (s', (run memoryStep (d, s.packet) (taken debug d iter buf)).2.flatMap (updatesFrom cnt)) := by
  induction buf generalizing s d iter with
  | nil => exact ⟨s, r, rfl, fun cnt => resume_nil r.unread⟩
  | cons c rest ih =>
    by_cases oops : debug = true ∧ iter + 1 = 50
    · obtain ⟨rfl, last⟩ := oops
      rw [taken_oops last]
      exact ⟨s, r, rfl, fun cnt => resume_oops r.unread last c rest⟩
    · have go : debug = true → iter + 1 ≠ 50 := fun build last => oops ⟨build, last⟩
      obtain ⟨s', r', memory, ⟨quiet, iter', rounds, -, goes⟩ | ⟨p, packet, -, ends⟩⟩ := resume_step r iter c
      · have same : Decoder.rounds d c iter = iter' := by
          rw [Decoder.rounds, ← r.phase, ← r'.phase]
          rcases rounds with ⟨rfl, other⟩ | ⟨rfl, same⟩
          · exact if_neg other
          · exact if_pos same
        rw [taken_quiet go quiet, same]
        obtain ⟨t, after, memory', result⟩ := ih r' iter'
        simp only [run_cons, memoryStep, quiet, if_true, List.nil_append, ← memory]
        exact ⟨t, after, memory', fun cnt => by rw [goes debug cnt rest go, result]⟩
      · rw [taken_last go (by rw [packet]; simp)]
        refine ⟨s', ?_, ?_, fun cnt => ?_⟩
        · exact r'
        · exact memory
        · rw [ends debug cnt rest go]
          simp [run_cons, memoryStep, packet, ← memory, updatesFrom, lunixProtocolUpdateSensors]

theorem receiveAll_taken (debug : Bool) {s : ProtocolState} {d : Decoder} (r : Represents s d) (bufs : List (List UInt8)) :
    ∃ s', Represents s' (run step d (takenAll debug d bufs)).1 ∧
      s'.packet = (run memoryStep (d, s.packet) (takenAll debug d bufs)).1.2 ∧ ∀ cnt,
        receiveAll debug cnt s bufs =
          (s', (run memoryStep (d, s.packet) (takenAll debug d bufs)).2.flatMap (updatesFrom cnt)) := by
  induction bufs generalizing s d with
  | nil => exact ⟨s, r, rfl, fun _ => rfl⟩
  | cons buf bufs ih =>
    obtain ⟨t, rt, memory, first⟩ := resume_taken debug r 0 buf
    obtain ⟨u, ru, memory', rest⟩ := ih rt
    have here : (run memoryStep (d, s.packet) (taken debug d 0 buf)).1 = ((run step d (taken debug d 0 buf)).1, t.packet) :=
      Prod.ext (run_memoryStep ..) memory.symm
    refine ⟨u, ?_, ?_, fun cnt => ?_⟩
    · rwa [takenAll, run_append]
    · rwa [takenAll, run_append, here]
    · have now : lunixProtocolReceivedBuf debug cnt s buf = _ := (receivedBuf_eq debug cnt s buf).trans (first cnt)
      have later : feed (lunixProtocolReceivedBuf debug cnt) t bufs = _ := rest cnt
      rw [takenAll, run_append, here, receiveAll, feed_cons, now, later, List.flatMap_append]

end OsLab.Lunix

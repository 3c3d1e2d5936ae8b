import OsLab.Lunix.Builds

/-!
# The debugging build

When the early return of the debugging build shows: both builds agree after every buffer
exactly when no buffer holds 50 raw bytes of one payload.
-/

namespace OsLab.Lunix
open Transducer Decoder

namespace Decoder

/-- How many raw bytes of a payload the buffer holds, up to the end of a packet. -/
def payloadBytes (d : Decoder) : List UInt8 → Nat
  | [] => 0
  | c :: rest =>
    (if (phase d.got).1 = .payload then 1 else 0) + if (step d c).2 = [] then payloadBytes (step d c).1 rest else 0

/-- No buffer holds 50 raw bytes of one payload. -/
def ShortPayloads (d : Decoder) : List (List UInt8) → Prop
  | [] => True
  | buf :: bufs => payloadBytes d buf < 50 ∧ ShortPayloads (run step d (taken false d 0 buf)).1 bufs

/-! ### The decoder moves on -/

theorem byte_none {d : Decoder} {c : UInt8} (escapes : byte d c = none) : d.pending = none := by
  cases pending : d.pending with
  | some e => by_cases raw : Raw d.got <;> simp [byte, raw, pending] at escapes
  | none => rfl

/-- A byte that ends no packet begins an escape or adds a byte. -/
theorem step_quiet {d : Decoder} {c : UInt8} (quiet : (step d c).2 = []) :
    (d.pending = none ∧ step d c = (⟨d.got, some c⟩, [])) ∨ ∃ b, step d c = (⟨d.got ++ [b], none⟩, []) := by
  rw [step_eq] at quiet ⊢
  cases decoded : byte d c with
  | none => exact Or.inl ⟨byte_none decoded, rfl⟩
  | some b =>
    rw [decoded] at quiet
    simp only [push] at quiet ⊢
    by_cases last : d.got.length + 1 = 10 + payloadLen (d.got ++ [b])
    · rw [if_pos last] at quiet
      cases quiet
    · rw [if_neg last]
      exact Or.inr ⟨b, rfl⟩

def weight (d : Decoder) : Nat := 2 * d.got.length + if d.pending = none then 0 else 1

theorem weight_step {d : Decoder} {c : UInt8} (quiet : (step d c).2 = []) : weight d < weight (step d c).1 := by
  unfold weight
  rcases step_quiet quiet with ⟨none, same⟩ | ⟨b, same⟩
  · rw [same, none]
    simp
  · rw [same]
    simp only [List.length_append, List.length_singleton, if_true]
    split_ifs <;> omega

theorem weight_run {d : Decoder} {a : List UInt8} (quiet : packets d a = []) :
    weight d + a.length ≤ weight (run step d a).1 := by
  induction a generalizing d with
  | nil => rfl
  | cons c a ih =>
    simp only [packets, run_cons, List.append_eq_nil_iff] at quiet
    have first := weight_step quiet.1
    have rest := ih quiet.2
    simp only [run_cons, List.length_cons]
    omega

/-! ### The payload of a buffer -/

theorem phaseAt_other {n pl : Nat} (outside : ¬ (7 ≤ n ∧ n < 7 + pl)) :
    (phaseAt n pl).1 ≠ .payload ∧ (phaseAt n pl).2.1 ≤ 2 := by
  by_cases header : n < 7
  · interval_cases n <;> simp [phaseAt]
  · by_cases crc : n < 9 + pl
    · rw [phaseAt_crc n pl (by omega) (by omega) crc]
      exact ⟨Seeking.noConfusion, Nat.le_refl 2⟩
    · rw [phaseAt_end n pl (by omega)]
      exact ⟨Seeking.noConfusion, Nat.le_succ 1⟩

theorem phase_payload {got : List UInt8} (payload : (phase got).1 = .payload) :
    7 ≤ got.length ∧ got.length < 7 + payloadLen got := by
  by_contra outside
  exact (phaseAt_other outside).1 payload

theorem phase_small {got : List UInt8} (other : (phase got).1 ≠ .payload) : (phase got).2.1 ≤ 2 := by
  refine (phaseAt_other fun inside => other ?_).2
  exact congrArg Prod.fst (phaseAt_payload _ _ inside.1 inside.2)

theorem phase_past {got : List UInt8} (past : 7 ≤ got.length ∧ 7 + payloadLen got ≤ got.length) :
    (phase got).1 ≠ .payload := fun payload => by
  have inside := phase_payload payload
  omega

theorem payloadBytes_past {d : Decoder} (past : 7 ≤ d.got.length ∧ 7 + payloadLen d.got ≤ d.got.length) (buf : List UInt8) :
    payloadBytes d buf = 0 := by
  induction buf generalizing d with
  | nil => rfl
  | cons c rest ih =>
    rw [payloadBytes, if_neg (phase_past past), Nat.zero_add]
    split_ifs with quiet
    · rcases step_quiet quiet with ⟨-, same⟩ | ⟨b, same⟩
      · rw [same]
        exact ih past
      · rw [same]
        refine ih ?_
        rw [payloadLen_push (by omega), List.length_append]
        omega
    · rfl

theorem payload_left {d : Decoder} {c : UInt8} (quiet : (step d c).2 = []) (payload : (phase d.got).1 = .payload)
    (left : (phase (step d c).1.got).1 ≠ .payload) :
    7 ≤ (step d c).1.got.length ∧ 7 + payloadLen (step d c).1.got ≤ (step d c).1.got.length := by
  obtain ⟨low, high⟩ := phase_payload payload
  rcases step_quiet quiet with ⟨-, same⟩ | ⟨b, same⟩
  · rw [same] at left
    exact absurd payload left
  · rw [same] at left ⊢
    by_contra inside
    rw [List.length_append, List.length_singleton] at inside
    refine left ?_
    rw [phase, phaseAt_payload _ _ (by simp; omega) (by rw [List.length_append, List.length_singleton]; omega)]

/-- What a build takes ends with the first packet in it. -/
theorem taken_packet {debug : Bool} {d : Decoder} {iter : Nat} {buf : List UInt8}
    (some : packets d (taken debug d iter buf) ≠ []) : (run step d (taken debug d iter buf)).1 = start := by
  induction buf generalizing d iter with
  | nil => exact absurd rfl some
  | cons c rest ih =>
    by_cases oops : debug = true ∧ iter + 1 = 50
    · obtain ⟨rfl, last⟩ := oops
      rw [taken_oops last] at some
      exact absurd rfl some
    have go : debug = true → iter + 1 ≠ 50 := fun build last => oops ⟨build, last⟩
    by_cases quiet : (step d c).2 = []
    · rw [taken_quiet go quiet] at some ⊢
      rw [packets_cons, quiet, List.nil_append] at some
      exact ih some
    · rw [taken_last go quiet]
      exact step_packet quiet

/-- The debugging build takes the first of the bytes that the other build takes. -/
theorem taken_append (d : Decoder) (iter : Nat) (buf : List UInt8) :
    ∃ dropped, taken false d iter buf = taken true d iter buf ++ dropped ∧
      (dropped ≠ [] → packets d (taken true d iter buf) = [] ∧ 49 ≤ iter + (taken true d iter buf).length) := by
  induction buf generalizing d iter with
  | nil => exact ⟨[], rfl, fun some => absurd rfl some⟩
  | cons c rest ih =>
    by_cases oops : iter + 1 = 50
    · rw [taken_oops oops]
      exact ⟨_, rfl, fun _ => ⟨rfl, by rw [List.length_nil]; omega⟩⟩
    by_cases quiet : (step d c).2 = []
    · rw [taken_quiet (by simp) quiet, taken_quiet (fun _ => oops) quiet]
      obtain ⟨dropped, same, long⟩ := ih (step d c).1 (rounds d c iter)
      refine ⟨dropped, by rw [same]; rfl, fun some => ?_⟩
      obtain ⟨none, enough⟩ := long some
      have more : rounds d c iter ≤ iter + 1 := by unfold rounds; split_ifs <;> omega
      rw [packets_cons, quiet, List.nil_append, List.length_cons]
      exact ⟨none, by omega⟩
    · rw [taken_last (by simp) quiet, taken_last (fun _ => oops) quiet]
      exact ⟨[], rfl, fun some => absurd rfl some⟩

theorem taken_state_iff (d : Decoder) (buf : List UInt8) :
    (run step d (taken true d 0 buf)).1 = (run step d (taken false d 0 buf)).1 ↔
      taken true d 0 buf = taken false d 0 buf := by
  refine ⟨fun same => ?_, fun same => by rw [same]⟩
  obtain ⟨dropped, split, long⟩ := taken_append d 0 buf
  by_cases none : dropped = []
  · rw [split, none, List.append_nil]
  · obtain ⟨quiet, enough⟩ := long none
    have before := weight_run quiet
    exfalso
    by_cases more : packets d (taken false d 0 buf) = []
    · rw [split, packets_append, quiet, List.nil_append] at more
      have after := weight_run more
      rw [split, run_append] at same
      have some := List.length_pos_iff.mpr none
      rw [← same] at after
      omega
    · rw [taken_packet more] at same
      rw [same] at before
      simp only [weight, start, List.length_nil, if_true] at before
      omega

end Decoder

/-! ### Agreement -/

/-- Only the loop of a payload comes to its 50th round. -/
theorem payload_of_last {s : ProtocolState} {d : Decoder} (r : Represents s d) {iter : Nat} (within : InRound s iter)
    (last : iter + 1 = 50) : (phase d.got).1 = .payload := by
  by_contra other
  have small := phase_small other
  have unread := r.unread
  have phase := r.phase
  rw [← phase] at small
  unfold InRound at within
  simp only at small
  split_ifs at within <;> omega

theorem taken_agree_iff {s : ProtocolState} {d : Decoder} (r : Represents s d) {iter : Nat} (within : InRound s iter)
    (few : iter < 50) (buf : List UInt8) :
    taken true d iter buf = taken false d iter buf ↔
      (if (phase d.got).1 = .payload then iter else 0) + payloadBytes d buf < 50 := by
  induction buf generalizing s d iter with
  | nil =>
    simp only [taken, payloadBytes, true_iff]
    split_ifs <;> omega
  | cons c rest ih =>
    by_cases oops : iter + 1 = 50
    · have payload := payload_of_last r within oops
      rw [taken_oops oops, payloadBytes, if_pos payload, if_pos payload]
      refine iff_of_false (fun same => ?_) (by omega)
      by_cases quiet : (step d c).2 = []
      · rw [taken_quiet (by simp) quiet] at same
        cases same
      · rw [taken_last (by simp) quiet] at same
        cases same
    obtain ⟨s', r', -, ⟨quiet, iter', rounded, within', -⟩ | ⟨p, packet, -⟩⟩ := resume_step r iter c
    · have same : rounds d c iter = iter' := by
        rw [rounds, ← r.phase, ← r'.phase]
        rcases rounded with ⟨rfl, other⟩ | ⟨rfl, same⟩
        · exact if_neg other
        · exact if_pos same
      rw [taken_quiet (fun _ => oops) quiet, taken_quiet (by simp) quiet, List.cons_inj_right, payloadBytes, if_pos quiet,
        same, ih r' (within' within) (by omega)]
      rw [rounds] at same
      by_cases payload : (phase d.got).1 = .payload
      · by_cases still : (phase (step d c).1.got).1 = .payload
        · rw [if_pos (still.trans payload.symm)] at same
          rw [if_pos payload, if_pos payload, if_pos still]
          omega
        · rw [if_pos payload, if_pos payload, if_neg still, payloadBytes_past (payload_left quiet payload still)]
          omega
      · by_cases enters : (phase (step d c).1.got).1 = .payload
        · rw [if_neg fun stays => payload (stays.symm.trans enters)] at same
          rw [if_neg payload, if_neg payload, if_pos enters]
          omega
        · rw [if_neg payload, if_neg payload, if_neg enters]
          omega
    · have some : (step d c).2 ≠ [] := by rw [packet]; simp
      rw [taken_last (fun _ => oops) some, taken_last (by simp) some, payloadBytes, if_neg some]
      refine iff_of_true rfl ?_
      split_ifs <;> omega

theorem represents_unique {s s' : ProtocolState} {d : Decoder} (r : Represents s d) (r' : Represents s' d)
    (memory : s.packet = s'.packet) : s = s' := by
  have phase := r.phase.trans r'.phase.symm
  have pos := r.pos.trans r'.pos.symm
  have special := r.special.trans r'.special.symm
  obtain ⟨state, bytesRead, bytesToRead, p, n, packet⟩ := s
  obtain ⟨state', bytesRead', bytesToRead', p', n', packet'⟩ := s'
  simp only [Prod.mk.injEq] at phase pos special memory
  obtain ⟨rfl, rfl, rfl⟩ := phase
  subst pos special memory
  rfl

theorem receivedBuf_debug_iff {s : ProtocolState} {d : Decoder} (r : Represents s d) (cnt : Int) (buf : List UInt8) :
    lunixProtocolReceivedBuf true cnt s buf = lunixProtocolReceivedBuf false cnt s buf ↔ payloadBytes d buf < 50 := by
  have agree := @taken_agree_iff s d r 0 (Nat.zero_le _) (by omega) buf
  rw [ite_self, Nat.zero_add] at agree
  obtain ⟨t, rt, memory, debug⟩ := resume_taken true r 0 buf
  obtain ⟨u, ru, memory', release⟩ := resume_taken false r 0 buf
  rw [receivedBuf_eq, receivedBuf_eq, debug, release, ← agree]
  constructor
  · intro same
    have states := congrArg Prod.fst same
    simp only at states
    rw [← taken_state_iff, ← rt.decoder_eq, ← ru.decoder_eq, states]
  · intro same
    rw [same] at rt memory ⊢
    rw [represents_unique rt ru (memory.trans memory'.symm)]

theorem receiveAll_debug_iff (cnt : Int) {s : ProtocolState} {d : Decoder} (r : Represents s d) (bufs : List (List UInt8)) :
    (∀ n, receiveAll true cnt s (bufs.take n) = receiveAll false cnt s (bufs.take n)) ↔ ShortPayloads d bufs := by
  induction bufs generalizing s d with
  | nil => exact iff_of_true (fun n => by rw [List.take_nil, receiveAll, receiveAll, feed_nil, feed_nil]) trivial
  | cons buf bufs ih =>
    have first := receivedBuf_debug_iff r cnt buf
    obtain ⟨u, ru, -, release⟩ := resume_taken false r 0 buf
    have next : (lunixProtocolReceivedBuf false cnt s buf).1 = u := by rw [receivedBuf_eq, release]
    rw [ShortPayloads, ← ih ru, ← first]
    constructor
    · intro same
      have now : lunixProtocolReceivedBuf true cnt s buf = lunixProtocolReceivedBuf false cnt s buf := by
        have one := same 1
        rwa [List.take_succ_cons, List.take_zero, receiveAll, receiveAll, feed_singleton, feed_singleton] at one
      refine ⟨now, fun n => ?_⟩
      have later := same (n + 1)
      rw [List.take_succ_cons, receiveAll, receiveAll, feed_cons, feed_cons, now, next] at later
      obtain ⟨states, updates⟩ := Prod.mk.inj later
      exact Prod.ext states (List.append_cancel_left updates)
    · rintro ⟨now, later⟩ n
      cases n with
      | zero => rw [List.take_zero, receiveAll, receiveAll, feed_nil, feed_nil]
      | succ n =>
        have rest := later n
        rw [receiveAll, receiveAll] at rest
        rw [List.take_succ_cons, receiveAll, receiveAll, feed_cons, feed_cons, now, next, rest]

/-- The two builds make the same updates and reach the same state after every buffer if and only if no
buffer holds 50 raw bytes of one payload. -/
theorem debug_agrees_iff (cnt : Int) (s₀ : ProtocolState) (bufs : List (List UInt8)) :
    (∀ n, receiveAll true cnt (lunixProtocolInit s₀) (bufs.take n) =
      receiveAll false cnt (lunixProtocolInit s₀) (bufs.take n)) ↔ ShortPayloads start bufs :=
  receiveAll_debug_iff cnt (init_represents s₀) bufs

/-- A packet whose payload has 60 bytes. -/
def longPacket : List UInt8 := [0x7E, 0, 0, 0, 0x0B, 0, 60, 0, 0, 1, 0] ++ List.replicate 58 0 ++ [0x7E]

/-- In one buffer the debugging build loses the end of the packet, and its update. -/
theorem debug_drops_packet :
    ¬ ∀ (cnt : Int) (s₀ : ProtocolState) (bufs : List (List UInt8)),
      receiveAll true cnt (lunixProtocolInit s₀) bufs = receiveAll false cnt (lunixProtocolInit s₀) bufs := by
  intro agree
  have same := congrArg (fun r => r.2.length) (agree 16 zeroedState [longPacket])
  revert same
  decide

/-- In two buffers they agree. -/
example : ShortPayloads start [longPacket.take 35, longPacket.drop 35] := ⟨by decide, by decide, trivial⟩

end OsLab.Lunix

import OsLab.Foundation.Resets
import OsLab.Lunix.DebugBuild
import OsLab.Lunix.SerialLine

/-!
# Finding the packets again

The parser takes any byte for the start of a packet, so bytes that were lost put it out of step with
the sender. Since it drops what a buffer holds behind the end of a packet, a buffer that is long enough
for a packet to end in it puts the parser back in step. So does a word that comes byte by byte.
-/

namespace OsLab.Lunix
open Transducer Decoder

/-- The decoders of the parser's states. -/
def Decoder.Represented (d : Decoder) : Prop := ∃ s, Represents s d

variable {d : Decoder} {s : ProtocolState}

theorem represented_step (d : Decoder) (c : UInt8) (represented : Represented d) : Represented (step d c).1 := by
  obtain ⟨s, r⟩ := represented
  obtain ⟨s', r', -⟩ := receivedBuf_step r c
  exact ⟨s', r'⟩

/-! ### Bytes until the packet ends -/

/-- All unescaped bytes of the longest packet that can follow. -/
def Decoder.total (d : Decoder) : Nat := 10 + if d.got.length < 7 then 255 else payloadLen d.got

/-- No more bytes than these end the packet: all that are missing are escaped but the raw ones. -/
def Decoder.left (d : Decoder) : Nat :=
  2 * (d.total - d.got.length) - 1 - (2 - d.got.length) - if d.pending = none then 0 else 1

theorem left_le (d : Decoder) : d.left ≤ 527 := by
  have few := payloadLen_lt d.got
  unfold Decoder.left Decoder.total
  split_ifs <;> omega

theorem Represents.pending_inside (r : Represents s d) (pending : d.pending ≠ none) :
    2 ≤ d.got.length ∧ d.got.length ≠ 9 + payloadLen d.got := by
  obtain ⟨e, escape⟩ := Option.ne_none_iff_exists'.mp pending
  obtain ⟨-, inside⟩ := r.escape e escape
  unfold Decoder.Raw at inside
  omega

theorem left_pos (d : Decoder) (represented : Represented d) : 0 < d.left := by
  obtain ⟨s, r⟩ := represented
  have room := r.room
  have inside := r.pending_inside
  unfold Decoder.left Decoder.total
  split_ifs with short none none <;> simp only [none, ne_eq, not_true_eq_false, not_false_eq_true, forall_const] at inside <;> omega

theorem left_step (d : Decoder) (c : UInt8) (represented : Represented d) (quiet : (step d c).2 = []) :
    (step d c).1.left < d.left := by
  have positive := left_pos _ (represented_step d c represented)
  obtain ⟨s, r⟩ := represented
  have inside := r.pending_inside
  rcases step_quiet quiet with ⟨none, escapes⟩ | ⟨b, adds⟩
  · rw [escapes] at positive ⊢
    simp only [Decoder.left, Decoder.total, none, if_true, reduceCtorEq, if_false] at positive ⊢
    omega
  · rw [adds] at positive ⊢
    have few := payloadLen_lt (d.got ++ [b])
    have same : ¬ d.got.length < 7 → payloadLen (d.got ++ [b]) = payloadLen d.got := fun long => payloadLen_push (by omega) b
    simp only [Decoder.left, Decoder.total, List.length_append, List.length_singleton, if_true] at positive ⊢
    split_ifs at positive ⊢ <;> simp_all only [not_false_eq_true, forall_const, ne_eq, not_true_eq_false] <;> omega

theorem packets_long (r : Represents s d) {bytes : List UInt8} (long : 527 ≤ bytes.length) : packets d bytes ≠ [] :=
  run_outputs represented_step left_pos left_step ⟨s, r⟩ ((left_le d).trans long)

/-- A packet ends in the buffer, and what is behind it is dropped. -/
theorem emit_long (cnt : Nat) (r : Represents s d) {arrival : Arrival} (long : 527 ≤ arrival.buf.length) :
    Represents (emit cnt s arrival).1 start := by
  simp only [emit]
  obtain ⟨a, c, rest, same, quiet, ends⟩ := first_packet (packets_long r long)
  obtain ⟨s', p, held, r', -, -, done⟩ := receivedBuf_packet r quiet ends
  rw [same, done]
  exact r'

/-! ### The bound is the least one -/

/-- All that can be escaped of a longest packet is. The end byte is missing. -/
def longestQuiet : List UInt8 :=
  [0, 0] ++ (List.replicate 4 [0x7E, 0]).flatten ++ [0x7E, 0xFF] ++ (List.replicate 257 [0x7E, 0]).flatten

theorem longestQuiet_quiet : longestQuiet.length = 526 ∧ packets start longestQuiet = [] := by decide +kernel

/-- The byte after so many that end no packet ends one. -/
theorem quiet_ends (r : Represents s d) {bytes : List UInt8} (length : bytes.length = 526) (quiet : packets d bytes = [])
    (c : UInt8) : (step (run step d bytes).1 c).2 ≠ [] := by
  have long : 527 ≤ (bytes ++ [c]).length := by
    rw [List.length_append, length, List.length_singleton]
  have ends := packets_long r long
  rw [packets_append, quiet, List.nil_append, packets, run_cons, run_nil, List.append_nil] at ends
  exact ends

/-- A packet that comes where an end byte is missing is dropped, whatever it is. -/
theorem dropped_packet (r : Represents s d) (ends : (step d 0x7E).2 ≠ []) (cnt : Int) (p q : XMeshPacket) :
    lunixProtocolReceivedBuf false cnt s p.encode = lunixProtocolReceivedBuf false cnt s q.encode := by
  obtain ⟨s', packet, held, -, -, -, done⟩ := @receivedBuf_packet s d r [] 0x7E rfl ends
  exact (done cnt _).trans (done cnt _).symm

def emptyPacket : XMeshPacket := ⟨0, 0, 0, 0, 0, [], 0, 0, Nat.zero_le 255⟩

/-- A packet that comes in one buffer. -/
def wholePacket (p : XMeshPacket) (long : p.amType = 0x0B → 17 ≤ p.payload.length) : Transmission :=
  ⟨p, [], ⟨0, p.encode⟩, rfl, List.cons_ne_nil _ _, long⟩

theorem wholePacket_emits (cnt : Nat) (s : ProtocolState) {p : XMeshPacket} (long : p.amType = 0x0B → 17 ≤ p.payload.length) :
    (run (emit cnt) s ([wholePacket p long].flatMap Transmission.arrivals)).2 =
      (lunixProtocolReceivedBuf false cnt s p.encode).2.map (made 0) := by
  simp only [List.flatMap_singleton, wholePacket, Transmission.arrivals, List.nil_append, run_cons, run_nil, List.append_nil, emit]

theorem transmitted_all (ts : List Transmission) : Transmitted ts (ts.flatMap Transmission.arrivals) :=
  ⟨[], emptyPacket, emptyPacket.encode, (List.append_nil _).symm, rfl, List.cons_ne_nil _ _⟩

theorem reachable_once (cnt : Nat) (buf : List UInt8) :
    Reachable cnt (emit cnt (lunixProtocolInit zeroedState) ⟨0, buf⟩).1 := by
  refine ⟨zeroedState, [buf], ?_⟩
  rw [receiveAll, feed_singleton]
  simp only [emit]

theorem measurementPacket_updates {cnt : Int} (sensors : 1 ≤ cnt) : measurementPacket.updates cnt ≠ [] := by
  have node : measurementPacket.field 9 = 1 := by decide
  have made : measurementPacket.amType = 0x0B ∧ 1 ≤ measurementPacket.field 9 ∧ (measurementPacket.field 9 : Int) ≤ cnt :=
    ⟨rfl, Nat.le_of_eq node.symm, by rw [node]; exact sensors⟩
  rw [XMeshPacket.updates, if_pos made]
  exact List.cons_ne_nil _ _

/-- Whatever the parser has been fed before, after a buffer of `n` bytes it makes exactly the updates of the packets that
follow: this holds from 527 bytes on, and of no smaller number. -/
theorem resync_iff (cnt : Nat) (sensors : 1 ≤ cnt) (n : Nat) :
    (∀ s, Reachable cnt s → ∀ noise : Arrival, noise.buf.length = n → ∀ ts arrivals, Transmitted ts arrivals →
      (run (emit cnt) (emit cnt s noise).1 arrivals).2 = ts.flatMap (Transmission.measured cnt)) ↔ 527 ≤ n := by
  constructor
  · intro resyncs
    by_contra short
    obtain ⟨length, quiet⟩ := longestQuiet_quiet
    generalize longestQuiet = bytes at length quiet
    have ends := quiet_ends (init_represents zeroedState) length quiet 0x7E
    rw [← List.take_append_drop (526 - n) bytes] at quiet ends
    rw [packets_append, List.append_eq_nil_iff] at quiet
    rw [run_append] at ends
    obtain ⟨s, reach, r⟩ : ∃ s, Reachable cnt s ∧ Represents s (run step start (bytes.take (526 - n))).1 :=
      ⟨_, reachable_once cnt (bytes.take (526 - n)), (emit_quiet cnt (init_represents zeroedState) quiet.1).2⟩
    have size : (bytes.drop (526 - n)).length = n := by
      rw [List.length_drop, length]
      omega
    have delivered : ∀ (p : XMeshPacket), (p.amType = 0x0B → 17 ≤ p.payload.length) →
        (lunixProtocolReceivedBuf false cnt (emit cnt s ⟨0, bytes.drop (526 - n)⟩).1 p.encode).2.map (made 0) =
          (p.updates cnt).map (made 0) := by
      intro p long
      rw [← wholePacket_emits cnt _ long]
      exact (resyncs s reach ⟨0, _⟩ size _ _ (transmitted_all _)).trans (List.flatMap_singleton _ _)
    -- the end byte that is missing is taken from the packet, and the rest of the packet is dropped
    have same := dropped_packet (@emit_quiet cnt _ _ r ⟨0, bytes.drop (526 - n)⟩ quiet.2).2 ends cnt measurementPacket emptyPacket
    have some := delivered measurementPacket (by decide)
    rw [same, delivered emptyPacket (by decide)] at some
    exact measurementPacket_updates (Int.toNat_le.mp sensors) (List.map_eq_nil_iff.mp some.symm)
  · intro long s reach noise size ts arrivals sent
    exact emits_transmitted cnt (emit_long cnt (reachable_represents reach) (by rw [size]; exact long)) sent

theorem resync_iff_sixteen :
    (∀ s, Reachable (16 : Nat) s → ∀ noise : Arrival, noise.buf.length = 527 → ∀ ts arrivals, Transmitted ts arrivals →
      (run (emit 16) (emit 16 s noise).1 arrivals).2 = ts.flatMap (Transmission.measured 16)) ↔ 527 ≤ 527 :=
  resync_iff 16 (by decide) 527

/-! ### Byte by byte -/

/-- In the middle of a packet of zeros. -/
def zerosAt (n : Nat) : Decoder := ⟨List.replicate n 0, none⟩

/-- Ten zeros are a packet. -/
theorem run_zeros {n : Nat} (inside : n < 10) (k : Nat) :
    (run step (zerosAt n) (List.replicate k 0)).1 = zerosAt ((n + k) % 10) := by
  induction k generalizing n with
  | zero =>
    rw [Nat.add_zero, Nat.mod_eq_of_lt inside]
    rfl
  | succ k ih =>
    have one : (step (zerosAt n) 0).1 = zerosAt ((n + 1) % 10) := by interval_cases n <;> rfl
    rw [List.replicate_succ, run_cons]
    dsimp only
    rw [one, ih (Nat.mod_lt _ (by decide)), Nat.mod_add_mod, Nat.add_assoc, Nat.add_comm 1 k]

/-- So many zeros end whatever packet there was. -/
theorem zeros_lead : Leads step Represented (List.replicate 527 0) fun d => ∃ n < 10, d = zerosAt n := by
  rintro d ⟨s, r⟩
  have long : 527 ≤ (List.replicate 527 (0 : UInt8)).length := Nat.le_of_eq List.length_replicate.symm
  obtain ⟨a, c, rest, same, -, ends⟩ := first_packet (packets_long r long)
  have zeros : rest = List.replicate rest.length 0 := by
    refine List.eq_replicate_iff.mpr ⟨rfl, fun b member => ?_⟩
    have member : b ∈ List.replicate 527 (0 : UInt8) := same ▸ List.mem_append_right a (List.mem_cons_of_mem c member)
    exact (List.mem_replicate.mp member).2
  rw [same, run_append, run_cons]
  dsimp only
  rw [step_packet ends, zeros]
  exact ⟨_, Nat.mod_lt _ (by decide), run_zeros (n := 0) (by decide) rest.length⟩

/-- A 1 at the place of the payload length makes the packet one byte longer, and elsewhere no difference. -/
def shifted (n : Nat) : Nat := if n = 6 then 6 else (n + 1) % 10

theorem shifted_lt {n : Nat} (inside : n < 10) (k : Nat) : shifted^[k] n < 10 := by
  induction k with
  | zero => exact inside
  | succ k ih =>
    rw [Function.iterate_succ_apply', shifted]
    split_ifs <;> omega

theorem shift_leads (k : Nat) :
    Leads step (fun d => ∃ n < 10, d = zerosAt (shifted^[k] n)) (1 :: List.replicate 10 0)
      fun d => ∃ n < 10, d = zerosAt (shifted^[k + 1] n) := by
  rintro d ⟨n, inside, rfl⟩
  refine ⟨n, inside, ?_⟩
  have within := shifted_lt inside k
  rw [Function.iterate_succ_apply']
  generalize shifted^[k] n = m at within
  interval_cases m <;> rfl

/-- After nine shifts the parser is at the payload length, and four more zeros end the packet. -/
def resetWord : List UInt8 :=
  List.replicate 527 0 ++ ((List.replicate 9 (1 :: List.replicate 10 0)).flatten ++ List.replicate 4 0)

theorem resetWord_length : resetWord.length = 630 := by
  simp only [resetWord, List.length_append, List.length_replicate, List.length_flatten, List.map_replicate,
    List.length_cons]
  rfl

theorem resetWord_leads : Leads step Represented resetWord (· = start) := by
  have shifts : Leads step (fun d => ∃ n < 10, d = zerosAt n) (List.replicate 9 (1 :: List.replicate 10 0)).flatten
      fun d => ∃ n < 10, d = zerosAt (shifted^[9] n) := Leads.again shift_leads 9
  refine zeros_lead.append (shifts.append ?_)
  rintro d ⟨n, inside, rfl⟩
  interval_cases n <;> rfl

/-- Of a buffer of one byte nothing is dropped. -/
theorem emit_byte (cnt : Nat) (r : Represents s d) {arrival : Arrival} {c : UInt8} (one : arrival.buf = [c]) :
    Represents (emit cnt s arrival).1 (step d c).1 := by
  simp only [emit, one]
  obtain ⟨s', r', ⟨-, goes⟩ | ⟨p, held, -, -, ends⟩⟩ := receivedBuf_step r c
  · rw [goes cnt [], receivedBuf_nil r'.unread]
    exact r'
  · rw [ends cnt []]
    exact r'

theorem emits_bytes (cnt : Nat) (r : Represents s d) {arrivals : List Arrival} {bytes : List UInt8}
    (single : arrivals.map Arrival.buf = bytes.map fun c => [c]) :
    Represents (run (emit cnt) s arrivals).1 (run step d bytes).1 := by
  induction bytes generalizing s d arrivals with
  | nil =>
    rw [List.map_eq_nil_iff.mp single]
    exact r
  | cons c bytes ih =>
    obtain ⟨arrival, rest, rfl, one, others⟩ := List.map_eq_cons_iff.mp single
    rw [run_cons, run_cons]
    dsimp only
    exact ih (emit_byte cnt r one) others

/-- What puts the parser back in step, whatever came before. -/
def Resyncs (arrivals : List Arrival) : Prop :=
  (∃ arrival, arrivals = [arrival] ∧ 527 ≤ arrival.buf.length) ∨ arrivals.map Arrival.buf = resetWord.map fun c => [c]

theorem resyncs_start (cnt : Nat) (r : Represents s d) {arrivals : List Arrival} (resyncs : Resyncs arrivals) :
    Represents (run (emit cnt) s arrivals).1 start := by
  rcases resyncs with ⟨arrival, rfl, long⟩ | single
  · rw [run_cons, run_nil]
    dsimp only
    exact emit_long cnt r long
  · have r' := emits_bytes cnt r single
    rwa [resetWord_leads d ⟨s, r⟩] at r'

/-! ### Words and their cuts -/

theorem not_idle_byte (cnt : Nat) (r : Represents s start) (c : UInt8) :
    ¬ Idle (lunixProtocolReceivedBuf false cnt s [c]).1 := by
  have r' := @emit_byte start s cnt r ⟨0, [c]⟩ c rfl
  simp only [emit] at r'
  have begun : (step start c).1 = ⟨[c], none⟩ := by simp [start, step, Raw, push, payloadLen]
  rw [begun] at r'
  exact fun idle => absurd (r'.pos.symm.trans idle.2.1) (by simp)

/-- The parser waits for an end byte, so that the first byte ends a packet and the others are dropped. -/
theorem dropped_word (cnt : Nat) (c : UInt8) (rest : List UInt8) :
    ∃ s, Reachable cnt s ∧ Represents (lunixProtocolReceivedBuf false cnt s (c :: rest)).1 start := by
  have quiet : packets start (List.replicate 9 0) = [] := rfl
  have r := (@emit_quiet cnt _ _ (init_represents zeroedState) ⟨0, List.replicate 9 0⟩ quiet).2
  have waits : (run step start (List.replicate 9 0)).1 = zerosAt 9 := rfl
  have ends : (step (zerosAt 9) c).2 ≠ [] := by
    have raw : Raw (zerosAt 9).got := Or.inr rfl
    have last : (zerosAt 9).got.length + 1 = 10 + payloadLen ((zerosAt 9).got ++ [c]) := rfl
    rw [step, if_pos raw, push, if_pos last]
    exact List.cons_ne_nil _ _
  dsimp only at r
  rw [waits] at r
  refine ⟨_, reachable_once cnt (List.replicate 9 0), ?_⟩
  obtain ⟨s', p, held, r', -, -, done⟩ := @receivedBuf_packet _ _ r [] c rfl ends
  have dropped := done cnt rest
  rw [List.nil_append] at dropped
  rw [dropped]
  exact r'

/-- One word resynchronises the parser when it comes byte by byte. No word does however it is cut into buffers. -/
theorem reset_words (cnt : Nat) :
    resetWord.length = 630 ∧ (∀ s, Reachable cnt s → Idle (receiveAll false cnt s (resetWord.map fun c => [c])).1) ∧
      ∀ word : List UInt8, ∃ s bufs, Reachable cnt s ∧ bufs.flatten = word ∧ ¬ Idle (receiveAll false cnt s bufs).1 := by
  refine ⟨resetWord_length, ?_, ?_⟩
  · intro s reach
    have r := reachable_represents reach
    have single : (resetWord.map fun c => (⟨0, [c]⟩ : Arrival)).map Arrival.buf = resetWord.map fun c => [c] := by
      rw [List.map_map]
      rfl
    have home := resyncs_start cnt r (Or.inr single)
    rw [(emits_receiveAll cnt s _).1, single] at home
    exact idle_of_represents home
  · intro word
    rcases List.eq_nil_or_concat word with rfl | ⟨front, c, rfl⟩
    · refine ⟨_, [], ⟨zeroedState, [[0]], rfl⟩, rfl, ?_⟩
      rw [receiveAll, receiveAll, feed_nil, feed_singleton]
      exact not_idle_byte cnt (init_represents zeroedState) 0
    · cases front with
      | nil =>
        refine ⟨_, [[c]], ⟨zeroedState, [], rfl⟩, rfl, ?_⟩
        rw [receiveAll, receiveAll, feed_nil, feed_singleton]
        exact not_idle_byte cnt (init_represents zeroedState) c
      | cons x front =>
        obtain ⟨s, reach, r⟩ := dropped_word cnt x front
        refine ⟨s, [x :: front, [c]], reach, by simp, ?_⟩
        rw [receiveAll, feed_cons, feed_singleton]
        dsimp only
        exact not_idle_byte cnt r c

end OsLab.Lunix

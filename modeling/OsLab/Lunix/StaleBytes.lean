import OsLab.Lunix.Builds
import OsLab.Lunix.Encoding

/-!
# Stale packet bytes

`packet` is never cleared and the fields of a sensor packet have fixed offsets, so a short
packet is read together with bytes that it does not contain. `overlay` are the bytes of
`packet` that the parser has written; two memories that agree on them give the same
updates exactly when every packet is `Covered` by them.
-/

namespace OsLab.Lunix
open Transducer Decoder

/-- The packet bytes `got` over the bytes known before. -/
def overlay (got known : List UInt8) : List UInt8 := got ++ known.drop got.length

/-- The node id of the packet, when these are the bytes in the memory. -/
def nodeId (known : List UInt8) : Nat := (known.getD nodeOffset 0).toNat + 256 * (known.getD (nodeOffset + 1) 0).toNat

def ValidNode (cnt : Int) (known : List UInt8) : Prop := 0 < nodeId known ∧ (nodeId known : Int) ≤ cnt

/-- The known bytes decide what a complete packet updates: it is no sensor packet, or they reach beyond the
last field, or no byte behind them makes the node id valid. -/
def Covered (cnt : Int) (known : List UInt8) : Prop :=
  known.getD packetSignatureOffset 0 = 0x0B →
    lightOffset + 2 ≤ known.length ∨ ∀ high : UInt8, ¬ ValidNode cnt (known ++ [high])

/-- The packets are completed one after the other over what is known. -/
def AllCovered (cnt : Int) (known : List UInt8) : List (List UInt8) → Prop
  | [] => True
  | p :: ps => Covered cnt (overlay p known) ∧ AllCovered cnt (overlay p known) ps

/-- The memory holds the known bytes. -/
def Knows (known : List UInt8) (packet : Nat → UInt8) : Prop := ∀ k < known.length, packet k = known.getD k 0

/-! ### What is known -/

variable {cnt : Int} {n : Nat} {got known : List UInt8} {f g : Nat → UInt8}

@[simp] theorem overlay_length : (overlay got known).length = max got.length known.length := by
  simp only [overlay, List.length_append, List.length_drop]
  omega

theorem overlay_getD (k : Nat) : (overlay got known).getD k 0 = if k < got.length then got.getD k 0 else known.getD k 0 := by
  simp only [overlay, List.getD_eq_getElem?_getD]
  split_ifs with inside
  · rw [List.getElem?_append_left inside]
  · rw [List.getElem?_append_right (by omega), List.getElem?_drop, Nat.add_sub_cancel' (by omega)]

theorem Knows.push (knows : Knows (overlay got known) f) (b : UInt8) :
    Knows (overlay (got ++ [b]) known) (Function.update f got.length b) := by
  intro k inside
  rw [overlay_getD]
  rw [overlay_length, List.length_append, List.length_singleton] at inside
  by_cases last : k = got.length
  · subst last
    simp [List.getD_eq_getElem?_getD]
  · rw [Function.update_of_ne last, knows k (by rw [overlay_length]; omega), overlay_getD]
    simp only [List.length_append, List.length_singleton, List.getD_eq_getElem?_getD]
    by_cases old : k < got.length
    · rw [if_pos old, if_pos (by omega), List.getElem?_append_left old]
    · rw [if_neg old, if_neg (by omega)]

/-- The memory `f` with other bytes behind its first `n`. -/
def patch (n : Nat) (f g : Nat → UInt8) (k : Nat) : UInt8 := if k < n then f k else g k

theorem knows_patch (knows : Knows known f) (g : Nat → UInt8) : Knows known (patch known.length f g) :=
  fun k inside => (if_pos inside).trans (knows k inside)

theorem store_patch {d : Decoder} {c b : UInt8} (decoded : byte d c = some b) (g : Nat → UInt8) :
    store d c (patch (overlay d.got known).length f g) = patch (overlay (d.got ++ [b]) known).length (store d c f) g := by
  funext k
  simp only [store, decoded, patch, overlay_length, List.length_append, List.length_singleton, Function.update_apply]
  by_cases last : k = d.got.length
  · rw [if_pos last, if_pos (by omega), if_pos last]
  · rw [if_neg last, if_neg last]
    by_cases inside : k < max d.got.length known.length
    · rw [if_pos inside, if_pos (by omega)]
    · rw [if_neg inside, if_neg (by omega)]

/-- A byte stored in the memory is known, in a packet that goes on or is complete; what is behind stays. -/
theorem knows_step {d : Decoder} (knows : Knows (overlay d.got known) f) (c : UInt8) :
    ((step d c).2 = [] ∧ Knows (overlay (step d c).1.got known) (store d c f) ∧
        ∀ g, store d c (patch (overlay d.got known).length f g) = patch (overlay (step d c).1.got known).length (store d c f) g) ∨
      ∃ p, step d c = (start, [p]) ∧ Knows (overlay p known) (store d c f) ∧ 10 ≤ p.length ∧
        ∀ g, store d c (patch (overlay d.got known).length f g) = patch (overlay p known).length (store d c f) g := by
  cases decoded : byte d c with
  | none =>
    have same : ∀ f, store d c f = f := fun f => by rw [store, decoded]
    simp only [step_eq, decoded, same]
    exact Or.inl ⟨trivial, knows, fun _ => trivial⟩
  | some b =>
    have stored : store d c f = Function.update f d.got.length b := by rw [store, decoded]
    have next := knows.push b
    rw [← stored] at next
    simp only [step_eq, decoded, push]
    by_cases last : d.got.length + 1 = 10 + payloadLen (d.got ++ [b])
    · rw [if_pos last]
      exact Or.inr ⟨_, rfl, next, by rw [List.length_append, List.length_singleton]; omega, store_patch decoded⟩
    · rw [if_neg last]
      exact Or.inl ⟨rfl, next, store_patch decoded⟩

/-! ### The updates of one packet -/

theorem updatesFrom_other (other : f packetSignatureOffset ≠ 0x0B) : updatesFrom cnt f = [] := by
  simp [updatesFrom, lunixProtocolUpdateSensors, other]

theorem updatesFrom_sensor (sensor : f packetSignatureOffset = 0x0B) :
    updatesFrom cnt f =
      if 0 < (uint16FromPacket f nodeOffset).toNat ∧ ((uint16FromPacket f nodeOffset).toNat : Int) ≤ cnt then
        [⟨(uint16FromPacket f nodeOffset).toNat - 1, uint16FromPacket f vrefOffset, uint16FromPacket f temperatureOffset,
          uint16FromPacket f lightOffset⟩]
      else [] := by
  simp only [updatesFrom, lunixProtocolUpdateSensors, sensor, if_true, gt_iff_lt, UInt16.lt_iff_toNat_lt,
    UInt16.toNat_zero]

theorem uint16FromPacket_congr {offset : Nat} (low : f offset = g offset) (high : f (offset + 1) = g (offset + 1)) :
    uint16FromPacket f offset = uint16FromPacket g offset := by
  rw [uint16FromPacket, uint16FromPacket, low, high]

/-- The node id in the memory is that of the known bytes and the one behind them. -/
theorem nodeId_eq (knows : Knows known f) (long : 10 ≤ known.length) :
    (uint16FromPacket f nodeOffset).toNat = nodeId (known ++ [f 10]) := by
  rw [uint16FromPacket_toNat, nodeId]
  simp only [nodeOffset, List.getD_eq_getElem?_getD]
  have nine : f 9 = known[9]?.getD 0 := by
    rw [knows 9 (by omega), List.getD_eq_getElem?_getD]
  rw [List.getElem?_append_left (by omega), nine]
  rcases Nat.lt_or_eq_of_le long with longer | ten
  · rw [List.getElem?_append_left (by omega), knows 10 (by omega), List.getD_eq_getElem?_getD]
  · rw [List.getElem?_append_right (by omega), ← ten]
    rfl

theorem Covered.updates_eq (covered : Covered cnt known) (long : 10 ≤ known.length) (knows : Knows known f)
    (knows' : Knows known g) : updatesFrom cnt f = updatesFrom cnt g := by
  have same : ∀ k < known.length, f k = g k := fun k inside => (knows k inside).trans (knows' k inside).symm
  have four := knows 4 (by omega)
  have four' := knows' 4 (by omega)
  by_cases sensor : known.getD packetSignatureOffset 0 = 0x0B
  · rw [updatesFrom_sensor (four.trans sensor), updatesFrom_sensor (four'.trans sensor)]
    rcases covered sensor with wide | invalid
    · have word : ∀ offset, offset + 2 ≤ lightOffset + 2 → uint16FromPacket f offset = uint16FromPacket g offset :=
        fun offset low => uint16FromPacket_congr (same _ (by omega)) (same _ (by omega))
      rw [word nodeOffset (by decide), word vrefOffset (by decide), word temperatureOffset (by decide),
        word lightOffset (by decide)]
    · rw [if_neg, if_neg]
      · rw [nodeId_eq knows' long]
        exact invalid _
      · rw [nodeId_eq knows long]
        exact invalid _
  · rw [updatesFrom_other fun is => sensor (four.symm.trans is), updatesFrom_other fun is => sensor (four'.symm.trans is)]

theorem nodeId_long (long : 11 ≤ known.length) (high : UInt8) : nodeId (known ++ [high]) = nodeId known := by
  simp only [nodeId, nodeOffset, List.getD_eq_getElem?_getD]
  rw [List.getElem?_append_left (by omega), List.getElem?_append_left (by omega)]

theorem nodeId_patch (knows : Knows known f) (long : 10 ≤ known.length) (g : Nat → UInt8) :
    (uint16FromPacket (patch known.length f g) nodeOffset).toNat = nodeId (known ++ [g 10]) := by
  rw [nodeId_eq (knows_patch knows g) long]
  rcases Nat.lt_or_eq_of_le long with longer | ten
  · rw [nodeId_long longer, nodeId_long longer]
  · rw [patch, if_neg (by omega)]

/-- Bytes behind the known ones that make the node id valid and the last measurement `light`. -/
def filler (high light : UInt8) (k : Nat) : UInt8 := if k = 10 then high else light

/-- Over bytes that do not cover a packet two memories can differ in its update. -/
theorem updates_differ (uncovered : ¬ Covered cnt known) (long : 10 ≤ known.length) (knows : Knows known f) :
    ∃ g h u v, updatesFrom cnt (patch known.length f g) = [u] ∧ updatesFrom cnt (patch known.length f h) = [v] ∧ u ≠ v := by
  unfold Covered at uncovered
  push Not at uncovered
  obtain ⟨sensor, short, high, valid⟩ := uncovered
  have update : ∀ light : UInt8, ∃ u : SensorUpdate, u.light.toNat / 256 = light.toNat ∧
      updatesFrom cnt (patch known.length f (filler high light)) = [u] := by
    intro light
    have kept := knows_patch knows (filler high light) 4 (by omega)
    have node := nodeId_patch knows long (filler high light)
    have last : patch known.length f (filler high light) 23 = light := by
      unfold lightOffset at short
      rw [patch, if_neg (by omega)]
      rfl
    refine ⟨_, ?_, by rw [updatesFrom_sensor (kept.trans sensor), node]; exact if_pos valid⟩
    have low := (patch known.length f (filler high light) 22).toNat_lt
    simp only [uint16FromPacket_toNat, lightOffset, last]
    omega
  obtain ⟨u, zero, first⟩ := update 0
  obtain ⟨v, one, second⟩ := update 1
  refine ⟨_, _, u, v, first, second, ?_⟩
  rintro rfl
  rw [zero] at one
  exact absurd one (by decide)

/-! ### The updates of a stream -/

/-- The updates of the packets that the bytes complete in the memory. -/
def streamUpdates (cnt : Int) (d : Decoder) (f : Nat → UInt8) (bytes : List UInt8) : List SensorUpdate :=
  (run memoryStep (d, f) bytes).2.flatMap (updatesFrom cnt)

theorem streamUpdates_cons (d : Decoder) (c : UInt8) (bytes : List UInt8) :
    streamUpdates cnt d f (c :: bytes) =
      (if (step d c).2 = [] then [] else updatesFrom cnt (store d c f)) ++
        streamUpdates cnt (step d c).1 (store d c f) bytes := by
  simp only [streamUpdates, run_cons, memoryStep, List.flatMap_append]
  split_ifs <;> simp

theorem streamUpdates_covered {d : Decoder} {bytes : List UInt8} (covered : AllCovered cnt known (packets d bytes))
    (knows : Knows (overlay d.got known) f) (knows' : Knows (overlay d.got known) g) :
    streamUpdates cnt d f bytes = streamUpdates cnt d g bytes := by
  induction bytes generalizing d f g known with
  | nil => rfl
  | cons c bytes ih =>
    rw [streamUpdates_cons, streamUpdates_cons]
    rw [packets_cons] at covered
    rcases knows_step knows c with ⟨quiet, next, -⟩ | ⟨p, packet, next, long, -⟩ <;>
      rcases knows_step knows' c with ⟨quiet', next', -⟩ | ⟨p', packet', next', -, -⟩
    · rw [quiet, List.nil_append] at covered
      rw [if_pos quiet, if_pos quiet, ih covered next next']
    · rw [packet'] at quiet
      cases quiet
    · rw [packet] at quiet'
      cases quiet'
    · rw [packet] at covered packet' ⊢
      obtain ⟨-, same⟩ := Prod.mk.inj packet'
      obtain rfl := List.singleton_inj.mp same
      obtain ⟨first, rest⟩ := covered
      have many := first.updates_eq (by rw [overlay_length]; omega) next next'
      rw [if_neg (by simp), if_neg (by simp), many, ih rest next next']

/-- When a packet is not covered, some bytes behind the known ones show in the updates. -/
theorem streamUpdates_uncovered {d : Decoder} {bytes : List UInt8} (uncovered : ¬ AllCovered cnt known (packets d bytes))
    (knows : Knows (overlay d.got known) f) :
    ∃ g h, streamUpdates cnt d (patch (overlay d.got known).length f g) bytes ≠
      streamUpdates cnt d (patch (overlay d.got known).length f h) bytes := by
  induction bytes generalizing d f known with
  | nil => exact absurd trivial uncovered
  | cons c bytes ih =>
    rw [packets_cons] at uncovered
    simp only [streamUpdates_cons]
    rcases knows_step knows c with ⟨quiet, next, behind⟩ | ⟨p, packet, next, long, behind⟩
    · rw [quiet, List.nil_append] at uncovered
      simp only [behind, quiet, if_true, List.nil_append]
      exact ih uncovered next
    · rw [packet] at uncovered
      simp only [behind, packet, List.cons_ne_nil, if_false]
      have enough : 10 ≤ (overlay p known).length := by rw [overlay_length]; omega
      by_cases first : Covered cnt (overlay p known)
      · have rest : ¬ AllCovered cnt (overlay p known) (packets start bytes) := fun rest => uncovered ⟨first, rest⟩
        obtain ⟨g, h, differ⟩ := ih (d := start) rest next
        refine ⟨g, h, fun same => differ ?_⟩
        rw [first.updates_eq enough (knows_patch next g) (knows_patch next h)] at same
        exact List.append_cancel_left same
      · obtain ⟨g, h, u, v, one, two, differ⟩ := updates_differ first enough next
        refine ⟨g, h, fun same => differ ?_⟩
        rw [one, two] at same
        exact (List.cons_eq_cons.mp same).1

/-! ### Two parsers -/

/-- The states agree on everything but the bytes of `packet` from `pos` on. -/
structure Agree (s s' : ProtocolState) : Prop where
  state : s'.state = s.state
  bytesRead : s'.bytesRead = s.bytesRead
  bytesToRead : s'.bytesToRead = s.bytesToRead
  pos : s'.pos = s.pos
  nextIsSpecial : s'.nextIsSpecial = s.nextIsSpecial
  packet : ∀ k < s.pos, s'.packet k = s.packet k

theorem Agree.represents {s s' : ProtocolState} {d : Decoder} (agree : Agree s s') (r : Represents s d) : Represents s' d where
  pos := agree.pos.trans r.pos
  packet k inside := (agree.packet k (r.pos ▸ inside)).trans (r.packet k inside)
  special := agree.nextIsSpecial.trans r.special
  escape := r.escape
  phase := by rw [agree.state, agree.bytesRead, agree.bytesToRead, r.phase]
  room := r.room

theorem receiveAll_updates (debug : Bool) (cnt : Int) {s : ProtocolState} {d : Decoder} (r : Represents s d)
    (bufs : List (List UInt8)) :
    (receiveAll debug cnt s bufs).2 = streamUpdates cnt d s.packet (takenAll debug d bufs) := by
  obtain ⟨_, _, _, result⟩ := receiveAll_taken debug r bufs
  rw [result cnt]
  rfl

theorem Represents.knows {s : ProtocolState} {d : Decoder} (r : Represents s d) : Knows (overlay d.got d.got) s.packet := by
  intro k inside
  rw [overlay_length, max_self] at inside
  rw [overlay_getD, if_pos inside, r.packet k inside]

/-- Every state that a build reaches holds the packet it has received so far. -/
theorem reached_holds (debug : Bool) (cnt : Int) (s₀ : ProtocolState) (bufs : List (List UInt8)) :
    Represents (receiveAll debug cnt (lunixProtocolInit s₀) bufs).1
      (receiveAll debug cnt (lunixProtocolInit s₀) bufs).1.decoder := by
  obtain ⟨s', r, -, result⟩ := receiveAll_taken debug (init_represents s₀) bufs
  rw [result cnt]
  simp only [r.decoder_eq]
  exact r

/-- In either build the updates depend on what the parser has received, and not on what else `packet` holds,
exactly when every packet completed is covered by the bytes received. -/
theorem updates_depend_iff (debug : Bool) (cnt : Int) (s : ProtocolState) (holds : Represents s s.decoder)
    (bufs : List (List UInt8)) :
    (∀ s', Agree s s' → (receiveAll debug cnt s' bufs).2 = (receiveAll debug cnt s bufs).2) ↔
      AllCovered cnt s.decoder.got (packets s.decoder (takenAll debug s.decoder bufs)) := by
  constructor
  · intro same
    by_contra uncovered
    obtain ⟨g, h, differ⟩ := streamUpdates_uncovered uncovered holds.knows
    refine differ ?_
    have reads : ∀ g, streamUpdates cnt s.decoder (patch (overlay s.decoder.got s.decoder.got).length s.packet g)
        (takenAll debug s.decoder bufs) = (receiveAll debug cnt s bufs).2 := by
      intro g
      have agree : Agree s { s with packet := patch (overlay s.decoder.got s.decoder.got).length s.packet g } :=
        ⟨rfl, rfl, rfl, rfl, rfl, fun k inside => if_pos (by rw [overlay_length, max_self, ← holds.pos]; exact inside)⟩
      rw [← same _ agree, receiveAll_updates debug cnt (agree.represents holds)]
    rw [reads g, reads h]
  · intro covered s' agree
    have holds' := agree.represents holds
    rw [receiveAll_updates debug cnt holds', receiveAll_updates debug cnt holds]
    exact streamUpdates_covered covered holds'.knows holds.knows

/-- A sensor packet whose payload ends behind the node id. -/
def shortPacket : List UInt8 := [0x7E, 0, 0, 0, 0x0B, 0, 4, 0, 0, 1, 0, 0, 0, 0x7E]

/-- The parser after its initialization over other bytes. -/
def filledState : ProtocolState := { lunixProtocolInit zeroedState with packet := fun _ => 1 }

theorem filledState_agrees : Agree (lunixProtocolInit zeroedState) filledState :=
  ⟨rfl, rfl, rfl, rfl, rfl, fun k inside => absurd inside (Nat.not_lt_zero k)⟩

/-- Behind a longer packet the short one is covered. -/
theorem updates_depend_measurement :
    (receiveAll true 16 filledState [measurementPacket.encode, shortPacket]).2 =
      (receiveAll true 16 (lunixProtocolInit zeroedState) [measurementPacket.encode, shortPacket]).2 := by
  have complete : packets (lunixProtocolInit zeroedState).decoder
      (takenAll true (lunixProtocolInit zeroedState).decoder [measurementPacket.encode, shortPacket]) =
      [measurementPacket.bytes, shortPacket] := by decide
  refine (updates_depend_iff true 16 (lunixProtocolInit zeroedState) (reached_holds true 16 zeroedState []) _).mpr ?_
    filledState filledState_agrees
  rw [complete]
  exact ⟨fun _ => Or.inl (by decide), fun _ => Or.inl (by decide), trivial⟩

/-- What the parser held at the offset of the temperature becomes the temperature. -/
theorem short_packet_reads_stale :
    ¬ ∀ (debug : Bool) (cnt : Int) (s s' : ProtocolState), Represents s s.decoder → Agree s s' →
      ∀ bufs, (receiveAll debug cnt s' bufs).2 = (receiveAll debug cnt s bufs).2 := by
  intro same
  have updates := same false 16 (lunixProtocolInit zeroedState) filledState (reached_holds false 16 zeroedState [])
    filledState_agrees [shortPacket]
  revert updates
  decide

end OsLab.Lunix

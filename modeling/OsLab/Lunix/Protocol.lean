import Mathlib.Logic.Function.Basic
import Mathlib.Data.List.Basic

/-!
# The XMesh packet parser

`lunix-protocol.c`: the state machine that the Lunix line discipline feeds with
the bytes received from the TTY. `debug` is `LUNIX_DEBUG`. A received buffer is
the list of the bytes that `*i` has not passed yet.
-/

namespace OsLab.Lunix

def maxPacketLen : Nat := 300
def packetSignatureOffset : Nat := 4
def nodeOffset : Nat := 9
def vrefOffset : Nat := 18
def temperatureOffset : Nat := 20
def lightOffset : Nat := 22

/-- The `SEEKING_*` states. -/
inductive Seeking where
  | startByte | packetType | destinationAddress | amType | amGroup
  | payloadLength | payload | crc | endByte
  deriving DecidableEq, Repr

/-- `struct lunix_protocol_state_struct`. No function reads its `payload_length`. -/
structure ProtocolState where
  state : Seeking
  bytesRead : Nat
  bytesToRead : Nat
  pos : Nat
  nextIsSpecial : UInt8
  packet : Nat → UInt8

/-- A call `lunix_sensor_update(&lunix_sensors[sensor], batt, temp, light)`. -/
structure SensorUpdate where
  sensor : Nat
  batt : UInt16
  temp : UInt16
  light : UInt16
  deriving DecidableEq, Repr

/-- The little-endian 16-bit number at `p[offset]`. -/
def uint16FromPacket (p : Nat → UInt8) (offset : Nat) : UInt16 :=
  (p offset).toUInt16 ||| ((p (offset + 1)).toUInt16 <<< 8)

/-- `lunixSensorCnt` is the module parameter `lunix_sensor_cnt`, an `int`. -/
def lunixProtocolUpdateSensors (lunixSensorCnt : Int) (state : ProtocolState) : List SensorUpdate :=
  if state.packet packetSignatureOffset = 0x0B then
    let nodeid := uint16FromPacket state.packet nodeOffset
    let batt := uint16FromPacket state.packet vrefOffset
    let temp := uint16FromPacket state.packet temperatureOffset
    let light := uint16FromPacket state.packet lightOffset
    if nodeid > 0 ∧ (nodeid.toNat : Int) ≤ lunixSensorCnt then
      [⟨nodeid.toNat - 1, batt, temp, light⟩]
    else []
  else []

def setState (statep : ProtocolState) (state : Seeking) (btr br : Nat) : ProtocolState :=
  { statep with state := state, bytesToRead := btr, bytesRead := br }

/-- The static `lunix_protocol_state` before its initialization. -/
def zeroedState : ProtocolState := ⟨.startByte, 0, 0, 0, 0, fun _ => 0⟩

def lunixProtocolInit (state : ProtocolState) : ProtocolState :=
  setState { state with pos := 0, nextIsSpecial := 0 } .startByte 1 0

/-- `packet[pos] = c; ++pos; ++bytes_read`. -/
def storeByte (state : ProtocolState) (c : UInt8) : ProtocolState :=
  { state with
    packet := Function.update state.packet state.pos c
    pos := state.pos + 1
    bytesRead := state.bytesRead + 1 }

/-- The body of the loop of `lunix_protocol_parse_state`: it always passes one byte. -/
def consumeByte (useSpecials : Bool) (state : ProtocolState) (c : UInt8) : ProtocolState :=
  if useSpecials then
    if state.nextIsSpecial ≠ 0 then
      let packet :=
        if state.nextIsSpecial = 0x7E then Function.update state.packet state.pos c
        else if state.nextIsSpecial = 0x7D then Function.update state.packet state.pos (c ^^^ 0x20)
        else state.packet
      { state with
        packet := packet, pos := state.pos + 1, bytesRead := state.bytesRead + 1, nextIsSpecial := 0 }
    else if c = 0x7E ∨ c = 0x7D then { state with nextIsSpecial := c }
    else storeByte state c
  else storeByte state c

/-- What `lunix_protocol_parse_state` returns once its loop has ended. -/
def parseResult (state : ProtocolState) : Int :=
  if state.bytesRead = state.bytesToRead then 1 else 0

/-- The loop, entered with the given `iter`: the returned number, the state and the bytes left. -/
def parseLoop (debug useSpecials : Bool) (state : ProtocolState) (iter : Nat) :
    List UInt8 → Int × ProtocolState × List UInt8
  | [] => (parseResult state, state, [])
  | c :: rest =>
    if state.bytesRead < state.bytesToRead then
      if debug ∧ iter + 1 = 50 then (-1, state, c :: rest)
      else if state.pos = maxPacketLen then (-1, { state with pos := 0 }, c :: rest)
      else parseLoop debug useSpecials (consumeByte useSpecials state c) (iter + 1) rest
    else (parseResult state, state, c :: rest)

def lunixProtocolParseState (debug : Bool) (state : ProtocolState) (data : List UInt8)
    (useSpecials : Bool) : Int × ProtocolState × List UInt8 :=
  parseLoop debug useSpecials state 0 data

/-- `if (state->state == here) if (parse_state(...) == 1) complete`. -/
def seek (debug : Bool) (here : Seeking) (useSpecials : Bool)
    (complete : ProtocolState → ProtocolState) (cursor : ProtocolState × List UInt8) :
    ProtocolState × List UInt8 :=
  if cursor.1.state = here then
    match lunixProtocolParseState debug cursor.1 cursor.2 useSpecials with
    | (ret, state, rest) => if ret = 1 then (complete state, rest) else (state, rest)
  else cursor

/-- The state after the last `if`, with the calls of `lunix_sensor_update`. What is
left of the buffer after the end byte is not looked at. -/
def seekEndByte (debug : Bool) (lunixSensorCnt : Int) (cursor : ProtocolState × List UInt8) :
    ProtocolState × List SensorUpdate :=
  if cursor.1.state = .endByte then
    match lunixProtocolParseState debug cursor.1 cursor.2 false with
    | (ret, state, _) =>
      if ret = 1 then
        (setState { state with pos := 0, nextIsSpecial := 0 } .startByte 1 0,
          lunixProtocolUpdateSensors lunixSensorCnt state)
      else (state, [])
  else (cursor.1, [])

def lunixProtocolReceivedBuf (debug : Bool) (lunixSensorCnt : Int) (state : ProtocolState)
    (buf : List UInt8) : ProtocolState × List SensorUpdate :=
  let cursor := (state, buf)
  let cursor := seek debug .startByte false (setState · .packetType 1 0) cursor
  let cursor := seek debug .packetType false (setState · .destinationAddress 2 0) cursor
  let cursor := seek debug .destinationAddress true (setState · .amType 1 0) cursor
  let cursor := seek debug .amType true (setState · .amGroup 1 0) cursor
  let cursor := seek debug .amGroup true (setState · .payloadLength 1 0) cursor
  let cursor := seek debug .payloadLength true
    (fun s => setState s .payload (s.packet (s.pos - 1)).toNat 0) cursor
  let cursor := seek debug .payload true (setState · .crc 2 0) cursor
  let cursor := seek debug .crc true (setState · .endByte 1 0) cursor
  seekEndByte debug lunixSensorCnt cursor

end OsLab.Lunix

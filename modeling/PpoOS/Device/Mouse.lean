import PpoOS.Mm.Paging

/-!
# The mouse (`mouse.c`)

The mouse sends packets of three bytes, and each call of `mouse_poll` takes at most one byte from the
port.  A sum that leaves the range of `int` has no result.
-/

namespace PpoOS

/-- `struct mouse_state` -/
structure MouseState where
  x : Int
  y : Int
  dx : Int
  dy : Int
  buttons : U8
deriving DecidableEq

/-- `ms`, `packet` and `packet_cycle` -/
structure Mouse where
  ms : MouseState
  packet : Vector U8 3
  packetCycle : Nat
deriving DecidableEq

/-- `MOUSE_SCALE` -/
def mouseScale : Int := 2

/-- The result of an operation on `int` -/
def intResult (v : Int) : Option Int := if -2 ^ 31 ≤ v ∧ v < 2 ^ 31 then some v else none

/-- `if (v < 0) v = 0;` -/
def atLeastZero (v : Int) : Int := if v < 0 then 0 else v

/-- `mouse_init`; what it says to the controller leaves nothing in the variables. -/
def mouseInit (m : Mouse) : Mouse := { m with ms := ⟨0, 0, 0, 0, 0#8⟩ }

/-- `mouse_poll`, with what it reads from the status port and the data port -/
def mousePoll (status data : U8) (m : Mouse) : Option Mouse :=
  if status &&& 1#8 = 0#8 then some m
  else if h : m.packetCycle < 3 then do
    let packet := m.packet.set m.packetCycle data
    if m.packetCycle + 1 < 3 then return { m with packet := packet, packetCycle := m.packetCycle + 1 }
    else
      let dx := packet[1].toInt * mouseScale
      let dy := -packet[2].toInt * mouseScale
      let x ← intResult (m.ms.x + dx)
      let y ← intResult (m.ms.y + dy)
      return ⟨⟨atLeastZero x, atLeastZero y, dx, dy, packet[0] &&& 7#8⟩, packet, 0⟩
  else none

/-! ## Packets -/

/-- The mouse after a packet -/
def MouseState.packet (s : MouseState) (p : U8 × U8 × U8) : MouseState where
  x := max 0 (s.x + 2 * p.2.1.toInt)
  y := max 0 (s.y - 2 * p.2.2.toInt)
  dx := 2 * p.2.1.toInt
  dy := -2 * p.2.2.toInt
  buttons := p.1 &&& 7#8

/-- The packets in a stream of bytes -/
def mousePackets : List U8 → List (U8 × U8 × U8)
  | a :: b :: c :: bytes => (a, b, c) :: mousePackets bytes
  | _ => []

/-- The bytes at the end of a stream that are no packet yet -/
def mouseRest : List U8 → List U8
  | _ :: _ :: _ :: bytes => mouseRest bytes
  | bytes => bytes

/-- What there is of a packet that is not complete -/
def Mouse.pending (m : Mouse) : List U8 := m.packet.toList.take m.packetCycle

/-- The bytes that the polls find -/
def mouseBytes (polls : List (U8 × U8)) : List U8 :=
  (polls.filter fun poll => poll.1 &&& 1#8 ≠ 0#8).map Prod.snd

end PpoOS

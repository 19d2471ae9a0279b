import PpoOS.Device.Mouse

/-!
# The packets of the mouse

However the polls fall between the bytes, the mouse is where its packets move it, and a packet that is
not complete moves nothing.
-/

namespace PpoOS

theorem mousePoll_idle {status data : U8} (h : status &&& 1#8 = 0#8) (m : Mouse) : mousePoll status data m = some m :=
  if_pos h

/-- Polls that find nothing do nothing. -/
theorem mousePolls_eq (polls : List (U8 × U8)) (m : Mouse) :
    polls.foldlM (fun m poll => mousePoll poll.1 poll.2 m) m =
      (mouseBytes polls).foldlM (fun m data => mousePoll 1#8 data m) m := by
  induction polls generalizing m with
  | nil => rfl
  | cons poll polls ih =>
    rw [List.foldlM_cons, mouseBytes]
    by_cases hidle : poll.1 &&& 1#8 = 0#8
    · rw [mousePoll_idle hidle, List.filter_cons_of_neg (by simpa using hidle)]
      exact ih m
    · have hpoll : mousePoll poll.1 poll.2 m = mousePoll 1#8 poll.2 m := by
        rw [mousePoll, mousePoll, if_neg hidle, if_neg (by decide)]
      rw [hpoll, List.filter_cons_of_pos (by simpa using hidle), List.map_cons, List.foldlM_cons]
      exact congrArg _ (funext ih)

/-- A byte that does not complete a packet -/
theorem mousePoll_collect {m : Mouse} (h : m.packetCycle + 1 < 3) (data : U8) :
    mousePoll 1#8 data m =
      some { m with packet := m.packet.set m.packetCycle data (by omega), packetCycle := m.packetCycle + 1 } := by
  rw [mousePoll, if_neg (by decide), dif_pos (by omega)]
  dsimp only
  rw [if_pos h]
  rfl

theorem intResult_eq {v : Int} (hlow : -2 ^ 31 ≤ v) (hhigh : v < 2 ^ 31) : intResult v = some v := if_pos ⟨hlow, hhigh⟩

theorem atLeastZero_eq (v : Int) : atLeastZero v = max 0 v := by
  rw [atLeastZero]
  split <;> omega

theorem byteInt_bounds (b : U8) : -128 ≤ b.toInt ∧ b.toInt ≤ 127 := by
  have hlow := BitVec.le_toInt b
  have hhigh := BitVec.toInt_lt (x := b)
  omega

/-- The mouse has been moved by at most `k` packets. -/
structure MouseState.Within (k : Nat) (s : MouseState) : Prop where
  x_nonneg : 0 ≤ s.x
  x_le : s.x ≤ 256 * k
  y_nonneg : 0 ≤ s.y
  y_le : s.y ≤ 256 * k

theorem MouseState.Within.packet {k : Nat} {s : MouseState} (h : s.Within k) (p : U8 × U8 × U8) :
    (s.packet p).Within (k + 1) := by
  obtain ⟨hx, hx', hy, hy'⟩ := h
  have hb := byteInt_bounds p.2.1
  have hc := byteInt_bounds p.2.2
  constructor
  · exact Int.le_max_left _ _
  · change max 0 (s.x + 2 * p.2.1.toInt) ≤ _
    push_cast
    omega
  · exact Int.le_max_left _ _
  · change max 0 (s.y - 2 * p.2.2.toInt) ≤ _
    push_cast
    omega

/-- The byte that completes a packet -/
theorem mousePoll_complete {k : Nat} {ms : MouseState} (hms : ms.Within k) (hk : k + 1 < 2 ^ 23) (packet : Vector U8 3)
    (c : U8) : mousePoll 1#8 c ⟨ms, packet, 2⟩ = some ⟨ms.packet (packet[0], packet[1], c), packet.set 2 c, 0⟩ := by
  obtain ⟨hx, hx', hy, hy'⟩ := hms
  have hb := byteInt_bounds packet[1]
  have hc := byteInt_bounds c
  have hsumx : intResult (ms.x + packet[1].toInt * mouseScale) = some (ms.x + packet[1].toInt * mouseScale) := by
    rw [mouseScale]
    exact intResult_eq (by omega) (by omega)
  have hsumy : intResult (ms.y + -c.toInt * mouseScale) = some (ms.y + -c.toInt * mouseScale) := by
    rw [mouseScale]
    exact intResult_eq (by omega) (by omega)
  have hplaces : (packet.set 2 c)[0] = packet[0] ∧ (packet.set 2 c)[1] = packet[1] ∧ (packet.set 2 c)[2] = c :=
    ⟨Vector.getElem_set_ne _ _ (by decide), Vector.getElem_set_ne _ _ (by decide), Vector.getElem_set_self _⟩
  obtain ⟨hfirst, hsecond, hthird⟩ := hplaces
  rw [mousePoll, if_neg (by decide), dif_pos (Nat.lt_succ_self 2)]
  dsimp only
  rw [if_neg (by decide), hfirst, hsecond, hthird, hsumx, hsumy]
  have hdx : packet[1].toInt * (2 : Int) = (2 : Int) * packet[1].toInt := Int.mul_comm _ _
  have hdy : -c.toInt * 2 = -2 * c.toInt := by omega
  have hsum : ms.y + -2 * c.toInt = ms.y - 2 * c.toInt := by omega
  rw [Option.bind_eq_bind, Option.bind_some, Option.bind_some, atLeastZero_eq, atLeastZero_eq, mouseScale, hdx, hdy, hsum]
  rfl

/-- Three bytes are a packet. -/
theorem mousePoll_packet {m : Mouse} {k : Nat} (hcycle : m.packetCycle = 0) (hms : m.ms.Within k) (hk : k + 1 < 2 ^ 23)
    (a b c : U8) : ∃ packet, [a, b, c].foldlM (fun m data => mousePoll 1#8 data m) m =
      some ⟨m.ms.packet (a, b, c), packet, 0⟩ := by
  obtain ⟨ms, packet, cycle⟩ := m
  dsimp only at hcycle hms ⊢
  subst hcycle
  have hfirst : ((packet.set 0 a).set 1 b)[0] = a := by
    rw [Vector.getElem_set_ne _ _ (by decide), Vector.getElem_set_self]
  have hsecond : ((packet.set 0 a).set 1 b)[1] = b := Vector.getElem_set_self _
  have hlast := mousePoll_complete hms hk ((packet.set 0 a).set 1 b) c
  rw [hfirst, hsecond] at hlast
  refine ⟨((packet.set 0 a).set 1 b).set 2 c, ?_⟩
  rw [List.foldlM_cons, mousePoll_collect (by simp), Option.bind_eq_bind, Option.bind_some, List.foldlM_cons,
    mousePoll_collect (by simp), Option.bind_eq_bind, Option.bind_some, List.foldlM_cons]
  exact congrArg (fun r => r.bind fun m => [].foldlM (fun m data => mousePoll 1#8 data m) m) hlast

theorem packet_toList (packet : Vector U8 3) : packet.toList = [packet[0], packet[1], packet[2]] := by
  refine List.ext_getElem (by simp) fun i hi _ => ?_
  rw [Vector.length_toList] at hi
  obtain rfl | rfl | rfl : i = 0 ∨ i = 1 ∨ i = 2 := by omega
  all_goals simp

/-- The bytes of a packet that is not complete may as well come now. -/
theorem mousePoll_pending {m : Mouse} (hcycle : m.packetCycle < 3) :
    m.pending.foldlM (fun m data => mousePoll 1#8 data m) { m with packetCycle := 0 } = some m := by
  obtain ⟨ms, packet, cycle⟩ := m
  dsimp only at hcycle ⊢
  obtain rfl | rfl | rfl : cycle = 0 ∨ cycle = 1 ∨ cycle = 2 := by omega
  · rfl
  · have hpending : (Mouse.mk ms packet 1).pending = [packet[0]] := by
      rw [Mouse.pending, packet_toList]
      rfl
    rw [hpending, List.foldlM_cons, mousePoll_collect (by simp)]
    simp
  · have hpending : (Mouse.mk ms packet 2).pending = [packet[0], packet[1]] := by
      rw [Mouse.pending, packet_toList]
      rfl
    rw [hpending, List.foldlM_cons, mousePoll_collect (by simp), Option.bind_eq_bind, Option.bind_some, List.foldlM_cons,
      mousePoll_collect (by simp)]
    simp

/-- The mouse is where the packets in what it has sent move it. -/
theorem mouseBytes_run {bytes : List U8} {m : Mouse} {k : Nat} (hcycle : m.packetCycle = 0) (hms : m.ms.Within k)
    (hk : k + bytes.length / 3 < 2 ^ 23) :
    ∃ m', bytes.foldlM (fun m data => mousePoll 1#8 data m) m = some m' ∧
      m'.ms = (mousePackets bytes).foldl MouseState.packet m.ms ∧ m'.pending = mouseRest bytes ∧ m'.packetCycle < 3 := by
  fun_induction mousePackets bytes generalizing m k with
  | case1 a b c bytes ih =>
    rw [List.length_cons, List.length_cons, List.length_cons] at hk
    obtain ⟨packet, hthree⟩ := mousePoll_packet hcycle hms (by omega) a b c
    obtain ⟨m', hrest, hmoved, hpending⟩ := ih (m := ⟨m.ms.packet (a, b, c), packet, 0⟩) rfl (hms.packet (a, b, c)) (by omega)
    refine ⟨m', ?_, hmoved, by rwa [mouseRest]⟩
    have hsplit : a :: b :: c :: bytes = [a, b, c] ++ bytes := rfl
    rw [hsplit, List.foldlM_append, hthree, Option.bind_eq_bind, Option.bind_some, hrest]
  | case2 bytes hshort =>
    obtain ⟨ms, packet, cycle⟩ := m
    dsimp only at hcycle
    subst hcycle
    rcases bytes with _ | ⟨a, _ | ⟨b, _ | ⟨c, bytes⟩⟩⟩
    · exact ⟨_, rfl, rfl, rfl, Nat.zero_lt_succ 2⟩
    · refine ⟨⟨ms, packet.set 0 a, 1⟩, ?_, rfl, ?_, by simp⟩
      · rw [List.foldlM_cons, mousePoll_collect (by simp)]
        rfl
      · rw [Mouse.pending, packet_toList, Vector.getElem_set_self]
        rfl
    · refine ⟨⟨ms, (packet.set 0 a).set 1 b, 2⟩, ?_, rfl, ?_, by simp⟩
      · rw [List.foldlM_cons, mousePoll_collect (by simp), Option.bind_eq_bind, Option.bind_some, List.foldlM_cons,
          mousePoll_collect (by simp)]
        rfl
      · rw [Mouse.pending, packet_toList, Vector.getElem_set_self, Vector.getElem_set_ne _ _ (by decide),
          Vector.getElem_set_self]
        rfl
    · exact absurd rfl (hshort a b c bytes)

/-- However the polls fall between the bytes, the mouse is where its packets move it.  What an earlier run has left of a
packet counts, as `mouse_init` does not forget it. -/
theorem mouse_packets {m : Mouse} (hcycle : m.packetCycle < 3) {polls : List (U8 × U8)}
    (h : (m.pending ++ mouseBytes polls).length / 3 < 2 ^ 23) :
    ∃ m', polls.foldlM (fun m poll => mousePoll poll.1 poll.2 m) (mouseInit m) = some m' ∧
      m'.ms = (mousePackets (m.pending ++ mouseBytes polls)).foldl MouseState.packet ⟨0, 0, 0, 0, 0#8⟩ ∧
      m'.pending = mouseRest (m.pending ++ mouseBytes polls) ∧ m'.packetCycle < 3 := by
  have hstart : m.pending.foldlM (fun m data => mousePoll 1#8 data m) ⟨⟨0, 0, 0, 0, 0#8⟩, m.packet, 0⟩ = some (mouseInit m) :=
    mousePoll_pending (m := mouseInit m) hcycle
  have hrun := mouseBytes_run (m := ⟨⟨0, 0, 0, 0, 0#8⟩, m.packet, 0⟩) (k := 0) rfl
    ⟨Int.le_refl 0, Int.le_refl 0, Int.le_refl 0, Int.le_refl 0⟩
    (show 0 + (m.pending ++ mouseBytes polls).length / 3 < 2 ^ 23 by omega)
  rwa [List.foldlM_append, hstart, Option.bind_eq_bind, Option.bind_some, ← mousePolls_eq] at hrun

/-- A mouse that is set up in the middle of a packet, and a poll that finds nothing -/
theorem mouse_packets_idle : ∃ m',
    [(1#8, 0x05#8), (0#8, 0xFF#8), (1#8, 0x03#8)].foldlM (fun m poll => mousePoll poll.1 poll.2 m)
        (mouseInit ⟨⟨7, 7, 0, 0, 0#8⟩, #v[0x09#8, 0#8, 0#8], 1⟩) = some m' ∧
      m'.ms = (mousePackets ([0x09#8] ++ [0x05#8, 0x03#8])).foldl MouseState.packet ⟨0, 0, 0, 0, 0#8⟩ ∧
      m'.pending = mouseRest ([0x09#8] ++ [0x05#8, 0x03#8]) ∧ m'.packetCycle < 3 :=
  mouse_packets (m := ⟨⟨7, 7, 0, 0, 0#8⟩, #v[0x09#8, 0#8, 0#8], 1⟩) (by decide) (by decide)

end PpoOS

import LatentMesh.AirCore.Interleaving
import LatentMesh.Meshtastic.Receiver
import LatentMesh.Meshtastic.Resync

/-!
# The Meshtastic pipeline end to end

A message goes through fragmentation, frame encoding, two protobuf messages and the stream framing,
a node echoes its packets in any order, and a receiver that gets the echoes in any chunks hands the
message over (`pipeline_delivers`).
-/

namespace LatentMesh.Meshtastic

open LatentMesh.AirCore LatentMesh.Lib

/-- The metadata and the bytes that a receiver should hand over. -/
def OutgoingMessage.reassembled (self : OutgoingMessage) : ReassembledMessage :=
  { toFragmentMeta := self.info, bytes := self.message }

/-! ## Encoding -/

/-- The `ToRadio` body of a frame. -/
def toRadioBody (destination : UInt32) (frame : SparseRadioFrame) : List UInt8 :=
  encodeToRadioData destination privateAppPortnum frame.wire

/-- The body of a packet fits into a frame of the device. -/
theorem to_radio_body_length (destination : UInt32) {frame : SparseRadioFrame}
    (h : frame.wire.length ≤ meshtasticFrameMtu) :
    (toRadioBody destination frame).length ≤ 244 := by
  have hwire : frame.wire.length ≤ 227 := h
  have hpacket := @encode_mesh_packet_length destination frame.wire (by omega)
  have hbody := @encode_bytes_field_length toRadioFieldPacket
    (encodeMeshPacket destination privateAppPortnum frame.wire) (by decide) (by omega)
  rw [toRadioBody, encodeToRadioData]
  omega

/-- Results that all succeed are collected. -/
theorem collect_map {α β : Type} {items : List α} {f : α → Result β} {g : α → β}
    (h : ∀ item ∈ items, f item = .ok (g item)) : collect (items.map f) = .ok (items.map g) := by
  induction items with
  | nil => rfl
  | cons item items ih =>
      rw [List.map_cons, collect, h item (List.mem_cons_self ..),
        ih fun other hother => h other (List.mem_cons_of_mem _ hother)]
      rfl

/-- A frame within the MTU is encoded as a framed packet. -/
theorem encode_one_packet_ok (adapter : MeshtasticAdapter) {frame : SparseRadioFrame}
    (hvalid : frame.Valid) (hlength : frame.wire.length ≤ meshtasticFrameMtu) :
    adapter.encodeOnePacket frame = .ok (framed (toRadioBody adapter.destination frame)) := by
  have hbody := to_radio_body_length adapter.destination hlength
  have hwrite : writeFrame [] (toRadioBody adapter.destination frame) =
      .ok (framed (toRadioBody adapter.destination frame)) :=
    write_frame_eq_ok_iff.mpr ⟨Nat.le_trans hbody (by decide), (List.nil_append _).symm⟩
  rw [MeshtasticAdapter.encodeOnePacket, SparseRadioFrame.encode_eq_ok_iff.mpr ⟨hvalid, rfl⟩]
  show (writeFrame [] (toRadioBody adapter.destination frame)).mapError _ = _
  rw [hwrite]
  rfl

/-- The frames of an outgoing message. -/
theorem exists_fragmented (outgoing : OutgoingMessage)
    (hlength : outgoing.message.length ≤ 32 * 211) :
    ∃ message : FragmentedMessage, message.info = outgoing.info ∧
      message.bytes = outgoing.message ∧ message.frameMtu = meshtasticFrameMtu := by
  obtain ⟨frames, hframes⟩ := @fragment_message_fits outgoing.info outgoing.message
    meshtasticFrameMtu (by decide) (by decide) hlength
  exact ⟨⟨_, _, _, frames, hframes⟩, rfl, rfl, rfl⟩

/-- The frames of a message fit into a packet. -/
theorem frame_wire_length {message : FragmentedMessage}
    (hmtu : message.frameMtu = meshtasticFrameMtu) {frame : SparseRadioFrame}
    (hframe : frame ∈ message.frames) : frame.wire.length ≤ meshtasticFrameMtu := by
  obtain ⟨index, hget⟩ := List.getElem?_of_mem hframe
  have hpayload := (fragment_payload_length message.fragmented
    (List.mem_of_getElem? (FragmentedMessage.frames_get hget).2.2)).1
  rw [hmtu] at hpayload
  rw [SparseRadioFrame.wire_length, SparseRadioFrame.encodedLen]
  have hmin : frameMinBytes + (meshtasticFrameMtu - frameMinBytes) = meshtasticFrameMtu := by
    decide
  omega

/-- A message with a valid priority is encoded as its packets. -/
theorem encode_message_ok (adapter : MeshtasticAdapter) {outgoing : OutgoingMessage}
    {message : FragmentedMessage} (hpriority : outgoing.priority ≤ 15)
    (hinfo : message.info = outgoing.info) (hbytes : message.bytes = outgoing.message)
    (hmtu : message.frameMtu = meshtasticFrameMtu) :
    adapter.encodeMessage outgoing =
      .ok (message.frames.map fun frame => framed (toRadioBody adapter.destination frame)) := by
  have hfragment := message.fragmented
  rw [hinfo, hbytes, hmtu] at hfragment
  rw [MeshtasticAdapter.encodeMessage, hfragment]
  refine collect_map fun frame hframe => encode_one_packet_ok adapter ?_
    (frame_wire_length hmtu hframe)
  rw [FragmentedMessage.valid_iff hframe, hinfo]
  exact hpriority

/-! ## Echoes -/

/-- What the tests do with a packet: unframe it, echo it, frame the echo. -/
def simulateNodeEcho (packet : List UInt8) : Option (List UInt8) :=
  match decodeSingleFrame packet with
  | .error _ => none
  | .ok toRadio =>
      (simulateNodeEchoAsFromRadio toRadio).bind fun fromRadio =>
      (writeFrame [] fromRadio).toOption

/-- A framed `FromRadio` packet with the port and the payload of a framed `ToRadio` packet. -/
structure Echo (packet echo : List UInt8) : Prop where
  same : ∃ toRadio fromRadio simulated received sender,
    decodeSingleFrame packet = .ok toRadio ∧
      simulateNodeEchoAsFromRadio toRadio = some simulated ∧
      decodeFromRadio simulated = .ok (some received) ∧
      writeFrame [] fromRadio = .ok echo ∧
      decodeFromRadio fromRadio = .ok (some { received with sender })

/-- A framed `FromRadio` packet that carries a frame. -/
structure CarriesFrame (frame : SparseRadioFrame) (fromRadio : List UInt8) : Prop where
  short : fromRadio.length ≤ maxDeviceApiFrameLen
  decoded : ∃ sender, decodeFromRadio fromRadio =
    .ok (some { sender, portnum := privateAppPortnum, payload := frame.wire })

/-- A framed body is read back. -/
theorem decode_single_frame_framed {body : List UInt8}
    (h : body.length ≤ maxDeviceApiFrameLen) : decodeSingleFrame (framed body) = .ok body := by
  obtain ⟨high, low, hframed, hlen⟩ := exists_framed_header h
  rw [hframed]
  simp only [decodeSingleFrame, ne_eq, not_true_eq_false, or_self, if_false, hlen, or_false]
  rw [if_neg (Nat.not_lt.mpr h)]

/-- The echo that the simulated node makes of a packet. -/
theorem simulated_echo (destination : UInt32) {frame : SparseRadioFrame}
    (hlength : frame.wire.length ≤ meshtasticFrameMtu) :
    ∃ fromRadio, simulateNodeEchoAsFromRadio (toRadioBody destination frame) = some fromRadio ∧
      fromRadio.length ≤ maxDeviceApiFrameLen ∧
      decodeFromRadio fromRadio =
        .ok (some { sender := 0, portnum := privateAppPortnum, payload := frame.wire }) := by
  have hwire : frame.wire.length ≤ 227 := hlength
  have hbody := to_radio_body_length destination hlength
  have hpacket := @encode_mesh_packet_length destination frame.wire (by omega)
  have hecho := @encode_bytes_field_length fromRadioFieldPacket
    (encodeMeshPacket destination privateAppPortnum frame.wire) (by decide) (by omega)
  have hmax : maxDeviceApiFrameLen = 512 := rfl
  refine ⟨_, simulate_node_echo_encode _ _ ?_, ?_, decode_from_radio_encode _ _ ?_⟩
  · exact Nat.lt_of_le_of_lt hbody (by decide)
  · omega
  · omega

/-- The echoes of the packet of a frame carry the frame. -/
theorem echo_carries {destination : UInt32} {frame : SparseRadioFrame} {echo : List UInt8}
    (hlength : frame.wire.length ≤ meshtasticFrameMtu)
    (h : Echo (framed (toRadioBody destination frame)) echo) :
    ∃ fromRadio, echo = framed fromRadio ∧ CarriesFrame frame fromRadio := by
  have hbody : (toRadioBody destination frame).length ≤ maxDeviceApiFrameLen :=
    Nat.le_trans (to_radio_body_length destination hlength) (by decide)
  obtain ⟨simulated, hsimulated, -, hdecoded⟩ := simulated_echo destination hlength
  obtain ⟨toRadio, fromRadio, other, received, sender, hunframed, hother, hreceived, hwrite,
    hsame⟩ := h.same
  rw [decode_single_frame_framed hbody] at hunframed
  cases hunframed
  rw [hsimulated] at hother
  cases hother
  rw [hdecoded] at hreceived
  cases hreceived
  obtain ⟨hshort, hecho⟩ := write_frame_eq_ok_iff.mp hwrite
  exact ⟨fromRadio, hecho, hshort, sender, hsame⟩

/-- The simulated node echoes every packet of a message. -/
theorem simulate_node_echo_is_echo (destination : UInt32) {frame : SparseRadioFrame}
    (hlength : frame.wire.length ≤ meshtasticFrameMtu) :
    ∃ echo, simulateNodeEcho (framed (toRadioBody destination frame)) = some echo ∧
      Echo (framed (toRadioBody destination frame)) echo := by
  have hbody : (toRadioBody destination frame).length ≤ maxDeviceApiFrameLen :=
    Nat.le_trans (to_radio_body_length destination hlength) (by decide)
  obtain ⟨simulated, hsimulated, hshort, hdecoded⟩ := simulated_echo destination hlength
  have hunframed := decode_single_frame_framed hbody
  have hwrite : writeFrame [] simulated = .ok (framed simulated) :=
    write_frame_eq_ok_iff.mpr ⟨hshort, (List.nil_append _).symm⟩
  refine ⟨framed simulated, ?_, ⟨_, simulated, simulated, _, 0, hunframed, hsimulated, hdecoded,
    hwrite, hdecoded⟩⟩
  rw [simulateNodeEcho, hunframed]
  dsimp only
  rw [hsimulated]
  dsimp only [Option.bind]
  rw [hwrite]
  rfl

/-! ## Receiving -/

/-- Ingesting bodies that carry frames pushes the frames. -/
theorem ingest_all_carries (adapter : MeshtasticAdapter) {frames : List SparseRadioFrame}
    {bodies : List (List UInt8)} (hvalid : ∀ frame ∈ frames, frame.Valid)
    (h : List.Forall₂ CarriesFrame frames bodies) :
    (adapter.ingestAll bodies).2 = (adapter.reassembler.pushAll frames).2.map fromAir := by
  induction h generalizing adapter with
  | nil => rfl
  | @cons frame body frames bodies hcarries hrest ih =>
      obtain ⟨sender, hdecoded⟩ := hcarries.decoded
      have hdecode := SparseRadioFrame.decode_wire (hvalid frame (List.mem_cons_self ..))
      have hingest : adapter.ingestFromRadio body =
          ({ adapter with reassembler := (adapter.reassembler.push frame).1 },
            fromAir (adapter.reassembler.push frame).2) := by
        rw [MeshtasticAdapter.ingestFromRadio, hdecoded]
        dsimp only
        rw [if_neg (not_not.mpr rfl), MeshtasticAdapter.ingestAirPayload, hdecode]
      have hframes := ih { adapter with reassembler := (adapter.reassembler.push frame).1 }
        fun other hother => hvalid other (List.mem_cons_of_mem _ hother)
      simp only [MeshtasticAdapter.ingestAll, hingest, Reassembler.pushAll, List.map_cons, hframes]

/-- The bodies of a stream of frames. -/
theorem framed_bodies_flatten {bodies : List (List UInt8)}
    (h : ∀ body ∈ bodies, body.length ≤ maxDeviceApiFrameLen) :
    framedBodies (bodies.map framed).flatten = bodies := by
  have hpush : ∀ (ready : List (List UInt8)), (FrameDecoder.idle ready).push
      (bodies.map framed).flatten = FrameDecoder.idle (ready ++ bodies) := by
    induction bodies with
    | nil =>
        intro ready
        rw [List.append_nil]
        rfl
    | cons body bodies ih =>
        intro ready
        rw [List.map_cons, List.flatten_cons, FrameDecoder.push_append,
          FrameDecoder.push_framed (Or.inl rfl) (h body (List.mem_cons_self ..)),
          ih (fun other hother => h other (List.mem_cons_of_mem _ hother)), List.append_assoc,
          List.singleton_append]
  rw [framed_bodies_eq]
  show ((FrameDecoder.idle []).push (bodies.map framed).flatten).ready = bodies
  rw [hpush]
  rfl

/-- Echoes that carry frames are framed bodies that carry them. -/
theorem carried_bodies {destination : UInt32} {frames : List SparseRadioFrame}
    {echoes : List (List UInt8)}
    (hlength : ∀ frame ∈ frames, frame.wire.length ≤ meshtasticFrameMtu)
    (h : List.Forall₂ (fun frame echo => Echo (framed (toRadioBody destination frame)) echo)
      frames echoes) :
    ∃ bodies, echoes = bodies.map framed ∧ (∀ body ∈ bodies, body.length ≤ maxDeviceApiFrameLen) ∧
      List.Forall₂ CarriesFrame frames bodies := by
  induction h with
  | nil => exact ⟨[], rfl, fun _ hbody => absurd hbody List.not_mem_nil, .nil⟩
  | cons hecho hrest ih =>
      obtain ⟨body, rfl, hcarries⟩ := echo_carries (hlength _ (List.mem_cons_self ..)) hecho
      obtain ⟨bodies, rfl, hshort, hbodies⟩ := ih fun frame hframe =>
        hlength frame (List.mem_cons_of_mem _ hframe)
      exact ⟨body :: bodies, rfl, List.forall_mem_cons.mpr ⟨hcarries.short, hshort⟩,
        .cons hcarries hbodies⟩

/-- What a fresh adapter answers to the echoes of a message in any order. -/
theorem ingest_echoes {fresh : MeshtasticAdapter} (hfresh : MeshtasticAdapter.new = .ok fresh)
    {message : FragmentedMessage} (hmtu : message.frameMtu = meshtasticFrameMtu)
    (hpriority : message.info.priority ≤ 15) (hbytes : message.bytes.length ≤ 32 * 211)
    {destination : UInt32} {echoes arrived : List (List UInt8)}
    (hechoes : List.Forall₂ (fun frame echo => Echo (framed (toRadioBody destination frame)) echo)
      message.frames echoes) (hperm : arrived.Perm echoes) :
    ∃ count, (fresh.ingestAll (framedBodies arrived.flatten)).2 =
      List.replicate count (.ok none) ++ [.ok (some message.reassembled)] := by
  obtain ⟨table, htable, rfl⟩ : ∃ table, Reassembler.new .default = .ok table ∧
      fresh = { reassembler := table, destination := broadcastAddr } := by
    rw [MeshtasticAdapter.new, MeshtasticAdapter.withReassemblerConfig] at hfresh
    obtain ⟨table, htable, hadapter⟩ := Lib.bind_eq_ok_iff.mp hfresh
    cases hadapter
    exact ⟨table, from_air_eq_ok_iff.mp htable, rfl⟩
  -- the frames in the order in which their echoes arrive
  obtain ⟨frames, hcarried, hframes⟩ := List.perm_comp_forall₂ hperm hechoes.flip
  have hlength : ∀ frame ∈ frames, frame.wire.length ≤ meshtasticFrameMtu := fun frame hframe =>
    frame_wire_length hmtu (hframes.mem_iff.mp hframe)
  have hvalid : ∀ frame ∈ frames, frame.Valid := fun frame hframe =>
    (message.valid_iff (hframes.mem_iff.mp hframe)).mpr hpriority
  obtain ⟨bodies, rfl, hshort, hbodies⟩ := carried_bodies hlength hcarried.flip
  have hfragments : message.frames.length ≤ 32 := by
    rw [message.frames_length]
    exact message.payloads_length
  obtain ⟨count, hanswers⟩ := push_all_permuted htable hpriority
    (Nat.le_trans hbytes (by decide)) hfragments hframes
  refine ⟨count, ?_⟩
  rw [framed_bodies_flatten hshort, ingest_all_carries _ hvalid hbodies, hanswers, List.map_append,
    List.map_replicate]
  rfl

/-- A message is encoded as framed packets within the limit. When a node echoes each of them, a
fresh receiver that gets the echoes in any order and in any chunks hands over the message and
nothing else, and none of its pushes fails. -/
theorem pipeline_delivers (adapter : MeshtasticAdapter) (outgoing : OutgoingMessage)
    {fresh : MeshtasticAdapter} (hfresh : MeshtasticAdapter.new = .ok fresh)
    (hpriority : outgoing.priority ≤ 15) (hlength : outgoing.message.length ≤ 32 * 211) :
    ∃ packets, adapter.encodeMessage outgoing = .ok packets ∧
      (∀ packet ∈ packets, packet.length ≤ maxDeviceApiFrameLen ∧
        (∃ body, body.length ≤ maxDeviceApiFrameLen ∧ packet = framed body) ∧
        ∃ echo, simulateNodeEcho packet = some echo ∧ Echo packet echo) ∧
      ∀ echoes arrived : List (List UInt8), List.Forall₂ Echo packets echoes → arrived.Perm echoes →
        ∀ calls, ((Reception.start fresh).run calls).received = arrived.flatten →
          (∀ before chunk after, calls = before ++ .push chunk :: after →
            (((Reception.start fresh).run before).receiver.push chunk).2 = .ok ()) ∧
          let done := (Reception.start fresh).run calls
          (done.run (List.replicate done.receiver.ready.length .nextMessage)).delivered =
            [outgoing.reassembled] := by
  obtain ⟨message, hinfo, hbytes, hmtu⟩ := exists_fragmented outgoing hlength
  refine ⟨_, encode_message_ok adapter hpriority hinfo hbytes hmtu, ?_, ?_⟩
  · intro packet hpacket
    obtain ⟨frame, hframe, rfl⟩ := List.mem_map.mp hpacket
    have hwire := frame_wire_length hmtu hframe
    have hbody := to_radio_body_length adapter.destination hwire
    have hmax : maxDeviceApiFrameLen = 512 := rfl
    refine ⟨?_, ⟨_, by omega, rfl⟩, simulate_node_echo_is_echo adapter.destination hwire⟩
    have hpacket : (framed (toRadioBody adapter.destination frame)).length =
        (toRadioBody adapter.destination frame).length + 4 := rfl
    omega
  · intro echoes arrived hechoes hperm calls hcalls
    rw [List.forall₂_map_left_iff] at hechoes
    obtain ⟨count, hanswers⟩ := ingest_echoes hfresh hmtu (hinfo ▸ hpriority) (hbytes ▸ hlength)
      hechoes hperm
    rw [← hcalls] at hanswers
    have haccepted : ∀ error, .error error ∉
        (fresh.ingestAll (framedBodies ((Reception.start fresh).run calls).received)).2 := by
      intro error
      rw [hanswers]
      simp
    obtain ⟨hpushes, hready⟩ := Reception.run_accepts fresh haccepted
    refine ⟨fun before chunk after heq => hpushes before _ after heq chunk rfl, ?_⟩
    obtain ⟨processed, h⟩ := Reception.run_sound fresh calls
    have hprocessed := h.bodies
    rw [hready, List.append_nil] at hprocessed
    dsimp only
    rw [Reception.run_next_message, h.messages, ← hprocessed, hanswers]
    have hmessage : message.reassembled = outgoing.reassembled := by
      rw [FragmentedMessage.reassembled, OutgoingMessage.reassembled, hinfo, hbytes]
    simp [handed, hmessage]

/-- A message of three packets. -/
def sampleOutgoing : OutgoingMessage :=
  ⟨FrameFlags.none, 7, 1, .stateDelta, 15, 0xbeef, (List.range 500).map UInt8.ofNat⟩

/-- The echoes of three packets arrive in the reverse order. -/
theorem pipeline_delivers_sample :
    ∃ packets, MeshtasticAdapter.encodeMessage ⟨⟨.default, []⟩, broadcastAddr⟩ sampleOutgoing =
        .ok packets ∧ packets.length = 3 ∧
      ∀ echoes : List (List UInt8), List.Forall₂ Echo packets echoes →
        ∀ calls, ((Reception.start ⟨⟨.default, []⟩, broadcastAddr⟩).run calls).received =
          echoes.reverse.flatten →
          let done := (Reception.start ⟨⟨.default, []⟩, broadcastAddr⟩).run calls
          (done.run (List.replicate done.receiver.ready.length .nextMessage)).delivered =
            [sampleOutgoing.reassembled] := by
  have hcount : (MeshtasticAdapter.encodeMessage ⟨⟨.default, []⟩, broadcastAddr⟩
      sampleOutgoing).toOption.map List.length = some 3 := by
    decide +kernel
  obtain ⟨packets, hencode, -, hdelivers⟩ :=
    pipeline_delivers ⟨⟨.default, []⟩, broadcastAddr⟩ sampleOutgoing rfl (by decide)
      (by decide +kernel)
  rw [hencode] at hcount
  refine ⟨packets, hencode, Option.some.inj hcount, fun echoes hechoes calls hcalls => ?_⟩
  exact (hdelivers echoes echoes.reverse hechoes echoes.reverse_perm calls hcalls).2

end LatentMesh.Meshtastic

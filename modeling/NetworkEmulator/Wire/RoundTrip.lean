import NetworkEmulator.Wire.Bridge

namespace NetworkEmulator.Wire

open Transition Layout

inductive Carries (sent : Bytes) : Bytes → Prop
  | direct : Carries sent sent
  | relayed {blank : Buffer sizeofEtherPkt} {numPorts : Int} {listenFd : Port}
      {ms : List Bridge.ByteMove} {s : Bridge.ByteState} {h : List Bridge.ByteOut}
      (p : Path (Bridge.receiver blank numPorts listenFd).bytes ms s h)
      {mv : Bridge.ByteMove} (hmv : mv ∈ ms) {taken written : Bridge.ByteOut} {fd fd' : Port}
      {pkt pkt' : EtherPkt} (ht : taken ∈ mv.out) (hread : taken.out = .read fd pkt)
      (hcarries : Carries sent taken.read.chunk)
      (hw : written ∈ mv.out) (hwrite : written.out = .write fd' pkt') :
      Carries sent written.read.frame.bytes

def RoundTrips (x : EtherPktObj) (pkt : EtherPkt) : Prop :=
  ∀ bytes, Carries x.image.bytes bytes → ∀ (reader : Heap) (before : Buffer sizeofEtherPkt)
    (c : Chunk sizeofEtherPkt), c.bytes = bytes → receive reader (before.overlay c) = some pkt

theorem carries_eq {sent bytes : Bytes} (hn : sent.length = sizeofEtherPkt)
    (hc : Carries sent bytes) : bytes = sent := by
  induction hc with
  | direct => rfl
  | relayed p hmv ht hread hcarries hw hwrite ih =>
    obtain ⟨r, hr, hall⟩ := Receiver.one_read p hmv
    rw [hall _ ht] at ih
    rw [hall _ hw, hr.whole (ih ▸ hn), ih]

theorem receive_overlay {heap : Heap} {x : EtherPktObj} {before : Buffer sizeofEtherPkt}
    {c : Chunk sizeofEtherPkt} (hc : c.bytes = x.image.bytes) :
    receive heap (before.overlay c) = x.load heap := by
  have hwhole : c.bytes.length = sizeofEtherPkt := hc ▸ x.image.full
  have himage : before.overlay c = x.image := Buffer.ext ((Buffer.overlay_bytes hwhole).trans hc)
  rw [himage, receive_image]

theorem roundTrips_iff_load {x : EtherPktObj} {pkt : EtherPkt} :
    RoundTrips x pkt ↔ ∀ heap, x.load heap = some pkt := by
  constructor
  · intro h heap
    have hload := h x.image.bytes .direct heap x.image (x.image.whole (by decide)) rfl
    rwa [receive_overlay rfl] at hload
  · intro h bytes hc heap before c hbytes
    rw [receive_overlay (hbytes.trans (carries_eq x.image.full hc))]
    exact h heap

theorem frame_round_trip_iff {sender : Heap} {x : EtherPktObj} {pkt : EtherPkt}
    (hload : x.load sender = some pkt) :
    RoundTrips x pkt ↔ ∀ str ∈ strings pkt, str.length ≤ inlineCapacity :=
  roundTrips_iff_load.trans (EtherPktObj.load_anywhere_iff hload)

def StringObj.ofShort (chars : Bytes) (short : chars.length ≤ inlineCapacity) : StringObj :=
  .inline chars (List.replicate (23 - chars.length) 0) short (by
    unfold inlineCapacity at short
    rw [List.length_replicate]
    omega)

def StringObj.empty : StringObj := .ofShort [] (by decide)

def ipObject (data : StringObj) : EtherPktObj where
  macDst := .ofShort [100] (by decide)
  macSrc := .ofShort [115] (by decide)
  type := 1
  size := 0
  pad := ⟨List.replicate 4 0, rfl⟩
  arpPkt :=
    { op := 0, pad := ⟨List.replicate 6 0, rfl⟩, srcIp := .empty, srcMac := .empty
      dstIp := .empty, dstMac := .empty }
  ipPkt := { dstIp := .empty, srcIp := .empty, data := data }

def ipPacket (data : String) : EtherPkt :=
  { EtherPkt.uninit ⟨1, 0⟩ "s" with macDst := "d", ipPkt := IpPkt.createPkt "" "" data }

theorem frame_round_trip_iff_hi :
    RoundTrips (ipObject (.ofShort [104, 105] (by decide))) (ipPacket "hi") ↔
      ∀ str ∈ strings (ipPacket "hi"), str.length ≤ inlineCapacity := by
  have hload : (ipObject (.ofShort [104, 105] (by decide))).load (fun _ => none) =
      some (ipPacket "hi") := by decide
  exact frame_round_trip_iff hload

def writerHeap : Heap := fun addr => if 4096 ≤ addr ∧ addr < 4119 then some 97 else none

def spilled : StringObj := .heap 33 23 4096 (by decide) (by decide)

theorem long_data_lost :
    ¬ ∀ (sender : Heap) (x : EtherPktObj) (pkt : EtherPkt), x.load sender = some pkt →
      RoundTrips x pkt := by
  intro hall
  have hload : (ipObject spilled).load writerHeap =
      some (ipPacket "aaaaaaaaaaaaaaaaaaaaaaa") := by decide
  have hlost := roundTrips_iff_load.mp (hall _ _ _ hload) fun _ => none
  exact absurd hlost (by decide)

end NetworkEmulator.Wire

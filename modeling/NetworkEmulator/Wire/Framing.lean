import NetworkEmulator.Wire.RoundTrip
import NetworkEmulator.Wire.Station

namespace NetworkEmulator.Wire

open Transition Layout

variable {blank : Buffer sizeofEtherPkt} {numPorts : Int} {listenFd : Port} {cfg : Station.Config}
  {frames : List (Buffer sizeofEtherPkt)} {fd : Port}

theorem framed_bridge {ms : List Bridge.ByteMove} {s : Bridge.ByteState}
    {h since : List Bridge.ByteOut}
    (p : Path (Bridge.receiver blank numPorts listenFd).bytes ms s h)
    (hc : Bridge.Connection fd h since)
    (hsent : consumed (readsFrom Bridge.Out.readFd fd since) <+: stream frames) :
    Framed frames (readsFrom Bridge.Out.readFd fd since) := by
  obtain ⟨before, t, rfl, -, -⟩ := hc
  have hsound := Receiver.sound_log p
  apply framed (by decide) (sound_readsFrom fun t' ht' => hsound t' ?_) hsent
  simp [ht']

theorem framed_station {ms : List Station.ByteMove} {s : Station.ByteState}
    {h : List Station.ByteOut}
    (p : Path (Station.receiver cfg blank).bytes ms s h)
    (hsent : consumed (readsFrom Station.Out.handledFd fd h) <+: stream frames) :
    Framed frames (readsFrom Station.Out.handledFd fd h) :=
  framed (by decide) (sound_readsFrom (Receiver.sound_log p)) hsent

theorem frames_in_step_iff (frames : List (Buffer sizeofEtherPkt)) :
    (∀ blank numPorts listenFd ms s h fd since,
        Path (Bridge.receiver blank numPorts listenFd).bytes ms s h →
        Bridge.Connection fd h since →
        consumed (readsFrom Bridge.Out.readFd fd since) <+: stream frames →
        Framed frames (readsFrom Bridge.Out.readFd fd since)) ∧
      ∀ cfg blank ms s h fd, Path (Station.receiver cfg blank).bytes ms s h →
        consumed (readsFrom Station.Out.handledFd fd h) <+: stream frames →
        Framed frames (readsFrom Station.Out.handledFd fd h) :=
  ⟨fun _ _ _ _ _ _ _ _ p hc hsent => framed_bridge p hc hsent,
    fun _ _ _ _ _ _ p hsent => framed_station p hsent⟩

def hello : Buffer sizeofEtherPkt := (ipObject (.ofShort [104, 105] (by decide))).image

def firstPart : Chunk sizeofEtherPkt := hello.first 100 (by decide) (by decide)

def lastPart : Chunk sizeofEtherPkt := hello.last 100 (by decide)

def seen (pkt : Buffer sizeofEtherPkt) : EtherPkt :=
  (receive (fun _ => none) pkt).getD (EtherPkt.uninit ⟨0, 0⟩ "")

def toBridge (c : Chunk sizeofEtherPkt) : Bridge.ByteWake :=
  ⟨{ Bridge.Wake.blank with readSet := {4} }, some c, seen⟩

def splitAtBridge : List Bridge.ByteWake :=
  [⟨.connect 3 4, none, seen⟩, toBridge firstPart, toBridge lastPart]

def toStation (c : Chunk sizeofEtherPkt) : List Station.ByteEvent :=
  [.sweep 0, .frames ⟨0, 0⟩ (.zero _), .chunk c seen 0 ⟨0, 0⟩]

def splitAtStation : List Station.ByteEvent := toStation firstPart ++ toStation lastPart

abbrev bridge := (Bridge.receiver (.zero _) 2 3).bytes

abbrev station := (Station.receiver Station.hostA (.zero _)).bytes

theorem bridge_path : Path bridge (bridge.moves splitAtBridge) (bridge.final splitAtBridge)
    (bridge.trace splitAtBridge) :=
  bridge.path splitAtBridge (by decide +kernel)

theorem station_path : Path station (station.moves splitAtStation) (station.final splitAtStation)
    (station.trace splitAtStation) :=
  station.path splitAtStation (by decide +kernel)

def bridgeReads : List (Read sizeofEtherPkt) :=
  readsFrom Bridge.Out.readFd 4 (bridge.trace splitAtBridge).tail

def stationReads : List (Read sizeofEtherPkt) :=
  readsFrom Station.Out.handledFd 3 (station.trace splitAtStation)

theorem bridge_connection :
    Bridge.Connection 4 (bridge.trace splitAtBridge) (bridge.trace splitAtBridge).tail :=
  ⟨[], ⟨.accept 4, ⟨[], .zero _⟩⟩, by rfl, rfl, by decide +kernel⟩

theorem bridge_chunks : bridgeReads.map Read.chunk = [firstPart.bytes, lastPart.bytes] := by
  decide +kernel

theorem station_chunks : stationReads.map Read.chunk = [firstPart.bytes, lastPart.bytes] := by
  decide +kernel

section Split
variable {reads : List (Read sizeofEtherPkt)}
  (hchunks : reads.map Read.chunk = [firstPart.bytes, lastPart.bytes])
include hchunks

theorem split_consumed : consumed reads = stream [hello] := by
  have hparts : firstPart.bytes ++ lastPart.bytes = hello.bytes := hello.first_append_last
  rw [consumed, hchunks]
  simpa [stream] using hparts

theorem split_sent : consumed reads <+: stream [hello] := by
  rw [split_consumed hchunks]

theorem split_nonempty : ∀ r ∈ reads, 0 < r.chunk.length := by
  intro r hr
  have hmem : r.chunk ∈ [firstPart.bytes, lastPart.bytes] := hchunks ▸ List.mem_map_of_mem hr
  rcases List.mem_pair.mp hmem with he | he
  · exact he ▸ firstPart.nonempty
  · exact he ▸ lastPart.nonempty

theorem split_out_of_step : ¬ InStep [hello] reads := by
  intro h
  have htwo := congrArg List.length hchunks
  have hone := h.processed.length_le
  simp at htwo hone
  omega

end Split

theorem frames_in_step_iff_split : Framed [hello] bridgeReads ∧ Framed [hello] stationReads :=
  ⟨(frames_in_step_iff [hello]).1 _ _ _ _ _ _ _ _ bridge_path bridge_connection
      (split_sent bridge_chunks),
    (frames_in_step_iff [hello]).2 _ _ _ _ _ _ station_path (split_sent station_chunks)⟩

theorem short_read_loses_step :
    (¬ ∀ blank numPorts listenFd ms s h fd since frames,
        Path (Bridge.receiver blank numPorts listenFd).bytes ms s h →
        Bridge.Connection fd h since →
        consumed (readsFrom Bridge.Out.readFd fd since) <+: stream frames →
        (∀ r ∈ readsFrom Bridge.Out.readFd fd since, 0 < r.chunk.length) →
        InStep frames (readsFrom Bridge.Out.readFd fd since)) ∧
      ¬ ∀ cfg blank ms s h fd frames, Path (Station.receiver cfg blank).bytes ms s h →
        consumed (readsFrom Station.Out.handledFd fd h) <+: stream frames →
        (∀ r ∈ readsFrom Station.Out.handledFd fd h, 0 < r.chunk.length) →
        InStep frames (readsFrom Station.Out.handledFd fd h) := by
  constructor
  · intro hall
    have hstep := hall _ _ _ _ _ _ _ _ [hello] bridge_path bridge_connection
      (split_sent bridge_chunks) (split_nonempty bridge_chunks)
    exact split_out_of_step bridge_chunks hstep
  · intro hall
    have hstep := hall _ _ _ _ _ _ [hello] station_path
      (split_sent station_chunks) (split_nonempty station_chunks)
    exact split_out_of_step station_chunks hstep

end NetworkEmulator.Wire

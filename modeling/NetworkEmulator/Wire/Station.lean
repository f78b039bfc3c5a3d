import NetworkEmulator.Station.Start
import NetworkEmulator.Foundation.Receiver
import NetworkEmulator.Wire.Object

namespace NetworkEmulator.Station

open Transition Layout Wire

-- blank is what the constructor of recv_ether_pkt leaves; view is the memory of the process
inductive ByteEvent where
  | sweep (now : Milliseconds)
  | stdin (bytes : Option (List Char)) (u : Uninit)
  | frames (u : Uninit) (blank : Buffer sizeofEtherPkt)
  | skip
  | eof (now : Milliseconds) (u : Uninit)
  | error (now : Milliseconds) (u : Uninit)
  | chunk (c : Chunk sizeofEtherPkt) (view : Buffer sizeofEtherPkt → EtherPkt)
      (now : Milliseconds) (u : Uninit)

namespace ByteEvent

def left (recv : Buffer sizeofEtherPkt) : ByteEvent → Buffer sizeofEtherPkt
  | .frames _ blank => blank
  | .chunk c _ _ _ => recv.overlay c
  | .sweep _ | .stdin _ _ | .skip | .eof _ _ | .error _ _ => recv

def read (recv : Buffer sizeofEtherPkt) : ByteEvent → Read sizeofEtherPkt
  | .chunk c _ _ _ => ⟨c.bytes, recv.overlay c⟩
  | .sweep _ | .stdin _ _ | .frames _ _ | .skip | .eof _ _ | .error _ _ => ⟨[], recv⟩

def event (recv : Buffer sizeofEtherPkt) : ByteEvent → Event
  | .sweep now => .sweep now
  | .stdin bytes u => .stdin bytes u
  | .frames u _ => .frames u
  | .skip => .skip
  | .eof now u => .recv .eof now u
  | .error now u => .recv .error now u
  | .chunk c view now u => .recv (.frame (view (recv.overlay c))) now u

end ByteEvent

def receiver (cfg : Config) (blank : Buffer sizeofEtherPkt) :
    Receiver State Event Out ByteEvent sizeofEtherPkt where
  machine := machine cfg
  blank := blank
  event := ByteEvent.event
  read := ByteEvent.read
  left := fun _ => ByteEvent.left
  sound recv e := by
    cases e with
    | chunk c => exact Read.sound_overlay recv c
    | sweep | stdin | frames | skip | eof | error => exact Read.sound_failed recv

def Out.handledFd : Out → Option Port
  | .handle i _ => some i.2.fd
  | .command _ | .send _ _ _ _ | .reply _ _ | .flush _ _ _ | .deliver _ _ => none

abbrev ByteState := Receiving State sizeofEtherPkt

abbrev ByteOut := Traced Out sizeofEtherPkt

abbrev ByteMove := Move ByteState ByteEvent ByteOut

theorem refines {cfg : Config} {blank : Buffer sizeofEtherPkt}
    {ms : List ByteMove} {s : ByteState} {h : List ByteOut}
    (p : Path (receiver cfg blank).bytes ms s h) :
    ∃ ms', Path (machine cfg) ms' s.state (h.map Traced.out) :=
  Receiver.refines p

end NetworkEmulator.Station

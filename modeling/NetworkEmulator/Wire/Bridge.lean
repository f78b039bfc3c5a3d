import NetworkEmulator.Bridge.Start
import NetworkEmulator.Foundation.Receiver
import NetworkEmulator.Wire.Object

namespace NetworkEmulator.Bridge

open Transition Layout Wire

-- what the strings of a received object are is up to the memory of the process
structure ByteWake where
  wake : Wake
  chunk : Option (Chunk sizeofEtherPkt)
  view : Buffer sizeofEtherPkt → EtherPkt

def ByteWake.read (pkt : Buffer sizeofEtherPkt) (w : ByteWake) : Read sizeofEtherPkt :=
  match w.chunk with
  | none => ⟨[], pkt⟩
  | some c => ⟨c.bytes, pkt.overlay c⟩

def ByteWake.event (pkt : Buffer sizeofEtherPkt) (w : ByteWake) : Wake :=
  { w.wake with frame := w.chunk.map fun c => w.view (pkt.overlay c) }

-- the memset stands in the branch for frames
def clear (s : State) (pkt : Buffer sizeofEtherPkt) (w : ByteWake) : Buffer sizeofEtherPkt :=
  if s.listenFd ∈ w.wake.readSet ∨ (0 : Port) ∈ w.wake.readSet then pkt else .zero sizeofEtherPkt

def receiver (blank : Buffer sizeofEtherPkt) (numPorts : Int) (listenFd : Port) :
    Receiver State Wake Out ByteWake sizeofEtherPkt where
  machine := machine numPorts listenFd
  blank := blank
  event := ByteWake.event
  read := ByteWake.read
  left := clear
  sound pkt w := by
    unfold ByteWake.read
    split
    · exact Read.sound_failed pkt
    · exact Read.sound_overlay pkt _

def Out.readFd : Out → Option Port
  | .read fd _ => some fd
  | .accept _ | .reject _ | .write _ _ | .broken _ | .overrun _ | .disconnect _ => none

abbrev ByteState := Receiving State sizeofEtherPkt

abbrev ByteOut := Traced Out sizeofEtherPkt

abbrev ByteMove := Move ByteState ByteWake ByteOut

theorem refines {blank : Buffer sizeofEtherPkt} {numPorts : Int} {listenFd : Port}
    {ms : List ByteMove} {s : ByteState} {h : List ByteOut}
    (p : Path (receiver blank numPorts listenFd).bytes ms s h) :
    ∃ ms', Path (machine numPorts listenFd) ms' s.state (h.map Traced.out) :=
  Receiver.refines p

def Connection (fd : Port) (h since : List ByteOut) : Prop :=
  ∃ before t, h = before ++ t :: since ∧ t.out = .accept fd ∧ ∀ t ∈ since, t.out ≠ .accept fd

end NetworkEmulator.Bridge

import NetworkEmulator.Bridge.Wired
import NetworkEmulator.Station.Start
import NetworkEmulator.Foundation.Exchange
import NetworkEmulator.Foundation.Link
import Mathlib.Logic.Function.Basic

namespace NetworkEmulator.Internet

open Transition

abbrev ConnId := Nat

-- any number of bridges and of stations and routers; lan is where the link of that name leads
structure Plan (β ν : Type) where
  numPorts : β → Int
  listenFd : β → Port
  lan : String → β
  config : ν → Station.Config
  addressed : ∀ n, ∀ i ∈ (config n).ifaces, i.1.ipAddr ≠ ""
  sockets : ∀ n, ((config n).ifaces.map fun i => i.2.fd).Nodup

variable {β ν : Type}

def Plan.running (P : Plan β ν) (n : ν) (ifaces : List IfaceSocketPair) : Station.Config :=
  { P.config n with ifaces := ifaces }

-- a process in its main loop, with the interfaces that the connection phase has left it
structure Node where
  ifaces : List IfaceSocketPair
  state : Station.State

-- far and near are the two ends of a connection: a bridge's descriptor and an interface's
structure State (β ν : Type) where
  bridge : β → Bridge.State
  far : β → Port → Option ConnId
  node : ν → Option Node
  near : ν → Port → Option ConnId
  up : Link ConnId EtherPkt
  down : Link ConnId EtherPkt
  next : ConnId

inductive Event (β ν : Type) where
  | connect (n : ν) (i : IfaceSocketPair) (w : Bridge.Wake)
  | boot (n : ν) (ifaces : List IfaceSocketPair)
  | bridge (b : β) (w : Bridge.Wake)
  | node (n : ν) (e : Station.Event)
  | halt (n : ν)

abbrev Out (ν : Type) := ν × Station.Out

section Links
variable (s : State β ν)

-- a read hands the bridge the oldest frame of that connection; it may meet its end at any time
def drain (b : β) : List Bridge.Out → Option (Link ConnId EtherPkt)
  | .read fd pkt :: _ => (s.far b fd).bind fun c => Link.receive c pkt s.up
  | _ => some s.up

def relayed (b : β) (out : List Bridge.Out) : Link ConnId EtherPkt :=
  out.filterMap fun
    | .write fd pkt => (s.far b fd).map fun c => (c, pkt)
    | _ => none

def ports (b : β) : List Bridge.Out → Port → Option ConnId
  | [.disconnect fd] => Function.update (s.far b) fd none
  | _ => s.far b

-- a read that fails takes nothing, and neither does one that meets the end
def fetch (n : ν) (pc : Station.Pc) : Station.Event → Option (Link ConnId EtherPkt)
  | .recv (.frame pkt) _ _ =>
    match pc with
    | .ifaces (i :: _) _ => (s.near n i.2.fd).bind fun c => Link.receive c pkt s.down
    | _ => none
  | _ => some s.down

def sent (n : ν) (out : List Station.Out) : Link ConnId EtherPkt :=
  out.filterMap fun o => o.frame.bind fun f => (s.near n f.1).map fun c => (c, f.2)

variable {s}

theorem drain_subset {b : β} {bout : List Bridge.Out} {up : Link ConnId EtherPkt}
    (hd : drain s b bout = some up) : up ⊆ s.up := by
  unfold drain at hd
  split at hd
  · obtain ⟨c, -, hc⟩ := Option.bind_eq_some_iff.mp hd
    exact Link.receive_subset hc
  · exact Option.some.inj hd ▸ List.Subset.refl _

theorem mem_relayed {b : β} {bout : List Bridge.Out} {x : ConnId × EtherPkt}
    (hx : x ∈ relayed s b bout) : ∃ fd, .write fd x.2 ∈ bout ∧ s.far b fd = some x.1 := by
  obtain ⟨o, ho, heq⟩ := List.mem_filterMap.mp hx
  split at heq
  · obtain ⟨c, hc, rfl⟩ := Option.map_eq_some_iff.mp heq
    exact ⟨_, ho, hc⟩
  · cases heq

theorem fetch_subset {n : ν} {pc : Station.Pc} {e : Station.Event} {down : Link ConnId EtherPkt}
    (hf : fetch s n pc e = some down) : down ⊆ s.down := by
  unfold fetch at hf
  split at hf
  · split at hf
    · obtain ⟨c, -, hc⟩ := Option.bind_eq_some_iff.mp hf
      exact Link.receive_subset hc
    · cases hf
  · exact Option.some.inj hf ▸ List.Subset.refl _

end Links

variable [DecidableEq β] [DecidableEq ν]

section Step
variable (P : Plan β ν) (s : State β ν)

def joined (n : ν) (fd : Port) (b : β) (bs : Bridge.State) (cliFd : Port) : State β ν :=
  { s with
    bridge := Function.update s.bridge b bs
    far := Function.update s.far b (Function.update (s.far b) cliFd (some s.next))
    near := Function.update s.near n (Function.update (s.near n) fd (some s.next))
    next := s.next + 1 }

def greet (n : ν) (fd : Port) (b : β) (bs : Bridge.State) : List Bridge.Out → State β ν
  | [.accept cliFd] => joined s n fd b bs cliFd
  | _ => { s with bridge := Function.update s.bridge b bs }

-- the connection phase may keep interfaces that no bridge has accepted, so any may be left
def step (s : State β ν) : Event β ν → Option (State β ν × List (Out ν))
  | .connect n i w =>
    let b := P.lan i.1.lanName
    if (s.node n).isNone ∧ i ∈ (P.config n).ifaces ∧ s.near n i.2.fd = none ∧
        (s.bridge b).listenFd ∈ w.readSet then
      (Bridge.step (s.bridge b) w).map fun r => (greet s n i.2.fd b r.1 r.2, [])
    else none
  | .boot n ifaces =>
    if (s.node n).isNone ∧ ifaces.Sublist (P.config n).ifaces then
      some ({ s with
        node := Function.update s.node n
          (some ⟨ifaces, (Station.machine (P.running n ifaces)).init⟩) }, [])
    else none
  | .bridge b w =>
    if (s.bridge b).listenFd ∈ w.readSet then none
    else
      (Bridge.step (s.bridge b) w).bind fun r => (drain s b r.2).map fun up =>
        ({ s with
          bridge := Function.update s.bridge b r.1
          far := Function.update s.far b (ports s b r.2)
          up := up
          down := s.down ++ relayed s b r.2 }, [])
  | .node n e =>
    (s.node n).bind fun nd => (fetch s n nd.state.pc e).bind fun down =>
      (Station.step (P.running n nd.ifaces) nd.state e).map fun r =>
        ({ s with
          node := Function.update s.node n (some ⟨nd.ifaces, r.1⟩)
          up := s.up ++ sent s n r.2
          down := down },
          r.2.map fun o => (n, o))
  | .halt n =>
    some ({ s with
      node := Function.update s.node n none
      near := Function.update s.near n fun _ => none }, [])

end Step

def machine (P : Plan β ν) : Machine (State β ν) (Event β ν) (Out ν) where
  init :=
    { bridge := fun b => (Bridge.machine (P.numPorts b) (P.listenFd b)).init
      far := fun _ _ => none, node := fun _ => none, near := fun _ _ => none
      up := [], down := [], next := 0 }
  step := step P

variable {P : Plan β ν} {s s' : State β ν} {e : Event β ν} {out : List (Out ν)}

inductive Happens (P : Plan β ν) (s : State β ν) :
    Event β ν → State β ν → List (Out ν) → Prop
  | join (n : ν) (i : IfaceSocketPair) (w : Bridge.Wake) (bs : Bridge.State) (cliFd : Port)
      (hi : i ∈ (P.config n).ifaces) (hn : s.near n i.2.fd = none)
      (hl : (s.bridge (P.lan i.1.lanName)).listenFd ∈ w.readSet)
      (hb : Bridge.step (s.bridge (P.lan i.1.lanName)) w = some (bs, [.accept cliFd])) :
      Happens P s (.connect n i w) (joined s n i.2.fd (P.lan i.1.lanName) bs cliFd) []
  | refuse (n : ν) (i : IfaceSocketPair) (w : Bridge.Wake) (bs : Bridge.State)
      (bout : List Bridge.Out)
      (hl : (s.bridge (P.lan i.1.lanName)).listenFd ∈ w.readSet)
      (hb : Bridge.step (s.bridge (P.lan i.1.lanName)) w = some (bs, bout))
      (hr : ∀ cliFd, bout ≠ [.accept cliFd]) :
      Happens P s (.connect n i w)
        { s with bridge := Function.update s.bridge (P.lan i.1.lanName) bs } []
  | boot (n : ν) (ifaces : List IfaceSocketPair) (hi : ifaces.Sublist (P.config n).ifaces) :
      Happens P s (.boot n ifaces)
        { s with
          node := Function.update s.node n
            (some ⟨ifaces, (Station.machine (P.running n ifaces)).init⟩) } []
  | bridge (b : β) (w : Bridge.Wake) (bs : Bridge.State) (bout : List Bridge.Out)
      (up : Link ConnId EtherPkt) (hl : (s.bridge b).listenFd ∉ w.readSet)
      (hb : Bridge.step (s.bridge b) w = some (bs, bout)) (hd : drain s b bout = some up) :
      Happens P s (.bridge b w)
        { s with
          bridge := Function.update s.bridge b bs
          far := Function.update s.far b (ports s b bout)
          up := up
          down := s.down ++ relayed s b bout } []
  | node (n : ν) (nd : Node) (e : Station.Event) (st : Station.State) (sout : List Station.Out)
      (down : Link ConnId EtherPkt) (hn : s.node n = some nd)
      (hf : fetch s n nd.state.pc e = some down)
      (hs : Station.step (P.running n nd.ifaces) nd.state e = some (st, sout)) :
      Happens P s (.node n e)
        { s with
          node := Function.update s.node n (some ⟨nd.ifaces, st⟩)
          up := s.up ++ sent s n sout
          down := down }
        (sout.map fun o => (n, o))
  | halt (n : ν) :
      Happens P s (.halt n)
        { s with
          node := Function.update s.node n none
          near := Function.update s.near n fun _ => none } []

theorem happens_greet {n : ν} {i : IfaceSocketPair} {w : Bridge.Wake} {bs : Bridge.State}
    {bout : List Bridge.Out} (hi : i ∈ (P.config n).ifaces) (hn : s.near n i.2.fd = none)
    (hl : (s.bridge (P.lan i.1.lanName)).listenFd ∈ w.readSet)
    (hb : Bridge.step (s.bridge (P.lan i.1.lanName)) w = some (bs, bout)) :
    Happens P s (.connect n i w) (greet s n i.2.fd (P.lan i.1.lanName) bs bout) [] := by
  unfold greet
  split
  · exact .join n i w bs _ hi hn hl hb
  · rename_i hr
    exact .refuse n i w bs _ hl hb hr

theorem happens_of_step (hs : step P s e = some (s', out)) : Happens P s e s' out := by
  cases e with
  | connect n i w =>
    simp only [step] at hs
    split at hs
    · rename_i hguard
      obtain ⟨r, hb, heq⟩ := Option.map_eq_some_iff.mp hs
      obtain ⟨rfl, rfl⟩ := Prod.mk.inj heq
      exact happens_greet hguard.2.1 hguard.2.2.1 hguard.2.2.2 hb
    · cases hs
  | boot n ifaces =>
    simp only [step] at hs
    split at hs
    · rename_i hguard
      obtain ⟨rfl, rfl⟩ := Prod.mk.inj (Option.some.inj hs)
      exact .boot n ifaces hguard.2
    · cases hs
  | bridge b w =>
    simp only [step] at hs
    split at hs
    · cases hs
    · rename_i hl
      obtain ⟨r, hb, hs⟩ := Option.bind_eq_some_iff.mp hs
      obtain ⟨up, hd, heq⟩ := Option.map_eq_some_iff.mp hs
      obtain ⟨rfl, rfl⟩ := Prod.mk.inj heq
      exact .bridge b w r.1 r.2 up hl hb hd
  | node n e =>
    obtain ⟨nd, hn, hs⟩ := Option.bind_eq_some_iff.mp hs
    obtain ⟨down, hf, hs⟩ := Option.bind_eq_some_iff.mp hs
    obtain ⟨r, hst, heq⟩ := Option.map_eq_some_iff.mp hs
    obtain ⟨rfl, rfl⟩ := Prod.mk.inj heq
    exact .node n nd e r.1 r.2 down hn hf hst
  | halt n =>
    obtain ⟨rfl, rfl⟩ := Prod.mk.inj (Option.some.inj hs)
    exact .halt n

-- two networks with a router between them
inductive Place where
  | a
  | r
  | b
  deriving DecidableEq

def ifaceA : Iface := ⟨"A", "10.0.1.5", "255.255.255.0", "aa", "cs1"⟩

def ifaceB : Iface := ⟨"B", "10.0.2.9", "255.255.255.0", "bb", "cs2"⟩

def twoLans : Plan Bool Place where
  numPorts _ := 4
  listenFd _ := 3
  lan name := name = "cs2"
  config
    | .a =>
      { ifaces := [(ifaceA, ⟨3⟩)]
        routes := [⟨"10.0.1.0", "0.0.0.0", "255.255.255.0", "A"⟩,
          ⟨"0.0.0.0", "10.0.1.1", "0.0.0.0", "A"⟩]
        hosts := [⟨"B", "10.0.2.9"⟩], isRouter := false }
    | .r => Station.routerR
    | .b =>
      { ifaces := [(ifaceB, ⟨3⟩)]
        routes := [⟨"10.0.2.0", "0.0.0.0", "255.255.255.0", "B"⟩,
          ⟨"0.0.0.0", "10.0.2.1", "0.0.0.0", "B"⟩]
        hosts := [⟨"A", "10.0.1.5"⟩], isRouter := false }
  addressed n := by
    cases n <;> decide
  sockets n := by
    cases n <;> decide

def asks (i : Iface) (ip : IPAddr) : EtherPkt :=
  { EtherPkt.uninit ⟨0, 0⟩ i.macAddr with type := 0, arpPkt := ArpPkt.createReqPkt i ip }

def answers (i : Iface) (req : EtherPkt) : EtherPkt := Station.respFrame ⟨0, 0⟩ i req

def packet (i : Iface) (macDst : MacAddr) : EtherPkt :=
  { EtherPkt.uninit ⟨0, 0⟩ i.macAddr with
    macDst := macDst, type := 1, ipPkt := IpPkt.createPkt "10.0.1.5" "10.0.2.9" " hi" }

def heardAt (n : Place) (pkt : EtherPkt) : List (Event Bool Place) :=
  (Station.heard pkt).map (.node n)

def hopRun : List (Event Bool Place) :=
  [.connect .a (ifaceA, ⟨3⟩) (.connect 3 4), .boot .a [(ifaceA, ⟨3⟩)],
    .connect .r (Station.ifaceR1, ⟨3⟩) (.connect 3 5),
    .connect .r (Station.ifaceR2, ⟨4⟩) (.connect 3 4), .boot .r Station.routerR.ifaces,
    .connect .b (ifaceB, ⟨3⟩) (.connect 3 5), .boot .b [(ifaceB, ⟨3⟩)]] ++
    (Station.typed "send B hi").map (.node .a) ++
    [.bridge false (.carry 4 (asks ifaceA "10.0.1.1"))] ++ heardAt .r (asks ifaceA "10.0.1.1") ++
    [.node .r .skip, .bridge false (.carry 5 (answers Station.ifaceR1 (asks ifaceA "10.0.1.1")))] ++
    heardAt .a (answers Station.ifaceR1 (asks ifaceA "10.0.1.1")) ++
    [.bridge false (.carry 4 (packet ifaceA "r1"))] ++ heardAt .r (packet ifaceA "r1") ++
    [.node .r .skip, .bridge true (.carry 4 (asks Station.ifaceR2 "10.0.2.9"))] ++
    heardAt .b (asks Station.ifaceR2 "10.0.2.9") ++
    [.bridge true (.carry 5 (answers ifaceB (asks Station.ifaceR2 "10.0.2.9"))),
      .node .r (.sweep 0), .node .r (.frames ⟨0, 0⟩), .node .r .skip,
      .node .r (.recv (.frame (answers ifaceB (asks Station.ifaceR2 "10.0.2.9"))) 0 ⟨0, 0⟩)] ++
    [.bridge true (.carry 4 (packet Station.ifaceR2 "bb"))] ++
    heardAt .b (packet Station.ifaceR2 "bb")

end NetworkEmulator.Internet

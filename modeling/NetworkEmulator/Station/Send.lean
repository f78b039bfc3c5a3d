import NetworkEmulator.Routing

namespace NetworkEmulator.Station

-- the members start() does not change once the bridges have answered
structure Config where
  ifaces : List IfaceSocketPair
  routes : List Rtable
  hosts : List Host
  isRouter : Bool

structure Store where
  arp : ArpCache
  pq : PendingQueue

-- a send names the entry pq_ would hold and whether the ARP cache spared it the wait; a flush
-- names the place in pq_ it empties
inductive Out where
  | command (line : String)
  | handle (i : IfaceSocketPair) (pkt : EtherPkt)
  | send (pp : PendingPkt) (cached : Bool) (fd : Port) (pkt : EtherPkt)
  | reply (fd : Port) (pkt : EtherPkt)
  | flush (k : Nat) (fd : Port) (pkt : EtherPkt)
  | deliver (sender : String) (pkt : IpPkt)
deriving DecidableEq, Repr

-- the frame handed to write(): its result only decides whether a line is printed
def Out.frame : Out → Option (Port × EtherPkt)
  | .send _ _ fd pkt | .reply fd pkt | .flush _ fd pkt => some (fd, pkt)
  | .command _ | .handle _ _ | .deliver _ _ => none

structure Hop where
  ipAddr : IPAddr
  ifaceName : String
  iface : IfaceSocketPair
deriving DecidableEq, Repr

variable (cfg : Config)

def getIface (name : String) : Option IfaceSocketPair :=
  cfg.ifaces.find? (fun i => name = i.1.ifaceName)

def getIfaceForIp (ip : IPAddr) : String :=
  ((cfg.hosts.find? (fun h => ip = h.addr)).map Host.name).getD ""

def isIntendedIpDestination (ip : IPAddr) : Bool := cfg.ifaces.any (fun i => ip = i.1.ipAddr)

def resolve (dstIp : IPAddr) : Except Fault Hop := do
  let nextHop ← Routing.getNextHop cfg.routes dstIp
  match getIface cfg nextHop.iface with
  | none => .error .nullIface
  | some iface =>
    .ok ⟨if nextHop.ipAddr = "0.0.0.0" then dstIp else nextHop.ipAddr, nextHop.iface, iface⟩

def Hop.pendingPkt (hop : Hop) (srcIp dstIp : IPAddr) (data : String) : PendingPkt :=
  { nextHopIpaddr := hop.ipAddr, dstIpaddr := dstIp
    srcIpaddr := if cfg.isRouter then srcIp else hop.iface.1.ipAddr
    ifaceName := hop.ifaceName, data := data }

def Hop.ipFrame (hop : Hop) (u : Uninit) (macDst : MacAddr) (dstIp : IPAddr) (data : String) :
    EtherPkt :=
  { EtherPkt.uninit u hop.iface.1.macAddr with
    macDst := macDst, type := 1, ipPkt := IpPkt.createPkt hop.iface.1.ipAddr dstIp data }

def Hop.requestFrame (hop : Hop) (u : Uninit) : EtherPkt :=
  { EtherPkt.uninit u hop.iface.1.macAddr with
    type := 0, arpPkt := ArpPkt.createReqPkt hop.iface.1 hop.ipAddr }

def sendEtherPkt (st : Store) (u : Uninit) (srcIp dstIp : IPAddr) (data : String) :
    Except Fault (Store × List Out) := do
  let hop ← resolve cfg dstIp
  let pp := hop.pendingPkt cfg srcIp dstIp data
  if st.arp.hasMapping hop.ipAddr then
    let pkt := hop.ipFrame u (st.arp.getMacFor hop.ipAddr) dstIp data
    .ok (st, [.send pp true hop.iface.2.fd pkt])
  else
    .ok ({ st with pq := st.pq ++ [pp] }, [.send pp false hop.iface.2.fd (hop.requestFrame u)])

def sendCmd (st : Store) (u : Uninit) (dst msg : String) : Except Fault (Store × List Out) :=
  match cfg.hosts.find? (fun h => dst = h.name) with
  | none => .ok (st, [])
  | some h => sendEtherPkt cfg st u "" h.addr msg

variable {cfg}

theorem isIntended_iff {ip : IPAddr} :
    isIntendedIpDestination cfg ip = true ↔ ∃ i ∈ cfg.ifaces, ip = i.1.ipAddr := by
  simp [isIntendedIpDestination]

theorem getIface_some {name : String} {i : IfaceSocketPair} (h : getIface cfg name = some i) :
    i ∈ cfg.ifaces ∧ i.1.ifaceName = name := by
  have hname : name = i.1.ifaceName := by simpa using List.find?_some h
  exact ⟨List.mem_of_find?_eq_some h, hname.symm⟩

theorem resolve_ok {dstIp : IPAddr} {hop : Hop} (h : resolve cfg dstIp = .ok hop) :
    getIface cfg hop.ifaceName = some hop.iface := by
  obtain ⟨nextHop, -, h⟩ := Fault.bind_ok h
  split at h
  · cases h
  · rename_i iface hiface
    obtain rfl := Except.ok.inj h
    exact hiface

inductive Sends (cfg : Config) (st : Store) (srcIp dstIp : IPAddr) (data : String) :
    Store → List Out → Prop
  | cached (u : Uninit) (hop : Hop) (hr : resolve cfg dstIp = .ok hop)
      (hm : st.arp.hasMapping hop.ipAddr = true) :
      Sends cfg st srcIp dstIp data st
        [.send (hop.pendingPkt cfg srcIp dstIp data) true hop.iface.2.fd
          (hop.ipFrame u (st.arp.getMacFor hop.ipAddr) dstIp data)]
  | queued (u : Uninit) (hop : Hop) (hr : resolve cfg dstIp = .ok hop)
      (hm : st.arp.hasMapping hop.ipAddr = false) :
      Sends cfg st srcIp dstIp data
        { st with pq := st.pq ++ [hop.pendingPkt cfg srcIp dstIp data] }
        [.send (hop.pendingPkt cfg srcIp dstIp data) false hop.iface.2.fd (hop.requestFrame u)]

theorem sends_of_sendEtherPkt {st st' : Store} {u : Uninit} {srcIp dstIp : IPAddr}
    {data : String} {out : List Out}
    (h : sendEtherPkt cfg st u srcIp dstIp data = .ok (st', out)) :
    Sends cfg st srcIp dstIp data st' out := by
  obtain ⟨hop, hr, h⟩ := Fault.bind_ok h
  cases hm : st.arp.hasMapping hop.ipAddr with
  | true =>
    simp only [hm, if_true, Except.ok.injEq, Prod.mk.injEq] at h
    obtain ⟨rfl, rfl⟩ := h
    exact .cached u hop hr hm
  | false =>
    simp only [hm, Bool.false_eq_true, if_false, Except.ok.injEq, Prod.mk.injEq] at h
    obtain ⟨rfl, rfl⟩ := h
    exact .queued u hop hr hm

end NetworkEmulator.Station

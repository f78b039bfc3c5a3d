import NetworkEmulator.Foundation.Table

namespace NetworkEmulator

abbrev MacAddr := String
abbrev IPAddr := String
abbrev Port := Int
abbrev Milliseconds := Int

structure Iface where
  ifaceName : String
  ipAddr : IPAddr
  netMask : IPAddr
  macAddr : MacAddr
  lanName : String
deriving DecidableEq, Repr

structure SocketData where
  fd : Port
deriving DecidableEq, Repr

abbrev IfaceSocketPair := Iface × SocketData

structure Rtable where
  destAddr : IPAddr
  nextHop : IPAddr
  netMask : IPAddr
  ifaceName : String
deriving DecidableEq, Repr

structure Host where
  name : String
  addr : IPAddr
deriving DecidableEq, Repr

structure ArpPkt where
  op : Int
  srcIp : IPAddr
  srcMac : MacAddr
  dstIp : IPAddr
  dstMac : MacAddr
deriving DecidableEq, Repr

structure IpPkt where
  dstIp : IPAddr
  srcIp : IPAddr
  data : String
deriving DecidableEq, Repr

structure EtherPkt where
  macDst : MacAddr
  macSrc : MacAddr
  type : Int
  arpPkt : ArpPkt
  ipPkt : IpPkt
deriving DecidableEq, Repr

structure PendingPkt where
  nextHopIpaddr : IPAddr
  dstIpaddr : IPAddr
  srcIpaddr : IPAddr
  ifaceName : String
  data : String
deriving DecidableEq, Repr

abbrev PendingQueue := List PendingPkt

def ArpPkt.createReqPkt (i : Iface) (dstIp : IPAddr) : ArpPkt :=
  { op := 0, srcIp := i.ipAddr, srcMac := i.macAddr, dstIp := dstIp, dstMac := "" }

def ArpPkt.createRespPkt (pkt : ArpPkt) (srcIp : IPAddr) (srcMac : MacAddr) : ArpPkt :=
  { op := 1, srcIp := srcIp, srcMac := srcMac, dstIp := pkt.srcIp, dstMac := pkt.srcMac }

def IpPkt.createPkt (srcIp dstIp : IPAddr) (data : String) : IpPkt :=
  { dstIp := dstIp, srcIp := srcIp, data := data }

theorem IpPkt.eq_createPkt_iff {pkt : IpPkt} {srcIp dstIp : IPAddr} {data : String} :
    pkt = createPkt srcIp dstIp data ↔ pkt.srcIp = srcIp ∧ pkt.dstIp = dstIp ∧ pkt.data = data := by
  cases pkt with
  | mk dstIp' srcIp' data' =>
    simp only [createPkt, IpPkt.mk.injEq]
    exact and_left_comm

-- what the stack holds in the two shorts that the constructor of EtherPkt leaves unset
structure Uninit where
  type : Int
  op : Int
deriving DecidableEq, Repr

def EtherPkt.uninit (u : Uninit) (macSrc : MacAddr) : EtherPkt :=
  { macDst := "", macSrc := macSrc, type := u.type
    arpPkt := { op := u.op, srcIp := "", srcMac := "", dstIp := "", dstMac := "" }
    ipPkt := { dstIp := "", srcIp := "", data := "" } }

structure CacheContent where
  mac : MacAddr
  time : Milliseconds
deriving DecidableEq, Repr

abbrev ArpCache := Table IPAddr CacheContent

namespace ArpCache

def maxTime : Milliseconds := 10000

def hasMapping (cache : ArpCache) (ip : IPAddr) : Bool := (AList.lookup ip cache).isSome

def addMapping (cache : ArpCache) (ip : IPAddr) (mac : MacAddr) (now : Milliseconds) : ArpCache :=
  Table.insertNew ip ⟨mac, now⟩ cache

def monitorCache (cache : ArpCache) (now : Milliseconds) : ArpCache :=
  Table.sweep (fun c => !decide (now - c.time ≥ maxTime)) cache

-- callers test hasMapping first: the source dereferences end() for an absent address
def getMacFor (cache : ArpCache) (ip : IPAddr) : MacAddr :=
  ((AList.lookup ip cache).map CacheContent.mac).getD ""

theorem addMapping_addMapping (cache : ArpCache) (ip : IPAddr) (mac : MacAddr)
    (now : Milliseconds) :
    addMapping (addMapping cache ip mac now) ip mac now = addMapping cache ip mac now :=
  Table.insertNew_of_mem (Table.mem_insertNew.mpr (Or.inl rfl)) _

end ArpCache

end NetworkEmulator

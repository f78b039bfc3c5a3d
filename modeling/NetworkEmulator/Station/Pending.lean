import NetworkEmulator.Station.Start
import NetworkEmulator.Foundation.Ledger

namespace NetworkEmulator.Station

open Transition

variable {cfg : Config} {ms : List (Move State Event Out)} {s s' : State} {st st' : Store}
  {pq : PendingQueue} {h out : List Out}

structure Accepted where
  pending : PendingPkt
  cached : Bool
deriving DecidableEq, Repr

def acceptedPkt : Out → Option PendingPkt
  | .send pp _ _ _ => some pp
  | _ => none

def ipFrame (o : Out) : Option EtherPkt := (o.frame.map Prod.snd).filter (·.type ≠ 0)

def entryOf : Out → Option (Ledger.Entry Accepted EtherPkt)
  | .send pp true _ pkt => some (.direct ⟨pp, true⟩ pkt)
  | .send pp false _ _ => some (.wait ⟨pp, false⟩)
  | .flush k _ pkt => some (.release k pkt)
  | .command _ | .handle _ _ | .reply _ _ | .deliver _ _ => none

def ledger (h : List Out) : Ledger Accepted EtherPkt := .ofEntries (h.filterMap entryOf)

def Accepted.hop (a : Accepted) : IPAddr := a.pending.nextHopIpaddr

-- a cached send puts the address of the interface in the packet, a flush the recorded source
def Accepted.source (cfg : Config) (a : Accepted) : Option IPAddr :=
  if a.cached then (getIface cfg a.pending.ifaceName).map (·.1.ipAddr)
  else some a.pending.srcIpaddr

def Carries (cfg : Config) (a : Accepted) (pkt : EtherPkt) : Prop :=
  pkt.type = 1 ∧ ∃ src, a.source cfg = some src ∧
    pkt.ipPkt = IpPkt.createPkt src a.pending.dstIpaddr a.pending.data

structure Tracks (cfg : Config) (pq : PendingQueue) (h : List Out) : Prop where
  accepted : (ledger h).accepted.map Accepted.pending = h.filterMap acceptedPkt
  waiting : (ledger h).waiting.map (·.2.pending) = pq
  uncached : ∀ t ∈ (ledger h).waiting, t.2.cached = false
  written : (ledger h).sent.map (·.2.2) = h.filterMap ipFrame
  certified : Ledger.Lawful (Ledger.Certified (Carries cfg)) (h.filterMap entryOf)
  firstOfHop : Ledger.Lawful (Ledger.FirstOfKey Accepted.hop) (h.filterMap entryOf)

theorem filterMap_snoc_some {β : Type} {f : Out → Option β} {o : Out} {b : β}
    (hf : f o = some b) : (h ++ [o]).filterMap f = h.filterMap f ++ [b] := by
  simp [List.filterMap_append, hf]

theorem filterMap_snoc_none {β : Type} {f : Out → Option β} {o : Out} (hf : f o = none) :
    (h ++ [o]).filterMap f = h.filterMap f := by
  simp [List.filterMap_append, hf]

theorem ledger_snoc {o : Out} {e : Ledger.Entry Accepted EtherPkt} (he : entryOf o = some e) :
    ledger (h ++ [o]) = (ledger h).record e := by
  rw [ledger, filterMap_snoc_some he, Ledger.ofEntries_snoc]
  rfl

theorem tracks_nil : Tracks cfg [] [] :=
  ⟨rfl, rfl, by simp [ledger, Ledger.empty], rfl, Ledger.lawful_nil, Ledger.lawful_nil⟩

theorem Tracks.silent (ht : Tracks cfg pq h) {o : Out} (he : entryOf o = none)
    (ha : acceptedPkt o = none) (hf : ipFrame o = none) : Tracks cfg pq (h ++ [o]) := by
  have hentries := filterMap_snoc_none (h := h) he
  have hledger : ledger (h ++ [o]) = ledger h := congrArg Ledger.ofEntries hentries
  constructor
  · rw [hledger, filterMap_snoc_none ha, ht.accepted]
  · rw [hledger, ht.waiting]
  · rw [hledger]
    exact ht.uncached
  · rw [hledger, filterMap_snoc_none hf, ht.written]
  · rw [hentries]
    exact ht.certified
  · rw [hentries]
    exact ht.firstOfHop

theorem Tracks.silents (ht : Tracks cfg pq h)
    (hout : ∀ o ∈ out, entryOf o = none ∧ acceptedPkt o = none ∧ ipFrame o = none) :
    Tracks cfg pq (h ++ out) := by
  induction out generalizing h with
  | nil => simpa using ht
  | cons o out ih =>
    obtain ⟨he, ha, hf⟩ := hout o List.mem_cons_self
    have hnext := ih (ht.silent he ha hf) (fun o ho => hout o (List.mem_cons_of_mem _ ho))
    simpa using hnext

theorem Tracks.cached (ht : Tracks cfg pq h) {hop : Hop} {srcIp dstIp : IPAddr} {data : String}
    (hr : resolve cfg dstIp = .ok hop) (fd : Port) (u : Uninit) (dst : MacAddr) :
    Tracks cfg pq
      (h ++ [.send (hop.pendingPkt cfg srcIp dstIp data) true fd (hop.ipFrame u dst dstIp data)]) := by
  let pp := hop.pendingPkt cfg srcIp dstIp data
  let pkt := hop.ipFrame u dst dstIp data
  have he : entryOf (.send pp true fd pkt) = some (.direct ⟨pp, true⟩ pkt) := rfl
  have ha : acceptedPkt (.send pp true fd pkt) = some pp := rfl
  have hf : ipFrame (.send pp true fd pkt) = some pkt := rfl
  have hcarries : Carries cfg ⟨pp, true⟩ pkt := by
    have hname : getIface cfg pp.ifaceName = some hop.iface := resolve_ok hr
    exact ⟨rfl, hop.iface.1.ipAddr, by simp [Accepted.source, hname], rfl⟩
  constructor
  · rw [ledger_snoc he, filterMap_snoc_some ha, ← ht.accepted]
    exact List.map_append
  · rw [ledger_snoc he]
    exact ht.waiting
  · rw [ledger_snoc he]
    exact ht.uncached
  · rw [ledger_snoc he, filterMap_snoc_some hf, ← ht.written]
    exact List.map_append
  · rw [filterMap_snoc_some he]
    exact Ledger.lawful_snoc.mpr ⟨ht.certified, hcarries⟩
  · rw [filterMap_snoc_some he]
    exact Ledger.lawful_snoc.mpr ⟨ht.firstOfHop, trivial⟩

theorem Tracks.queued (ht : Tracks cfg pq h) (pp : PendingPkt) (fd : Port) (hop : Hop)
    (u : Uninit) : Tracks cfg (pq ++ [pp]) (h ++ [.send pp false fd (hop.requestFrame u)]) := by
  let o : Out := .send pp false fd (hop.requestFrame u)
  have he : entryOf o = some (.wait ⟨pp, false⟩) := rfl
  have ha : acceptedPkt o = some pp := rfl
  have hf : ipFrame o = none := rfl
  constructor
  · rw [ledger_snoc he, filterMap_snoc_some ha, ← ht.accepted]
    exact List.map_append
  · rw [ledger_snoc he, ← ht.waiting]
    exact List.map_append
  · intro t hmem
    rw [ledger_snoc he] at hmem
    rcases List.mem_append.mp hmem with hmem | hmem
    · exact ht.uncached t hmem
    · rw [List.mem_singleton.mp hmem]
  · rw [ledger_snoc he, filterMap_snoc_none hf, ← ht.written]
    rfl
  · rw [filterMap_snoc_some he]
    exact Ledger.lawful_snoc.mpr ⟨ht.certified, trivial⟩
  · rw [filterMap_snoc_some he]
    exact Ledger.lawful_snoc.mpr ⟨ht.firstOfHop, trivial⟩

theorem Tracks.sends (ht : Tracks cfg st.pq h) {srcIp dstIp : IPAddr} {data : String}
    (hs : Sends cfg st srcIp dstIp data st' out) : Tracks cfg st'.pq (h ++ out) := by
  cases hs with
  | cached u hop hr => exact ht.cached hr _ u _
  | queued u hop => exact ht.queued _ _ hop u

theorem Tracks.getElem? (ht : Tracks cfg pq h) {k : Nat} {pp : PendingPkt}
    (hk : pq[k]? = some pp) : ∃ n, (ledger h).waiting[k]? = some (n, ⟨pp, false⟩) := by
  rw [← ht.waiting, List.getElem?_map, Option.map_eq_some_iff] at hk
  obtain ⟨⟨n, a⟩, hn, rfl⟩ := hk
  have hc := ht.uncached _ (List.mem_of_getElem? hn)
  exact ⟨n, hc ▸ hn⟩

theorem Tracks.flush (ht : Tracks cfg pq h) {k : Nat} {pp : PendingPkt} {ip : IPAddr}
    (hp : firstPending ip pq = some (k, pp)) (fd : Port) (u : Uninit) (i : Iface)
    (recv : EtherPkt) :
    Tracks cfg (pq.eraseIdx k) (h ++ [.flush k fd (flushFrame u i recv pp)]) := by
  let pkt := flushFrame u i recv pp
  have he : entryOf (.flush k fd pkt) = some (.release k pkt) := rfl
  have ha : acceptedPkt (.flush k fd pkt) = none := rfl
  have hf : ipFrame (.flush k fd pkt) = some pkt := rfl
  obtain ⟨hget, hkey, hfirst⟩ := firstPending_some hp
  obtain ⟨n, hn⟩ := ht.getElem? hget
  obtain ⟨hacc, hwait, hsent⟩ := Ledger.release_of_getElem? pkt hn
  constructor
  · rw [ledger_snoc he, filterMap_snoc_none ha, ← ht.accepted]
    exact congrArg (List.map Accepted.pending) hacc
  · rw [ledger_snoc he, Ledger.record, hwait, ← List.eraseIdx_map, ht.waiting]
  · rw [ledger_snoc he, Ledger.record, hwait]
    exact fun t hmem => ht.uncached t (List.mem_of_mem_eraseIdx hmem)
  · rw [ledger_snoc he, Ledger.record, hsent, filterMap_snoc_some hf, ← ht.written]
    exact List.map_append
  · rw [filterMap_snoc_some he]
    refine Ledger.lawful_snoc.mpr ⟨ht.certified, ?_⟩
    intro t hmem
    obtain rfl := Option.some.inj (hn.symm.trans hmem)
    exact ⟨rfl, pp.srcIpaddr, rfl, rfl⟩
  · rw [filterMap_snoc_some he]
    refine Ledger.lawful_snoc.mpr ⟨ht.firstOfHop, ?_⟩
    intro t hmem t' ht'
    obtain rfl := Option.some.inj (hn.symm.trans hmem)
    have hpq : t'.2.pending ∈ pq.take k := by
      rw [← ht.waiting, ← List.map_take]
      exact List.mem_map_of_mem ht'
    exact fun heq => hfirst _ hpq (heq.trans hkey)

theorem Tracks.handles (ht : Tracks cfg st.pq h) {i : IfaceSocketPair} {recv : EtherPkt}
    (hs : Handles cfg st i recv st' out) : Tracks cfg st'.pq (h ++ out) := by
  cases hs with
  | ignored => simpa using ht
  | request now u =>
    refine ht.silents fun o ho => ?_
    obtain ⟨owner, -, rfl⟩ := List.mem_map.mp ho
    exact ⟨rfl, rfl, rfl⟩
  | flush now u k pp o _ _ _ hp => exact ht.flush hp _ u o.1 recv
  | deliver => exact ht.silent rfl rfl rfl
  | forward _ _ _ hs => exact ht.sends hs

theorem Tracks.effect (ht : Tracks cfg st.pq h) (he : Effect cfg st st' out) :
    Tracks cfg st'.pq (h ++ out) := by
  cases he with
  | quiet => simpa using ht
  | sweep => simpa using ht
  | console hc =>
    cases hc with
    | other line => exact ht.silent rfl rfl rfl
    | send line dst data _ hs =>
      have hnext := (ht.silent (o := .command line) rfl rfl rfl).sends hs
      simpa using hnext
  | handle i recv hs =>
    have hnext := (ht.silent (o := .handle i recv) rfl rfl rfl).handles hs
    simpa using hnext

theorem tracks (p : Path (machine cfg) ms s h) : Tracks cfg s.store.pq h :=
  p.invariant (fun s h => Tracks cfg s.store.pq h) tracks_nil
    (fun ht hs => ht.effect (effect_of_step hs))

theorem Tracks.accounted (ht : Tracks cfg pq h) (dst : IPAddr) (data : String) :
    (h.filterMap acceptedPkt).countP (fun pp => pp.dstIpaddr = dst ∧ pp.data = data) =
      (h.filterMap ipFrame).countP (fun pkt => pkt.ipPkt.dstIp = dst ∧ pkt.ipPkt.data = data) +
        pq.countP (fun pp => pp.dstIpaddr = dst ∧ pp.data = data) := by
  rw [← ht.accepted, ← ht.written, ← ht.waiting, List.countP_map, List.countP_map,
    List.countP_map, Ledger.countP_accepted]
  have hsent : (ledger h).sent.countP
        (fun t => decide (t.2.1.pending.dstIpaddr = dst ∧ t.2.1.pending.data = data)) =
      (ledger h).sent.countP
        (fun t => decide (t.2.2.ipPkt.dstIp = dst ∧ t.2.2.ipPkt.data = data)) := by
    refine List.countP_congr fun t hmem => ?_
    obtain ⟨-, src, -, hpkt⟩ := Ledger.sent_certified ht.certified t hmem
    simp [hpkt, IpPkt.createPkt]
  exact congrArg (· + _) hsent

end NetworkEmulator.Station

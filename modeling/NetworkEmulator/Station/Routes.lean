import NetworkEmulator.Station.Provenance

namespace NetworkEmulator.Station

open Transition

variable {cfg : Config} {ms ms' : List (Move State Event Out)} {s s' : State} {st st' : Store}
  {h out : List Out} {i : IfaceSocketPair} {recv : EtherPkt} {pp : PendingPkt} {dst : IPAddr}

def Queued (ms : List (Move State Event Out)) (pp : PendingPkt) (recv : EtherPkt) : Prop :=
  (∃ mv ∈ ms, ∃ i, .handle i recv ∈ mv.out) ∧ Arrived ms recv ∧ recv.type ≠ 0 ∧
    recv.ipPkt = IpPkt.createPkt pp.srcIpaddr pp.dstIpaddr pp.data

structure WellFormed (cfg : Config) (ms : List (Move State Event Out)) (pp : PendingPkt)
    (i : IfaceSocketPair) (nextHop : NextHop) : Prop where
  found : getIface cfg pp.ifaceName = some i
  iface : i ∈ cfg.ifaces ∧ i.1.ifaceName = pp.ifaceName
  route : Routing.getNextHop cfg.routes pp.dstIpaddr = .ok nextHop
  hop : pp.ifaceName = nextHop.iface ∧
    pp.nextHopIpaddr = if nextHop.ipAddr = "0.0.0.0" then pp.dstIpaddr else nextHop.ipAddr
  hostSource : cfg.isRouter = false → pp.srcIpaddr = i.1.ipAddr
  routerSource : cfg.isRouter = true → ∃ recv, Queued ms pp recv

theorem resolve_spec {hop : Hop} (hr : resolve cfg dst = .ok hop) :
    ∃ nextHop, Routing.getNextHop cfg.routes dst = .ok nextHop ∧ hop.ifaceName = nextHop.iface ∧
      hop.ipAddr = if nextHop.ipAddr = "0.0.0.0" then dst else nextHop.ipAddr := by
  obtain ⟨nextHop, hn, hr⟩ := Fault.bind_ok hr
  split at hr
  · cases hr
  · obtain rfl := Except.ok.inj hr
    exact ⟨nextHop, hn, rfl, rfl⟩

theorem pq_sends {srcIp dstIp : IPAddr} {data : String}
    (hs : Sends cfg st srcIp dstIp data st' out) (hpp : pp ∈ st'.pq) :
    pp ∈ st.pq ∨ ∃ hop, resolve cfg dstIp = .ok hop ∧ pp = hop.pendingPkt cfg srcIp dstIp data := by
  cases hs with
  | cached => exact Or.inl hpp
  | queued u hop hr =>
    rcases List.mem_append.mp hpp with hpp | hpp
    · exact Or.inl hpp
    · exact Or.inr ⟨hop, hr, List.mem_singleton.mp hpp⟩

theorem pq_effect (he : Effect cfg st st' out) (hpp : pp ∈ st'.pq) :
    pp ∈ st.pq ∨ ∃ hop srcIp dstIp data, resolve cfg dstIp = .ok hop ∧
      pp = hop.pendingPkt cfg srcIp dstIp data ∧
      (cfg.isRouter = true → ∃ i recv, .handle i recv ∈ out ∧ recv.type ≠ 0 ∧
        recv.ipPkt = IpPkt.createPkt srcIp dstIp data) := by
  cases he with
  | quiet | sweep => exact Or.inl hpp
  | console hc =>
    cases hc with
    | other => exact Or.inl hpp
    | send line dst data hr hs =>
      rcases pq_sends hs hpp with hold | ⟨hop, hres, heq⟩
      · exact Or.inl hold
      · exact Or.inr ⟨hop, _, _, _, hres, heq, fun hrouter => absurd hrouter (by simp [hr])⟩
  | handle i recv hs =>
    cases hs with
    | ignored | request | deliver => exact Or.inl hpp
    | flush => exact Or.inl (List.mem_of_mem_eraseIdx hpp)
    | forward ht _ _ hs =>
      rcases pq_sends hs hpp with hold | ⟨hop, hres, heq⟩
      · exact Or.inl hold
      · exact Or.inr ⟨hop, _, _, _, hres, heq, fun _ => ⟨i, recv, List.mem_cons_self, ht, rfl⟩⟩

theorem WellFormed.mono {nextHop : NextHop} (hw : WellFormed cfg ms pp i nextHop)
    (hsub : ms ⊆ ms') : WellFormed cfg ms' pp i nextHop := by
  refine { hw with routerSource := fun hr => ?_ }
  obtain ⟨recv, ⟨mv, hmv, hh⟩, harrived, hrest⟩ := hw.routerSource hr
  exact ⟨recv, ⟨mv, hsub hmv, hh⟩, harrived.mono hsub, hrest⟩

theorem wellFormed_pendingPkt {hop : Hop} {srcIp dstIp : IPAddr} {data : String}
    (hr : resolve cfg dstIp = .ok hop)
    (hq : cfg.isRouter = true → ∃ recv, Queued ms (hop.pendingPkt cfg srcIp dstIp data) recv) :
    ∃ nextHop, WellFormed cfg ms (hop.pendingPkt cfg srcIp dstIp data) hop.iface nextHop := by
  obtain ⟨nextHop, hn, hname, haddr⟩ := resolve_spec hr
  have hfound := resolve_ok hr
  exact ⟨nextHop, hfound, getIface_some hfound, hn, ⟨hname, haddr⟩,
    fun hhost => by simp [Hop.pendingPkt, hhost], hq⟩

theorem arrived_of_resolve (ha : ArrivedOrBlank ms recv) {hop : Hop}
    (hr : resolve cfg recv.ipPkt.dstIp = .ok hop) : Arrived ms recv := by
  rcases ha with ha | ⟨u, rfl⟩
  · exact ha
  · cases hr

theorem wellFormed_of_mem (p : Path (machine cfg) ms s h) (hpp : pp ∈ s.store.pq) :
    ∃ i nextHop, WellFormed cfg ms pp i nextHop := by
  induction p with
  | nil => simp [machine] at hpp
  | @snoc ms s s' h o e p hs ih =>
    have hsub : ms ⊆ ms ++ [⟨s, h, e, s', o⟩] := List.subset_append_left _ _
    rcases pq_effect (effect_of_step hs) hpp with hold | ⟨hop, srcIp, dstIp, data, hr, rfl, hq⟩
    · obtain ⟨i, nextHop, hw⟩ := ih hold
      exact ⟨i, nextHop, hw.mono hsub⟩
    · refine ⟨hop.iface, wellFormed_pendingPkt hr fun hrouter => ?_⟩
      obtain ⟨i, recv, hh, ht, hip⟩ := hq hrouter
      have hmem : (⟨s, h, e, s', o⟩ : Move State Event Out) ∈ ms ++ [⟨s, h, e, s', o⟩] := by simp
      have hdst : resolve cfg recv.ipPkt.dstIp = .ok hop := by rw [hip]; exact hr
      have harrived := arrived_of_resolve (handled_arrived (p.snoc hs) hmem hh) hdst
      refine ⟨recv, ⟨_, hmem, i, hh⟩, harrived, ht, ?_⟩
      simpa [Hop.pendingPkt, hrouter] using hip

theorem pending_well_formed (p : Path (machine cfg) ms s h) :
    ∀ pp ∈ s.store.pq, ∃ i nextHop, WellFormed cfg ms pp i nextHop :=
  fun _ hpp => wellFormed_of_mem p hpp

def queuedRun : List Event := heard (ipFrameTo "r1")

def queuedPkt : PendingPkt := ⟨"10.0.2.9", "10.0.2.9", "10.0.1.5", "R2", " hi"⟩

theorem pending_well_formed_queued :
    ∃ i nextHop, WellFormed routerR ((machine routerR).moves queuedRun) queuedPkt i nextHop :=
  pending_well_formed ((machine routerR).path queuedRun (by decide)) queuedPkt (by decide)

end NetworkEmulator.Station

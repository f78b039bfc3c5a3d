import NetworkEmulator.Station.Pending
import NetworkEmulator.Station.Received

namespace NetworkEmulator.Station

open Transition

variable {cfg : Config} {ms : List (Move State Event Out)} {s s' : State} {st st' : Store}
  {pq : PendingQueue} {h out : List Out}

def Sourced (cfg : Config) (h : List Out) : Prop :=
  ∀ pp ∈ h.filterMap acceptedPkt, ∃ i ∈ cfg.ifaces, pp.srcIpaddr = i.1.ipAddr

theorem sourced_append (hh : Sourced cfg h) (ho : Sourced cfg out) : Sourced cfg (h ++ out) := by
  intro pp hpp
  rw [List.filterMap_append, List.mem_append] at hpp
  exact hpp.elim (hh pp) (ho pp)

theorem sourced_nil : Sourced cfg [] := by
  intro pp hpp
  simp at hpp

theorem sourced_sends (hr : cfg.isRouter = false) {srcIp dstIp : IPAddr} {data : String}
    (hs : Sends cfg st srcIp dstIp data st' out) : Sourced cfg out := by
  intro pp hpp
  cases hs with
  | cached u hop hres | queued u hop hres =>
    have hiface := (getIface_some (resolve_ok hres)).1
    obtain rfl : pp = hop.pendingPkt cfg srcIp dstIp data := by simpa [acceptedPkt] using hpp
    exact ⟨hop.iface, hiface, by simp [Hop.pendingPkt, hr]⟩

theorem sourced_effect (hr : cfg.isRouter = false) (he : Effect cfg st st' out) :
    Sourced cfg out := by
  cases he with
  | quiet | sweep => exact sourced_nil
  | console hc =>
    cases hc with
    | other => exact sourced_nil
    | send line dst data _ hs =>
      have hsends := sourced_sends hr hs
      simpa [Sourced, acceptedPkt] using hsends
  | handle i recv hs =>
    cases hs with
    | ignored | flush | deliver => exact sourced_nil
    | request now u =>
      intro pp hpp
      simp [acceptedPkt] at hpp
    | forward _ _ hr' => exact absurd hr' (by simp [hr])

theorem sourced (hr : cfg.isRouter = false) (p : Path (machine cfg) ms s h) : Sourced cfg h :=
  p.invariant (fun _ h => Sourced cfg h) sourced_nil
    (fun hh hs => sourced_append hh (sourced_effect hr (effect_of_step hs)))

theorem written_source (hr : cfg.isRouter = false) (p : Path (machine cfg) ms s h) :
    ∀ pkt ∈ h.filterMap ipFrame, ∃ i ∈ cfg.ifaces, pkt.ipPkt.srcIp = i.1.ipAddr := by
  have ht := tracks p
  intro pkt hpkt
  rw [← ht.written] at hpkt
  obtain ⟨t, hmem, rfl⟩ := List.mem_map.mp hpkt
  obtain ⟨-, src, hsrc, hip⟩ := Ledger.sent_certified ht.certified t hmem
  rw [hip]
  unfold Accepted.source at hsrc
  split at hsrc
  · obtain ⟨i, hi, rfl⟩ := Option.map_eq_some_iff.mp hsrc
    exact ⟨i, (getIface_some hi).1, rfl⟩
  · obtain rfl := Option.some.inj hsrc
    have haccepted : t.2.1.pending ∈ h.filterMap acceptedPkt := by
      rw [← ht.accepted]
      exact List.mem_map_of_mem (List.mem_of_getElem? ((ledger h).sent_item t hmem))
    exact sourced hr p _ haccepted

def isDelivery (pkt : IpPkt) : Out → Bool
  | .deliver _ pkt' => pkt' = pkt
  | _ => false

theorem deliveries_sends {srcIp dstIp : IPAddr} {data : String} (pkt : IpPkt)
    (hs : Sends cfg st srcIp dstIp data st' out) : out.countP (isDelivery pkt) = 0 := by
  cases hs with
  | cached | queued => rfl

theorem deliveries_effect (pkt : IpPkt) (he : Effect cfg st st' out) :
    out.countP (isDelivery pkt) = 0 ∨
      out.countP (isDelivery pkt) = 1 ∧ isIntendedIpDestination cfg pkt.dstIp = true ∧
        ∃ i recv, .handle i recv ∈ out ∧ recv.type ≠ 0 ∧ recv.ipPkt = pkt := by
  cases he with
  | quiet | sweep => exact Or.inl rfl
  | console hc =>
    left
    cases hc with
    | other => rfl
    | send line dst data _ hs =>
      rw [List.countP_cons_of_neg (by simp [isDelivery]), deliveries_sends pkt hs]
  | handle i recv hs =>
    rw [List.countP_cons_of_neg (by simp [isDelivery])]
    cases hs with
    | ignored | flush => exact Or.inl rfl
    | request now u =>
      left
      refine List.countP_eq_zero.mpr fun o ho => ?_
      obtain ⟨owner, -, rfl⟩ := List.mem_map.mp ho
      simp [isDelivery]
    | deliver ht hd =>
      by_cases hpkt : recv.ipPkt = pkt
      · subst hpkt
        exact Or.inr ⟨by simp [isDelivery], hd, i, recv, by simp, ht, rfl⟩
      · exact Or.inl (by simp [isDelivery, hpkt])
    | forward _ _ _ hs => exact Or.inl (deliveries_sends pkt hs)

def Blank (cfg : Config) (s : State) : Prop :=
  ∀ rest recv, s.pc = .ifaces rest recv → rest = cfg.ifaces ∧ ∃ u, recv = EtherPkt.uninit u ""

theorem blank_step {i : IfaceSocketPair} (hone : cfg.ifaces = [i]) (hb : Blank cfg s) {e : Event}
    (hs : step cfg s e = some (s', out)) : Blank cfg s' := by
  intro rest recv hpc
  rcases pc_of_step hs hpc with hfresh | ⟨j, buffer, hpc', hne, -⟩
  · exact hfresh
  · have hall := (hb _ _ hpc').1
    rw [hone] at hall
    exact absurd (List.cons.inj hall).2 hne

theorem blank {i : IfaceSocketPair} (hone : cfg.ifaces = [i]) (p : Path (machine cfg) ms s h) :
    Blank cfg s := by
  have hinit : Blank cfg (machine cfg).init := by
    intro rest recv hpc
    cases hpc
  exact p.invariant (fun s _ => Blank cfg s) hinit (fun hb hs => blank_step hone hb hs)

end NetworkEmulator.Station

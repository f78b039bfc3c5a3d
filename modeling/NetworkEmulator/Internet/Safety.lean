import NetworkEmulator.Internet.Truth
import NetworkEmulator.Station.Routed

namespace NetworkEmulator.Internet

open Transition

variable {β ν ζ : Type} [DecidableEq β] [DecidableEq ν] {P : Plan β ν} {zone : β → ζ}
  {s s' : State β ν} {h out : List (Out ν)} {e : Event β ν} {n : ν}
  {ms : List (Move (State β ν) (Event β ν) (Out ν))}

theorem delivered_of_happens (hz : Zoned P zone) (p : Path (machine P) ms s h)
    (hh : Happens P s e s' out) {sender : String} {pkt : IpPkt}
    (hd : (n, .deliver sender pkt) ∈ out) :
    (∃ i ∈ (P.config n).ifaces, i.1.ipAddr = pkt.dstIp) ∧
      ∃ z, InZone P zone n z ∧ SaidIn P zone h z pkt.srcIp pkt.dstIp pkt.data := by
  cases hh with
  | join | refuse | boot | bridge | halt => cases hd
  | node m nd e st sout down hn hf hs =>
    obtain ⟨o, ho, heq⟩ := List.mem_map.mp hd
    obtain ⟨rfl, rfl⟩ := Prod.mk.inj heq
    have ht := trusts_of_path hz p hn
    obtain ⟨i, recv, hhandled, htype, rfl, hown⟩ :=
      Station.delivered_effect (Station.effect_of_step hs) ho
    obtain ⟨j, hj, hdst⟩ := Station.isIntended_iff.mp hown
    refine ⟨⟨j, ht.ifaces hj, hdst.symm⟩, ?_⟩
    rcases heard_step ht (heard_of_path hz p hn hf) hs hhandled with ⟨b, hon, hhonest⟩ | ⟨u, rfl⟩
    · exact ⟨zone b, ⟨b, hon, rfl⟩, hhonest.text htype⟩
    · exact absurd hdst.symm (P.addressed m j (ht.ifaces hj))

def shownAtB : IpPkt := IpPkt.createPkt "10.0.1.5" "10.0.2.9" " hi"

theorem delivered_said (hz : Zoned P zone) (p : Path (machine P) ms s h) :
    ∀ mv ∈ ms, ∀ n sender pkt, (n, .deliver sender pkt) ∈ mv.out →
      (∃ i ∈ (P.config n).ifaces, i.1.ipAddr = pkt.dstIp) ∧
        ∃ z, InZone P zone n z ∧ SaidIn P zone mv.log z pkt.srcIp pkt.dstIp pkt.data := by
  intro mv hmv n sender pkt hd
  obtain ⟨_, -, hp, hs⟩ := p.before hmv
  exact delivered_of_happens hz hp (happens_of_step hs) hd

theorem delivered_said_hop :
    ∃ mv ∈ (machine twoLans).moves hopRun, (Place.b, .deliver "A" shownAtB) ∈ mv.out ∧
      (∃ i ∈ (twoLans.config .b).ifaces, i.1.ipAddr = shownAtB.dstIp) ∧
        ∃ z, InZone twoLans everywhere .b z ∧
          SaidIn twoLans everywhere mv.log z shownAtB.srcIp shownAtB.dstIp shownAtB.data := by
  have hmoves : ∃ mv ∈ (machine twoLans).moves hopRun,
      (Place.b, Station.Out.deliver "A" shownAtB) ∈ mv.out := by decide
  obtain ⟨mv, hmv, hd⟩ := hmoves
  exact ⟨mv, hmv, hd, delivered_said (zoned_everywhere twoLans)
    ((machine twoLans).path hopRun (by decide)) mv hmv _ _ _ hd⟩

theorem sent_of_happens (p : Path (machine P) ms s h) (hh : Happens P s e s' out)
    {o : Station.Out} {fd : Port} {pkt : EtherPkt} (ho : (n, o) ∈ out)
    (hframe : o.frame = some (fd, pkt)) (htype : pkt.type ≠ 0) :
    ∃ nd, s.node n = some nd ∧ Station.ToHop (P.running n nd.ifaces) (Nearby P n) pkt := by
  cases hh with
  | join | refuse | boot | bridge | halt => cases ho
  | node m nd e st sout down hn hf hs =>
    obtain ⟨o', ho', heq⟩ := List.mem_map.mp ho
    obtain ⟨rfl, rfl⟩ := Prod.mk.inj heq
    have ht := trusts_of_path (zoned_everywhere P) p hn
    have hvouched := vouched_step ht (heard_of_path (zoned_everywhere P) p hn hf) hs
    obtain ⟨ms', h', hrun⟩ := ht.run
    refine ⟨nd, hn, ?_⟩
    exact Station.hop_effect hrun ht.arp
      (fun i recv hh hv => (hvouched i recv hh hv).arp hv.1)
      (Station.effect_of_step hs) ho' hframe htype

theorem sent_to_next_hop (p : Path (machine P) ms s h) :
    ∀ mv ∈ ms, ∀ n o fd pkt, (n, o) ∈ mv.out → o.frame = some (fd, pkt) → pkt.type ≠ 0 →
      ∃ nd hop, mv.before.node n = some nd ∧
        Station.resolve (P.running n nd.ifaces) pkt.ipPkt.dstIp = .ok hop ∧
        pkt.macSrc = hop.iface.1.macAddr ∧ ∃ b, On P n b ∧ RealOn P b hop.ipAddr pkt.macDst := by
  intro mv hmv n o fd pkt ho hframe htype
  obtain ⟨_, -, hp, hs⟩ := p.before hmv
  obtain ⟨nd, hn, hop, hres, hsrc, hnear⟩ :=
    sent_of_happens hp (happens_of_step hs) ho hframe htype
  exact ⟨nd, hop, hn, hres, hsrc, hnear⟩

theorem sent_to_next_hop_hop :
    ∃ mv ∈ (machine twoLans).moves hopRun,
      (Place.a, .flush 0 3 (packet ifaceA "r1")) ∈ mv.out ∧
        ∃ nd hop, mv.before.node .a = some nd ∧
          Station.resolve (twoLans.running .a nd.ifaces) "10.0.2.9" = .ok hop ∧
          "aa" = hop.iface.1.macAddr ∧ ∃ b, On twoLans .a b ∧ RealOn twoLans b hop.ipAddr "r1" := by
  have hmoves : ∃ mv ∈ (machine twoLans).moves hopRun,
      (Place.a, Station.Out.flush 0 3 (packet ifaceA "r1")) ∈ mv.out := by decide
  obtain ⟨mv, hmv, ho⟩ := hmoves
  exact ⟨mv, hmv, ho, sent_to_next_hop ((machine twoLans).path hopRun (by decide)) mv hmv _ _ 3
    (packet ifaceA "r1") ho rfl (by decide)⟩

def Asked (P : Plan β ν) (n : ν) (dst : IPAddr) : Prop :=
  ∃ m, (m = n ∨ (P.config n).isRouter = true) ∧ (P.config m).isRouter = false ∧
    ∃ host ∈ (P.config m).hosts, host.addr = dst

-- every interface has been accepted, console input has its NUL, and no router's read fails
def orderly (P : Plan β ν) : Event β ν → Bool
  | .boot n ifaces => ifaces = (P.config n).ifaces
  | .node _ (.stdin (some bytes) _) => (Station.cString bytes).isOk
  | .node n (.recv .error _ _) => !(P.config n).isRouter
  | _ => true

structure Running (P : Plan β ν) (s : State β ν) (h : List (Out ν)) : Prop where
  ifaces : ∀ n nd, s.node n = some nd → nd.ifaces = (P.config n).ifaces
  sound : ∀ n nd, s.node n = some nd → ∀ f, nd.state.pc ≠ .fault f
  hosted : ∀ m dst data, Said P h m dst data → ∃ host ∈ (P.config m).hosts, host.addr = dst

theorem hosted_of_commandDst {cfg : Station.Config} {cmd : List Char} {dst : IPAddr}
    (hd : Station.commandDst cfg cmd = some dst) :
    cfg.isRouter = false ∧ ∃ host ∈ cfg.hosts, host.addr = dst := by
  unfold Station.commandDst at hd
  simp only at hd
  split at hd
  · cases hd
  · split at hd
    · rename_i hsend
      obtain ⟨host, hfind, haddr⟩ := Option.map_eq_some_iff.mp hd
      exact ⟨hsend.2, host, List.mem_of_find?_eq_some hfind, haddr⟩
    · cases hd

omit [DecidableEq β] [DecidableEq ν] in
theorem asked_of_asks (hr : Running P s h) {nd : Node} {ev : Station.Event}
    (hrecv : ∀ recv now u, ev = .recv (.frame recv) now u → Heard P zone h n recv)
    (herr : ∀ now u, ev = .recv .error now u → (P.config n).isRouter = false) {dst : IPAddr}
    (ha : Station.Asks (P.running n nd.ifaces) nd.state ev dst) : Asked P n dst := by
  cases ha with
  | command bytes cmd u dst hc hd =>
    obtain ⟨hrouter, hhost⟩ := hosted_of_commandDst hd
    exact ⟨n, Or.inl rfl, hrouter, hhost⟩
  | frame recv now u hf =>
    obtain ⟨b, -, hhonest⟩ := hrecv recv now u rfl
    obtain ⟨m, r, -, hsaid, -⟩ := hhonest.text hf.1
    exact ⟨m, Or.inr hf.2.2, hsaid.1, hr.hosted m _ _ hsaid⟩
  | error rest recv now u hpc hf =>
    have hrouter : (P.config n).isRouter = true := hf.2.2
    exact absurd (herr now u rfl) (by simp [hrouter])

theorem running_node (p : Path (machine P) ms s h) (hr : Running P s h)
    (hroutes : ∀ n dst, Asked P n dst → Station.Routed (P.config n) dst) {nd : Node}
    {ev : Station.Event} {st : Station.State} {sout : List Station.Out}
    {down : Link ConnId EtherPkt} (hn : s.node n = some nd)
    (hf : fetch s n nd.state.pc ev = some down)
    (hs : Station.step (P.running n nd.ifaces) nd.state ev = some (st, sout))
    (hstdin : ∀ bytes u, ev = .stdin (some bytes) u → (Station.cString bytes).isOk = true)
    (herr : ∀ now u, ev = .recv .error now u → (P.config n).isRouter = false) :
    ∀ f, st.pc ≠ .fault f := by
  intro f hfault
  have ht := trusts_of_path (zoned_everywhere P) p hn
  have hifaces := hr.ifaces n nd hn
  have hcfg : P.running n nd.ifaces = P.config n := by rw [hifaces]; rfl
  have hrecv := heard_of_path (zoned_everywhere P) p hn hf
  rcases Station.fault_of_step hs hfault with ⟨bytes, u, hev, hc⟩ | ⟨dst, hasks, hres⟩ |
    ⟨pp, hpp, hnone⟩
  · have hok := hstdin bytes u hev
    rw [hc] at hok
    cases hok
  · have hrouted := hroutes n dst (asked_of_asks hr hrecv herr hasks)
    rw [← hcfg] at hrouted
    obtain ⟨hop, hok⟩ := Station.resolve_isOk_iff.mpr hrouted
    exact absurd (hok.symm.trans hres) (by simp)
  · obtain ⟨ms', h', hp'⟩ := ht.run
    obtain ⟨i, nextHop, hw⟩ := Station.wellFormed_of_mem hp' hpp
    exact absurd (hw.found.symm.trans hnone) (by simp)

theorem hosted_happens (hr : Running P s h) (hh : Happens P s e s' out) {m : ν} {dst : IPAddr}
    {data : String} (hsaid : Said P (h ++ out) m dst data) :
    ∃ host ∈ (P.config m).hosts, host.addr = dst := by
  obtain ⟨hm, pp, cached, fd, pkt, hmem, rfl, rfl⟩ := hsaid
  rcases List.mem_append.mp hmem with hold | hnew
  · exact hr.hosted m _ _ ⟨hm, pp, cached, fd, pkt, hold, rfl, rfl⟩
  · cases hh with
    | join | refuse | boot | bridge | halt => cases hnew
    | node n nd ev st sout down hn hf hs =>
      obtain ⟨o, ho, heq⟩ := List.mem_map.mp hnew
      obtain ⟨rfl, rfl⟩ := Prod.mk.inj heq
      have hrouter : (P.running n nd.ifaces).isRouter = false := hm
      obtain ⟨host, hhost, haddr⟩ := Station.hosted_of_step hrouter hs ho
      exact ⟨host, hhost, haddr.symm⟩

theorem running_happens (p : Path (machine P) ms s h) (hr : Running P s h)
    (hroutes : ∀ n dst, Asked P n dst → Station.Routed (P.config n) dst)
    (hh : Happens P s e s' out) (ho : orderly P e = true) :
    Running P s' (h ++ out) := by
  have hhosted : ∀ m dst data, Said P (h ++ out) m dst data →
      ∃ host ∈ (P.config m).hosts, host.addr = dst :=
    fun _ _ _ hsaid => hosted_happens hr hh hsaid
  have hold : ∀ (n : ν) (x : Option Node),
      (∀ nd, x = some nd → nd.ifaces = (P.config n).ifaces ∧ ∀ f, nd.state.pc ≠ .fault f) →
      ∀ m nd, Function.update s.node n x m = some nd →
        nd.ifaces = (P.config m).ifaces ∧ ∀ f, nd.state.pc ≠ .fault f := by
    intro n x hx m nd hm
    by_cases hmn : m = n
    · subst hmn
      rw [Function.update_self] at hm
      exact hx nd hm
    · rw [Function.update_of_ne hmn] at hm
      exact ⟨hr.ifaces m nd hm, hr.sound m nd hm⟩
  cases hh with
  | join | refuse | bridge => exact ⟨hr.ifaces, hr.sound, hhosted⟩
  | boot n ifaces hi =>
    have hboot := hold n (some ⟨ifaces, (Station.machine (P.running n ifaces)).init⟩) (by
      rintro nd hnd
      obtain rfl := Option.some.inj hnd
      exact ⟨of_decide_eq_true ho, fun f hf => by cases hf⟩)
    exact ⟨fun m nd hm => (hboot m nd hm).1, fun m nd hm => (hboot m nd hm).2, hhosted⟩
  | halt n =>
    have hhalt := hold n none (by rintro nd ⟨⟩)
    exact ⟨fun m nd hm => (hhalt m nd hm).1, fun m nd hm => (hhalt m nd hm).2, hhosted⟩
  | node n nd ev st sout down hn hf hs =>
    have hsound : ∀ f, st.pc ≠ .fault f := by
      refine running_node p hr hroutes hn hf hs ?_ ?_
      · rintro bytes u rfl
        exact ho
      · rintro now u rfl
        exact Bool.not_eq_true' _ |>.mp ho
    have hnode := hold n (some ⟨nd.ifaces, st⟩) (by
      rintro nd' hnd'
      obtain rfl := Option.some.inj hnd'
      exact ⟨hr.ifaces n nd hn, hsound⟩)
    exact ⟨fun m nd hm => (hnode m nd hm).1, fun m nd hm => (hnode m nd hm).2, hhosted⟩

theorem no_process_faults (p : Path (machine P) ms s h) (ho : ∀ mv ∈ ms, orderly P mv.event = true)
    (hroutes : ∀ n dst, Asked P n dst → Station.Routed (P.config n) dst) :
    ∀ n nd, s.node n = some nd → ∀ f, nd.state.pc ≠ .fault f := by
  have hinit : Running P (machine P).init [] := by
    refine ⟨by simp [machine], by simp [machine], ?_⟩
    rintro m dst data ⟨-, pp, cached, fd, pkt, hmem, -⟩
    cases hmem
  have hboth : (∃ ms, Path (machine P) ms s h) ∧ Running P s h := by
    refine p.guarded (fun s h => (∃ ms, Path (machine P) ms s h) ∧ Running P s h)
      ⟨⟨_, .nil⟩, hinit⟩ ?_ ho
    rintro s h e s' o ⟨⟨ms, hp⟩, hr⟩ hs hm
    exact ⟨⟨_, hp.snoc hs⟩, running_happens hp hr hroutes (happens_of_step hs) hm⟩
  exact hboth.2.sound

theorem no_process_faults_hop :
    ∃ nd, ((machine twoLans).final hopRun).node .r = some nd ∧ ∀ f, nd.state.pc ≠ .fault f := by
  have hroutes : ∀ n dst, Asked twoLans n dst → Station.Routed (twoLans.config n) dst := by
    rintro n dst ⟨m, hm, hrouter, host, hhost, rfl⟩
    rw [← Station.resolve_isOk_iff]
    cases m with
    | a =>
      obtain rfl := List.mem_singleton.mp hhost
      cases n with
      | a | r => exact ⟨_, rfl⟩
      | b => simp [twoLans] at hm
    | r => cases hrouter
    | b =>
      obtain rfl := List.mem_singleton.mp hhost
      cases n with
      | b | r => exact ⟨_, rfl⟩
      | a => simp [twoLans] at hm
  have hup : (((machine twoLans).final hopRun).node .r).isSome = true := by decide
  obtain ⟨nd, hnd⟩ := Option.isSome_iff_exists.mp hup
  exact ⟨nd, hnd, no_process_faults ((machine twoLans).path hopRun (by decide)) (by decide) hroutes
    _ _ hnd⟩

end NetworkEmulator.Internet

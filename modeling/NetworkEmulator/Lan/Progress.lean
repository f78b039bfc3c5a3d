import NetworkEmulator.Foundation.Amortised
import NetworkEmulator.Foundation.Drain
import NetworkEmulator.Lan.AtRest
import NetworkEmulator.Lan.Quiet

namespace NetworkEmulator.Lan

open Transition

variable {ι : Type} {L : Plan ι} {s s' t : State ι} {e : Event ι} {out h : List (Out ι)}
  {since : Milliseconds} {k : ι} {c : ConnId} {fd : Port} {pkt recv : EtherPkt} {N : Nat}
  {up : Link ConnId EtherPkt}

-- a calm step in which no station accepts a packet
def Reading (since : Milliseconds) (s : State ι) (e : Event ι) (out : List (Out ι)) : Prop :=
  Calm since s e ∧ ∀ x ∈ out, Station.acceptedPkt x.2 = none

structure Attached (s : State ι) : Prop where
  port : ∀ fd c, s.port fd = some c → ∃ k, s.conn k = some c
  down : ∀ x ∈ s.down, ∃ k, s.conn k = some x.1

def Live (n : Station.State) : Prop := n.quit = false ∧ ∀ f, n.pc ≠ .fault f

structure Going (L : Plan ι) (since : Milliseconds) (N : Nat) (s : State ι) : Prop where
  sound : Sound L s
  settled : Settled L since s
  attached : Attached s
  running : s.bridge.stop = false
  live : ∀ k c, s.conn k = some c → Live (s.node k)
  clients : (Bridge.fds s.bridge.clients).length = N

theorem attached_calmly [DecidableEq ι] (hat : Attached s) (hc : Calmly L since s s' out) :
    Attached s' := by
  cases hc with
  | join k w b hk hw fresh =>
    constructor
    · intro fd c hp
      change Function.update s.port w.cliFd (some s.next) fd = some c at hp
      by_cases hfd : fd = w.cliFd
      · rw [hfd, Function.update_self] at hp
        exact ⟨k, (Function.update_self ..).trans hp⟩
      · rw [Function.update_of_ne hfd] at hp
        obtain ⟨j, hj⟩ := hat.port fd c hp
        exact ⟨j, conn_joined hk b hj⟩
    · intro x hx
      obtain ⟨j, hj⟩ := hat.down x hx
      exact ⟨j, conn_joined hk b hj⟩
  | still => exact ⟨hat.port, hat.down⟩
  | relay w b bout fd pkt c up =>
    refine ⟨hat.port, fun x hx => ?_⟩
    rcases List.mem_append.mp hx with hx | hx
    · exact hat.down x hx
    · obtain ⟨fd', hp⟩ := relayed_port hx
      exact hat.port fd' x.1 hp
  | station k c e down n sout hc hf => exact ⟨hat.port, fun x hx => hat.down x (fetch_subset hf hx)⟩

theorem calm_run [DecidableEq ι] {ms : List (Move (State ι) (Event ι) (Out ι))}
    (p : Path (machine L) ms s h) (ha : Addressed L)
    (hcalm : ∀ mv ∈ ms, Calm since mv.before mv.event) :
    Settled L since s ∧ Attached s := by
  have hinit : Attached (machine L).init := ⟨by simp [machine], by simp [machine]⟩
  have hall : Sound L s ∧ Settled L since s ∧ Attached s := by
    refine p.guarded (fun s _ => Sound L s ∧ Settled L since s ∧ Attached s)
      ⟨sound .nil, settled_init, hinit⟩ ?_ hcalm
    rintro s h e s' o ⟨hso, hse, hat⟩ hs hc
    have hcalmly := calmly_of_step hs hc
    exact ⟨sound_happens hso (happens_of_step hs), settled_calmly ha hso hse hcalmly,
      attached_calmly hat hcalmly⟩
  exact hall.2

def cost (N : Nat) : Nat → Nat
  | 0 => 1
  | w + 1 => 1 + (1 + N * cost N w)

def upCost (N w : Nat) : Nat := 1 + N * cost N w

def upWork (N : Nat) (up : Link ConnId EtherPkt) : Nat := up.total fun x => upCost N (weight x.2)

def downWork (N : Nat) (down : Link ConnId EtherPkt) : Nat := down.total fun x => cost N (weight x.2)

def work (N : Nat) (s : State ι) : Nat := upWork N s.up + downWork N s.down

theorem upWork_append (N : Nat) (up up' : Link ConnId EtherPkt) :
    upWork N (up ++ up') = upWork N up + upWork N up' :=
  Link.total_append _ _ _

theorem downWork_append (N : Nat) (down down' : Link ConnId EtherPkt) :
    downWork N (down ++ down') = downWork N down + downWork N down' :=
  Link.total_append _ _ _

theorem upCost_lt (N w : Nat) : upCost N w < cost N (w + 1) := Nat.lt_add_of_pos_left Nat.one_pos

theorem cost_pos (N w : Nat) : 0 < cost N w := by
  cases w with
  | zero => exact Nat.one_pos
  | succ w => exact Nat.add_pos_left Nat.one_pos _

theorem going_step [DecidableEq ι] (ha : Addressed L) (hg : Going L since N s)
    (hs : step L s e = some (s', out)) (hcalm : Calm since s e) (hrun : s'.bridge.stop = false)
    (hlive : ∀ k c, s'.conn k = some c → Live (s'.node k))
    (hn : (Bridge.fds s'.bridge.clients).length = N) : Going L since N s' where
  sound := sound_happens hg.sound (happens_of_step hs)
  settled := settled_calmly ha hg.sound hg.settled (calmly_of_step hs hcalm)
  attached := attached_calmly hg.attached (calmly_of_step hs hcalm)
  running := hrun
  live := hlive
  clients := hn

theorem free_of_step [DecidableEq ι] (hs : step L s e = some (s', out)) (hcalm : Calm since s e)
    (hno : ∀ x ∈ out, Station.acceptedPkt x.2 = none) : Free (machine L) (Reading since) s s' :=
  ⟨e, out, hs, hcalm, hno⟩

section Relay
variable {copies rest : Link ConnId EtherPkt} {w : Bridge.Wake} {b : Bridge.State}
  {bout : List Bridge.Out}

theorem downWork_conveys (hn : (Bridge.fds s.bridge.clients).length = N)
    (hfd : fd ∈ Bridge.fds s.bridge.clients) (hconv : Conveys L s fd pkt copies) :
    downWork N copies ≤ N * cost N (weight pkt) := by
  have hlen : copies.length ≤ N := by
    rw [← hn]
    cases hconv with
    | broadcast i client hi =>
      refine (List.length_filterMap_le _ _).trans ?_
      exact ((List.eraseIdx_sublist _ _).map Bridge.ClientData.fd).length_le
    | direct => exact List.length_pos_of_mem hfd
  refine (Link.total_le_length fun x hx => ?_).trans (Nat.mul_le_mul_right _ hlen)
  rw [conveys_frame hconv hx]

theorem step_relay [DecidableEq ι] (hup : s.up = (c, pkt) :: rest) (hp : s.port fd = some c)
    (hquiet : s.bridge.listenFd ∉ w.readSet) (hb : Bridge.step s.bridge w = some (b, bout))
    (hr : Bridge.Relays s.bridge w pkt fd b bout) :
    step L s (.bridge w) =
      some ({ s with bridge := b, up := rest, down := s.down ++ relayed s bout }, []) := by
  obtain ⟨ws, rfl⟩ := read_of_relays hr
  simp [step, hquiet, hb, drain, ports, hp, hup, Link.receive]

theorem relay_progress [DecidableEq ι] (ha : Addressed L) (hl : 0 ≤ L.listenFd)
    (hg : Going L since N s) (hup : s.up = (c, pkt) :: rest) :
    ∃ s', Free (machine L) (Reading since) s s' ∧ Going L since N s' ∧ work N s' < work N s := by
  have hmem : (c, pkt) ∈ s.up := hup ▸ List.mem_cons_self
  obtain ⟨k, hk, -, hbound⟩ := hg.settled.up (c, pkt) hmem
  obtain ⟨fd, hp⟩ := hg.settled.seat k c hk
  have hfd := hg.settled.served fd c hp
  obtain ⟨ms, h, hpath⟩ := hg.sound.bridge
  obtain ⟨hquiet, b, bout, hb, hr⟩ := Bridge.step_serve hpath hl hg.running hfd since pkt
  obtain ⟨hconv, hclients, -⟩ := conveys_of_relays ha hg.settled Bridge.timely_serve hbound hr
  have hs := step_relay (L := L) hup hp hquiet hb hr
  have hcalm : Calm since s (.bridge (.serve since fd pkt)) := by
    refine ⟨Bridge.timely_serve, fun r hr' => ?_⟩
    obtain rfl := Option.some.inj (hb.symm.trans hr')
    exact Bridge.undisturbed_of_relays hr
  have hrun : b.stop = false := (Bridge.stop_of_relays hr).trans hg.running
  refine ⟨_, free_of_step hs hcalm (by simp), going_step ha hg hs hcalm hrun hg.live ?_, ?_⟩
  · rw [hclients]
    exact hg.clients
  · have hcopies : downWork N (relayed s bout) ≤ N * cost N (weight pkt) :=
      downWork_conveys hg.clients hfd hconv
    have hread : upWork N s.up = upCost N (weight pkt) + upWork N rest := by
      rw [hup]
      rfl
    change upWork N rest + downWork N (s.down ++ relayed s bout) < upWork N s.up + downWork N s.down
    rw [hread, downWork_append, upCost]
    omega

end Relay

section Station
variable {down : Link ConnId EtherPkt} {n : Station.State} {sout ws : List Station.Out}
  {st st' : Station.Store} {i : IfaceSocketPair} {se : Station.Event}

theorem accepted_handles (hs : Station.Handles (L.config k) st i recv st' ws) :
    ∀ o ∈ .handle i recv :: ws, Station.acceptedPkt o = none := by
  cases hs with
  | ignored | flush | deliver => simp [Station.acceptedPkt]
  | request now u =>
    intro o ho
    rcases List.mem_cons.mp ho with rfl | ho
    · rfl
    · obtain ⟨owner, -, rfl⟩ := List.mem_map.mp ho
      rfl
  | forward _ _ hr => cases hr

theorem upWork_handles (hs : Station.Handles (L.config k) st i recv st' ws) :
    upWork N (sent c ws) < cost N (weight recv) := by
  cases hs with
  | ignored | deliver => exact cost_pos N _
  | request now u ht ho hd =>
    rw [owners_config (intended_iff.mp hd), weight, if_pos ht, if_pos ho]
    exact upCost_lt N 1
  | flush now u n pp owner ht ho =>
    rw [weight, if_pos ht, if_neg ho]
    exact upCost_lt N 0
  | forward _ _ hr => cases hr

theorem step_station [DecidableEq ι] (hc : s.conn k = some c) (hf : fetch L s k c se = some down)
    (hn : Station.step (L.config k) (s.node k) se = some (n, sout)) :
    step L s (.station k se) =
      some ({ s with node := Function.update s.node k n, up := s.up ++ sent c sout, down := down },
        sout.map fun o => (k, o)) := by
  simp only [step, hc, hf, hn, Option.bind_some, Option.map_some]

theorem going_station [DecidableEq ι] (ha : Addressed L) (hg : Going L since N s)
    (hc : s.conn k = some c) (hf : fetch L s k c se = some down)
    (hn : Station.step (L.config k) (s.node k) se = some (n, sout)) (hlive : Live n)
    (hno : ∀ o ∈ sout, Station.acceptedPkt o = none)
    (ht : t = { s with
      node := Function.update s.node k n, up := s.up ++ sent c sout, down := down }) :
    Free (machine L) (Reading since) s t ∧ Going L since N t := by
  subst ht
  have hs := step_station hc hf hn
  have hquiet : ∀ x ∈ sout.map fun o => (k, o), Station.acceptedPkt x.2 = none := by
    intro x hx
    obtain ⟨o, ho, rfl⟩ := List.mem_map.mp hx
    exact hno o ho
  refine ⟨free_of_step hs trivial hquiet,
    going_step ha hg hs trivial hg.running (fun j c' hj => ?_) hg.clients⟩
  by_cases hjk : j = k
  · subst hjk
    change Live (Function.update s.node j n j)
    rw [Function.update_self]
    exact hlive
  · change Live (Function.update s.node k n j)
    rw [Function.update_of_ne hjk]
    exact hg.live j c' hj

def Idles (L : Plan ι) (since : Milliseconds) (N : Nat) (s t : State ι) [DecidableEq ι] : Prop :=
  Relation.ReflTransGen (Free (machine L) (Reading since)) s t ∧ Going L since N t ∧
    t.up = s.up ∧ t.down = s.down ∧ t.conn = s.conn

theorem idles_station [DecidableEq ι] (ha : Addressed L) (hg : Going L since N s)
    (hc : s.conn k = some c) (hf : fetch L s k c se = some s.down)
    (hn : Station.step (L.config k) (s.node k) se = some (n, [])) (hlive : Live n) :
    ∃ t, Idles L since N s t ∧ t.node k = n := by
  obtain ⟨hfree, hgoing⟩ := going_station ha hg hc hf hn hlive (by simp) rfl
  exact ⟨_, ⟨.single hfree, hgoing, List.append_nil _, rfl, rfl⟩, Function.update_self ..⟩

theorem idles_trans [DecidableEq ι] (hst : Idles L since N s t) (htu : Idles L since N t s') :
    Idles L since N s s' := by
  obtain ⟨hrun, -, hup, hdown, hconn⟩ := hst
  obtain ⟨hrun', hg, hup', hdown', hconn'⟩ := htu
  exact ⟨hrun.trans hrun', hg, hup'.trans hup, hdown'.trans hdown, hconn'.trans hconn⟩

theorem reads_of_select [DecidableEq ι] (ha : Addressed L) (hg : Going L since N s)
    (hc : s.conn k = some c) (hpc : (s.node k).pc = .select) :
    ∃ t, Idles L since N s t ∧ ∃ i recv, (t.node k).pc = .ifaces [i] recv := by
  have hn : Station.step (L.config k) (s.node k) (.frames ⟨0, 0⟩) =
      some ({ s.node k with
        pc := .ifaces (L.config k).ifaces (EtherPkt.uninit ⟨0, 0⟩ "") }, []) := by
    simp only [Station.step, hpc]
    rfl
  have hlive := hg.live k c hc
  obtain ⟨t, hst, ht⟩ := idles_station ha hg hc rfl hn ⟨hlive.1, fun f hf => by cases hf⟩
  exact ⟨t, hst, _, _, by rw [ht]; rfl⟩

theorem reads [DecidableEq ι] (ha : Addressed L) (hg : Going L since N s)
    (hc : s.conn k = some c) :
    ∃ t, Idles L since N s t ∧ ∃ i recv, (t.node k).pc = .ifaces [i] recv := by
  have hlive := hg.live k c hc
  cases hpc : (s.node k).pc with
  | fault f => exact absurd hpc (hlive.2 f)
  | select => exact reads_of_select ha hg hc hpc
  | ifaces rest recv =>
    obtain ⟨ms, h, hp⟩ := hg.sound.node k
    obtain ⟨rfl, -⟩ := Station.blank rfl hp rest recv hpc
    exact ⟨s, ⟨.refl, hg, rfl, rfl, rfl⟩, _, _, hpc⟩
  | top =>
    have hn : Station.step (L.config k) (s.node k) (.sweep 0) =
        some ({ s.node k with
          store := { (s.node k).store with arp := (s.node k).store.arp.monitorCache 0 }
          pc := .select }, []) := by
      simp only [Station.step, hpc]
      exact if_pos ⟨hlive.1, List.cons_ne_nil _ _⟩
    obtain ⟨t, hst, ht⟩ := idles_station ha hg hc rfl hn ⟨hlive.1, fun f hf => by cases hf⟩
    have hconn : t.conn k = some c := by
      rw [hst.2.2.2.2]
      exact hc
    obtain ⟨t', htt, hread⟩ := reads_of_select ha hst.2.1 hconn (by rw [ht])
    exact ⟨t', idles_trans hst htt, hread⟩

theorem station_progress [DecidableEq ι] (ha : Addressed L) (hg : Going L since N s)
    {rest : Link ConnId EtherPkt} (hdown : s.down = (c, recv) :: rest) :
    ∃ s', Relation.ReflTransGen (Free (machine L) (Reading since)) s s' ∧ Going L since N s' ∧
      work N s' < work N s := by
  obtain ⟨k, hk⟩ := hg.attached.down (c, recv) (hdown ▸ List.mem_cons_self)
  obtain ⟨t, ⟨hst, hgt, hup, hdown', hconn⟩, i, buffer, hpc⟩ := reads ha hg hk
  have hkt : t.conn k = some c := by
    rw [hconn]
    exact hk
  obtain ⟨ms, h, hp⟩ := hgt.sound.node k
  obtain ⟨⟨st, ws⟩, hr⟩ := handlePkt_ok rfl i 0 ⟨0, 0⟩ recv hp
  have hf : fetch L t k c (.recv (.frame recv) 0 ⟨0, 0⟩) = some rest := by
    simp [fetch, hdown', hdown, Link.receive]
  have hn : Station.step (L.config k) (t.node k) (.recv (.frame recv) 0 ⟨0, 0⟩) =
      some ({ t.node k with store := st, pc := .top }, .handle i recv :: ws) := by
    simp only [Station.step, hpc, Station.readIface, hr, Station.settle]
    rfl
  have hhandles := Station.handles_of_handlePkt hr
  have hlive : Live { t.node k with store := st, pc := .top } :=
    ⟨(hgt.live k c hkt).1, fun f hf => by cases hf⟩
  obtain ⟨hfree, hgoing⟩ := going_station ha hgt hkt hf hn hlive (accepted_handles hhandles) rfl
  refine ⟨_, hst.tail hfree, hgoing, ?_⟩
  have hcost : upWork N (sent c ws) < cost N (weight recv) := upWork_handles hhandles
  have hread : downWork N s.down = cost N (weight recv) + downWork N rest := by
    rw [hdown]
    rfl
  change upWork N (t.up ++ sent c ws) + downWork N rest < upWork N s.up + downWork N s.down
  rw [upWork_append, hread, hup]
  omega

end Station

theorem met_of_reading [DecidableEq ι] (hr : Reading since s e out) : Met L s out := by
  intro x hx ip hip
  have hno := hr.2 x hx
  cases hout : x.2 with
  | send pp cached fd pkt =>
    rw [hout] at hno
    cases hno
  | command | handle | reply | flush | deliver =>
    rw [hout] at hip
    cases hip

theorem acceptances_reading {src dst : IPAddr} {data : String}
    (hno : ∀ x ∈ h, Station.acceptedPkt x.2 = none) : acceptances L src dst data h = 0 := by
  refine List.countP_eq_zero.mpr fun x hx => ?_
  simp [hno x hx]

theorem emptied [DecidableEq ι] (ha : Addressed L) (hl : 0 ≤ L.listenFd)
    (hg : Going L since N s) :
    ∃ s', Relation.ReflTransGen (Free (machine L) (Reading since)) s s' ∧ Going L since N s' ∧
      s'.up = [] ∧ s'.down = [] := by
  refine exhaust (work N) (fun s hg hbusy => ?_) hg
  cases hup : s.up with
  | cons x rest =>
    obtain ⟨s', hfree, hg', hlt⟩ := relay_progress ha hl hg hup
    exact ⟨s', .single hfree, hg', hlt⟩
  | nil =>
    cases hdown : s.down with
    | cons x rest => exact station_progress ha hg hdown
    | nil => exact absurd ⟨hup, hdown⟩ hbusy

theorem always_deliverable [DecidableEq ι] {dst : IPAddr}
    {ms : List (Move (State ι) (Event ι) (Out ι))} (p : Path (machine L) ms s h)
    (ha : Addressed L) (hl : 0 ≤ L.listenFd) (hd : Direct L dst)
    (hcalm : ∀ mv ∈ ms, Calm since mv.before mv.event) (hmet : ∀ mv ∈ ms, Met L mv.before mv.out)
    (hrun : s.bridge.stop = false) (hlive : ∀ k c, s.conn k = some c → Live (s.node k)) :
    ∃ ms' s' h', Path (machine L) (ms ++ ms') s' (h ++ h') ∧
      (∀ mv ∈ ms', Reading since mv.before mv.event mv.out) ∧
      ∀ k data, deliveries (IpPkt.createPkt (L.ip k) dst data) (h ++ h') =
          acceptances L (L.ip k) dst data h ∧ (s'.node k).store.pq = [] := by
  obtain ⟨hse, hat⟩ := calm_run p ha hcalm
  obtain ⟨s', hfree, -, hup, hdown⟩ := emptied ha hl ⟨sound p, hse, hat, hrun, hlive, rfl⟩
  obtain ⟨ms', h', hp, hread, hout⟩ := p.extend hfree
  have hcalm' : ∀ mv ∈ ms ++ ms', Calm since mv.before mv.event := fun mv hmv =>
    (List.mem_append.mp hmv).elim (hcalm mv) fun hnew => (hread mv hnew).1
  have hmet' : ∀ mv ∈ ms ++ ms', Met L mv.before mv.out := fun mv hmv =>
    (List.mem_append.mp hmv).elim (hmet mv) fun hnew => met_of_reading (hread mv hnew)
  have hno : ∀ x ∈ h', Station.acceptedPkt x.2 = none := by
    intro x hx
    obtain ⟨mv, hmv, hx⟩ := hout x hx
    exact (hread mv hmv).2 x hx
  obtain ⟨hq, haw⟩ := awaited_run hp ha hcalm' hmet'
  refine ⟨ms', s', h', hp, hread, fun k data => ?_⟩
  have hrest := shown_at_rest hq haw (conserved_run hp ha hd hcalm' k data) hup hdown
  rw [acceptances_append, acceptances_reading hno, Nat.add_zero] at hrest
  exact hrest

theorem always_deliverable_greeting :
    ∃ ms' s' h', Path (machine pairPlan) ((machine pairPlan).moves (greetingRun.take 4) ++ ms') s'
        ((machine pairPlan).trace (greetingRun.take 4) ++ h') ∧
      (∀ mv ∈ ms', Reading 0 mv.before mv.event mv.out) ∧
      ∀ k data, deliveries (IpPkt.createPkt (pairPlan.ip k) "10.0.0.2" data)
            ((machine pairPlan).trace (greetingRun.take 4) ++ h') =
          acceptances pairPlan (pairPlan.ip k) "10.0.0.2" data
            ((machine pairPlan).trace (greetingRun.take 4)) ∧ (s'.node k).store.pq = [] := by
  refine always_deliverable ((machine pairPlan).path (greetingRun.take 4) (by decide))
    addressed_pairPlan (by decide) direct_pairPlan (by decide) (by decide) (by decide) ?_
  intro k c _
  cases k with
  | false | true => exact ⟨by decide, fun f hf => by cases hf⟩

end NetworkEmulator.Lan

import NetworkEmulator.Lan.Settled
import NetworkEmulator.Station.Routed

namespace NetworkEmulator.Lan

open Transition

variable {ι : Type} {L : Plan ι} {s s' : State ι} {out h : List (Out ι)} {since : Milliseconds}
  {a b k j : ι} {c : ConnId} {fd : Port} {pkt recv : EtherPkt} {ip src dst : IPAddr}
  {data : String} {p : EtherPkt → Prop} [DecidablePred p]

section HostTurn
variable {cfg : Station.Config} {st st' : Station.Store} {i : IfaceSocketPair}
  {se : Station.Event} {down : Link ConnId EtherPkt} {n : Station.State}
  {sout ws : List Station.Out} {now : Milliseconds} {u : Uninit}

def taken : Station.Event → Option EtherPkt
  | .recv (.frame pkt) _ _ => some pkt
  | _ => none

inductive HostTurn (cfg : Station.Config) (st : Station.Store) :
    Option EtherPkt → Station.Store → List Station.Out → Prop
  | still {st' : Station.Store} {sout : List Station.Out} (hpq : st'.pq = st.pq)
      (hout : ∀ o ∈ sout, o.frame = none) : HostTurn cfg st none st' sout
  | send {st' : Station.Store} {ws : List Station.Out} (line : String) (dst : IPAddr)
      (data : String) (hs : Station.Sends cfg st "" dst data st' ws) :
      HostTurn cfg st none st' (.command line :: ws)
  | hear {st' : Station.Store} {ws : List Station.Out} (recv : EtherPkt) (i : IfaceSocketPair)
      (hs : Station.Handles cfg st i recv st' ws) :
      HostTurn cfg st (some recv) st' (.handle i recv :: ws)

theorem handles_blank (hne : ∀ i ∈ cfg.ifaces, i.1.ipAddr ≠ "") (hr : cfg.isRouter = false)
    (hs : Station.Handles cfg st i (EtherPkt.uninit u "") st' ws) : st' = st ∧ ws = [] := by
  have hforeign : Station.isIntendedIpDestination cfg "" ≠ true := by
    intro hd
    obtain ⟨i, hi, hip⟩ := Station.isIntended_iff.mp hd
    exact hne i hi hip.symm
  cases hs with
  | ignored => exact ⟨rfl, rfl⟩
  | request _ _ _ _ hd | flush _ _ _ _ _ _ _ hd | deliver _ hd => exact absurd hd hforeign
  | forward _ _ hr' => exact absurd hr' (by simp [hr])

theorem handlePkt_ok (hr : cfg.isRouter = false) (i : IfaceSocketPair) (now : Milliseconds)
    (u : Uninit) (recv : EtherPkt)
    {ms : List (Move Station.State Station.Event Station.Out)} {t : Station.State}
    {log : List Station.Out} (hp : Path (Station.machine cfg) ms t log) :
    ∃ r, Station.handlePkt cfg t.store i now u recv = .ok r := by
  cases hh : Station.handlePkt cfg t.store i now u recv with
  | ok r => exact ⟨r, rfl⟩
  | error f =>
    rcases Station.handlePkt_error hh with ⟨hf, -⟩ | ⟨pp, hpp, hnone⟩
    · exact absurd hf.2.2 (by simp [hr])
    · obtain ⟨owner, nextHop, hw⟩ := Station.wellFormed_of_mem hp hpp
      cases hnone.symm.trans hw.found

theorem hostTurn_of_step (hso : Sound L s) (hf : fetch L s k c se = some down)
    (hn : Station.step (L.config k) (s.node k) se = some (n, sout)) :
    HostTurn (L.config k) (s.node k).store (taken se) n.store sout := by
  obtain ⟨ms, h, hp⟩ := hso.node k
  cases Station.turn_of_step hn with
  | sweep | frames | skip => exact .still rfl (by simp)
  | stdin bytes u hpc hr =>
    rcases (Station.readStdin_some hr).1 with ⟨hst, rfl⟩ | hc
    · exact .still (congrArg Station.Store.pq hst) (by simp)
    · generalize n.store = st' at hc ⊢
      cases hc with
      | other line => exact .still rfl (by simp [Station.Out.frame])
      | send line dst data _ hs => exact .send line dst data hs
  | recv i rest buffer r now u hpc =>
    cases r with
    | eof => exact .still rfl (by simp [Station.readIface])
    | error =>
      obtain ⟨-, v, rfl⟩ := Station.blank rfl hp _ _ hpc
      obtain ⟨r, hr⟩ := handlePkt_ok rfl i now u (EtherPkt.uninit v "") hp
      have hne : ∀ i ∈ (L.config k).ifaces, i.1.ipAddr ≠ "" := by
        intro i hi hempty
        obtain rfl := List.mem_singleton.mp hi
        have hno : fetch L s k c (.recv .error now u) = none := if_pos hempty
        cases hno.symm.trans hf
      obtain ⟨hst, hws⟩ := handles_blank hne rfl (Station.handles_of_handlePkt hr)
      simp only [Station.readIface, hr, Station.settle, hst, hws]
      exact .still rfl (by simp [Station.Out.frame])
    | frame pkt =>
      obtain ⟨r, hr⟩ := handlePkt_ok rfl i now u pkt hp
      simp only [Station.readIface, hr, Station.settle]
      exact .hear pkt i (Station.handles_of_handlePkt hr)

end HostTurn

def upCount (p : EtherPkt → Prop) [DecidablePred p] (up : Link ConnId EtherPkt) : Nat :=
  up.countP fun x => p x.2

open Classical in
noncomputable def downCount (L : Plan ι) (conn : ι → Option ConnId) (p : EtherPkt → Prop)
    [DecidablePred p] (ip : IPAddr) (down : Link ConnId EtherPkt) : Nat :=
  down.countP fun x => p x.2 ∧ Facing L conn ip x.1

noncomputable def inFlight (L : Plan ι) (s : State ι) (p : EtherPkt → Prop) [DecidablePred p]
    (ip : IPAddr) : Nat :=
  upCount p s.up + downCount L s.conn p ip s.down

open Classical in
noncomputable def reached (L : Plan ι) (conn : ι → Option ConnId) (ip : IPAddr)
    (copies : Link ConnId EtherPkt) : Nat :=
  copies.countP fun x => Facing L conn ip x.1

theorem facing_iff (hse : Settled L since s) (hc : s.conn k = some c) :
    Facing L s.conn ip c ↔ L.ip k = ip := by
  constructor
  · rintro ⟨j, hip, hj⟩
    exact hse.connInj j k c hj hc ▸ hip
  · exact fun hip => ⟨k, hip, hc⟩

section Relay
variable {copies up : Link ConnId EtherPkt}

theorem downCount_copies (hconv : Conveys L s fd pkt copies) :
    downCount L s.conn p ip copies = if p pkt then reached L s.conn ip copies else 0 := by
  split_ifs with hp
  · refine List.countP_congr fun x hx => ?_
    simp [conveys_frame hconv hx, hp]
  · refine List.countP_eq_zero.mpr fun x hx => ?_
    simp [conveys_frame hconv hx, hp]

theorem reached_direct (hj : s.conn j = some c) : reached L s.conn (L.ip j) [(c, pkt)] = 1 := by
  have hfacing : Facing L s.conn (L.ip j) c := ⟨j, rfl, hj⟩
  simp [reached, hfacing]

theorem reached_broadcast (hso : Sound L s) (hse : Settled L since s) {client : Bridge.ClientData}
    {i : Nat} {c' : ConnId} (hi : s.bridge.clients[i]? = some client)
    (hk : s.conn k = some c) (hp : s.port client.fd = some c) (hjk : j ≠ k)
    (hj : s.conn j = some c') :
    reached L s.conn (L.ip j) ((Bridge.others s.bridge i).filterMap fun fd =>
      (s.port fd).map fun c => (c, pkt)) = 1 := by
  obtain ⟨ms, h, hpath⟩ := hso.bridge
  have hwired := Bridge.wired hpath
  apply Nat.le_antisymm
  · rw [reached, List.countP_filterMap]
    refine Link.countP_le_one (hwired.nodup_others i) fun fd _ fd' _ hfd hfd' => ?_
    cases hport : s.port fd with
    | none => simp [hport] at hfd
    | some d =>
      cases hport' : s.port fd' with
      | none => simp [hport'] at hfd'
      | some d' =>
        have hd : Facing L s.conn (L.ip j) d := by simpa [hport] using hfd
        have hd' : Facing L s.conn (L.ip j) d' := by simpa [hport'] using hfd'
        obtain rfl := facing_unique hd hd'
        exact hso.portInj fd fd' d hport hport'
  · obtain ⟨fd', hp'⟩ := hse.seat j c' hj
    obtain ⟨client', hmem, rfl⟩ := List.mem_map.mp (hse.served fd' c' hp')
    have hne : client'.fd ≠ client.fd := by
      intro heq
      rw [heq, hp] at hp'
      exact hjk (hse.connInj j k c' hj (Option.some.inj hp' ▸ hk))
    refine List.countP_pos_iff.mpr ⟨(c', pkt), List.mem_filterMap.mpr
      ⟨client'.fd, Bridge.mem_others hi hmem hne, by rw [hp', Option.map_some]⟩, ?_⟩
    have hfacing : Facing L s.conn (L.ip j) c' := ⟨j, rfl, hj⟩
    simpa using hfacing

theorem inFlight_relay {b : Bridge.State} (hconv : Conveys L s fd pkt copies)
    (hd : Link.receive c pkt s.up = some up) (hone : p pkt → reached L s.conn ip copies = 1) :
    inFlight L { s with bridge := b, up := up, down := s.down ++ copies } p ip =
      inFlight L s p ip := by
  have hup : upCount p s.up = upCount p up + if p pkt then 1 else 0 := by
    rw [upCount, upCount, Link.receive_countP hd]
    simp only [decide_eq_true_eq]
  have hdown : downCount L s.conn p ip (s.down ++ copies) =
      downCount L s.conn p ip s.down + downCount L s.conn p ip copies := List.countP_append
  rw [downCount_copies hconv] at hdown
  change upCount p up + downCount L s.conn p ip (s.down ++ copies) = upCount p s.up + _
  by_cases hp : p pkt
  · rw [if_pos hp] at hup
    rw [if_pos hp, hone hp] at hdown
    omega
  · rw [if_neg hp] at hup
    rw [if_neg hp] at hdown
    omega

theorem reached_of_macDst (ha : Addressed L) (hconv : Conveys L s fd pkt copies)
    (hd : pkt.macDst = L.mac j) : reached L s.conn (L.ip j) copies = 1 := by
  cases hconv with
  | broadcast i client hi hfd hempty => exact absurd (hd.symm.trans hempty) (ha.nonempty j)
  | direct j' c hj hd' =>
    obtain rfl := ha.injective (hd.symm.trans hd')
    exact reached_direct hj

end Relay

theorem fetch_count {se : Station.Event} {down : Link ConnId EtherPkt}
    (hf : fetch L s k c se = some down) (q : ConnId × EtherPkt → Bool) :
    s.down.countP q = down.countP q + (taken se).elim 0 fun recv => if q (c, recv) then 1 else 0 := by
  unfold fetch at hf
  split at hf
  · exact Link.receive_countP hf q
  · split at hf
    · cases hf
    · exact Option.some.inj hf ▸ rfl
  · rename_i hframe _
    have hnone : taken se = none := by
      unfold taken
      split
      · exact absurd rfl (hframe _ _ _)
      · rfl
    rw [hnone, Option.some.inj hf]
    rfl

theorem downCount_join [DecidableEq ι] (hso : Sound L s) (hk : s.conn k = none) :
    downCount L (Function.update s.conn k (some s.next)) p ip s.down =
      downCount L s.conn p ip s.down := by
  refine List.countP_congr fun x hx => ?_
  have hfacing : Facing L (Function.update s.conn k (some s.next)) ip x.1 ↔
      Facing L s.conn ip x.1 := by
    constructor
    · rintro ⟨j, hj, hconn⟩
      have hfresh : some s.next ≠ some x.1 :=
        fun heq => Nat.ne_of_gt (hso.downOld x hx) (Option.some.inj heq)
      exact facing_update hj hfresh hconn
    · rintro ⟨j, hj, hconn⟩
      have hjk : j ≠ k := by
        rintro rfl
        cases hk.symm.trans hconn
      exact ⟨j, hj, (Function.update_of_ne hjk _ _).trans hconn⟩
  simp only [decide_eq_true_eq, hfacing]

def Conserved (L : Plan ι) (src dst : IPAddr) (data : String) (owner : Option ι) (s : State ι)
    (h : List (Out ι)) : Prop :=
  deliveries (IpPkt.createPkt src dst data) h + inFlight L s (IsCopy src dst data) dst +
    backlog s.node dst data owner = acceptances L src dst data h

def Direct (L : Plan ι) (dst : IPAddr) : Prop :=
  ∀ k hop, Station.resolve (L.config k) dst = .ok hop → hop.ipAddr = dst

theorem reached_packet (ha : Addressed L) (hd : Direct L dst) {copies : Link ConnId EtherPkt}
    (hbound : Bound L s k pkt) (hconv : Conveys L s fd pkt copies) (hcopy : IsCopy src dst data pkt) :
    reached L s.conn dst copies = 1 := by
  obtain ⟨htype, hip⟩ := hcopy
  cases hbound with
  | request ht | response _ _ ht => exact absurd ht htype
  | packet j hj ht hmac hr =>
    obtain ⟨hop, hr, hhop⟩ := hr
    rw [hip] at hr
    have hj : L.ip j = dst := hhop.symm.trans (hd k hop hr)
    exact hj ▸ reached_of_macDst ha hconv hmac

section Conserve
variable {owner : Option ι} {se : Station.Event} {down : Link ConnId EtherPkt}
  {n : Station.State} {sout ws : List Station.Out}

theorem delivered_hear {cfg : Station.Config} {st st' : Station.Store} {i : IfaceSocketPair}
    (ht : recv.type ≠ 0) (hd : Station.isIntendedIpDestination cfg recv.ipPkt.dstIp = true)
    (hs : Station.Handles cfg st i recv st' ws) : 0 < ws.countP (Station.isDelivery recv.ipPkt) := by
  cases hs with
  | ignored hi =>
    rw [Station.Ignored, if_neg ht] at hi
    exact absurd hd (by simp [hi.1])
  | request _ _ ht' | flush _ _ _ _ _ ht' => exact absurd ht' ht
  | deliver => simp [Station.isDelivery]
  | forward _ hd' => exact absurd hd (by simp [hd'])

theorem station_delivers (src dst : IPAddr) (data : String) (hso : Sound L s)
    (hse : Settled L since s) (hc : s.conn k = some c)
    (hf : fetch L s k c se = some down)
    (hn : Station.step (L.config k) (s.node k) se = some (n, sout)) :
    sout.countP (Station.isDelivery (IpPkt.createPkt src dst data)) +
        downCount L s.conn (IsCopy src dst data) dst down =
      downCount L s.conn (IsCopy src dst data) dst s.down := by
  have hle := station_deliveries src dst data hso hc hf hn
  have hcount : downCount L s.conn (IsCopy src dst data) dst s.down = _ := fetch_count hf _
  refine Nat.le_antisymm hle ?_
  rw [hcount]
  have hturn := hostTurn_of_step hso hf hn
  cases htaken : taken se with
  | none => exact Nat.le_add_left _ _
  | some recv =>
    rw [htaken] at hturn
    generalize n.store = st' at hturn
    cases hturn with
    | hear recv i hs =>
      simp only [Option.elim_some, decide_eq_true_eq, facing_iff hse hc]
      split_ifs with hown
      · obtain ⟨⟨ht, hip⟩, hk⟩ := hown
        have hd : Station.isIntendedIpDestination (L.config k) recv.ipPkt.dstIp = true :=
          Station.isIntended_iff.mpr ⟨_, List.mem_singleton_self _, by rw [hip]; exact hk.symm⟩
        have hpos := delivered_hear ht hd hs
        rw [hip] at hpos
        rw [List.countP_cons_of_neg (by simp [Station.isDelivery])]
        unfold downCount
        omega
      · exact Nat.le_add_left _ _

theorem conserved_station [DecidableEq ι] (ho : Owner L src owner) (hso : Sound L s)
    (hse : Settled L since s) (hcons : Conserved L src dst data owner s h)
    (hc : s.conn k = some c) (hf : fetch L s k c se = some down)
    (hn : Station.step (L.config k) (s.node k) se = some (n, sout)) :
    Conserved L src dst data owner
      { s with node := Function.update s.node k n, up := s.up ++ sent c sout, down := down }
      (h ++ sout.map fun o => (k, o)) := by
  have hdeliver := station_delivers src dst data hso hse hc hf hn
  have hup : upCount (IsCopy src dst data) (sent c sout) = _ := upCopies_station src dst data hso hn c
  have haccept := acceptances_station L src dst data k sout
  have hcount := station_accounted dst data hso hn
  have happend : upCount (IsCopy src dst data) (s.up ++ sent c sout) =
      upCount (IsCopy src dst data) s.up + upCount (IsCopy src dst data) (sent c sout) :=
    List.countP_append
  unfold Conserved inFlight at hcons
  change deliveries _ (h ++ sout.map fun o => (k, o)) +
    (upCount (IsCopy src dst data) (s.up ++ sent c sout) +
      downCount L s.conn (IsCopy src dst data) dst down) +
    backlog (Function.update s.node k n) dst data owner = _
  rw [deliveries_append, deliveries_station, acceptances_append, haccept, happend, hup]
  by_cases hk : L.ip k = src
  · obtain rfl := (ho k).mp hk
    rw [if_pos hk, if_pos hk]
    simp only [backlog, Function.update_self] at hcons ⊢
    omega
  · have hbacklog : backlog (Function.update s.node k n) dst data owner =
        backlog s.node dst data owner := by
      cases owner with
      | none => rfl
      | some j =>
        have hj : j ≠ k := by
          rintro rfl
          exact hk ((ho j).mpr rfl)
        simp [backlog, Function.update_of_ne hj]
    rw [if_neg hk, if_neg hk, hbacklog]
    omega

theorem conserved_join [DecidableEq ι] (hso : Sound L s) (hse : Settled L since s)
    (hcons : Conserved L src dst data owner s h) (hk : s.conn k = none) (b : Bridge.State)
    (fd : Port) : Conserved L src dst data owner (joined L s k b fd) h := by
  have hnode : Function.update s.node k (Station.machine (L.config k)).init = s.node := by
    rw [← hse.idle k hk]
    exact Function.update_eq_self k s.node
  unfold Conserved inFlight at hcons ⊢
  change deliveries _ h + (upCount _ s.up +
    downCount L (Function.update s.conn k (some s.next)) _ dst s.down) +
    backlog (Function.update s.node k _) dst data owner = _
  rw [hnode, downCount_join hso hk]
  exact hcons

theorem conserved_calmly [DecidableEq ι] (ho : Owner L src owner) (ha : Addressed L)
    (hd : Direct L dst) (hso : Sound L s) (hse : Settled L since s)
    (hcons : Conserved L src dst data owner s h) (hc : Calmly L since s s' out) :
    Conserved L src dst data owner s' (h ++ out) := by
  cases hc with
  | join k w b hk =>
    rw [List.append_nil]
    exact conserved_join hso hse hcons hk b _
  | still w b =>
    rw [List.append_nil]
    exact hcons
  | relay w b bout fd pkt c up hw hb hr hp hread =>
    obtain ⟨k, -, -, hbound⟩ :=
      hse.up (c, pkt) ((Link.receive_perm hread).mem_iff.mp List.mem_cons_self)
    obtain ⟨hconv, -, -⟩ := conveys_of_relays ha hse hw hbound hr
    have hflight := inFlight_relay (p := IsCopy src dst data) (b := b) hconv hread
      (reached_packet ha hd hbound hconv)
    rw [List.append_nil]
    unfold Conserved
    rw [hflight]
    exact hcons
  | station k c e down n sout hc hf hn => exact conserved_station ho hso hse hcons hc hf hn

end Conserve

theorem owner_ip (L : Plan ι) (k : ι) : Owner L (L.ip k) (some k) := by
  intro j
  rw [Option.some.injEq, eq_comm (a := k)]
  exact L.ip_injective.eq_iff

theorem conserved_run [DecidableEq ι] {ms : List (Move (State ι) (Event ι) (Out ι))}
    (p : Path (machine L) ms s h) (ha : Addressed L) (hd : Direct L dst)
    (hcalm : ∀ mv ∈ ms, Calm since mv.before mv.event) (k : ι) (data : String) :
    Conserved L (L.ip k) dst data (some k) s h := by
  have hall := p.guarded
    (fun s h => Sound L s ∧ Settled L since s ∧ Conserved L (L.ip k) dst data (some k) s h)
    ⟨sound .nil, settled_init, rfl⟩
    (fun ⟨hso, hse, hcons⟩ hs hc =>
      ⟨sound_happens hso (happens_of_step hs), settled_calmly ha hso hse (calmly_of_step hs hc),
        conserved_calmly (owner_ip L k) ha hd hso hse hcons (calmly_of_step hs hc)⟩) hcalm
  exact hall.2.2

theorem nothing_lost [DecidableEq ι] {ms : List (Move (State ι) (Event ι) (Out ι))}
    (p : Path (machine L) ms s h) (ha : Addressed L) (hd : Direct L dst)
    (hcalm : ∀ mv ∈ ms, Calm since mv.before mv.event) (k : ι) (data : String) :
    acceptances L (L.ip k) dst data h =
      deliveries (IpPkt.createPkt (L.ip k) dst data) h +
        inFlight L s (IsCopy (L.ip k) dst data) dst +
        (s.node k).store.pq.countP (isAccepted dst data) :=
  (conserved_run p ha hd hcalm k data).symm

theorem addressed_pairPlan : Addressed pairPlan := by
  constructor
  · unfold Function.Injective
    decide
  · decide

theorem direct_pairPlan : Direct pairPlan "10.0.0.2" := by
  intro k hop hr
  cases k with
  | false =>
    have hA : Station.resolve (pairPlan.config false) "10.0.0.2" =
      .ok ⟨"10.0.0.2", "A", (Station.ifaceA, ⟨3⟩)⟩ := by decide
    exact (Except.ok.inj (hA.symm.trans hr)) ▸ rfl
  | true =>
    have hB : Station.resolve (pairPlan.config true) "10.0.0.2" =
      .ok ⟨"10.0.0.2", "B", (Station.ifaceB, ⟨3⟩)⟩ := by decide
    exact (Except.ok.inj (hB.symm.trans hr)) ▸ rfl

theorem calm_greeting :
    ∀ mv ∈ (machine pairPlan).moves greetingRun, Calm 0 mv.before mv.event := by decide

theorem nothing_lost_greeting :
    acceptances pairPlan "10.0.0.1" "10.0.0.2" " x" ((machine pairPlan).trace greetingRun) =
      deliveries (IpPkt.createPkt "10.0.0.1" "10.0.0.2" " x")
          ((machine pairPlan).trace greetingRun) +
        inFlight pairPlan ((machine pairPlan).final greetingRun)
          (IsCopy "10.0.0.1" "10.0.0.2" " x") "10.0.0.2" +
        (((machine pairPlan).final greetingRun).node false).store.pq.countP
          (isAccepted "10.0.0.2" " x") :=
  nothing_lost ((machine pairPlan).path greetingRun (by decide)) addressed_pairPlan
    direct_pairPlan calm_greeting false " x"

end NetworkEmulator.Lan

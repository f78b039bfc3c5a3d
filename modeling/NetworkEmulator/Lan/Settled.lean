import NetworkEmulator.Bridge.Calm
import NetworkEmulator.Lan.Delivery
import NetworkEmulator.Station.Speech

namespace NetworkEmulator.Lan

open Transition

variable {ι : Type} {L : Plan ι} {s s' : State ι} {e : Event ι} {out : List (Out ι)}
  {since : Milliseconds} {k j : ι} {c : ConnId} {fd : Port} {pkt : EtherPkt}

def Plan.mac (L : Plan ι) (k : ι) : MacAddr := (L.iface k).macAddr

structure Addressed (L : Plan ι) : Prop where
  injective : Function.Injective L.mac
  nonempty : ∀ k, L.mac k ≠ ""

-- nobody leaves, no descriptor fails, and the bridge has not run longer than one ageing time
def Calm (since : Milliseconds) (s : State ι) : Event ι → Prop
  | .connect _ w | .bridge w =>
    Bridge.Timely since w ∧ ∀ r ∈ Bridge.step s.bridge w, Bridge.Undisturbed r.2
  | .station _ _ => True
  | .halt _ => False

instance (since : Milliseconds) (s : State ι) : DecidablePred (Calm since s)
  | .connect _ w | .bridge w =>
    inferInstanceAs (Decidable (_ ∧ ∀ r ∈ Bridge.step s.bridge w, Bridge.Undisturbed r.2))
  | .station _ _ => inferInstanceAs (Decidable True)
  | .halt _ => inferInstanceAs (Decidable False)

def Known (L : Plan ι) (s : State ι) (k : ι) : Prop :=
  ∃ fd c, s.conn k = some c ∧ s.port fd = some c ∧ Bridge.Records s.bridge.btable fd (L.mac k)

structure Signed (L : Plan ι) (k : ι) (pkt : EtherPkt) : Prop where
  macSrc : pkt.macSrc = L.mac k
  arp : pkt.type = 0 → pkt.arpPkt.srcIp = L.ip k ∧ pkt.arpPkt.srcMac = L.mac k

inductive Bound (L : Plan ι) (s : State ι) (k : ι) (pkt : EtherPkt) : Prop
  | request (ht : pkt.type = 0) (ho : pkt.arpPkt.op = 0) (hd : pkt.macDst = "")
  | response (j : ι) (hj : Known L s j) (ht : pkt.type = 0) (ho : pkt.arpPkt.op ≠ 0)
      (hd : pkt.macDst = L.mac j) (hip : pkt.arpPkt.dstIp = L.ip j)
  | packet (j : ι) (hj : Known L s j) (ht : pkt.type ≠ 0) (hd : pkt.macDst = L.mac j)
      (hr : ∃ hop, Station.resolve (L.config k) pkt.ipPkt.dstIp = .ok hop ∧ hop.ipAddr = L.ip j)

structure Settled (L : Plan ι) (since : Milliseconds) (s : State ι) : Prop where
  connOld : ∀ k c, s.conn k = some c → c < s.next
  connInj : ∀ k j c, s.conn k = some c → s.conn j = some c → k = j
  idle : ∀ k, s.conn k = none → s.node k = (Station.machine (L.config k)).init
  seat : ∀ k c, s.conn k = some c → ∃ fd, s.port fd = some c
  served : ∀ fd c, s.port fd = some c → fd ∈ Bridge.fds s.bridge.clients
  table : ∀ fd mac stamp, Bridge.entry s.bridge.btable fd mac = some stamp →
    since ≤ stamp ∧ ∃ k c, s.conn k = some c ∧ s.port fd = some c ∧ mac = L.mac k
  up : ∀ x ∈ s.up, ∃ k, s.conn k = some x.1 ∧ Signed L k x.2 ∧ Bound L s k x.2
  down : ∀ x ∈ s.down, ∃ k, Known L s k ∧ Signed L k x.2
  arp : ∀ k ip c, AList.lookup ip (s.node k).store.arp = some c →
    ∃ j, Known L s j ∧ L.ip j = ip ∧ L.mac j = c.mac

structure Grows (s s' : State ι) : Prop where
  conn : ∀ k c, s.conn k = some c → s'.conn k = some c
  port : ∀ fd c, s.port fd = some c → s'.port fd = some c
  entry : ∀ fd mac stamp, Bridge.entry s.bridge.btable fd mac = some stamp →
    Bridge.entry s'.bridge.btable fd mac = some stamp

theorem Known.grow (hk : Known L s k) (hg : Grows s s') : Known L s' k := by
  obtain ⟨fd, c, hc, hp, hr⟩ := hk
  obtain ⟨stamp, hstamp⟩ := Option.isSome_iff_exists.mp hr
  exact ⟨fd, c, hg.conn k c hc, hg.port fd c hp,
    Option.isSome_iff_exists.mpr ⟨stamp, hg.entry fd _ stamp hstamp⟩⟩

theorem Bound.grow (hb : Bound L s k pkt) (hg : Grows s s') : Bound L s' k pkt := by
  cases hb with
  | request ht ho hd => exact .request ht ho hd
  | response j hj ht ho hd hip => exact .response j (hj.grow hg) ht ho hd hip
  | packet j hj ht hd hr => exact .packet j (hj.grow hg) ht hd hr

theorem Settled.up_grow (hse : Settled L since s) (hg : Grows s s') :
    ∀ x ∈ s.up, ∃ k, s'.conn k = some x.1 ∧ Signed L k x.2 ∧ Bound L s' k x.2 := by
  intro x hx
  obtain ⟨k, hc, hsig, hb⟩ := hse.up x hx
  exact ⟨k, hg.conn k _ hc, hsig, hb.grow hg⟩

theorem Settled.down_grow (hse : Settled L since s) (hg : Grows s s') :
    ∀ x ∈ s.down, ∃ k, Known L s' k ∧ Signed L k x.2 := by
  intro x hx
  obtain ⟨k, hk, hsig⟩ := hse.down x hx
  exact ⟨k, hk.grow hg, hsig⟩

theorem Settled.arp_grow (hse : Settled L since s) (hg : Grows s s') :
    ∀ k ip c, AList.lookup ip (s.node k).store.arp = some c →
      ∃ j, Known L s' j ∧ L.ip j = ip ∧ L.mac j = c.mac := by
  intro k ip c hl
  obtain ⟨j, hj, hip, hmac⟩ := hse.arp k ip c hl
  exact ⟨j, hj.grow hg, hip, hmac⟩

theorem Settled.swept (hse : Settled L since s) {w : Bridge.Wake} (hw : Bridge.Timely since w)
    (fd : Port) (mac : MacAddr) :
    Bridge.entry (Bridge.swept s.bridge w) fd mac = Bridge.entry s.bridge.btable fd mac :=
  Bridge.entry_swept hw fun stamp he => (hse.table fd mac stamp he).1

theorem Settled.records (hse : Settled L since s) (hr : Bridge.Records s.bridge.btable fd pkt.macDst) :
    ∃ k c, s.conn k = some c ∧ s.port fd = some c ∧ pkt.macDst = L.mac k := by
  obtain ⟨stamp, hstamp⟩ := Option.isSome_iff_exists.mp hr
  exact (hse.table fd _ stamp hstamp).2

inductive Calmly [DecidableEq ι] (L : Plan ι) (since : Milliseconds) (s : State ι) :
    State ι → List (Out ι) → Prop
  | join (k : ι) (w : Bridge.Wake) (b : Bridge.State) (hk : s.conn k = none)
      (hw : Bridge.Timely since w) (fresh : w.cliFd ∉ Bridge.openFds s.bridge)
      (hc : Bridge.fds b.clients = Bridge.fds s.bridge.clients ++ [w.cliFd])
      (ht : b.btable = Bridge.addPort w.cliFd (Bridge.swept s.bridge w)) :
      Calmly L since s (joined L s k b w.cliFd) []
  | still (w : Bridge.Wake) (b : Bridge.State) (hw : Bridge.Timely since w)
      (hc : Bridge.fds s.bridge.clients ⊆ Bridge.fds b.clients)
      (ht : ∀ fd mac, Bridge.entry b.btable fd mac =
        Bridge.entry (Bridge.swept s.bridge w) fd mac) :
      Calmly L since s { s with bridge := b } []
  | relay (w : Bridge.Wake) (b : Bridge.State) (bout : List Bridge.Out) (fd : Port)
      (pkt : EtherPkt) (c : ConnId) (up : Link ConnId EtherPkt) (hw : Bridge.Timely since w)
      (hb : Bridge.step s.bridge w = some (b, bout))
      (hr : Bridge.Relays s.bridge w pkt fd b bout) (hp : s.port fd = some c)
      (hd : Link.receive c pkt s.up = some up) :
      Calmly L since s { s with bridge := b, up := up, down := s.down ++ relayed s bout } []
  | station (k : ι) (c : ConnId) (e : Station.Event) (down : Link ConnId EtherPkt)
      (n : Station.State) (sout : List Station.Out) (hc : s.conn k = some c)
      (hf : fetch L s k c e = some down)
      (hn : Station.step (L.config k) (s.node k) e = some (n, sout)) :
      Calmly L since s
        { s with node := Function.update s.node k n, up := s.up ++ sent c sout, down := down }
        (sout.map fun o => (k, o))

section Turns
variable [DecidableEq ι]

theorem read_of_relays {w : Bridge.Wake} {b : Bridge.State} {bout : List Bridge.Out}
    {t : Bridge.State} (hr : Bridge.Relays t w pkt fd b bout) : ∃ ws, bout = .read fd pkt :: ws := by
  cases hr with
  | flood | unicast => exact ⟨_, rfl⟩

theorem calmly_connect {w : Bridge.Wake} {b : Bridge.State} {bout : List Bridge.Out}
    (hk : s.conn k = none) (hl : s.bridge.listenFd ∈ w.readSet)
    (hb : Bridge.step s.bridge w = some (b, bout)) (hw : Bridge.Timely since w)
    (hu : Bridge.Undisturbed bout) : Calmly L since s (greet L s k b bout) [] := by
  cases Bridge.calmTurn_of_step hb hu with
  | accept fresh hc ht => exact .join k w b hk hw fresh hc ht
  | reject hc ht | idle hc ht =>
    exact .still w b hw (hc ▸ List.Subset.refl _) fun fd mac => ht ▸ rfl
  | relay fd pkt hr =>
    obtain ⟨ws, rfl⟩ := read_of_relays hr
    exact absurd List.mem_cons_self (Bridge.no_frame_of_listen hb hl fd pkt).1

theorem calmly_bridge {w : Bridge.Wake} {b : Bridge.State} {bout : List Bridge.Out}
    {up : Link ConnId EtherPkt} (hb : Bridge.step s.bridge w = some (b, bout))
    (hd : drain s bout = some up) (hw : Bridge.Timely since w) (hu : Bridge.Undisturbed bout) :
    Calmly L since s
      { s with bridge := b, port := ports s bout, up := up, down := s.down ++ relayed s bout }
      [] := by
  cases Bridge.calmTurn_of_step hb hu with
  | accept fresh hc ht =>
    obtain rfl := Option.some.inj hd
    have hsub : Bridge.fds s.bridge.clients ⊆ Bridge.fds b.clients :=
      hc ▸ List.subset_append_left _ _
    simpa [relayed, ports] using Calmly.still (L := L) (s := s) w b hw hsub fun fd mac => by
      rw [ht, Bridge.entry_addPort]
  | reject hc ht | idle hc ht =>
    obtain rfl := Option.some.inj hd
    simpa [relayed, ports] using
      Calmly.still (L := L) (s := s) w b hw (hc ▸ List.Subset.refl _) fun fd mac => ht ▸ rfl
  | relay fd pkt hr =>
    obtain ⟨ws, rfl⟩ := read_of_relays hr
    obtain ⟨c, hp, hc⟩ := Option.bind_eq_some_iff.mp hd
    exact .relay w b _ fd pkt c up hw hb hr hp hc

theorem calmly_of_step (hs : step L s e = some (s', out)) (hcalm : Calm since s e) :
    Calmly L since s s' out := by
  cases e with
  | connect k w =>
    simp only [step] at hs
    split at hs
    · rename_i hguard
      obtain ⟨r, hb, heq⟩ := Option.map_eq_some_iff.mp hs
      obtain ⟨rfl, rfl⟩ := Prod.mk.inj heq
      exact calmly_connect hguard.1 hguard.2 hb hcalm.1 (hcalm.2 r hb)
    · cases hs
  | bridge w =>
    simp only [step] at hs
    split at hs
    · cases hs
    · obtain ⟨r, hb, hs⟩ := Option.bind_eq_some_iff.mp hs
      obtain ⟨up, hd, heq⟩ := Option.map_eq_some_iff.mp hs
      obtain ⟨rfl, rfl⟩ := Prod.mk.inj heq
      exact calmly_bridge hb hd hcalm.1 (hcalm.2 r hb)
  | station k e =>
    obtain ⟨c, hc, hs⟩ := Option.bind_eq_some_iff.mp hs
    obtain ⟨down, hf, hs⟩ := Option.bind_eq_some_iff.mp hs
    obtain ⟨r, hn, heq⟩ := Option.map_eq_some_iff.mp hs
    obtain ⟨rfl, rfl⟩ := Prod.mk.inj heq
    exact .station k c e down r.1 r.2 hc hf hn
  | halt k => cases hcalm

theorem conn_joined (hk : s.conn k = none) (b : Bridge.State) (hj : s.conn j = some c) :
    (joined L s k b fd).conn j = some c := by
  have hjk : j ≠ k := by
    rintro rfl
    cases hk.symm.trans hj
  exact (Function.update_of_ne hjk _ _).trans hj

theorem grows_join (hse : Settled L since s) {w : Bridge.Wake} {b : Bridge.State}
    (hk : s.conn k = none) (hw : Bridge.Timely since w) (fresh : w.cliFd ∉ Bridge.openFds s.bridge)
    (ht : b.btable = Bridge.addPort w.cliFd (Bridge.swept s.bridge w)) :
    Grows s (joined L s k b w.cliFd) := by
  constructor
  · exact fun j c hc => conn_joined hk b hc
  · intro fd c hp
    have hfd : fd ≠ w.cliFd := by
      rintro rfl
      exact fresh (List.mem_append_right _ (hse.served _ c hp))
    exact (Function.update_of_ne hfd _ _).trans hp
  · intro fd mac stamp he
    change Bridge.entry b.btable fd mac = some stamp
    rw [ht, Bridge.entry_addPort, hse.swept hw, he]

theorem settled_join (hse : Settled L since s) {w : Bridge.Wake} {b : Bridge.State}
    (hk : s.conn k = none) (hw : Bridge.Timely since w) (fresh : w.cliFd ∉ Bridge.openFds s.bridge)
    (hc : Bridge.fds b.clients = Bridge.fds s.bridge.clients ++ [w.cliFd])
    (ht : b.btable = Bridge.addPort w.cliFd (Bridge.swept s.bridge w)) :
    Settled L since (joined L s k b w.cliFd) := by
  have hg := grows_join hse hk hw fresh ht
  have hconn : ∀ j c, (joined L s k b w.cliFd).conn j = some c →
      j = k ∧ c = s.next ∨ j ≠ k ∧ s.conn j = some c ∧ c < s.next := by
    intro j c hj
    change Function.update s.conn k (some s.next) j = some c at hj
    by_cases hjk : j = k
    · rw [hjk, Function.update_self] at hj
      exact Or.inl ⟨hjk, (Option.some.inj hj).symm⟩
    · rw [Function.update_of_ne hjk] at hj
      exact Or.inr ⟨hjk, hj, hse.connOld j c hj⟩
  refine ⟨?_, ?_, ?_, ?_, ?_, ?_, hse.up_grow hg, hse.down_grow hg, ?_⟩
  · intro j c hj
    rcases hconn j c hj with ⟨-, rfl⟩ | ⟨-, -, hlt⟩
    · exact Nat.lt_succ_self _
    · exact Nat.lt_succ_of_lt hlt
  · intro j j' c hj hj'
    rcases hconn j c hj with ⟨rfl, rfl⟩ | ⟨-, hold, hlt⟩
    · rcases hconn j' _ hj' with ⟨rfl, -⟩ | ⟨-, -, hlt⟩
      · rfl
      · exact absurd hlt (Nat.lt_irrefl _)
    · rcases hconn j' c hj' with ⟨-, rfl⟩ | ⟨-, hold', -⟩
      · exact absurd hlt (Nat.lt_irrefl _)
      · exact hse.connInj j j' c hold hold'
  · intro j hj
    by_cases hjk : j = k
    · subst hjk
      exact Function.update_self ..
    · have hold := (Function.update_of_ne hjk _ _).symm.trans hj
      exact (Function.update_of_ne hjk _ _).trans (hse.idle j hold)
  · intro j c hj
    rcases hconn j c hj with ⟨-, rfl⟩ | ⟨-, hold, -⟩
    · exact ⟨w.cliFd, Function.update_self ..⟩
    · obtain ⟨fd, hp⟩ := hse.seat j c hold
      exact ⟨fd, hg.port fd c hp⟩
  · intro fd c hp
    change fd ∈ Bridge.fds b.clients
    rw [hc, List.mem_append, List.mem_singleton]
    by_cases hfd : fd = w.cliFd
    · exact Or.inr hfd
    · exact Or.inl (hse.served fd c ((Function.update_of_ne hfd _ _).symm.trans hp))
  · intro fd mac stamp he
    change Bridge.entry b.btable fd mac = some stamp at he
    rw [ht, Bridge.entry_addPort, hse.swept hw] at he
    obtain ⟨hold, j, c, hj, hp, hmac⟩ := hse.table fd mac stamp he
    exact ⟨hold, j, c, hg.conn j c hj, hg.port fd c hp, hmac⟩
  · intro j ip c hl
    change AList.lookup ip (Function.update s.node k _ j).store.arp = some c at hl
    by_cases hjk : j = k
    · rw [hjk, Function.update_self] at hl
      cases hl
    · rw [Function.update_of_ne hjk] at hl
      exact hse.arp_grow hg j ip c hl

omit [DecidableEq ι] in
theorem settled_still (hse : Settled L since s) {w : Bridge.Wake} {b : Bridge.State}
    (hw : Bridge.Timely since w) (hc : Bridge.fds s.bridge.clients ⊆ Bridge.fds b.clients)
    (ht : ∀ fd mac, Bridge.entry b.btable fd mac =
      Bridge.entry (Bridge.swept s.bridge w) fd mac) :
    Settled L since { s with bridge := b } := by
  have hentry : ∀ fd mac, Bridge.entry b.btable fd mac = Bridge.entry s.bridge.btable fd mac :=
    fun fd mac => (ht fd mac).trans (hse.swept hw fd mac)
  have hg : Grows s { s with bridge := b } :=
    ⟨fun _ _ hc => hc, fun _ _ hp => hp, fun fd mac stamp he => (hentry fd mac).trans he⟩
  exact ⟨hse.connOld, hse.connInj, hse.idle, hse.seat, fun fd c hp => hc (hse.served fd c hp),
    fun fd mac stamp he => hse.table fd mac stamp ((hentry fd mac).symm.trans he),
    hse.up_grow hg, hse.down_grow hg, hse.arp_grow hg⟩

end Turns

section Relay
variable {w : Bridge.Wake} {b : Bridge.State} {bout : List Bridge.Out}

theorem Settled.records_swept (hse : Settled L since s) (hw : Bridge.Timely since w) {mac : MacAddr} :
    Bridge.Records (Bridge.swept s.bridge w) fd mac ↔ Bridge.Records s.bridge.btable fd mac := by
  rw [Bridge.Records, hse.swept hw, Bridge.Records]

theorem Settled.way (ha : Addressed L) (hse : Settled L since s) (hw : Bridge.Timely since w)
    (hj : Known L s j) : ∃ fd c, s.conn j = some c ∧ s.port fd = some c ∧
      Bridge.hasArpEntry (Bridge.swept s.bridge w) s.bridge.clients (L.mac j) = some fd := by
  obtain ⟨fd, c, hc, hp, hr⟩ := hj
  cases hm : Bridge.hasArpEntry (Bridge.swept s.bridge w) s.bridge.clients (L.mac j) with
  | none =>
    obtain ⟨client, hmem, rfl⟩ := List.mem_map.mp (hse.served fd c hp)
    exact absurd ((hse.records_swept hw).mpr hr) (Bridge.hasArpEntry_none hm client hmem)
  | some fd' =>
    obtain ⟨hr', -⟩ := Bridge.hasArpEntry_some hm
    obtain ⟨stamp, hstamp⟩ := Option.isSome_iff_exists.mp ((hse.records_swept hw).mp hr')
    obtain ⟨-, k, c', hk, hp', hmac⟩ := hse.table fd' _ stamp hstamp
    obtain rfl := ha.injective hmac
    exact ⟨fd', c', hk, hp', rfl⟩

inductive Conveys (L : Plan ι) (s : State ι) (fd : Port) (pkt : EtherPkt) :
    Link ConnId EtherPkt → Prop
  | broadcast (i : Nat) (client : Bridge.ClientData) (hi : s.bridge.clients[i]? = some client)
      (hfd : client.fd = fd) (hd : pkt.macDst = "") :
      Conveys L s fd pkt ((Bridge.others s.bridge i).filterMap fun fd =>
        (s.port fd).map fun c => (c, pkt))
  | direct (j : ι) (c : ConnId) (hj : s.conn j = some c) (hd : pkt.macDst = L.mac j) :
      Conveys L s fd pkt [(c, pkt)]

theorem bound_macDst (hb : Bound L s k pkt) :
    pkt.macDst = "" ∧ pkt.type = 0 ∧ pkt.arpPkt.op = 0 ∨
      ∃ j, Known L s j ∧ pkt.macDst = L.mac j := by
  cases hb with
  | request ht ho hd => exact Or.inl ⟨hd, ht, ho⟩
  | response j hj _ _ hd => exact Or.inr ⟨j, hj, hd⟩
  | packet j hj _ hd => exact Or.inr ⟨j, hj, hd⟩

theorem conveys_of_relays (ha : Addressed L) (hse : Settled L since s) (hw : Bridge.Timely since w)
    (hbound : Bound L s k pkt) (hr : Bridge.Relays s.bridge w pkt fd b bout) :
    Conveys L s fd pkt (relayed s bout) ∧ b.clients = s.bridge.clients ∧
      b.btable = Bridge.learnSource w fd pkt (Bridge.swept s.bridge w) := by
  rcases bound_macDst hbound with ⟨hd, -, -⟩ | ⟨j, hj, hd⟩
  · cases hr with
    | flood i client hi hm =>
      have hwrites : ∀ o ∈ (Bridge.others s.bridge i).map (Bridge.Out.write · pkt),
          ∃ fd, o = .write fd pkt ∨ o = .broken fd := by
        intro o ho
        obtain ⟨fd', -, rfl⟩ := List.mem_map.mp ho
        exact ⟨fd', Or.inl rfl⟩
      have hcopies := relayed_eq (s := s) hwrites
      rw [Bridge.written_map_write] at hcopies
      change Conveys L s client.fd pkt (relayed s ((Bridge.others s.bridge i).map (.write · pkt))) ∧ _
      rw [hcopies]
      refine ⟨.broadcast i client hi rfl hd, rfl, ?_⟩
      rw [Bridge.learnDestination, if_neg (not_not_intro hd)]
    | unicast i client fd' hi hm =>
      obtain ⟨hrec, -⟩ := Bridge.hasArpEntry_some hm
      obtain ⟨j, -, -, -, hmac⟩ := hse.records ((hse.records_swept hw).mp hrec)
      exact absurd (hmac.symm.trans hd) (ha.nonempty j)
  · obtain ⟨fd', c, hc, hp, hway⟩ := hse.way ha hw hj
    rw [← hd] at hway
    cases hr with
    | flood i client hi hm => cases hm.symm.trans hway
    | unicast i client fd'' hi hm =>
      obtain rfl := Option.some.inj (hm.symm.trans hway)
      refine ⟨?_, rfl, rfl⟩
      have hcopy : relayed s [.read client.fd pkt, .write fd'' pkt] = [(c, pkt)] := by
        simp [relayed, hp]
      rw [hcopy]
      exact .direct j c hc hd

theorem conveys_frame {copies : Link ConnId EtherPkt} (hc : Conveys L s fd pkt copies)
    {x : ConnId × EtherPkt} (hx : x ∈ copies) : x.2 = pkt := by
  cases hc with
  | broadcast i client hi hfd hd =>
    obtain ⟨fd', -, hx⟩ := List.mem_filterMap.mp hx
    obtain ⟨c, -, rfl⟩ := Option.map_eq_some_iff.mp hx
    rfl
  | direct j c hj hd => rw [List.mem_singleton.mp hx]

theorem row_of_relays (hso : Sound L s) (hb : Bridge.step s.bridge w = some (b, bout))
    (hr : Bridge.Relays s.bridge w pkt fd b bout) : fd ∈ Bridge.swept s.bridge w := by
  obtain ⟨ms, h, hp⟩ := hso.bridge
  cases hr with
  | flood i client hi | unicast i client _ hi =>
    exact (Bridge.wired hp).row (Bridge.running_of_step hb) hi

theorem settled_relay (ha : Addressed L) (hso : Sound L s) (hse : Settled L since s)
    {up : Link ConnId EtherPkt} (hw : Bridge.Timely since w)
    (hb : Bridge.step s.bridge w = some (b, bout))
    (hr : Bridge.Relays s.bridge w pkt fd b bout) (hp : s.port fd = some c)
    (hd : Link.receive c pkt s.up = some up) :
    Settled L since { s with bridge := b, up := up, down := s.down ++ relayed s bout } := by
  obtain ⟨k, hk, hsig, hbound⟩ :=
    hse.up (c, pkt) ((Link.receive_perm hd).mem_iff.mp List.mem_cons_self)
  obtain ⟨hconv, hclients, htable⟩ := conveys_of_relays ha hse hw hbound hr
  have hrow := row_of_relays hso hb hr
  have hg : Grows s { s with bridge := b, up := up, down := s.down ++ relayed s bout } := by
    refine ⟨fun _ _ hc => hc, fun _ _ hp => hp, fun fd' mac stamp he => ?_⟩
    change Bridge.entry b.btable fd' mac = some stamp
    rw [htable]
    exact Bridge.entry_learnSource ((hse.swept hw fd' mac).trans he)
  have hknown : Known L { s with bridge := b, up := up, down := s.down ++ relayed s bout } k := by
    refine ⟨fd, c, hk, hp, ?_⟩
    change Bridge.Records b.btable fd (L.mac k)
    rw [htable]
    exact (Bridge.records_learnSource hrow).mpr (Or.inl ⟨rfl, hsig.macSrc.symm⟩)
  refine ⟨hse.connOld, hse.connInj, hse.idle, hse.seat, ?_, ?_, ?_, ?_, hse.arp_grow hg⟩
  · intro fd' c' hp'
    change fd' ∈ Bridge.fds b.clients
    rw [hclients]
    exact hse.served fd' c' hp'
  · intro fd' mac stamp he
    change Bridge.entry b.btable fd' mac = some stamp at he
    rw [htable] at he
    rcases Bridge.entry_learnSource_of hrow he with hold | ⟨⟨rfl, rfl⟩, rfl⟩
    · exact hse.table fd' mac stamp ((hse.swept hw fd' mac).symm.trans hold)
    · exact ⟨hw.2, k, c, hk, hp, hsig.macSrc⟩
  · exact fun x hx => hse.up_grow hg x (Link.receive_subset hd hx)
  · intro x hx
    rcases List.mem_append.mp hx with hx | hx
    · exact hse.down_grow hg x hx
    · refine ⟨k, hknown, ?_⟩
      rw [conveys_frame hconv hx]
      exact hsig

end Relay

section Station
variable {se : Station.Event} {down : Link ConnId EtherPkt} {n : Station.State}
  {sout : List Station.Out} {i : IfaceSocketPair} {recv : EtherPkt}

def Names (L : Plan ι) (s : State ι) (ip : IPAddr) (mac : MacAddr) : Prop :=
  ∃ j, Known L s j ∧ L.ip j = ip ∧ L.mac j = mac

theorem Settled.heard (hso : Sound L s) (hse : Settled L since s)
    (hf : fetch L s k c se = some down)
    (hn : Station.step (L.config k) (s.node k) se = some (n, sout)) (hh : .handle i recv ∈ sout)
    (hv : Station.Vouches (L.config k) (s.node k).store recv) :
    ∃ j, Known L s j ∧ Signed L j recv := by
  rcases Station.handled_of_step hn hh with ⟨now, u, rfl⟩ | ⟨now, u, rest, rfl, hpc⟩
  · exact hse.down (c, recv) ((Link.receive_perm hf).mem_iff.mp List.mem_cons_self)
  · obtain ⟨ms, h, hp⟩ := hso.node k
    obtain ⟨-, u, rfl⟩ := Station.blank rfl hp rest recv hpc
    refine absurd hv (Station.not_vouches_uninit (fun i hi => ?_) u)
    obtain rfl := List.mem_singleton.mp hi
    intro hempty
    have hno : fetch L s k c (.recv .error now u) = none := if_pos hempty
    cases hno.symm.trans hf

theorem Settled.own (hso : Sound L s) (hse : Settled L since s)
    (hf : fetch L s k c se = some down)
    (hn : Station.step (L.config k) (s.node k) se = some (n, sout)) :
    (∀ ip c, AList.lookup ip n.store.arp = some c → Names L s ip c.mac) ∧
      ∀ o ∈ sout, ∀ fd pkt, o.frame = some (fd, pkt) → Signed L k pkt := by
  have hrelied : ∀ i recv, .handle i recv ∈ sout →
      Station.Vouches (L.config k) (s.node k).store recv →
        Station.Relied (Names L s) (fun mac => ∃ ip, Names L s ip mac) recv := by
    intro i recv hh hv
    obtain ⟨j, hj, hsig⟩ := hse.heard hso hf hn hh hv
    exact ⟨⟨L.ip j, j, hj, rfl, hsig.macSrc.symm⟩, fun ht => ⟨j, hj, (hsig.arp ht).1.symm,
      (hsig.arp ht).2.symm⟩⟩
  have hown := Station.own_effect (fun ip mac hm => ⟨ip, hm⟩) (hse.arp k) hrelied
    (Station.effect_of_step hn)
  refine ⟨hown.1, fun o ho fd pkt hframe => ?_⟩
  obtain ⟨i, hi, hmac, harp⟩ := (hown.2 o ho fd pkt hframe).source
  obtain rfl := List.mem_singleton.mp hi
  exact ⟨hmac, fun ht => (harp ht).2⟩

theorem Settled.bound (hso : Sound L s) (hse : Settled L since s)
    (hf : fetch L s k c se = some down)
    (hn : Station.step (L.config k) (s.node k) se = some (n, sout)) {o : Station.Out}
    (ho : o ∈ sout) (hframe : o.frame = some (fd, pkt)) : Bound L s k pkt := by
  have he := Station.effect_of_step hn
  by_cases ht : pkt.type = 0
  · rcases Station.answer_effect he ho hframe ht with ⟨hop, hd⟩ | ⟨hop, i, recv, hh, hv, hd, hip⟩
    · exact .request ht hop hd
    · obtain ⟨j, hj, hsig⟩ := hse.heard hso hf hn hh hv
      exact .response j hj ht hop (hd.trans hsig.macSrc) (hip.trans (hsig.arp hv.1).1)
  · obtain ⟨ms, h, hp⟩ := hso.node k
    have hrecv : ∀ i recv, .handle i recv ∈ sout →
        Station.Vouches (L.config k) (s.node k).store recv →
          Names L s recv.arpPkt.srcIp recv.arpPkt.srcMac := by
      intro i recv hh hv
      obtain ⟨j, hj, hsig⟩ := hse.heard hso hf hn hh hv
      exact ⟨j, hj, (hsig.arp hv.1).1.symm, (hsig.arp hv.1).2.symm⟩
    obtain ⟨hop, hr, -, j, hj, hip, hmac⟩ :=
      Station.hop_effect hp (hse.arp k) hrecv he ho hframe ht
    exact .packet j hj ht hmac.symm ⟨hop, hr, hip.symm⟩

theorem mem_sent {x : ConnId × EtherPkt} (hx : x ∈ sent c sout) :
    x.1 = c ∧ ∃ o ∈ sout, ∃ fd, o.frame = some (fd, x.2) := by
  obtain ⟨o, ho, hx⟩ := List.mem_filterMap.mp hx
  obtain ⟨f, hf, rfl⟩ := Option.map_eq_some_iff.mp hx
  exact ⟨rfl, o, ho, f.1, hf⟩

theorem settled_station [DecidableEq ι] (hso : Sound L s) (hse : Settled L since s)
    (hc : s.conn k = some c) (hf : fetch L s k c se = some down)
    (hn : Station.step (L.config k) (s.node k) se = some (n, sout)) :
    Settled L since
      { s with node := Function.update s.node k n, up := s.up ++ sent c sout, down := down } := by
  have hg : Grows s
      { s with node := Function.update s.node k n, up := s.up ++ sent c sout, down := down } :=
    ⟨fun _ _ hc => hc, fun _ _ hp => hp, fun _ _ _ he => he⟩
  obtain ⟨harp, hsigned⟩ := hse.own hso hf hn
  refine ⟨hse.connOld, hse.connInj, ?_, hse.seat, hse.served, hse.table, ?_,
    fun x hx => hse.down_grow hg x (fetch_subset hf hx), ?_⟩
  · intro j hj
    have hjk : j ≠ k := by
      rintro rfl
      cases hc.symm.trans hj
    exact (Function.update_of_ne hjk _ _).trans (hse.idle j hj)
  · intro x hx
    rcases List.mem_append.mp hx with hx | hx
    · exact hse.up_grow hg x hx
    · obtain ⟨hconn, o, ho, fd, hframe⟩ := mem_sent hx
      exact ⟨k, hconn ▸ hc, hsigned o ho fd _ hframe, (hse.bound hso hf hn ho hframe).grow hg⟩
  · intro j ip content hl
    change AList.lookup ip (Function.update s.node k n j).store.arp = some content at hl
    by_cases hjk : j = k
    · rw [hjk, Function.update_self] at hl
      obtain ⟨m, hm, hip, hmac⟩ := harp ip content hl
      exact ⟨m, hm.grow hg, hip, hmac⟩
    · rw [Function.update_of_ne hjk] at hl
      exact hse.arp_grow hg j ip content hl

end Station

theorem settled_init [DecidableEq ι] : Settled L since (machine L).init := by
  constructor
  case idle => exact fun _ _ => rfl
  all_goals simp [machine, Station.machine, Bridge.machine, Bridge.entry]

theorem settled_calmly [DecidableEq ι] (ha : Addressed L) (hso : Sound L s)
    (hse : Settled L since s) (hc : Calmly L since s s' out) : Settled L since s' := by
  cases hc with
  | join k w b hk hw fresh hc ht => exact settled_join hse hk hw fresh hc ht
  | still w b hw hc ht => exact settled_still hse hw hc ht
  | relay w b bout fd pkt c up hw hb hr hp hd => exact settled_relay ha hso hse hw hb hr hp hd
  | station k c e down n sout hc hf hn => exact settled_station hso hse hc hf hn

end NetworkEmulator.Lan

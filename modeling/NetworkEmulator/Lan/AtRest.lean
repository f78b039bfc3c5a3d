import NetworkEmulator.Lan.Lossless
import NetworkEmulator.Station.Accounting
import Mathlib.Data.Fintype.Defs

namespace NetworkEmulator.Lan

open Transition

variable {ι : Type} {L : Plan ι} {s s' : State ι} {out h : List (Out ι)} {since : Milliseconds}
  {a b k j : ι} {c : ConnId} {fd : Port} {pkt recv : EtherPkt} {ip : IPAddr}
  {dst : IPAddr} {p : EtherPkt → Prop} [DecidablePred p]

def Asks (L : Plan ι) (a b : ι) (pkt : EtherPkt) : Prop :=
  pkt.type = 0 ∧ pkt.arpPkt.op = 0 ∧ pkt.arpPkt.srcIp = L.ip a ∧ pkt.arpPkt.dstIp = L.ip b

def Replies (L : Plan ι) (a b : ι) (pkt : EtherPkt) : Prop :=
  pkt.type = 0 ∧ pkt.arpPkt.op ≠ 0 ∧ pkt.arpPkt.srcIp = L.ip b ∧ pkt.arpPkt.dstIp = L.ip a

instance : DecidablePred (Asks L a b) := fun _ => inferInstanceAs (Decidable (_ ∧ _))

instance : DecidablePred (Replies L a b) := fun _ => inferInstanceAs (Decidable (_ ∧ _))

def Awaited (L : Plan ι) (a b : ι) (s : State ι) : Prop :=
  Station.waitingFor (L.ip b) (s.node a).store.pq =
    inFlight L s (Asks L a b) (L.ip b) + inFlight L s (Replies L a b) (L.ip a)

def asked : Station.Out → Option IPAddr
  | .send pp false _ _ => some pp.nextHopIpaddr
  | _ => none

def Met (L : Plan ι) (s : State ι) (out : List (Out ι)) : Prop :=
  ∀ x ∈ out, ∀ ip ∈ asked x.2, ∃ j, j ≠ x.1 ∧ (s.conn j).isSome ∧ L.ip j = ip

instance [Fintype ι] [DecidableEq ι] : Decidable (Met L s out) :=
  inferInstanceAs (Decidable (∀ x ∈ out, ∀ ip ∈ asked x.2, ∃ j, j ≠ x.1 ∧ _ ∧ L.ip j = ip))

def Queued (L : Plan ι) (s : State ι) : Prop :=
  ∀ k, ∀ pp ∈ (s.node k).store.pq, ∃ j, j ≠ k ∧ (s.conn j).isSome ∧ L.ip j = pp.nextHopIpaddr

section HostTurn
variable {st st' : Station.Store} {i : IfaceSocketPair} {se : Station.Event}
  {down : Link ConnId EtherPkt} {n : Station.State} {sout ws : List Station.Out}

theorem upCount_cons {o : Station.Out} (ho : o.frame = none) :
    upCount p (sent c (o :: ws)) = upCount p (sent c ws) := by
  simp [sent, ho]

theorem sent_eq_nil (hout : ∀ o ∈ sout, o.frame = none) : sent c sout = [] := by
  refine List.filterMap_eq_nil_iff.mpr fun o ho => ?_
  rw [hout o ho, Option.map_none]

theorem upCount_quiet (hout : ∀ o ∈ sout, o.frame = none) : upCount p (sent c sout) = 0 := by
  rw [sent_eq_nil hout]
  rfl

theorem asks_sends {srcIp dstIp : IPAddr} {data : String}
    (hs : Station.Sends (L.config k) st srcIp dstIp data st' ws) :
    upCount (Asks L k b) (sent c ws) = Station.requests (L.ip b) ws ∧
      (a ≠ k → upCount (Asks L a b) (sent c ws) = 0) ∧
        upCount (Replies L a b) (sent c ws) = 0 := by
  cases hs with
  | cached u hop =>
    simp [upCount, sent, Station.Out.frame, Station.requests, Station.isRequestFor, Asks, Replies,
      Station.Hop.ipFrame]
  | queued u hop hr =>
    have hown := (Station.getIface_some (Station.resolve_ok hr)).1
    have hip : hop.iface.1.ipAddr = L.ip k := by
      rw [List.mem_singleton.mp hown]
      rfl
    refine ⟨?_, ?_, ?_⟩
    · simp [upCount, sent, Station.Out.frame, Station.requests, Station.isRequestFor, Asks,
        Station.Hop.requestFrame, ArpPkt.createReqPkt, hip, List.countP_singleton]
    · intro hak
      have hne : L.ip k ≠ L.ip a := fun heq => hak (L.ip_injective heq).symm
      simp [upCount, sent, Station.Out.frame, Asks, Station.Hop.requestFrame,
        ArpPkt.createReqPkt, hip, hne]
    · simp [upCount, sent, Station.Out.frame, Replies, Station.Hop.requestFrame,
        ArpPkt.createReqPkt]

theorem intended_iff {ip : IPAddr} :
    Station.isIntendedIpDestination (L.config k) ip = true ↔ ip = L.ip k := by
  rw [Station.isIntended_iff]
  constructor
  · rintro ⟨i, hi, hip⟩
    obtain rfl := List.mem_singleton.mp hi
    exact hip
  · exact fun hip => ⟨_, List.mem_singleton_self _, hip⟩

theorem owners_config {ip : IPAddr} (hip : ip = L.ip k) :
    Station.owners (L.config k) ip = [(L.iface k, ⟨L.fd k⟩)] :=
  List.filter_cons_of_pos (decide_eq_true hip)

theorem replies_handles (hs : Station.Handles (L.config k) st i recv st' ws) :
    upCount (Asks L a b) (sent c ws) = 0 ∧
      upCount (Replies L a b) (sent c ws) = if Asks L a b recv ∧ L.ip k = L.ip b then 1 else 0 := by
  cases hs with
  | ignored hi =>
    refine ⟨rfl, (if_neg ?_).symm⟩
    rintro ⟨⟨ht, ho, -, hd⟩, hk⟩
    rw [Station.Ignored, if_pos ht] at hi
    rcases hi with hforeign | ⟨ho', -⟩
    · exact absurd (intended_iff.mpr (hd.trans hk.symm)) (by simp [hforeign])
    · exact ho' ho
  | request now u ht ho hd =>
    have hown := intended_iff.mp hd
    rw [owners_config hown]
    constructor
    · simp [upCount, sent, Station.Out.frame, Asks, Station.respFrame, ArpPkt.createRespPkt]
    · have hiff : Replies L a b (Station.respFrame u (L.iface k) recv) ↔
          Asks L a b recv ∧ L.ip k = L.ip b := by
        simp only [Replies, Asks, Station.respFrame, ArpPkt.createRespPkt, ht, ho, hown]
        constructor
        · rintro ⟨-, -, hk, ha⟩
          exact ⟨⟨trivial, trivial, ha, hk⟩, hk⟩
        · rintro ⟨⟨-, -, ha, hk⟩, -⟩
          exact ⟨trivial, Int.one_ne_zero, hk, ha⟩
      simp [upCount, sent, Station.Out.frame, hiff, List.countP_singleton]
  | flush now u n pp o ht ho =>
    constructor
    · simp [upCount, sent, Station.Out.frame, Asks, Station.flushFrame]
    · rw [if_neg fun hno => ho hno.1.2.1]
      simp [upCount, sent, Station.Out.frame, Replies, Station.flushFrame]
  | deliver ht =>
    refine ⟨rfl, (if_neg ?_).symm⟩
    exact fun hno => ht hno.1.1
  | forward _ _ hr => cases hr

theorem waits_handles (hs : Station.Handles (L.config a) st i recv st' ws)
    (hwait : Replies L a b recv → 0 < Station.waitingFor (L.ip b) st.pq) :
    Station.waitingFor (L.ip b) st'.pq + (if Replies L a b recv then 1 else 0) =
      Station.waitingFor (L.ip b) st.pq := by
  cases hs with
  | ignored hi =>
    have hno : ¬ Replies L a b recv := by
      intro hreply
      obtain ⟨pp, hpp, hkey⟩ := List.countP_pos_iff.mp (hwait hreply)
      obtain ⟨ht, -, hsrc, hd⟩ := hreply
      rw [Station.Ignored, if_pos ht] at hi
      rcases hi with hforeign | ⟨-, hnone⟩
      · exact absurd (intended_iff.mpr hd) (by simp [hforeign])
      · exact hnone pp hpp ((of_decide_eq_true hkey).trans hsrc.symm)
    rw [if_neg hno, Nat.add_zero]
  | request now u ht ho =>
    rw [if_neg fun hreply => hreply.2.1 ho, Nat.add_zero, Station.learn_pq]
  | flush now u n pp o ht ho hd hp =>
    obtain ⟨hn, hkey, -⟩ := Station.firstPending_some hp
    have hiff : Replies L a b recv ↔ pp.nextHopIpaddr = L.ip b := by
      rw [hkey]
      exact ⟨fun hreply => hreply.2.2.1, fun hsrc => ⟨ht, ho, hsrc, intended_iff.mp hd⟩⟩
    have herase := Station.waitingFor_eraseIdx (L.ip b) hn
    simp only [hiff]
    exact herase.symm
  | deliver ht => rw [if_neg fun hreply => ht hreply.1, Nat.add_zero]
  | forward _ _ hr => cases hr

theorem fetched (hse : Settled L since s) (hc : s.conn k = some c)
    (hf : fetch L s k c se = some down) (p : EtherPkt → Prop) [DecidablePred p] (ip : IPAddr) :
    downCount L s.conn p ip s.down = downCount L s.conn p ip down +
      (taken se).elim 0 fun recv => if p recv ∧ L.ip k = ip then 1 else 0 := by
  have hcount : downCount L s.conn p ip s.down = _ := fetch_count hf _
  simp only [decide_eq_true_eq, facing_iff hse hc] at hcount
  exact hcount

theorem inFlight_station (p : EtherPkt → Prop) [DecidablePred p] (ip : IPAddr)
    (node : ι → Station.State) :
    inFlight L { s with node := node, up := s.up ++ sent c sout, down := down } p ip =
      upCount p s.up + upCount p (sent c sout) + downCount L s.conn p ip down :=
  congrArg (· + _) List.countP_append

theorem awaited_self (hab : a ≠ b) (haw : Awaited L a b s) {t : Option EtherPkt}
    (hturn : HostTurn (L.config a) (s.node a).store t st' sout)
    (hasks : downCount L s.conn (Asks L a b) (L.ip b) s.down =
      downCount L s.conn (Asks L a b) (L.ip b) down +
        t.elim 0 fun recv => if Asks L a b recv ∧ L.ip a = L.ip b then 1 else 0)
    (hreplies : downCount L s.conn (Replies L a b) (L.ip a) s.down =
      downCount L s.conn (Replies L a b) (L.ip a) down +
        t.elim 0 fun recv => if Replies L a b recv ∧ L.ip a = L.ip a then 1 else 0) :
    Station.waitingFor (L.ip b) st'.pq =
      upCount (Asks L a b) s.up + upCount (Asks L a b) (sent c sout) +
          downCount L s.conn (Asks L a b) (L.ip b) down +
        (upCount (Replies L a b) s.up + upCount (Replies L a b) (sent c sout) +
          downCount L s.conn (Replies L a b) (L.ip a) down) := by
  have hne : L.ip a ≠ L.ip b := fun heq => hab (L.ip_injective heq)
  unfold Awaited inFlight at haw
  cases hturn with
  | still hpq hout =>
    simp only [Option.elim_none] at hasks hreplies
    rw [hpq, upCount_quiet hout, upCount_quiet hout]
    omega
  | send line dst data hs =>
    obtain ⟨hsent, -, hnone⟩ := asks_sends (a := a) (b := b) (c := c) hs
    obtain ⟨hwait, -⟩ := Station.balance_sends (L.ip b) hs
    simp only [Option.elim_none] at hasks hreplies
    rw [upCount_cons rfl, upCount_cons rfl, hsent, hnone]
    omega
  | hear recv i hs =>
    simp only [Option.elim_some, hne, and_false, and_true, if_false] at hasks hreplies
    have hwait : Replies L a b recv → 0 < Station.waitingFor (L.ip b) (s.node a).store.pq := by
      intro hreply
      rw [if_pos hreply] at hreplies
      omega
    have hwaits := waits_handles hs hwait
    obtain ⟨hnone, hanswer⟩ := replies_handles (a := a) (b := b) (c := c) hs
    rw [if_neg fun hno => hne hno.2] at hanswer
    rw [upCount_cons rfl, upCount_cons rfl, hnone, hanswer]
    omega

theorem awaited_other (hka : k ≠ a) (haw : Awaited L a b s) {t : Option EtherPkt}
    (hturn : HostTurn (L.config k) st t st' sout)
    (hasks : downCount L s.conn (Asks L a b) (L.ip b) s.down =
      downCount L s.conn (Asks L a b) (L.ip b) down +
        t.elim 0 fun recv => if Asks L a b recv ∧ L.ip k = L.ip b then 1 else 0)
    (hreplies : downCount L s.conn (Replies L a b) (L.ip a) s.down =
      downCount L s.conn (Replies L a b) (L.ip a) down +
        t.elim 0 fun recv => if Replies L a b recv ∧ L.ip k = L.ip a then 1 else 0) :
    Station.waitingFor (L.ip b) (s.node a).store.pq =
      upCount (Asks L a b) s.up + upCount (Asks L a b) (sent c sout) +
          downCount L s.conn (Asks L a b) (L.ip b) down +
        (upCount (Replies L a b) s.up + upCount (Replies L a b) (sent c sout) +
          downCount L s.conn (Replies L a b) (L.ip a) down) := by
  have hne : L.ip k ≠ L.ip a := fun heq => hka (L.ip_injective heq)
  unfold Awaited inFlight at haw
  cases hturn with
  | still hpq hout =>
    simp only [Option.elim_none] at hasks hreplies
    rw [upCount_quiet hout, upCount_quiet hout]
    omega
  | send line dst data hs =>
    obtain ⟨-, hother, hnone⟩ := asks_sends (a := a) (b := b) (c := c) hs
    simp only [Option.elim_none] at hasks hreplies
    rw [upCount_cons rfl, upCount_cons rfl, hother (Ne.symm hka), hnone]
    omega
  | hear recv i hs =>
    simp only [Option.elim_some, hne, and_false, if_false] at hasks hreplies
    obtain ⟨hnone, hanswer⟩ := replies_handles (a := a) (b := b) (c := c) hs
    rw [upCount_cons rfl, upCount_cons rfl, hnone, hanswer]
    omega

theorem awaited_station [DecidableEq ι] (hso : Sound L s) (hse : Settled L since s) (hab : a ≠ b)
    (haw : Awaited L a b s) (hc : s.conn k = some c) (hf : fetch L s k c se = some down)
    (hn : Station.step (L.config k) (s.node k) se = some (n, sout)) :
    Awaited L a b
      { s with node := Function.update s.node k n, up := s.up ++ sent c sout, down := down } := by
  have hturn := hostTurn_of_step hso hf hn
  have hasks := fetched hse hc hf (Asks L a b) (L.ip b)
  have hreplies := fetched hse hc hf (Replies L a b) (L.ip a)
  unfold Awaited
  rw [inFlight_station, inFlight_station]
  change Station.waitingFor _ (Function.update s.node k n a).store.pq = _
  by_cases hka : k = a
  · subst hka
    rw [Function.update_self]
    exact awaited_self hab haw hturn hasks hreplies
  · rw [Function.update_of_ne (Ne.symm hka)]
    exact awaited_other hka haw hturn hasks hreplies

theorem queued_turn {cfg : Station.Config} (hr : cfg.isRouter = false) {t : Option EtherPkt}
    (hturn : HostTurn cfg st t st' sout) {pp : PendingPkt} (hpp : pp ∈ st'.pq) :
    pp ∈ st.pq ∨ ∃ o ∈ sout, asked o = some pp.nextHopIpaddr := by
  cases hturn with
  | still hpq => exact Or.inl (hpq ▸ hpp)
  | send line dst data hs =>
    cases hs with
    | cached => exact Or.inl hpp
    | queued u hop =>
      rcases List.mem_append.mp hpp with hold | hnew
      · exact Or.inl hold
      · rw [List.mem_singleton.mp hnew]
        exact Or.inr ⟨_, List.mem_cons_of_mem _ List.mem_cons_self, rfl⟩
  | hear recv i hs =>
    left
    cases hs with
    | ignored | deliver | request => exact hpp
    | flush => exact List.mem_of_mem_eraseIdx hpp
    | forward _ _ hr' => exact absurd hr' (by simp [hr])

theorem queued_station [DecidableEq ι] (hso : Sound L s) (hq : Queued L s)
    (hf : fetch L s k c se = some down)
    (hn : Station.step (L.config k) (s.node k) se = some (n, sout))
    (hmet : Met L s (sout.map fun o => (k, o))) :
    Queued L
      { s with node := Function.update s.node k n, up := s.up ++ sent c sout, down := down } := by
  intro j pp hpp
  change pp ∈ (Function.update s.node k n j).store.pq at hpp
  by_cases hjk : j = k
  · subst hjk
    rw [Function.update_self] at hpp
    rcases queued_turn rfl (hostTurn_of_step hso hf hn) hpp with hold | ⟨o, ho, hask⟩
    · exact hq j pp hold
    · exact hmet (j, o) (List.mem_map_of_mem ho) _ hask
  · rw [Function.update_of_ne hjk] at hpp
    exact hq j pp hpp

end HostTurn

section Bridge
variable {w : Bridge.Wake} {b' : Bridge.State} {copies up : Link ConnId EtherPkt}

theorem queued_join [DecidableEq ι] (hq : Queued L s) (hk : s.conn k = none) (fd : Port) :
    Queued L (joined L s k b' fd) := by
  intro j pp hpp
  change pp ∈ (Function.update s.node k _ j).store.pq at hpp
  by_cases hjk : j = k
  · rw [hjk, Function.update_self] at hpp
    cases hpp
  · rw [Function.update_of_ne hjk] at hpp
    obtain ⟨m, hm, hconn, hip⟩ := hq j pp hpp
    have hmk : m ≠ k := by
      rintro rfl
      rw [hk] at hconn
      cases hconn
    refine ⟨m, hm, ?_, hip⟩
    exact (congrArg Option.isSome (Function.update_of_ne hmk _ _)).trans hconn

theorem awaited_join [DecidableEq ι] (hso : Sound L s) (hse : Settled L since s)
    (haw : Awaited L a b s) (hk : s.conn k = none) (fd : Port) :
    Awaited L a b (joined L s k b' fd) := by
  have hnode : Function.update s.node k (Station.machine (L.config k)).init = s.node := by
    rw [← hse.idle k hk]
    exact Function.update_eq_self k s.node
  unfold Awaited inFlight at haw ⊢
  change Station.waitingFor _ (Function.update s.node k _ a).store.pq =
    upCount _ s.up + downCount L (Function.update s.conn k (some s.next)) _ _ s.down +
      (upCount _ s.up + downCount L (Function.update s.conn k (some s.next)) _ _ s.down)
  rw [hnode, downCount_join hso hk, downCount_join hso hk]
  exact haw

theorem reached_asks (ha : Addressed L) (hso : Sound L s) (hse : Settled L since s)
    (hq : Queued L s) (haw : Awaited L a b s) (hk : s.conn k = some c) (hp : s.port fd = some c)
    (hmem : (c, pkt) ∈ s.up) (hsig : Signed L k pkt) (hbound : Bound L s k pkt)
    (hconv : Conveys L s fd pkt copies) (hask : Asks L a b pkt) :
    reached L s.conn (L.ip b) copies = 1 := by
  obtain rfl : k = a :=
    L.ip_injective ((hsig.arp hask.1).1.symm.trans hask.2.2.1)
  have hpos : 0 < upCount (Asks L k b) s.up :=
    List.countP_pos_iff.mpr ⟨(c, pkt), hmem, decide_eq_true hask⟩
  have hwait : 0 < Station.waitingFor (L.ip b) (s.node k).store.pq := by
    unfold Awaited inFlight at haw
    omega
  obtain ⟨pp, hpp, hkey⟩ := List.countP_pos_iff.mp hwait
  obtain ⟨j, hjk, hconn, hip⟩ := hq k pp hpp
  obtain rfl : j = b := L.ip_injective (hip.trans (of_decide_eq_true hkey))
  obtain ⟨c', hj⟩ := Option.isSome_iff_exists.mp hconn
  cases hbound with
  | response _ _ _ ho => exact absurd hask.2.1 ho
  | packet _ _ ht => exact absurd hask.1 ht
  | request _ _ hd =>
    cases hconv with
    | broadcast i client hi hfd => exact reached_broadcast hso hse hi hk (hfd ▸ hp) hjk hj
    | direct m _ _ hd' => exact absurd (hd'.symm.trans hd) (ha.nonempty m)

theorem reached_replies (ha : Addressed L) (hbound : Bound L s k pkt)
    (hconv : Conveys L s fd pkt copies) (hreply : Replies L a b pkt) :
    reached L s.conn (L.ip a) copies = 1 := by
  cases hbound with
  | request _ ho => exact absurd ho hreply.2.1
  | packet _ _ ht => exact absurd hreply.1 ht
  | response j hj _ _ hd hip =>
    obtain rfl : j = a := L.ip_injective (hip.symm.trans hreply.2.2.2)
    exact reached_of_macDst ha hconv hd

theorem awaited_relay (ha : Addressed L) (hso : Sound L s) (hse : Settled L since s)
    (hq : Queued L s) (haw : Awaited L a b s) {bout : List Bridge.Out}
    (hw : Bridge.Timely since w) (hr : Bridge.Relays s.bridge w pkt fd b' bout)
    (hp : s.port fd = some c) (hd : Link.receive c pkt s.up = some up) :
    Awaited L a b { s with bridge := b', up := up, down := s.down ++ relayed s bout } := by
  have hmem : (c, pkt) ∈ s.up := (Link.receive_perm hd).mem_iff.mp List.mem_cons_self
  obtain ⟨k, hk, hsig, hbound⟩ := hse.up (c, pkt) hmem
  obtain ⟨hconv, -, -⟩ := conveys_of_relays ha hse hw hbound hr
  unfold Awaited
  rw [inFlight_relay hconv hd (reached_asks ha hso hse hq haw hk hp hmem hsig hbound hconv),
    inFlight_relay hconv hd (reached_replies ha hbound hconv)]
  exact haw

end Bridge

theorem queued_calmly [DecidableEq ι] (hso : Sound L s) (hq : Queued L s)
    (hc : Calmly L since s s' out) (hmet : Met L s out) : Queued L s' := by
  cases hc with
  | join k w b hk => exact queued_join hq hk _
  | still | relay => exact hq
  | station k c e down n sout hc hf hn => exact queued_station hso hq hf hn hmet

theorem awaited_calmly [DecidableEq ι] (ha : Addressed L) (hso : Sound L s)
    (hse : Settled L since s) (hq : Queued L s) (hab : a ≠ b) (haw : Awaited L a b s)
    (hc : Calmly L since s s' out) : Awaited L a b s' := by
  cases hc with
  | join k w b hk => exact awaited_join hso hse haw hk _
  | still => exact haw
  | relay w b bout fd pkt c up hw hb hr hp hd => exact awaited_relay ha hso hse hq haw hw hr hp hd
  | station k c e down n sout hc hf hn => exact awaited_station hso hse hab haw hc hf hn

theorem awaited_run [DecidableEq ι] {ms : List (Move (State ι) (Event ι) (Out ι))}
    (p : Path (machine L) ms s h) (ha : Addressed L)
    (hcalm : ∀ mv ∈ ms, Calm since mv.before mv.event) (hmet : ∀ mv ∈ ms, Met L mv.before mv.out) :
    Queued L s ∧ ∀ a b, a ≠ b → Awaited L a b s := by
  have hinit : Queued L (machine L).init := by
    intro k pp hpp
    cases hpp
  have hboth : ∀ mv ∈ ms, Calm since mv.before mv.event ∧ Met L mv.before mv.out :=
    fun mv hmv => ⟨hcalm mv hmv, hmet mv hmv⟩
  have hall := p.guarded
    (fun s _ => Sound L s ∧ Settled L since s ∧ Queued L s ∧ ∀ a b, a ≠ b → Awaited L a b s)
    ⟨sound .nil, settled_init, hinit, fun _ _ _ => rfl⟩
    (fun ⟨hso, hse, hq, haw⟩ hs hc =>
      ⟨sound_happens hso (happens_of_step hs), settled_calmly ha hso hse (calmly_of_step hs hc.1),
        queued_calmly hso hq (calmly_of_step hs hc.1) hc.2,
        fun a b hab => awaited_calmly ha hso hse hq hab (haw a b hab) (calmly_of_step hs hc.1)⟩)
    hboth
  exact hall.2.2

theorem queue_empty (hq : Queued L s) (haw : ∀ a b, a ≠ b → Awaited L a b s) (hup : s.up = [])
    (hdown : s.down = []) (k : ι) : (s.node k).store.pq = [] := by
  refine List.eq_nil_iff_forall_not_mem.mpr fun pp hpp => ?_
  obtain ⟨j, hjk, -, hip⟩ := hq k pp hpp
  have hzero : Station.waitingFor (L.ip j) (s.node k).store.pq = 0 := by
    rw [haw k j (Ne.symm hjk), inFlight, inFlight, hup, hdown]
    rfl
  exact of_decide_eq_false (Bool.eq_false_iff.mpr (List.countP_eq_zero.mp hzero pp hpp)) hip.symm

theorem shown_at_rest {data : String} (hq : Queued L s) (haw : ∀ a b, a ≠ b → Awaited L a b s)
    (hcons : Conserved L (L.ip k) dst data (some k) s h) (hup : s.up = []) (hdown : s.down = []) :
    deliveries (IpPkt.createPkt (L.ip k) dst data) h = acceptances L (L.ip k) dst data h ∧
      (s.node k).store.pq = [] := by
  have hempty := queue_empty hq haw hup hdown k
  unfold Conserved at hcons
  rw [inFlight, hup, hdown, backlog, hempty] at hcons
  exact ⟨hcons, hempty⟩

theorem delivered_exactly_once [DecidableEq ι] {ms : List (Move (State ι) (Event ι) (Out ι))}
    (p : Path (machine L) ms s h) (ha : Addressed L) (hd : Direct L dst)
    (hcalm : ∀ mv ∈ ms, Calm since mv.before mv.event) (hmet : ∀ mv ∈ ms, Met L mv.before mv.out)
    (hup : s.up = []) (hdown : s.down = []) (k : ι) (data : String) :
    deliveries (IpPkt.createPkt (L.ip k) dst data) h = acceptances L (L.ip k) dst data h ∧
      (s.node k).store.pq = [] := by
  obtain ⟨hq, haw⟩ := awaited_run p ha hcalm hmet
  exact shown_at_rest hq haw (conserved_run p ha hd hcalm k data) hup hdown

theorem delivered_exactly_once_greeting :
    deliveries (IpPkt.createPkt "10.0.0.1" "10.0.0.2" " x")
          ((machine pairPlan).trace greetingRun) =
        acceptances pairPlan "10.0.0.1" "10.0.0.2" " x" ((machine pairPlan).trace greetingRun) ∧
      (((machine pairPlan).final greetingRun).node false).store.pq = [] :=
  delivered_exactly_once ((machine pairPlan).path greetingRun (by decide)) addressed_pairPlan
    direct_pairPlan calm_greeting (by decide) (by decide) (by decide) false " x"

end NetworkEmulator.Lan

import NetworkEmulator.Foundation.Amortised
import NetworkEmulator.Lan.Delivery

namespace NetworkEmulator.Lan

open Transition

variable {ι : Type} {L : Plan ι} {s s' : State ι} {out h : List (Out ι)}
  {conn conn' : ι → Option ConnId}

def weight (pkt : EtherPkt) : Nat :=
  if pkt.type = 0 then if pkt.arpPkt.op = 0 then 2 else 1 else 0

def upWeight (up : Link ConnId EtherPkt) : Nat := up.total fun x => weight x.2

open Classical in
noncomputable def downWeight (L : Plan ι) (conn : ι → Option ConnId)
    (down : Link ConnId EtherPkt) : Nat :=
  down.total fun x => if Facing L conn x.2.arpPkt.dstIp x.1 then weight x.2 else 0

noncomputable def potential (L : Plan ι) (s : State ι) : Nat :=
  upWeight s.up + downWeight L s.conn s.down

def isFrame (x : Out ι) : Bool := x.2.frame.isSome

def isSend (x : Out ι) : Bool := (Station.acceptedPkt x.2).isSome

def isAsk (x : Out ι) : Bool := isSend x && (Station.ipFrame x.2).isNone

def frames (ι : Type) : Meter (Out ι) := .ofPred isFrame

def credit (ι : Type) : Meter (Out ι) := (Meter.ofPred isSend).add ((Meter.ofPred isAsk).scale 2)

section Station
variable {cfg : Station.Config} {st st' : Station.Store} {sout : List Station.Out}
  {i : IfaceSocketPair} {recv : EtherPkt} {srcIp dstIp : IPAddr} {data : String}

def logged (k : ι) (sout : List Station.Out) : List (Out ι) := sout.map fun o => (k, o)

def spent (k : ι) (c : ConnId) (sout : List Station.Out) : Nat :=
  (frames ι).count (logged k sout) + upWeight (sent c sout)

theorem spent_cons (k : ι) (c : ConnId) {o : Station.Out} (ho : o.frame = none) :
    spent k c (o :: sout) = spent k c sout := by
  simp [spent, logged, frames, Meter.ofPred, isFrame, sent, ho]

theorem spent_sends (k : ι) (c : ConnId)
    (hs : Station.Sends cfg st srcIp dstIp data st' sout) :
    spent k c sout ≤ (credit ι).count (logged k sout) := by
  cases hs with
  | cached u hop => exact Nat.le_of_eq rfl
  | queued u hop => exact Nat.le_of_eq rfl

theorem spent_handles (hone : cfg.ifaces = [i]) (hr : cfg.isRouter = false) (k : ι) (c : ConnId)
    {j : IfaceSocketPair} (hs : Station.Handles cfg st j recv st' sout) :
    spent k c sout ≤ if recv.arpPkt.dstIp = i.1.ipAddr then weight recv else 0 := by
  cases hs with
  | ignored | deliver => exact Nat.zero_le _
  | request now u ht ho hd =>
    obtain ⟨i', hi', hip⟩ := Station.isIntended_iff.mp hd
    obtain rfl := List.mem_singleton.mp (hone ▸ hi')
    have howners : Station.owners cfg recv.arpPkt.dstIp = [i'] := by
      simp [Station.owners, hone, hip]
    rw [howners, if_pos hip, weight, if_pos ht, if_pos ho]
    exact Nat.le_of_eq rfl
  | flush now u n pp owner ht ho hd =>
    obtain ⟨i', hi', hip⟩ := Station.isIntended_iff.mp hd
    obtain rfl := List.mem_singleton.mp (hone ▸ hi')
    rw [if_pos hip, weight, if_pos ht, if_neg ho]
    exact Nat.le_of_eq rfl
  | forward _ _ hr' => exact absurd hr' (by simp [hr])

theorem spent_effect (hone : cfg.ifaces = [i]) (hr : cfg.isRouter = false) (k : ι) (c : ConnId)
    (he : Station.Effect cfg st st' sout) :
    spent k c sout ≤ (credit ι).count (logged k sout) ∨
      ∃ j recv, .handle j recv ∈ sout ∧
        spent k c sout ≤ if recv.arpPkt.dstIp = i.1.ipAddr then weight recv else 0 := by
  cases he with
  | quiet | sweep => exact Or.inl (Nat.zero_le _)
  | console hc =>
    cases hc with
    | other => exact Or.inl (Nat.zero_le _)
    | send line dst data _ hs =>
      left
      rw [spent_cons k c rfl]
      exact (spent_sends k c hs).trans (Nat.le_of_eq (by simp [credit, logged, Meter.add,
        Meter.scale, Meter.ofPred, isAsk, isSend, Station.acceptedPkt]))
  | handle j recv hs =>
    refine Or.inr ⟨j, recv, List.mem_cons_self, ?_⟩
    rw [spent_cons k c rfl]
    exact spent_handles hone hr k c hs

end Station

theorem downWeight_append (down down' : Link ConnId EtherPkt) :
    downWeight L conn (down ++ down') = downWeight L conn down + downWeight L conn down' :=
  Link.total_append _ _ _

theorem upWeight_append (up up' : Link ConnId EtherPkt) :
    upWeight (up ++ up') = upWeight up + upWeight up' :=
  Link.total_append _ _ _

theorem downWeight_mono {down : Link ConnId EtherPkt}
    (hf : ∀ x ∈ down, ∀ ip, Facing L conn' ip x.1 → Facing L conn ip x.1) :
    downWeight L conn' down ≤ downWeight L conn down := by
  refine Link.total_mono fun x hx => ?_
  by_cases hnew : Facing L conn' x.2.arpPkt.dstIp x.1
  · rw [if_pos hnew, if_pos (hf x hx _ hnew)]
  · rw [if_neg hnew]
    exact Nat.zero_le _

theorem downWeight_relayed (hso : Sound L s) {pkt : EtherPkt} {ws : List Bridge.Out}
    (hnd : (Bridge.written ws).Nodup)
    (hws : ∀ o ∈ ws, ∃ fd, o = .write fd pkt ∨ o = .broken fd) :
    downWeight L s.conn (relayed s ws) ≤ weight pkt := by
  have hmem : ∀ x ∈ relayed s ws, x.2 = pkt := by
    intro x hx
    rw [relayed_eq hws] at hx
    obtain ⟨fd, -, hfd⟩ := List.mem_filterMap.mp hx
    obtain ⟨c, -, rfl⟩ := Option.map_eq_some_iff.mp hfd
    rfl
  refine Link.total_le_of_unique ?_ (fun x hx => ?_) fun x hx y hy hxw hyw => ?_
  · rw [relayed_eq hws]
    refine hnd.filterMap fun fd fd' x hx hx' => ?_
    obtain ⟨c, hc, rfl⟩ := Option.map_eq_some_iff.mp hx
    obtain ⟨c', hc', heq⟩ := Option.map_eq_some_iff.mp hx'
    obtain ⟨rfl, -⟩ := Prod.mk.inj heq
    exact hso.portInj fd fd' c' hc hc'
  · split_ifs
    · rw [hmem x hx]
    · exact Nat.zero_le _
  · have hxf : Facing L s.conn x.2.arpPkt.dstIp x.1 := by
      by_contra hno
      exact hxw (if_neg hno)
    have hyf : Facing L s.conn y.2.arpPkt.dstIp y.1 := by
      by_contra hno
      exact hyw (if_neg hno)
    rw [hmem x hx] at hxf
    rw [hmem y hy] at hyf
    exact Prod.ext (facing_unique hxf hyf) ((hmem x hx).trans (hmem y hy).symm)

theorem upWeight_drain {bout : List Bridge.Out} {up : Link ConnId EtherPkt}
    (hd : drain s bout = some up) : upWeight up ≤ upWeight s.up := by
  unfold drain at hd
  split at hd
  · obtain ⟨c, -, hc⟩ := Option.bind_eq_some_iff.mp hd
    exact Nat.le.intro ((Nat.add_comm _ _).trans (Link.total_receive _ hc).symm)
  · exact Nat.le_of_eq (Option.some.inj hd ▸ rfl)

theorem weight_bridge (hso : Sound L s) {w : Bridge.Wake} {b : Bridge.State}
    {bout : List Bridge.Out} {up : Link ConnId EtherPkt}
    (hb : Bridge.step s.bridge w = some (b, bout)) (hd : drain s bout = some up) :
    upWeight up + downWeight L s.conn (relayed s bout) ≤ upWeight s.up := by
  obtain ⟨ms, h, hp⟩ := hso.bridge
  rcases Bridge.written_of_step (Bridge.wired hp) hb with hno | ⟨fd, pkt, ws, rfl, hnd, hws⟩
  · rw [relayed_nil hno]
    exact upWeight_drain hd
  · obtain ⟨c, -, hc⟩ := Option.bind_eq_some_iff.mp hd
    have hread : upWeight s.up = weight pkt + upWeight up := Link.total_receive _ hc
    have hcopies := downWeight_relayed hso hnd hws
    change upWeight up + downWeight L s.conn (relayed s ws) ≤ _
    omega

theorem downWeight_fetch {k : ι} {c : ConnId} {e : Station.Event} {down : Link ConnId EtherPkt}
    (hf : fetch L s k c e = some down) : downWeight L s.conn down ≤ downWeight L s.conn s.down := by
  unfold fetch at hf
  split at hf
  · exact Nat.le.intro ((Nat.add_comm _ _).trans (Link.total_receive _ hf).symm)
  · split at hf
    · cases hf
    · exact Nat.le_of_eq (Option.some.inj hf ▸ rfl)
  · exact Nat.le_of_eq (Option.some.inj hf ▸ rfl)

theorem weight_station (hso : Sound L s) {k : ι} {c : ConnId} {e : Station.Event}
    {n : Station.State} {sout : List Station.Out} {down : Link ConnId EtherPkt}
    (hc : s.conn k = some c) (hf : fetch L s k c e = some down)
    (hn : Station.step (L.config k) (s.node k) e = some (n, sout)) :
    spent k c sout + downWeight L s.conn down ≤
      downWeight L s.conn s.down + (credit ι).count (logged k sout) := by
  have hfetch := downWeight_fetch hf
  rcases spent_effect rfl rfl k c (Station.effect_of_step hn) with hle | ⟨j, recv, hh, hle⟩
  · omega
  · rcases Station.handled_of_step hn hh with ⟨now, u, rfl⟩ | ⟨now, u, rest, rfl, hpc⟩
    · have hread : downWeight L s.conn s.down = _ := Link.total_receive _ hf
      have hfacing : recv.arpPkt.dstIp = L.ip k → Facing L s.conn recv.arpPkt.dstIp c :=
        fun hip => ⟨k, hip.symm, hc⟩
      split_ifs at hle with hip
      · rw [if_pos (hfacing hip)] at hread
        change _ = weight recv + downWeight L s.conn down at hread
        omega
      · omega
    · obtain ⟨ms, h, hp⟩ := hso.node k
      obtain ⟨-, u, rfl⟩ := Station.blank rfl hp rest recv hpc
      have hne : ¬ "" = L.ip k := by
        intro hempty
        simp [fetch, hempty.symm] at hf
      have hzero : spent k c sout = 0 := Nat.le_zero.mp (hle.trans_eq (if_neg hne))
      omega

variable [DecidableEq ι] {e : Event ι} {ms : List (Move (State ι) (Event ι) (Out ι))}

theorem potential_happens (hso : Sound L s) (hh : Happens L s s' out) :
    (frames ι).count out + potential L s' ≤ potential L s + (credit ι).count out := by
  cases hh with
  | join k w b fd hk hb =>
    have hdown : downWeight L (Function.update s.conn k (some s.next)) s.down ≤
        downWeight L s.conn s.down := by
      refine downWeight_mono fun x hx ip => ?_
      rintro ⟨j, hj, hconn⟩
      have hfresh : some s.next ≠ some x.1 :=
        fun heq => Nat.ne_of_gt (hso.downOld x hx) (Option.some.inj heq)
      exact facing_update hj hfresh hconn
    change 0 + (upWeight s.up + downWeight L (Function.update s.conn k (some s.next)) s.down) ≤ _
    unfold potential
    omega
  | refuse w b bout hb => exact Nat.le_of_eq (Nat.add_comm _ _)
  | bridge w b bout up hb hd =>
    have hweight := weight_bridge hso hb hd
    change 0 + (upWeight up + downWeight L s.conn (s.down ++ relayed s bout)) ≤ _
    rw [downWeight_append]
    unfold potential
    omega
  | station k c e down n sout hc hf hn =>
    have hweight := weight_station hso hc hf hn
    change (frames ι).count (logged k sout) +
      (upWeight (s.up ++ sent c sout) + downWeight L s.conn down) ≤
        potential L s + (credit ι).count (logged k sout)
    rw [upWeight_append]
    unfold spent at hweight
    unfold potential
    omega
  | halt k =>
    have hdown : downWeight L (Function.update s.conn k none) s.down ≤
        downWeight L s.conn s.down := by
      refine downWeight_mono fun x hx ip => ?_
      rintro ⟨j, hj, hconn⟩
      exact facing_update hj (by simp) hconn
    change 0 + (upWeight s.up + downWeight L (Function.update s.conn k none) s.down) ≤ _
    unfold potential
    omega

theorem frames_bounded (p : Path (machine L) ms s h) :
    h.countP isFrame ≤ h.countP isSend + 2 * h.countP isAsk := by
  have hbound := p.amortised (Sound L) (potential L) (frames ι) (credit ι) (sound .nil)
    (fun hso hs => sound_happens hso (happens_of_step hs))
    (fun hso hs => potential_happens hso (happens_of_step hs))
  have hinit : potential L (machine L).init = 0 := rfl
  rw [hinit, Nat.zero_add] at hbound
  exact (Nat.le_add_right _ _).trans hbound

theorem frames_bounded_greeting :
    ((machine pairPlan).trace greetingRun).countP isFrame ≤
      ((machine pairPlan).trace greetingRun).countP isSend +
        2 * ((machine pairPlan).trace greetingRun).countP isAsk :=
  frames_bounded ((machine pairPlan).path greetingRun (by decide))

example : ((machine pairPlan).trace greetingRun).countP isFrame = 3 ∧
    ((machine pairPlan).trace greetingRun).countP isSend = 1 := by decide

end NetworkEmulator.Lan

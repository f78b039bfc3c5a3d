import NetworkEmulator.Foundation.Simulation
import NetworkEmulator.Internet.Truth
import NetworkEmulator.Lan.Net

namespace NetworkEmulator.Lan

open Transition

variable {ι : Type} {L : Plan ι} {s s' : State ι} {e : Event ι} {out h : List (Out ι)}
  {k : ι} {c : ConnId} {se : Station.Event} {n : Station.State} {sout : List Station.Out}
  {down : Link ConnId EtherPkt}

-- a LAN as a network of one bridge
def Plan.internet (L : Plan ι) (hne : ∀ k, L.ip k ≠ "") : Internet.Plan Unit ι where
  numPorts _ := L.numPorts
  listenFd _ := L.listenFd
  lan _ := ()
  config := L.config
  addressed k i hi := by
    obtain rfl := List.mem_singleton.mp hi
    exact hne k
  sockets k := List.nodup_singleton _

def Plan.seat (L : Plan ι) (k : ι) : IfaceSocketPair := (L.iface k, ⟨L.fd k⟩)

def State.internet (L : Plan ι) (s : State ι) : Internet.State Unit ι where
  bridge _ := s.bridge
  far _ := s.port
  node k := (s.conn k).map fun _ => ⟨[L.seat k], s.node k⟩
  near k fd := if fd = L.fd k then s.conn k else none
  up := s.up
  down := s.down
  next := s.next

theorem near_internet : (s.internet L).near k (L.fd k) = s.conn k := if_pos rfl

theorem node_internet (hc : s.conn k = some c) :
    (s.internet L).node k = some ⟨[L.seat k], s.node k⟩ := by
  simp [State.internet, hc]

theorem sent_internet (hso : Sound L s) (hc : s.conn k = some c)
    (hn : Station.step (L.config k) (s.node k) se = some (n, sout)) :
    Internet.sent (s.internet L) k sout = sent c sout := by
  obtain ⟨ms, h, hp⟩ := hso.node k
  refine List.filterMap_congr fun o ho => ?_
  cases hf : o.frame with
  | none => rfl
  | some f =>
    let mv : Move Station.State Station.Event Station.Out := ⟨s.node k, h, se, n, sout⟩
    have hpath : Path (Station.machine (L.config k)) ms mv.before mv.log := hp
    obtain ⟨i, hi, hfd⟩ :=
      Station.iface_of_frame hpath hn (List.mem_filterMap.mpr ⟨o, ho, hf⟩)
    obtain rfl := List.mem_singleton.mp hi
    have hnear : (s.internet L).near k f.1 = some c := by
      rw [hfd]
      exact near_internet.trans hc
    simp only [Option.bind_some, hnear, Option.map_some]

theorem fetch_internet (hso : Sound L s) (hc : s.conn k = some c)
    (hf : fetch L s k c se = some down)
    (hn : Station.step (L.config k) (s.node k) se = some (n, sout)) :
    Internet.fetch (s.internet L) k (s.node k).pc se = some down := by
  cases se with
  | sweep | stdin | frames | skip => exact hf
  | recv r now u =>
    cases r with
    | eof => exact hf
    | error =>
      rw [fetch] at hf
      split_ifs at hf
      exact hf
    | frame pkt =>
      generalize hpc : (s.node k).pc = pc
      cases Station.turn_of_step hn with
      | recv i rest buffer _ _ _ hpc' =>
        obtain ⟨ms, h, hp⟩ := hso.node k
        obtain ⟨hone, -⟩ := Station.blank rfl hp _ _ hpc'
        obtain ⟨rfl, -⟩ := List.cons.inj hone
        rw [← hpc, hpc']
        change ((s.internet L).near k (L.fd k)).bind _ = _
        rw [near_internet, hc]
        exact hf

variable [DecidableEq ι] {w : Bridge.Wake} {b : Bridge.State} {bout : List Bridge.Out} {fd : Port}
  {up : Link ConnId EtherPkt} {hne : ∀ k, L.ip k ≠ ""}

theorem step_connect (hk : s.conn k = none) (hl : s.bridge.listenFd ∈ w.readSet)
    (hb : Bridge.step s.bridge w = some (b, bout)) :
    (Internet.machine (L.internet hne)).step (s.internet L) (.connect k (L.seat k) w) =
      some (Internet.greet (s.internet L) k (L.fd k) () b bout, []) := by
  have hnode : ((s.internet L).node k).isNone = true := by simp [State.internet, hk]
  have hnear : (s.internet L).near k (L.seat k).2.fd = none := near_internet.trans hk
  have hmem : L.seat k ∈ ((L.internet hne).config k).ifaces := List.mem_singleton_self _
  have hlisten : ((s.internet L).bridge ((L.internet hne).lan (L.seat k).1.lanName)).listenFd ∈
      w.readSet := hl
  have hstep : Bridge.step ((s.internet L).bridge ((L.internet hne).lan (L.seat k).1.lanName)) w =
      some (b, bout) := hb
  simp only [Internet.machine, Internet.step, hnode, hnear, hmem, hlisten, hstep, and_self, if_true,
    Option.map_some]
  rfl

theorem step_boot (t : Internet.State Unit ι) (hn : t.node k = none) :
    (Internet.machine (L.internet hne)).step t (.boot k [L.seat k]) =
      some ({ t with
        node := Function.update t.node k
          (some ⟨[L.seat k], (Station.machine (L.config k)).init⟩) }, []) := by
  have hsub : [L.seat k].Sublist ((L.internet hne).config k).ifaces := List.Sublist.refl _
  simp only [Internet.machine, Internet.step, hn, Option.isNone_none, hsub, and_self, if_true]
  rfl

theorem joined_internet (hk : s.conn k = none) :
    (joined L s k b fd).internet L =
      { Internet.joined (s.internet L) k (L.fd k) () b fd with
        node := Function.update (s.internet L).node k
          (some ⟨[L.seat k], (Station.machine (L.config k)).init⟩) } := by
  refine (Internet.State.mk.injEq ..).mpr ⟨?_, ?_, ?_, ?_, rfl, rfl, rfl⟩
  · exact (Function.update_eq_const_of_subsingleton () b (s.internet L).bridge).symm
  · exact (Function.update_eq_const_of_subsingleton () _ (s.internet L).far).symm
  · funext j
    by_cases hj : j = k
    · subst hj
      simp [joined]
    · simp [joined, State.internet, Function.update_of_ne hj]
  · funext j fd'
    by_cases hj : j = k
    · subst hj
      by_cases hfd : fd' = L.fd j
      · simp [joined, Internet.joined, State.internet, hfd]
      · simp [Internet.joined, State.internet, hfd, hk]
    · simp [joined, Internet.joined, State.internet, Function.update_of_ne hj]

omit [DecidableEq ι] in
theorem bridge_internet (b : Bridge.State) :
    ({ s with bridge := b } : State ι).internet L =
      { s.internet L with bridge := Function.update (s.internet L).bridge () b } := by
  refine (Internet.State.mk.injEq ..).mpr ⟨?_, rfl, rfl, rfl, rfl, rfl, rfl⟩
  exact (Function.update_eq_const_of_subsingleton () b _).symm

theorem steps_connect (hk : s.conn k = none) (hl : s.bridge.listenFd ∈ w.readSet)
    (hb : Bridge.step s.bridge w = some (b, bout)) :
    Steps (Internet.machine (L.internet hne)) (s.internet L) ((greet L s k b bout).internet L)
      [] := by
  have hstep : (Internet.machine (L.internet hne)).step (s.internet L)
      (.connect k (L.seat k) w) = some (Internet.greet (s.internet L) k (L.fd k) () b bout, []) :=
    step_connect hk hl hb
  have hconnect := Steps.single hstep
  unfold greet
  split
  · rename_i fd
    rw [joined_internet hk]
    have hnone : (s.internet L).node k = none := by simp [State.internet, hk]
    exact hconnect.tail (step_boot (Internet.joined (s.internet L) k (L.fd k) () b fd) hnone)
  · rename_i hr
    rw [bridge_internet]
    have hgreet : Internet.greet (s.internet L) k (L.fd k) () b bout =
        { s.internet L with bridge := Function.update (s.internet L).bridge () b } := by
      unfold Internet.greet
      split
      · exact absurd rfl (hr _)
      · rfl
    rwa [hgreet] at hconnect

theorem step_bridge (hl : s.bridge.listenFd ∉ w.readSet)
    (hb : Bridge.step s.bridge w = some (b, bout)) (hd : drain s bout = some up) :
    (Internet.machine (L.internet hne)).step (s.internet L) (.bridge () w) =
      some (({ s with
        bridge := b, port := ports s bout, up := up
        down := s.down ++ relayed s bout } : State ι).internet L, []) := by
  have hlisten : ((s.internet L).bridge ()).listenFd ∉ w.readSet := hl
  have hstep : Bridge.step ((s.internet L).bridge ()) w = some (b, bout) := hb
  have hdrain : Internet.drain (s.internet L) () bout = some up := hd
  simp only [Internet.machine, Internet.step, hlisten, hstep, hdrain, if_false, Option.bind_some,
    Option.map_some]
  refine congrArg (fun t => some (t, [])) ((Internet.State.mk.injEq ..).mpr
    ⟨?_, ?_, rfl, rfl, rfl, rfl, rfl⟩)
  · exact Function.update_eq_const_of_subsingleton () b _
  · exact Function.update_eq_const_of_subsingleton () _ _

theorem step_node (hso : Sound L s) (hc : s.conn k = some c)
    (hf : fetch L s k c se = some down)
    (hn : Station.step (L.config k) (s.node k) se = some (n, sout)) :
    (Internet.machine (L.internet hne)).step (s.internet L) (.node k se) =
      some (({ s with
        node := Function.update s.node k n, up := s.up ++ sent c sout
        down := down } : State ι).internet L, sout.map fun o => (k, o)) := by
  have hfetch := fetch_internet hso hc hf hn
  have hstep : Station.step ((L.internet hne).running k [L.seat k]) (s.node k) se =
      some (n, sout) := hn
  simp only [Internet.machine, Internet.step, node_internet hc, hfetch, hstep,
    sent_internet hso hc hn, Option.bind_some, Option.map_some]
  refine congrArg (fun t => some (t, _)) ((Internet.State.mk.injEq ..).mpr
    ⟨rfl, rfl, ?_, rfl, rfl, rfl, rfl⟩)
  funext j
  by_cases hj : j = k
  · subst hj
    simp [hc]
  · simp [State.internet, Function.update_of_ne hj]

theorem step_halt : (Internet.machine (L.internet hne)).step (s.internet L) (.halt k) =
    some (({ s with conn := Function.update s.conn k none } : State ι).internet L, []) := by
  refine congrArg (fun t => some (t, [])) ((Internet.State.mk.injEq ..).mpr
    ⟨rfl, rfl, ?_, ?_, rfl, rfl, rfl⟩)
  · funext j
    by_cases hj : j = k
    · subst hj
      simp
    · simp [State.internet, Function.update_of_ne hj]
  · funext j fd'
    by_cases hj : j = k
    · subst hj
      simp
    · simp [State.internet, Function.update_of_ne hj]

theorem steps_of_step (hso : Sound L s) (hs : step L s e = some (s', out)) :
    Steps (Internet.machine (L.internet hne)) (s.internet L) (s'.internet L) out := by
  cases e with
  | connect k w =>
    simp only [step] at hs
    split at hs
    · rename_i hguard
      obtain ⟨r, hb, heq⟩ := Option.map_eq_some_iff.mp hs
      obtain ⟨rfl, rfl⟩ := Prod.mk.inj heq
      exact steps_connect hguard.1 hguard.2 hb
    · cases hs
  | bridge w =>
    simp only [step] at hs
    split at hs
    · cases hs
    · rename_i hl
      obtain ⟨r, hb, hs⟩ := Option.bind_eq_some_iff.mp hs
      obtain ⟨up, hd, heq⟩ := Option.map_eq_some_iff.mp hs
      obtain ⟨rfl, rfl⟩ := Prod.mk.inj heq
      exact .single (step_bridge hl hb hd)
  | station k se =>
    obtain ⟨c, hc, hs⟩ := Option.bind_eq_some_iff.mp hs
    obtain ⟨down, hf, hs⟩ := Option.bind_eq_some_iff.mp hs
    obtain ⟨r, hn, heq⟩ := Option.map_eq_some_iff.mp hs
    obtain ⟨rfl, rfl⟩ := Prod.mk.inj heq
    exact .single (step_node hso hc hf hn)
  | halt k =>
    obtain ⟨rfl, rfl⟩ := Prod.mk.inj (Option.some.inj hs)
    exact .single step_halt

theorem internet_simulates (hne : ∀ k, L.ip k ≠ "") :
    Simulates (machine L) (Internet.machine (L.internet hne)) fun s t =>
      Sound L s ∧ t = s.internet L where
  init := by
    refine ⟨sound .nil, (Internet.State.mk.injEq ..).mpr ⟨rfl, rfl, rfl, ?_, rfl, rfl, rfl⟩⟩
    funext k fd
    simp [machine]
  step := by
    rintro s s' _ e out ⟨hso, rfl⟩ hs
    exact ⟨_, steps_of_step hso hs, sound_happens hso (happens_of_step hs), rfl⟩

theorem internet_path {ms : List (Move (State ι) (Event ι) (Out ι))} (hne : ∀ k, L.ip k ≠ "")
    (p : Path (machine L) ms s h) :
    ∃ ns, Path (Internet.machine (L.internet hne)) ns (s.internet L) h := by
  obtain ⟨_, ns, hp, -, rfl⟩ := p.simulated (internet_simulates hne)
  exact ⟨ns, hp⟩

theorem mapping_real {ms : List (Move (State ι) (Event ι) (Out ι))} (hne : ∀ k, L.ip k ≠ "")
    (p : Path (machine L) ms s h) (hc : s.conn k = some c) {ip : IPAddr} {m : CacheContent}
    (hl : AList.lookup ip (s.node k).store.arp = some m) :
    ∃ j, L.ip j = ip ∧ (L.iface j).macAddr = m.mac := by
  obtain ⟨ns, hp⟩ := internet_path hne p
  have htrusts := Internet.trusts_of_path (Internet.zoned_everywhere _) hp (node_internet hc)
  obtain ⟨_, -, j, i, hi, -, hip, hmac⟩ := htrusts.arp ip m hl
  obtain rfl := List.mem_singleton.mp hi
  exact ⟨j, hip, hmac⟩

end NetworkEmulator.Lan

import NetworkEmulator.Routing.Address
import NetworkEmulator.Station.FailedRead

namespace NetworkEmulator.Station

open Transition

variable {cfg : Config} {ms : List (Move State Event Out)} {mv : Move State Event Out}
  {s s' : State} {st st' : Store} {h out : List Out} {i : IfaceSocketPair} {recv : EtherPkt}
  {dst : IPAddr} {now : Milliseconds} {u : Uninit}

def Quads (cfg : Config) (dst : IPAddr) : Prop :=
  Routing.Quad dst ∧ ∀ r, Routing.Consults dst cfg.routes r →
    Routing.Quad r.netMask ∧ Routing.Quad r.destAddr

theorem menuCommands_send (st : Store) (u : Uninit) {cmd : List Char}
    (hd : commandDst cfg cmd = some dst) :
    ∃ line msg, menuCommands cfg st u cmd =
      (sendEtherPkt cfg st u "" dst msg >>= fun r => .ok ⟨r.1, false, .command line :: r.2⟩) := by
  unfold commandDst at hd
  simp only at hd
  split at hd
  · cases hd
  · rename_i hneither
    obtain ⟨hdebug, hoff⟩ := not_or.mp hneither
    split at hd
    · rename_i hsend
      obtain ⟨d, hfind, rfl⟩ := Option.map_eq_some_iff.mp hd
      refine ⟨String.ofList (cmd.takeWhile (· ≠ '\n')),
        String.ofList (extract (extract (cmd.takeWhile (· ≠ '\n'))).2).2, ?_⟩
      simp only [menuCommands, hdebug, hoff, if_false, hsend, and_self, if_true, sendCmd, hfind]
    · cases hd

theorem Sends.writes {srcIp dstIp : IPAddr} {data : String}
    (hs : Sends cfg st srcIp dstIp data st' out) : ∃ o ∈ out, o.frame ≠ none := by
  cases hs with
  | cached | queued => exact ⟨_, List.mem_cons_self, by simp [Out.frame]⟩

theorem handlePkt_forwards (hf : Forwards cfg recv) :
    handlePkt cfg st i now u recv =
      sendEtherPkt cfg st u recv.ipPkt.srcIp recv.ipPkt.dstIp recv.ipPkt.data := by
  obtain ⟨ht, hd, hr⟩ := hf
  rw [handlePkt, if_neg ht, handleIp, hd, hr]
  rfl

theorem not_unnoticed_of_send {pc : Pc} {head : List Out} {srcIp dstIp : IPAddr} {data : String}
    (hs : (mv.after, mv.out) = settle s pc head (sendEtherPkt cfg st u srcIp dstIp data)) :
    ¬ Unnoticed mv := by
  rintro ⟨⟨-, hframes, -⟩, hfault⟩
  cases hk : sendEtherPkt cfg st u srcIp dstIp data with
  | error f =>
    rw [hk] at hs
    exact hfault f (congrArg (State.pc ∘ Prod.fst) hs)
  | ok r =>
    rw [hk] at hs
    obtain ⟨o, ho, hframe⟩ := (sends_of_sendEtherPkt hk).writes
    have hout : mv.out = head ++ r.2 := congrArg Prod.snd hs
    exact hframe (hframes o (hout ▸ List.mem_append_right _ ho))

theorem readStdin_send {bytes cmd : List Char} (hc : cString bytes = .ok cmd)
    (hd : commandDst cfg cmd = some dst) (hr : readStdin cfg s u (some bytes) = some (s', out)) :
    ∃ line msg, (s', out) =
      settle s .top [.command line] (sendEtherPkt cfg s.store u "" dst msg) := by
  obtain ⟨line, msg, hmenu⟩ := menuCommands_send s.store u hd
  refine ⟨line, msg, ?_⟩
  have hrun : cString bytes >>= menuCommands cfg s.store u = menuCommands cfg s.store u cmd := by
    rw [hc]
    rfl
  simp only [readStdin] at hr
  split at hr
  · rw [hrun, hmenu] at hr
    cases hk : sendEtherPkt cfg s.store u "" dst msg with
    | error f =>
      rw [hk] at hr
      exact (Option.some.inj hr).symm
    | ok r =>
      rw [hk] at hr
      simpa [bind, Except.bind, settle, eq_comm] using hr
  · cases hr

theorem not_unnoticed_of_asks (hs : step cfg mv.before mv.event = some (mv.after, mv.out))
    (ha : Asks cfg mv.before mv.event dst) : ¬ Unnoticed mv := by
  generalize hpost : (mv.after, mv.out) = post at hs
  obtain ⟨s', out⟩ := post
  generalize mv.event = e at hs ha
  cases ha with
  | command bytes cmd u dst hc hd =>
    cases turn_of_step hs with
    | stdin _ _ hpc hr =>
      obtain ⟨line, msg, hsettle⟩ := readStdin_send hc hd hr
      exact not_unnoticed_of_send (hpost.trans hsettle)
  | frame recv now u hf =>
    cases turn_of_step hs with
    | recv i rest buffer _ _ _ hpc =>
      rw [readIface, handlePkt_forwards hf] at hpost
      exact not_unnoticed_of_send hpost
  | error rest recv now u hpc hf =>
    cases turn_of_step hs with
    | recv i rest buffer _ _ _ hpc' =>
      obtain ⟨-, rfl⟩ := Pc.ifaces.inj (hpc.symm.trans hpc')
      rw [readIface, handlePkt_forwards hf] at hpost
      exact not_unnoticed_of_send hpost

theorem resolve_null (hd : Routing.Decides cfg.routes dst) {f : Fault}
    (hr : resolve cfg dst = .error f) : f = .nullIface := by
  obtain ⟨nextHop, hn⟩ := hd.decided
  rw [resolve, hn] at hr
  simp only [bind, Except.bind] at hr
  split at hr
  · exact (Except.error.inj hr).symm
  · cases hr

theorem fault_of_quads (p : Path (machine cfg) ms s h)
    (hq : ∀ mv ∈ ms, ∀ dst, Asks cfg mv.before mv.event dst → Quads cfg dst) (hmv : mv ∈ ms)
    {f : Fault} (hf : mv.after.pc = .fault f) :
    f = .nullIface ∨ ∃ bytes u, mv.event = .stdin (some bytes) u ∧ cString bytes = .error f := by
  obtain ⟨_, -, hp, hs⟩ := p.before hmv
  rcases fault_of_step hs hf with hc | ⟨dst, hasks, hres⟩ | ⟨pp, hpp, hnone⟩
  · exact Or.inr hc
  · exact Or.inl (resolve_null (Routing.decides_iff.mpr (hq mv hmv dst hasks)) hres)
  · obtain ⟨i, nextHop, hw⟩ := wellFormed_of_mem hp hpp
    exact absurd (hw.found.symm.trans hnone) (by simp)

theorem parse_confined_iff (p : Path (machine cfg) ms s h) :
    (∀ addr, Routing.Confined addr ↔ Routing.Quad addr) ∧
      (∀ mv ∈ ms, ∀ dst, Asks cfg mv.before mv.event dst →
        (Unnoticed mv ∨ Routing.Decides cfg.routes dst ↔ Quads cfg dst)) ∧
      ((∀ mv ∈ ms, ∀ dst, Asks cfg mv.before mv.event dst → Quads cfg dst) →
        ∀ mv ∈ ms, ∀ f, mv.after.pc = .fault f → f = .nullIface ∨
          ∃ bytes u, mv.event = .stdin (some bytes) u ∧ cString bytes = .error f) := by
  refine ⟨fun _ => Routing.confined_iff, ?_, fun hq mv hmv f hf => fault_of_quads p hq hmv hf⟩
  intro mv hmv dst hasks
  obtain ⟨_, -, -, hs⟩ := p.before hmv
  rw [or_iff_right (not_unnoticed_of_asks hs hasks)]
  exact Routing.decides_iff

theorem parse_confined_iff_queued :
    (∀ addr, Routing.Confined addr ↔ Routing.Quad addr) ∧
      (∀ mv ∈ (machine routerR).moves queuedRun, ∀ dst, Asks routerR mv.before mv.event dst →
        (Unnoticed mv ∨ Routing.Decides routerR.routes dst ↔ Quads routerR dst)) ∧
      ((∀ mv ∈ (machine routerR).moves queuedRun, ∀ dst,
          Asks routerR mv.before mv.event dst → Quads routerR dst) →
        ∀ mv ∈ (machine routerR).moves queuedRun, ∀ f, mv.after.pc = .fault f → f = .nullIface ∨
          ∃ bytes u, mv.event = .stdin (some bytes) u ∧ cString bytes = .error f) :=
  parse_confined_iff ((machine routerR).path queuedRun (by decide))

def fiveNumbers : EtherPkt :=
  { EtherPkt.uninit ⟨0, 0⟩ "ss" with
    macDst := "r1", type := 1, ipPkt := IpPkt.createPkt "10.0.1.5" "10.0.2.9.7" " hi" }

def fiveMove : Move State Event Out := ((machine routerR).moves (heard fiveNumbers)).get ⟨2, by decide⟩

-- the fifth number of a received address is stored past the array
theorem fifth_number_overruns :
    ¬ ∀ (cfg : Config) (ms : List (Move State Event Out)) (s : State) (h : List Out),
      Path (machine cfg) ms s h → ∀ mv ∈ ms, ∀ dst, Asks cfg mv.before mv.event dst →
      Unnoticed mv ∨ Routing.Confined dst := by
  intro hall
  have hp := (machine routerR).path (heard fiveNumbers) (by decide)
  have hasks : Asks routerR fiveMove.before fiveMove.event "10.0.2.9.7" :=
    .frame fiveNumbers 0 ⟨0, 0⟩ (by unfold Forwards; decide)
  rcases hall routerR _ _ _ hp fiveMove (List.get_mem _ _) _ hasks with hno | ⟨slots, hs, -⟩
  · have hfault : fiveMove.after.pc = .fault .overrun := rfl
    exact hno.2 .overrun hfault
  · have hover : Routing.parseAddress "10.0.2.9.7" (fun _ => none) = .error .overrun := rfl
    exact absurd (hover.symm.trans hs) (by simp)

end NetworkEmulator.Station

import NetworkEmulator.Routing.Address
import NetworkEmulator.Station.Routes

namespace NetworkEmulator.Station

open Transition

variable {cfg : Config} {ms ms' : List (Move State Event Out)} {s s' : State} {st st' : Store}
  {h out : List Out} {i : IfaceSocketPair} {recv : EtherPkt} {dst : IPAddr} {f : Fault}

def Routed (cfg : Config) (dst : IPAddr) : Prop :=
  ∃ slots nextHop, Routing.parseAddress dst (fun _ => none) = .ok slots ∧
    Routing.Names slots cfg.routes nextHop ∧ ∃ i ∈ cfg.ifaces, i.1.ifaceName = nextHop.iface

def SendsCleanly (cfg : Config) (st : Store) (u : Uninit) (srcIp dstIp : IPAddr) (data : String) :
    Prop :=
  ∃ st' out, sendEtherPkt cfg st u srcIp dstIp data = .ok (st', out) ∧
    ((∃ i ∈ cfg.ifaces, ∃ pkt, out.filterMap Out.frame = [(i.2.fd, pkt)]) ∨
      st' = st ∧ out.filterMap Out.frame = [])

theorem getIface_isSome {name : String} :
    (getIface cfg name).isSome ↔ ∃ i ∈ cfg.ifaces, i.1.ifaceName = name := by
  rw [getIface, List.find?_isSome]
  simp only [decide_eq_true_eq]
  exact exists_congr fun i => and_congr_right fun _ => eq_comm

theorem resolve_isOk_iff : (∃ hop, resolve cfg dst = .ok hop) ↔ Routed cfg dst := by
  constructor
  · rintro ⟨hop, hr⟩
    obtain ⟨nextHop, hn, hname, -⟩ := resolve_spec hr
    obtain ⟨slots, hparse, hnames⟩ := Routing.getNextHop_ok_iff.mp hn
    exact ⟨slots, nextHop, hparse, hnames, hop.iface, hname ▸ getIface_some (resolve_ok hr)⟩
  · rintro ⟨slots, nextHop, hparse, hnames, hiface⟩
    have hn := Routing.getNextHop_ok_iff.mpr ⟨slots, hparse, hnames⟩
    obtain ⟨i, hi⟩ := Option.isSome_iff_exists.mp (getIface_isSome.mpr hiface)
    refine ⟨⟨if nextHop.ipAddr = "0.0.0.0" then dst else nextHop.ipAddr, nextHop.iface, i⟩, ?_⟩
    simp only [resolve, hn, bind, Except.bind, hi]

theorem sendsCleanly_iff {u : Uninit} {srcIp dstIp : IPAddr} {data : String} :
    SendsCleanly cfg st u srcIp dstIp data ↔ Routed cfg dstIp := by
  rw [← resolve_isOk_iff]
  constructor
  · rintro ⟨st', out, hsend, -⟩
    cases sends_of_sendEtherPkt hsend with
    | cached u hop hr | queued u hop hr => exact ⟨hop, hr⟩
  · rintro ⟨hop, hr⟩
    have hiface := (getIface_some (resolve_ok hr)).1
    unfold SendsCleanly sendEtherPkt
    simp only [hr, bind, Except.bind]
    split
    · exact ⟨_, _, rfl, Or.inl ⟨hop.iface, hiface, _, rfl⟩⟩
    · exact ⟨_, _, rfl, Or.inl ⟨hop.iface, hiface, _, rfl⟩⟩

def commandDst (cfg : Config) (cmd : List Char) : Option IPAddr :=
  let line := cmd.takeWhile (· ≠ '\n')
  if line = "debug".toList ∨ line = "off".toList then none
  else
    let (buf, rest) := extract line
    if buf = "send".toList ∧ cfg.isRouter = false then
      (cfg.hosts.find? (fun h => String.ofList (extract rest).1 = h.name)).map Host.addr
    else none

inductive Asks (cfg : Config) (s : State) : Event → IPAddr → Prop
  | command (bytes cmd : List Char) (u : Uninit) (dst : IPAddr) (hc : cString bytes = .ok cmd)
      (hd : commandDst cfg cmd = some dst) : Asks cfg s (.stdin (some bytes) u) dst
  | frame (recv : EtherPkt) (now : Milliseconds) (u : Uninit) (hf : Forwards cfg recv) :
      Asks cfg s (.recv (.frame recv) now u) recv.ipPkt.dstIp
  | error (rest : List IfaceSocketPair) (recv : EtherPkt) (now : Milliseconds) (u : Uninit)
      (hpc : s.pc = .ifaces rest recv) (hf : Forwards cfg recv) :
      Asks cfg s (.recv .error now u) recv.ipPkt.dstIp

theorem sendEtherPkt_error {u : Uninit} {srcIp dstIp : IPAddr} {data : String}
    (h : sendEtherPkt cfg st u srcIp dstIp data = .error f) : resolve cfg dstIp = .error f := by
  rcases Fault.bind_error h with hr | ⟨hop, -, h⟩
  · exact hr
  · split at h <;> cases h

theorem sendCmd_error {u : Uninit} {name msg : String}
    (h : sendCmd cfg st u name msg = .error f) :
    ∃ d, cfg.hosts.find? (fun h => name = h.name) = some d ∧ resolve cfg d.addr = .error f := by
  unfold sendCmd at h
  split at h
  · cases h
  · rename_i d hfind
    exact ⟨d, hfind, sendEtherPkt_error h⟩

theorem menuCommands_error {u : Uninit} {cmd : List Char}
    (h : menuCommands cfg st u cmd = .error f) :
    ∃ dst, commandDst cfg cmd = some dst ∧ resolve cfg dst = .error f := by
  unfold menuCommands at h
  simp only at h
  split at h
  · cases h
  · rename_i hdebug
    split at h
    · cases h
    · rename_i hoff
      split at h
      · rename_i hsend
        rcases Fault.bind_error h with hr | ⟨r, -, hr⟩
        · obtain ⟨d, hfind, hres⟩ := sendCmd_error hr
          refine ⟨d.addr, ?_, hres⟩
          simp only [commandDst, hdebug, hoff, or_self, if_false, hsend, and_self, if_true, hfind,
            Option.map_some]
        · cases hr
      · cases h

theorem handlePkt_error {now : Milliseconds} {u : Uninit}
    (h : handlePkt cfg st i now u recv = .error f) :
    Forwards cfg recv ∧ resolve cfg recv.ipPkt.dstIp = .error f ∨
      ∃ pp ∈ st.pq, getIface cfg pp.ifaceName = none := by
  unfold handlePkt at h
  split at h
  · split at h
    · cases h
    · unfold handleResponse at h
      split at h
      · split at h
        · cases h
        · rename_i k pp hp
          split at h
          · rename_i hnone
            exact Or.inr ⟨pp, List.mem_of_getElem? (firstPending_some hp).1, hnone⟩
          · cases h
      · cases h
  · rename_i ht
    unfold handleIp at h
    split at h
    · cases h
    · rename_i hd
      split at h
      · rename_i hr
        exact Or.inl ⟨⟨ht, Bool.eq_false_iff.mpr hd, hr⟩, sendEtherPkt_error h⟩
      · cases h

theorem next_ne_fault {rest : List IfaceSocketPair} {buffer : EtherPkt} :
    next rest buffer ≠ .fault f := by
  unfold next
  split <;> simp

theorem settle_fault {pc : Pc} {head : List Out} {r : Except Fault (Store × List Out)}
    (h : (settle s pc head r).1.pc = .fault f) : pc = .fault f ∨ r = .error f := by
  cases r with
  | error f' => exact Or.inr (congrArg _ (Pc.fault.inj h))
  | ok r => exact Or.inl h

theorem cString_error {bytes : List Char} (h : cString bytes = .error f) : f = .overrun := by
  unfold cString at h
  simp only at h
  split at h
  · cases h
  · exact (Except.error.inj h).symm

theorem fault_of_stdin {u : Uninit} {bytes : Option (List Char)}
    (hr : readStdin cfg s u bytes = some (s', out)) (hf : s'.pc = .fault f) :
    ∃ line, bytes = some line ∧ (cString line = .error f ∨
      ∃ cmd dst, cString line = .ok cmd ∧ commandDst cfg cmd = some dst ∧
        resolve cfg dst = .error f) := by
  unfold readStdin at hr
  split at hr
  · obtain ⟨rfl, rfl⟩ := Prod.mk.inj (Option.some.inj hr)
    cases hf
  · rename_i line
    refine ⟨line, rfl, ?_⟩
    split at hr
    · split at hr
      · rename_i herr
        obtain ⟨rfl, rfl⟩ := Prod.mk.inj (Option.some.inj hr)
        obtain rfl := Pc.fault.inj hf
        rcases Fault.bind_error herr with hc | ⟨cmd, hc, hmenu⟩
        · exact Or.inl hc
        · obtain ⟨dst, hd, hres⟩ := menuCommands_error hmenu
          exact Or.inr ⟨cmd, dst, hc, hd, hres⟩
      · obtain ⟨rfl, rfl⟩ := Prod.mk.inj (Option.some.inj hr)
        cases hf
    · cases hr

theorem fault_of_handled {rest : List IfaceSocketPair} {buffer : EtherPkt} {head : List Out}
    {now : Milliseconds} {u : Uninit}
    (hf : (settle s (next rest buffer) head (handlePkt cfg s.store i now u recv)).1.pc =
      .fault f) :
    Forwards cfg recv ∧ resolve cfg recv.ipPkt.dstIp = .error f ∨
      ∃ pp ∈ s.store.pq, getIface cfg pp.ifaceName = none := by
  rcases settle_fault hf with hn | herr
  · exact absurd hn next_ne_fault
  · exact handlePkt_error herr

theorem fault_of_step {e : Event} (hs : step cfg s e = some (s', out)) (hf : s'.pc = .fault f) :
    (∃ bytes u, e = .stdin (some bytes) u ∧ cString bytes = .error f) ∨
      (∃ dst, Asks cfg s e dst ∧ resolve cfg dst = .error f) ∨
      ∃ pp ∈ s.store.pq, getIface cfg pp.ifaceName = none := by
  cases turn_of_step hs with
  | sweep => cases hf
  | frames | skip => exact absurd hf next_ne_fault
  | stdin bytes u hpc hr =>
    obtain ⟨line, rfl, hc | ⟨cmd, dst, hc, hd, hres⟩⟩ := fault_of_stdin hr hf
    · exact Or.inl ⟨line, u, rfl, hc⟩
    · exact Or.inr (Or.inl ⟨dst, .command line cmd u dst hc hd, hres⟩)
  | recv i rest buffer r now u hpc =>
    apply Or.inr
    cases r with
    | eof => exact absurd hf next_ne_fault
    | error =>
      rcases fault_of_handled hf with ⟨hfwd, hres⟩ | hpp
      · exact Or.inl ⟨_, .error _ buffer now u hpc hfwd, hres⟩
      · exact Or.inr hpp
    | frame pkt =>
      rcases fault_of_handled hf with ⟨hfwd, hres⟩ | hpp
      · exact Or.inl ⟨_, .frame pkt now u hfwd, hres⟩
      · exact Or.inr hpp

theorem never_null (p : Path (machine cfg) ms s h)
    (hroutes : ∀ mv ∈ ms, ∀ dst, Asks cfg mv.before mv.event dst → Routed cfg dst)
    (hf : s.pc = .fault f) : f = .overrun := by
  cases p with
  | nil => cases hf
  | @snoc ms s₀ _ h₀ o e p hs =>
    rcases fault_of_step hs hf with ⟨_, _, -, hc⟩ | ⟨dst, hasks, hres⟩ | ⟨pp, hpp, hnone⟩
    · exact cString_error hc
    · obtain ⟨hop, hok⟩ := resolve_isOk_iff.mpr (hroutes ⟨s₀, h₀, e, s, o⟩ (by simp) dst hasks)
      exact absurd (hok.symm.trans hres) (by simp)
    · obtain ⟨i, nextHop, hw⟩ := wellFormed_of_mem p hpp
      exact absurd (hw.found.symm.trans hnone) (by simp)

theorem routes_lead_out_iff (p : Path (machine cfg) ms s h) :
    (∀ u srcIp dstIp data, SendsCleanly cfg s.store u srcIp dstIp data ↔ Routed cfg dstIp) ∧
      ((∀ mv ∈ ms, ∀ dst, Asks cfg mv.before mv.event dst → Routed cfg dst) →
        ∀ f, s.pc = .fault f → f = .overrun) :=
  ⟨fun _ _ _ _ => sendsCleanly_iff, fun hroutes _ hf => never_null p hroutes hf⟩

theorem routes_lead_out_iff_queued :
    (∀ u srcIp dstIp data,
        SendsCleanly routerR ((machine routerR).final queuedRun).store u srcIp dstIp data ↔
          Routed routerR dstIp) ∧
      ((∀ mv ∈ (machine routerR).moves queuedRun, ∀ dst,
          Asks routerR mv.before mv.event dst → Routed routerR dst) →
        ∀ f, ((machine routerR).final queuedRun).pc = .fault f → f = .overrun) :=
  routes_lead_out_iff ((machine routerR).path queuedRun (by decide))

-- the table of the router has no default route, and 10.0.9.9 is on neither of its networks
theorem unrouted_destination_null :
    ¬ ∀ (cfg : Config) (ms : List (Move State Event Out)) (s : State) (h : List Out),
      Path (machine cfg) ms s h → ∀ u srcIp dstIp data, Routing.Confined dstIp →
      SendsCleanly cfg s.store u srcIp dstIp data := by
  intro hall
  have hconfined : Routing.Confined "10.0.9.9" := ⟨_, rfl, by decide⟩
  obtain ⟨st', out, hsend, -⟩ := hall routerR _ _ _ ((machine routerR).path queuedRun (by decide))
    ⟨0, 0⟩ "10.0.1.5" "10.0.9.9" " hi" hconfined
  have hnull : sendEtherPkt routerR ((machine routerR).final queuedRun).store ⟨0, 0⟩ "10.0.1.5"
      "10.0.9.9" " hi" = .error .nullIface := by
    have hres : resolve routerR "10.0.9.9" = .error .nullIface := by decide
    rw [sendEtherPkt, hres]
    rfl
  exact absurd (hnull.symm.trans hsend) (by simp)

end NetworkEmulator.Station

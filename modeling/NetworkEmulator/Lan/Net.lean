import NetworkEmulator.Bridge.Wired
import NetworkEmulator.Station.Host
import NetworkEmulator.Foundation.Link
import Mathlib.Logic.Function.Basic

namespace NetworkEmulator.Lan

open Transition

abbrev ConnId := Nat

structure Plan (ι : Type) where
  numPorts : Int
  listenFd : Port
  iface : ι → Iface
  fd : ι → Port
  routes : ι → List Rtable
  hosts : ι → List Host
  ip_injective : Function.Injective fun k => (iface k).ipAddr

variable {ι : Type}

def Plan.ip (L : Plan ι) (k : ι) : IPAddr := (L.iface k).ipAddr

def Plan.config (L : Plan ι) (k : ι) : Station.Config :=
  { ifaces := [(L.iface k, ⟨L.fd k⟩)], routes := L.routes k, hosts := L.hosts k
    isRouter := false }

-- port and conn are the two ends of a connection: the bridge's descriptor and the station
structure State (ι : Type) where
  bridge : Bridge.State
  port : Port → Option ConnId
  node : ι → Station.State
  conn : ι → Option ConnId
  up : Link ConnId EtherPkt
  down : Link ConnId EtherPkt
  next : ConnId

inductive Event (ι : Type) where
  | connect (k : ι) (w : Bridge.Wake)
  | bridge (w : Bridge.Wake)
  | station (k : ι) (e : Station.Event)
  | halt (k : ι)

abbrev Out (ι : Type) := ι × Station.Out

section Links
variable (L : Plan ι) (s : State ι)

-- a read hands the bridge the oldest frame of that connection; it may meet its end at any time
def drain : List Bridge.Out → Option (Link ConnId EtherPkt)
  | .read fd pkt :: _ => (s.port fd).bind fun c => Link.receive c pkt s.up
  | _ => some s.up

def relayed (out : List Bridge.Out) : Link ConnId EtherPkt :=
  out.filterMap fun
    | .write fd pkt => (s.port fd).map fun c => (c, pkt)
    | _ => none

def ports : List Bridge.Out → Port → Option ConnId
  | [.disconnect fd] => Function.update s.port fd none
  | _ => s.port

-- a failed read hands over a frame of empty strings, which only the empty address would claim
def fetch (k : ι) (c : ConnId) : Station.Event → Option (Link ConnId EtherPkt)
  | .recv (.frame pkt) _ _ => Link.receive c pkt s.down
  | .recv .error _ _ => if L.ip k = "" then none else some s.down
  | _ => some s.down

def sent (c : ConnId) (out : List Station.Out) : Link ConnId EtherPkt :=
  out.filterMap fun o => o.frame.map fun f => (c, f.2)

variable {L} {s}

theorem port_of_ports {bout : List Bridge.Out} {fd : Port} {c : ConnId}
    (hp : ports s bout fd = some c) : s.port fd = some c := by
  unfold ports at hp
  split at hp
  · rename_i fd'
    by_cases hfd : fd = fd'
    · rw [hfd, Function.update_self] at hp
      cases hp
    · rwa [Function.update_of_ne hfd] at hp
  · exact hp

theorem relayed_port {bout : List Bridge.Out} {x : ConnId × EtherPkt} (hx : x ∈ relayed s bout) :
    ∃ fd, s.port fd = some x.1 := by
  obtain ⟨o, -, ho⟩ := List.mem_filterMap.mp hx
  split at ho
  · obtain ⟨c, hc, rfl⟩ := Option.map_eq_some_iff.mp ho
    exact ⟨_, hc⟩
  · cases ho

theorem fetch_subset {k : ι} {c : ConnId} {e : Station.Event} {down : Link ConnId EtherPkt}
    (hf : fetch L s k c e = some down) : down ⊆ s.down := by
  unfold fetch at hf
  split at hf
  · exact Link.receive_subset hf
  · split at hf
    · cases hf
    · exact (Option.some.inj hf) ▸ List.Subset.refl _
  · exact (Option.some.inj hf) ▸ List.Subset.refl _

end Links

variable [DecidableEq ι]

section Step
variable (L : Plan ι) (s : State ι)

def joined (k : ι) (b : Bridge.State) (fd : Port) : State ι :=
  { s with
    bridge := b
    node := Function.update s.node k (Station.machine (L.config k)).init
    conn := Function.update s.conn k (some s.next)
    port := Function.update s.port fd (some s.next)
    next := s.next + 1 }

-- an accepted station enters its main loop; a rejected one has no interface left
def greet (k : ι) (b : Bridge.State) : List Bridge.Out → State ι
  | [.accept fd] => joined L s k b fd
  | _ => { s with bridge := b }

def step (s : State ι) : Event ι → Option (State ι × List (Out ι))
  | .connect k w =>
    if s.conn k = none ∧ s.bridge.listenFd ∈ w.readSet then
      (Bridge.step s.bridge w).map fun r => (greet L s k r.1 r.2, [])
    else none
  | .bridge w =>
    if s.bridge.listenFd ∈ w.readSet then none
    else
      (Bridge.step s.bridge w).bind fun r => (drain s r.2).map fun up =>
        ({ s with bridge := r.1, port := ports s r.2, up := up, down := s.down ++ relayed s r.2 }, [])
  | .station k e =>
    (s.conn k).bind fun c => (fetch L s k c e).bind fun down =>
      (Station.step (L.config k) (s.node k) e).map fun r =>
        ({ s with node := Function.update s.node k r.1, up := s.up ++ sent c r.2, down := down },
          r.2.map fun o => (k, o))
  | .halt k => some ({ s with conn := Function.update s.conn k none }, [])

end Step

def machine (L : Plan ι) : Machine (State ι) (Event ι) (Out ι) where
  init :=
    { bridge := (Bridge.machine L.numPorts L.listenFd).init, port := fun _ => none
      node := fun k => (Station.machine (L.config k)).init, conn := fun _ => none
      up := [], down := [], next := 0 }
  step := step L

variable {L : Plan ι} {s s' : State ι} {e : Event ι} {out : List (Out ι)}
  {ms : List (Move (State ι) (Event ι) (Out ι))} {h : List (Out ι)}

inductive Happens (L : Plan ι) (s : State ι) : State ι → List (Out ι) → Prop
  | join (k : ι) (w : Bridge.Wake) (b : Bridge.State) (fd : Port) (hk : s.conn k = none)
      (hb : Bridge.step s.bridge w = some (b, [.accept fd])) :
      Happens L s (joined L s k b fd) []
  | refuse (w : Bridge.Wake) (b : Bridge.State) (bout : List Bridge.Out)
      (hb : Bridge.step s.bridge w = some (b, bout)) : Happens L s { s with bridge := b } []
  | bridge (w : Bridge.Wake) (b : Bridge.State) (bout : List Bridge.Out)
      (up : Link ConnId EtherPkt) (hb : Bridge.step s.bridge w = some (b, bout))
      (hd : drain s bout = some up) :
      Happens L s
        { s with bridge := b, port := ports s bout, up := up, down := s.down ++ relayed s bout } []
  | station (k : ι) (c : ConnId) (e : Station.Event) (down : Link ConnId EtherPkt)
      (n : Station.State) (sout : List Station.Out) (hc : s.conn k = some c)
      (hf : fetch L s k c e = some down)
      (hn : Station.step (L.config k) (s.node k) e = some (n, sout)) :
      Happens L s
        { s with node := Function.update s.node k n, up := s.up ++ sent c sout, down := down }
        (sout.map fun o => (k, o))
  | halt (k : ι) : Happens L s { s with conn := Function.update s.conn k none } []

theorem happens_greet {k : ι} {w : Bridge.Wake} {b : Bridge.State} {bout : List Bridge.Out}
    (hk : s.conn k = none) (hb : Bridge.step s.bridge w = some (b, bout)) :
    Happens L s (greet L s k b bout) [] := by
  unfold greet
  split
  · exact .join k w b _ hk hb
  · exact .refuse w b _ hb

theorem happens_of_step (hs : step L s e = some (s', out)) : Happens L s s' out := by
  cases e with
  | connect k w =>
    simp only [step] at hs
    split at hs
    · rename_i hguard
      obtain ⟨r, hb, heq⟩ := Option.map_eq_some_iff.mp hs
      obtain ⟨rfl, rfl⟩ := Prod.mk.inj heq
      exact happens_greet hguard.1 hb
    · cases hs
  | bridge w =>
    simp only [step] at hs
    split at hs
    · cases hs
    · obtain ⟨r, hb, hs⟩ := Option.bind_eq_some_iff.mp hs
      obtain ⟨up, hd, heq⟩ := Option.map_eq_some_iff.mp hs
      obtain ⟨rfl, rfl⟩ := Prod.mk.inj heq
      exact .bridge w r.1 r.2 up hb hd
  | station k e =>
    obtain ⟨c, hc, hs⟩ := Option.bind_eq_some_iff.mp hs
    obtain ⟨down, hf, hs⟩ := Option.bind_eq_some_iff.mp hs
    obtain ⟨r, hn, heq⟩ := Option.map_eq_some_iff.mp hs
    obtain ⟨rfl, rfl⟩ := Prod.mk.inj heq
    exact .station k c e down r.1 r.2 hc hf hn
  | halt k =>
    obtain ⟨rfl, rfl⟩ := Prod.mk.inj (Option.some.inj hs)
    exact .halt k

structure Sound (L : Plan ι) (s : State ι) : Prop where
  bridge : ∃ ms h, Path (Bridge.machine L.numPorts L.listenFd) ms s.bridge h
  node : ∀ k, ∃ ms h, Path (Station.machine (L.config k)) ms (s.node k) h
  portOld : ∀ fd c, s.port fd = some c → c < s.next
  downOld : ∀ x ∈ s.down, x.1 < s.next
  portInj : ∀ fd fd' c, s.port fd = some c → s.port fd' = some c → fd = fd'

theorem sound_node (hso : Sound L s) {k : ι} {n : Station.State}
    (hn : ∃ ms h, Path (Station.machine (L.config k)) ms n h) (j : ι) :
    ∃ ms h, Path (Station.machine (L.config j)) ms (Function.update s.node k n j) h := by
  by_cases hj : j = k
  · subst hj
    rw [Function.update_self]
    exact hn
  · rw [Function.update_of_ne hj]
    exact hso.node j

theorem sound_join (hso : Sound L s) {k : ι} {w : Bridge.Wake} {b : Bridge.State} {fd : Port}
    (hb : Bridge.step s.bridge w = some (b, [.accept fd])) : Sound L (joined L s k b fd) := by
  have hport : ∀ fd' c, Function.update s.port fd (some s.next) fd' = some c →
      (fd' = fd ∧ c = s.next) ∨ (fd' ≠ fd ∧ s.port fd' = some c) := by
    intro fd' c hc
    by_cases hfd : fd' = fd
    · rw [hfd, Function.update_self] at hc
      exact Or.inl ⟨hfd, (Option.some.inj hc).symm⟩
    · rw [Function.update_of_ne hfd] at hc
      exact Or.inr ⟨hfd, hc⟩
  constructor
  · obtain ⟨ms, h, hp⟩ := hso.bridge
    exact ⟨_, _, hp.snoc hb⟩
  · exact sound_node hso ⟨_, _, .nil⟩
  · intro fd' c hc
    rcases hport fd' c hc with ⟨-, rfl⟩ | ⟨-, hc⟩
    · exact Nat.lt_succ_self _
    · exact Nat.lt_succ_of_lt (hso.portOld fd' c hc)
  · intro x hx
    exact Nat.lt_succ_of_lt (hso.downOld x hx)
  · intro fd₁ fd₂ c h₁ h₂
    rcases hport fd₁ c h₁ with ⟨hfd₁, hc₁⟩ | ⟨-, hold₁⟩
    · rcases hport fd₂ c h₂ with ⟨hfd₂, -⟩ | ⟨-, hold₂⟩
      · exact hfd₁.trans hfd₂.symm
      · exact absurd (hso.portOld fd₂ c hold₂) (hc₁ ▸ Nat.lt_irrefl _)
    · rcases hport fd₂ c h₂ with ⟨-, hc₂⟩ | ⟨-, hold₂⟩
      · exact absurd (hso.portOld fd₁ c hold₁) (hc₂ ▸ Nat.lt_irrefl _)
      · exact hso.portInj fd₁ fd₂ c hold₁ hold₂

theorem sound_happens (hso : Sound L s) (hh : Happens L s s' out) : Sound L s' := by
  cases hh with
  | join k w b fd hk hb => exact sound_join hso hb
  | refuse w b bout hb =>
    obtain ⟨ms, h, hp⟩ := hso.bridge
    exact ⟨⟨_, _, hp.snoc hb⟩, hso.node, hso.portOld, hso.downOld, hso.portInj⟩
  | bridge w b bout up hb hd =>
    obtain ⟨ms, h, hp⟩ := hso.bridge
    refine ⟨⟨_, _, hp.snoc hb⟩, hso.node, fun fd c hc => hso.portOld fd c (port_of_ports hc), ?_,
      fun fd fd' c h₁ h₂ => hso.portInj fd fd' c (port_of_ports h₁) (port_of_ports h₂)⟩
    intro x hx
    rcases List.mem_append.mp hx with hx | hx
    · exact hso.downOld x hx
    · obtain ⟨fd, hfd⟩ := relayed_port hx
      exact hso.portOld fd x.1 hfd
  | station k c e down n sout hc hf hn =>
    obtain ⟨ms, h, hp⟩ := hso.node k
    exact ⟨hso.bridge, sound_node hso ⟨_, _, hp.snoc hn⟩, hso.portOld,
      fun x hx => hso.downOld x (fetch_subset hf hx), hso.portInj⟩
  | halt k => exact ⟨hso.bridge, hso.node, hso.portOld, hso.downOld, hso.portInj⟩

theorem sound (p : Path (machine L) ms s h) : Sound L s := by
  have hinit : Sound L (machine L).init :=
    ⟨⟨_, _, .nil⟩, fun k => ⟨_, _, .nil⟩, by simp [machine], by simp [machine], by simp [machine]⟩
  exact p.invariant (fun s _ => Sound L s) hinit
    (fun hso hs => sound_happens hso (happens_of_step hs))

end NetworkEmulator.Lan

import NetworkEmulator.Internet.Net
import NetworkEmulator.Startup.Interfaces
import NetworkEmulator.Station.Hosts

namespace NetworkEmulator.Startup

open Transition Descriptor Station Layout

-- the arguments of the constructor, what the three files hold and what is found on the way
structure Setup where
  limit : Nat
  fds : Open
  moment : Nat → Moment
  iface : List Char
  rtable : List Char
  host : List Char
  isRouter : Bool
  ifaceFile : Option (List Char)
  hostFile : Option (List Char)
  rtableFile : Option (List Char)

def openFile (limit : Nat) (fds : Open) (name : List Char) (file : Option (List Char)) :
    Except Failure (List Char) :=
  match free limit fds, file with
  | _ :: _, some content => .ok content
  | _, _ => .error (.error ("Failed to open " ++ String.ofList name ++ "."))

-- Station::Station; load_hosts names its argument and opens ./hosts
def construct (u : Setup) : Except Failure (List Loaded × Config) := do
  let loaded ← loadInterfaces u.limit u.fds u.moment u.iface u.ifaceFile
  let fds := (sockets loaded).map Int.toNat ++ u.fds
  let hosts ← openFile u.limit fds u.host u.hostFile
  let routes ← openFile u.limit fds u.rtable u.rtableFile
  .ok (loaded, { ifaces := loaded.map Prod.fst, routes := loadRoutes routes
                 hosts := loadHosts hosts, isRouter := u.isRouter })

variable {u : Setup} {loaded : List Loaded} {cfg : Config}

structure Built (u : Setup) (loaded : List Loaded) (cfg : Config) : Prop where
  loads : loadInterfaces u.limit u.fds u.moment u.iface u.ifaceFile = .ok loaded
  ifaces : cfg.ifaces = loaded.map Prod.fst
  hosts : ∃ file, u.hostFile = some file ∧ cfg.hosts = loadHosts file
  routes : ∃ file, u.rtableFile = some file ∧ cfg.routes = loadRoutes file
  isRouter : cfg.isRouter = u.isRouter

theorem openFile_ok {limit : Nat} {fds : Open} {name content : List Char}
    {file : Option (List Char)} (h : openFile limit fds name file = .ok content) :
    file = some content := by
  unfold openFile at h
  split at h
  · exact congrArg some (Except.ok.inj h)
  · cases h

theorem built_of_construct (h : construct u = .ok (loaded, cfg)) : Built u loaded cfg := by
  obtain ⟨r, hl, h⟩ := bind_ok.mp h
  obtain ⟨hosts, hh, h⟩ := bind_ok.mp h
  obtain ⟨routes, hr, h⟩ := bind_ok.mp h
  obtain ⟨rfl, rfl⟩ := Prod.mk.inj (Except.ok.inj h)
  exact ⟨hl, rfl, ⟨hosts, openFile_ok hh, rfl⟩, ⟨routes, openFile_ok hr, rfl⟩, rfl⟩

theorem Built.sockets_nodup (hb : Built u loaded cfg) :
    (cfg.ifaces.map fun i => i.2.fd).Nodup := by
  rw [hb.ifaces, List.map_map]
  exact (sockets_ascending hb.loads).1.imp fun hlt => Int.ne_of_lt hlt

theorem Built.addressed (hb : Built u loaded cfg) : ∀ i ∈ cfg.ifaces, i.1.ipAddr ≠ "" := by
  intro i hi
  obtain ⟨content, -, -, hbinds, -⟩ := loadInterfaces_ok.mp hb.loads
  rw [hb.ifaces] at hi
  obtain ⟨x, hx, rfl⟩ := List.mem_map.mp hi
  obtain ⟨k, hk⟩ := List.getElem?_of_mem hx
  have hname := (hbinds.addrs k x hk).name_ne_nil
  have hmem : x.1.1 ∈ (getlines content).map loadIface :=
    hbinds.ifaces ▸ List.mem_map_of_mem hx
  obtain ⟨line, -, hline⟩ := List.mem_map.mp hmem
  rw [← hline] at hname ⊢
  exact ipAddr_of_lanName hname

structure Process where
  setup : Setup
  loaded : List Loaded
  config : Config
  constructed : construct setup = .ok (loaded, config)

variable {β ν : Type}

def network (numPorts : β → Int) (listenFd : β → Port) (lan : String → β)
    (process : ν → Process) : Internet.Plan β ν where
  numPorts := numPorts
  listenFd := listenFd
  lan := lan
  config n := (process n).config
  addressed n := (built_of_construct (process n).constructed).addressed
  sockets n := (built_of_construct (process n).constructed).sockets_nodup

variable [DecidableEq β] [DecidableEq ν] {P : Internet.Plan β ν} {s : Internet.State β ν} {n : ν}
  {peers : List Peer}

theorem boot_connected (msg : Buffer msgSize) (hpeers : peers.map Peer.iface = (P.config n).ifaces)
    (hn : s.node n = none) :
    ∃ t, (Internet.machine P).step s (.boot n ((connectAll msg peers).ifaces.map Peer.iface)) =
      some (t, []) := by
  have hsub : ((connectAll msg peers).ifaces.map Peer.iface).Sublist (P.config n).ifaces := by
    rw [(connectAll_spec msg peers).1, ← hpeers]
    exact (kept_sublist peers).map _
  exact ⟨_, if_pos ⟨by rw [hn]; rfl, hsub⟩⟩

end NetworkEmulator.Startup

import NetworkEmulator.Startup.Resolve
import NetworkEmulator.Station.Connect
import NetworkEmulator.Station.Loading

namespace NetworkEmulator.Startup

open Transition Descriptor Station Layout

def loadIface (line : List Char) : Iface :=
  let (name, s) := extract line
  let (ip, s) := extract s
  let (mask, s) := extract s
  let (mac, s) := extract s
  let (lan, _) := extract s
  ⟨String.ofList name, String.ofList ip, String.ofList mask, String.ofList mac, String.ofList lan⟩

-- what get_iface_socket finds on its call for a line
structure Moment where
  disk : Disk
  memory : Memory

abbrev Loaded := IfaceSocketPair × InetAddr

def loadLines (limit : Nat) (moment : Nat → Moment) (fds : Open) :
    List (List Char) → Except Failure (List Loaded)
  | [] => .ok []
  | line :: lines => do
    let iface := loadIface line
    let (sd, addr) ← getIfaceSocket limit fds (moment 0).disk (moment 0).memory iface.lanName.toList
    let rest ← loadLines limit (fun k => moment (k + 1)) (sd.fd.toNat :: fds) lines
    .ok (((iface, sd), addr) :: rest)

-- the stream over the interface file is open to the end
def loadInterfaces (limit : Nat) (fds : Open) (moment : Nat → Moment) (iface : List Char)
    (file : Option (List Char)) : Except Failure (List Loaded) :=
  match free limit fds, file with
  | fd :: _, some content => loadLines limit moment (fd :: fds) (getlines content)
  | _, _ => .error (.error ("Failed to open " ++ String.ofList iface ++ "."))

variable {limit : Nat} {fds : Open} {moment : Nat → Moment} {iface : List Char}
  {file : Option (List Char)} {lines : List (List Char)} {line : List Char} {r : List Loaded}
  {peers : List Peer} {msg : Buffer msgSize}

theorem loadIface_words : loadIface line =
    { ifaceName := String.ofList ((words line).headD [])
      ipAddr := String.ofList ((words line).tail.headD [])
      netMask := String.ofList ((words line).tail.tail.headD [])
      macAddr := String.ofList ((words line).tail.tail.tail.headD [])
      lanName := String.ofList ((words line).tail.tail.tail.tail.headD []) } := by
  simp only [loadIface, extract_head, extract_tail]

theorem ipAddr_of_lanName (hl : (loadIface line).lanName.toList ≠ []) :
    (loadIface line).ipAddr ≠ "" := by
  rw [loadIface_words] at hl ⊢
  match hwords : words line with
  | [] | [_] => simp [hwords] at hl
  | name :: ip :: rest =>
    have hmem : ip ∈ words line := by simp [hwords]
    simpa using ne_nil_of_mem_words hmem

structure Binds (moment : Nat → Moment) (lines : List (List Char)) (r : List Loaded) : Prop where
  ifaces : r.map (·.1.1) = lines.map loadIface
  addrs : ∀ k x, r[k]? = some x →
    Resolves (moment k).disk (moment k).memory x.1.1.lanName.toList x.2

def sockets (r : List Loaded) : List Port := r.map (·.1.2.fd)

theorem binds_cons {line : List Char} {x : Loaded} :
    Binds moment (line :: lines) (x :: r) ↔
      (x.1.1 = loadIface line ∧
        Resolves (moment 0).disk (moment 0).memory x.1.1.lanName.toList x.2) ∧
        Binds (fun k => moment (k + 1)) lines r := by
  constructor
  · rintro ⟨hifaces, haddrs⟩
    obtain ⟨hhead, htail⟩ := List.cons.inj hifaces
    exact ⟨⟨hhead, haddrs 0 x rfl⟩, htail, fun k y hy => haddrs (k + 1) y hy⟩
  · rintro ⟨⟨hhead, haddr⟩, htail, haddrs⟩
    refine ⟨congrArg₂ List.cons hhead htail, fun k y hy => ?_⟩
    cases k with
    | zero => exact Option.some.inj hy ▸ haddr
    | succ k => exact haddrs k y hy

theorem binds_length (hb : Binds moment lines r) : r.length = lines.length := by
  simpa using congrArg List.length hb.ifaces

theorem bind_ok {α β : Type} {x : Except Failure α} {f : α → Except Failure β} {b : β} :
    (x >>= f) = .ok b ↔ ∃ y, x = .ok y ∧ f y = .ok b := by
  cases x with
  | error e => simp [bind, Except.bind]
  | ok y => simp [bind, Except.bind]

theorem loadLines_cons {line : List Char} :
    loadLines limit moment fds (line :: lines) = .ok r ↔ ∃ sd addr rest,
      getIfaceSocket limit fds (moment 0).disk (moment 0).memory
        (loadIface line).lanName.toList = .ok (sd, addr) ∧
      loadLines limit (fun k => moment (k + 1)) (sd.fd.toNat :: fds) lines = .ok rest ∧
      ((loadIface line, sd), addr) :: rest = r := by
  simp only [loadLines, bind_ok, Prod.exists, Except.ok.injEq]
  constructor
  · rintro ⟨sd, addr, hg, rest, ht, heq⟩
    exact ⟨sd, addr, rest, hg, ht, heq⟩
  · rintro ⟨sd, addr, rest, hg, ht, heq⟩
    exact ⟨sd, addr, hg, rest, ht, heq⟩

theorem loadLines_ok :
    loadLines limit moment fds lines = .ok r ↔
      Binds moment lines r ∧ sockets r = (((free limit fds).drop 1).take r.length).map (↑) := by
  induction lines generalizing moment fds r with
  | nil =>
    rw [loadLines]
    constructor
    · intro heq
      obtain rfl := Except.ok.inj heq
      exact ⟨⟨rfl, by simp⟩, by simp [sockets]⟩
    · rintro ⟨hb, -⟩
      rw [List.eq_nil_of_length_eq_zero (binds_length hb)]
  | cons line lines ih =>
    rw [loadLines_cons]
    constructor
    · rintro ⟨sd, addr, rest, hg, ht, rfl⟩
      obtain ⟨⟨file, fd, more, hfree, rfl⟩, hresolves⟩ := getIfaceSocket_ok.mp hg
      obtain ⟨hbinds, hsockets⟩ := ih.mp ht
      rw [Int.toNat_natCast, free_second hfree] at hsockets
      refine ⟨binds_cons.mpr ⟨⟨rfl, hresolves⟩, hbinds⟩, ?_⟩
      rw [hfree]
      exact congrArg (List.cons _) hsockets
    · rintro ⟨hb, hsockets⟩
      cases r with
      | nil => cases binds_length hb
      | cons x r =>
        obtain ⟨⟨hiface, hresolves⟩, htail⟩ := binds_cons.mp hb
        obtain ⟨file, fd, more, hfree⟩ : ∃ file fd more, free limit fds = file :: fd :: more := by
          match hfree : free limit fds with
          | [] | [_] => simp [hfree, sockets] at hsockets
          | file :: fd :: more => exact ⟨file, fd, more, rfl⟩
        rw [hfree] at hsockets
        obtain ⟨hfd, hmore⟩ := List.cons.inj hsockets
        have hsd : x.1.2 = ⟨fd⟩ := congrArg SocketData.mk hfd
        have hroom : Room limit fds x.1.2 := ⟨file, fd, more, hfree, hsd⟩
        have hfree' : free limit (x.1.2.fd.toNat :: fds) = file :: more := by
          rw [hsd, Int.toNat_natCast, free_second hfree]
        refine ⟨x.1.2, x.2, r, ?_, ih.mpr ⟨htail, by rw [hfree']; exact hmore⟩, ?_⟩
        · rw [← hiface]
          exact getIfaceSocket_ok.mpr ⟨hroom, hresolves⟩
        · rw [← hiface]

theorem loadInterfaces_ok : loadInterfaces limit fds moment iface file = .ok r ↔
    ∃ content, file = some content ∧ free limit fds ≠ [] ∧ Binds moment (getlines content) r ∧
      sockets r = (((free limit fds).drop 2).take r.length).map (↑) := by
  unfold loadInterfaces
  cases hfree : free limit fds with
  | nil => simp
  | cons fd rest =>
    cases file with
    | none => simp
    | some content => simp [loadLines_ok, free_first hfree]

variable {π : Type} [DecidableEq π] {plan : π → Launch} {disk : Disk} {s : Nat → State π}
  {h : Nat → List (Out π)} {m : Nat → Memory} {content : List Char}

theorem resolves_name {d : Disk} {m : Memory} {name : List Char} {a : InetAddr}
    (hname : name = [] ∨ Plain name) :
    Resolves d m name a ↔ ∃ lan : Name, lan.1 = name ∧ Resolves d m lan.1 a := by
  constructor
  · intro hr
    rcases hname with rfl | hplain
    · exact absurd rfl hr.name_ne_nil
    · exact ⟨⟨name, hplain⟩, rfl, hr⟩
  · rintro ⟨lan, rfl, hr⟩
    exact hr

theorem interfaces_loaded (hp : ∀ k, ∃ ms, Path (machine plan disk) ms (s k) (h k))
    (hlink : ∀ lan e, disk.cwd lan = some e → e = .link (tmpPath lan))
    (hplain : ∀ line ∈ getlines content, (loadIface line).lanName.toList = [] ∨
      Plain (loadIface line).lanName.toList) :
    loadInterfaces limit fds (fun k => ⟨(s k).disk, m k⟩) iface (some content) = .ok r ↔
      free limit fds ≠ [] ∧ r.map (·.1.1) = (getlines content).map loadIface ∧
        sockets r = (((free limit fds).drop 2).take r.length).map (↑) ∧
        ∀ k x, r[k]? = some x → ∃ lan : Name, lan.1 = x.1.1.lanName.toList ∧
          Leads plan disk (h k) (m k) lan x.2 := by
  rw [loadInterfaces_ok]
  have haddrs : r.map (·.1.1) = (getlines content).map loadIface → ∀ k x, r[k]? = some x →
      (Resolves (s k).disk (m k) x.1.1.lanName.toList x.2 ↔ ∃ lan : Name,
        lan.1 = x.1.1.lanName.toList ∧ Leads plan disk (h k) (m k) lan x.2) := by
    intro hifaces k x hx
    obtain ⟨ms, hpath⟩ := hp k
    have hmem : x.1.1 ∈ (getlines content).map loadIface :=
      hifaces ▸ List.mem_map_of_mem (List.mem_of_getElem? hx)
    obtain ⟨line, hline, heq⟩ := List.mem_map.mp hmem
    rw [resolves_name (heq ▸ hplain line hline)]
    refine exists_congr fun lan => and_congr_right fun _ => ?_
    exact resolves_iff hpath (hlink lan)
  constructor
  · rintro ⟨_, heq, hfree, ⟨hifaces, hr⟩, hsockets⟩
    obtain rfl := Option.some.inj heq
    exact ⟨hfree, hifaces, hsockets, fun k x hx => (haddrs hifaces k x hx).mp (hr k x hx)⟩
  · rintro ⟨hfree, hifaces, hsockets, hl⟩
    exact ⟨content, rfl, hfree, ⟨hifaces, fun k x hx => (haddrs hifaces k x hx).mpr (hl k x hx)⟩,
      hsockets⟩

def ifaceLines : List (List Char) :=
  ["  R1-cs1 128.252.11.39 255.255.255.0 08:00:20:75:41:85 cs1".toList]

def afterFirstStart (_ : Nat) : Moment :=
  ⟨((machine startedTwice noFiles).final firstStart).disk, ⟨['\x00'], 0⟩⟩

def routerIface : Iface := ⟨"R1-cs1", "128.252.11.39", "255.255.255.0", "08:00:20:75:41:85", "cs1"⟩

theorem interfaces_loaded_first_start :
    loadInterfaces 256 [0, 1, 2] afterFirstStart "ifaces.r1".toList
      (some (Lines.unlines '\n' ifaceLines)) =
        .ok [((routerIface, ⟨5⟩), (startedTwice 0).addr)] := by
  have hannounces : Announces ((machine startedTwice noFiles).trace firstStart) 0 cs1 :=
    ⟨[.opened 0 cs1, .linked 0 cs1], [], rfl, by simp⟩
  have hlines : getlines (Lines.unlines '\n' ifaceLines) = ifaceLines :=
    getlines_unlines (by decide)
  refine (interfaces_loaded (fun _ => ⟨_, (machine startedTwice noFiles).path firstStart rfl⟩)
    (fun _ _ he => nomatch he) ?_).mpr ⟨by decide, ?_, by decide, ?_⟩
  · rw [hlines]
    decide
  · rw [hlines]
    decide
  · intro k x hx
    cases k with
    | zero =>
      obtain rfl := Option.some.inj hx
      exact ⟨cs1, by decide, by decide, by decide, Or.inl ⟨0, hannounces, rfl⟩⟩
    | succ k => cases hx

theorem sockets_ascending (hl : loadInterfaces limit fds moment iface file = .ok r) :
    (sockets r).Pairwise (· < ·) ∧ ∀ fd ∈ sockets r, ∀ n ∈ fds, fd ≠ (n : Int) := by
  obtain ⟨content, -, -, -, hsockets⟩ := loadInterfaces_ok.mp hl
  have hsub : (((free limit fds).drop 2).take r.length).Sublist (free limit fds) :=
    (List.take_sublist _ _).trans (List.drop_sublist _ _)
  rw [hsockets]
  constructor
  · refine List.Pairwise.map _ (fun a b hlt => Int.ofNat_lt.mpr hlt) ?_
    exact free_sorted.sublist hsub
  · intro fd hfd n hn
    obtain ⟨k, hk, rfl⟩ := List.mem_map.mp hfd
    intro heq
    exact (mem_free.mp (hsub.subset hk)).2 (Int.ofNat.inj heq ▸ hn)

-- start selects up to the interface it is at while it connects, and up to the last one after that
theorem select_covers (hl : loadInterfaces limit fds moment iface file = .ok r)
    (hpeers : peers.map Peer.iface = r.map Prod.fst) :
    ((connectAll msg peers).log.map fun e => e.1.iface.2.fd).Pairwise (· < ·) ∧
      ((connectAll msg peers).ifaces.map fun p => p.iface.2.fd).Pairwise (· < ·) ∧
      (∀ p ∈ (connectAll msg peers).ifaces, ∀ n ∈ fds, p.iface.2.fd ≠ (n : Int)) ∧
      ∀ e ∈ (connectAll msg peers).log, ∀ n ∈ fds, e.1.iface.2.fd ≠ (n : Int) := by
  obtain ⟨hascending, hfresh⟩ := sockets_ascending hl
  obtain ⟨hifaces, hlog⟩ := connectAll_spec msg peers
  have hsockets : sockets r = peers.map fun p => p.iface.2.fd := by
    have heq := congrArg (List.map fun i : IfaceSocketPair => i.2.fd) hpeers
    rw [List.map_map, List.map_map] at heq
    exact heq.symm
  rw [hsockets] at hascending hfresh
  refine ⟨?_, ?_, ?_, ?_⟩
  · have hattempts : (connectAll msg peers).log.map (fun e => e.1.iface.2.fd) =
        (tried peers).map fun p => p.iface.2.fd := by
      rw [← hlog, List.map_map]
      rfl
    rw [hattempts]
    exact hascending.sublist ((tried_sublist peers).map _)
  · rw [hifaces]
    exact hascending.sublist ((kept_sublist peers).map _)
  · intro p hp n hn
    rw [hifaces] at hp
    exact hfresh _ (List.mem_map_of_mem ((kept_sublist peers).subset hp)) n hn
  · intro e he n hn
    have htried : e.1 ∈ tried peers := hlog ▸ List.mem_map_of_mem he
    exact hfresh _ (List.mem_map_of_mem ((tried_sublist peers).subset htried)) n hn

def greetedPeer : Peer := ⟨(routerIface, ⟨5⟩), fun _ => .accepted []⟩

theorem select_covers_first_start :
    ((connectAll (.zero _) [greetedPeer]).log.map fun e => e.1.iface.2.fd).Pairwise (· < ·) ∧
      ((connectAll (.zero _) [greetedPeer]).ifaces.map fun p => p.iface.2.fd).Pairwise (· < ·) ∧
      (∀ p ∈ (connectAll (.zero _) [greetedPeer]).ifaces, ∀ n ∈ [0, 1, 2],
        p.iface.2.fd ≠ ((n : Nat) : Int)) ∧
      ∀ e ∈ (connectAll (.zero _) [greetedPeer]).log, ∀ n ∈ [0, 1, 2],
        e.1.iface.2.fd ≠ ((n : Nat) : Int) := by
  have hl : loadInterfaces 256 [0, 1, 2] afterFirstStart "ifaces.r1".toList
      (some (Lines.unlines '\n' ifaceLines)) =
        .ok [((routerIface, ⟨5⟩), (startedTwice 0).addr)] := by
    change loadLines 256 afterFirstStart [3, 0, 1, 2] (getlines _) = _
    rw [getlines_unlines (by decide)]
    rfl
  exact select_covers hl rfl

end NetworkEmulator.Startup

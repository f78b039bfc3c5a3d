import NetworkEmulator.Station.Console
import NetworkEmulator.Station.Loading
import NetworkEmulator.Station.Routed

namespace NetworkEmulator.Station

open Transition

variable {cfg : Config} {s s' : State} {st : Store} {out : List Out} {host : Host} {f : Fault}
  {u : Uninit} {name line rest bytes cmd file : List Char} {dst : IPAddr}

def loadHost (line : List Char) : Host :=
  let (name, rest) := extract line
  { name := String.ofList name, addr := String.ofList (extract rest).1 }

def loadHosts (file : List Char) : List Host := (getlines file).map loadHost

-- a name that fits into msg behind "send "
def Typeable (name : List Char) : Prop := '\x00' ∉ name ∧ name.length + 5 < msgSize

def Listed (hosts : List Host) (host : Host) : Prop :=
  hosts.find? (fun h => host.name = h.name) = some host ∧ Typeable host.name.toList

def Terminated : Event → Prop
  | .stdin (some bytes) _ => (cString bytes).isOk = true
  | _ => True

def Faults (cfg : Config) (f : Fault) : Prop :=
  ∃ ms s h, Path (machine cfg) ms s h ∧ (∀ mv ∈ ms, Terminated mv.event) ∧ s.pc = .fault f

theorem loadHost_words : loadHost line =
    { name := String.ofList ((words line).headD [])
      addr := String.ofList ((words line).tail.headD []) } := by
  simp only [loadHost, extract_head, extract_tail]

theorem isSpace_of_mem_extract {c : Char} (hc : c ∈ (extract line).1) :
    Routing.isSpace c = false := by
  simpa using List.mem_takeWhile_imp hc

theorem isSpace_name (hh : host ∈ loadHosts file) :
    ∀ c ∈ host.name.toList, Routing.isSpace c = false := by
  obtain ⟨line, -, rfl⟩ := List.mem_map.mp hh
  intro c hc
  have hword : c ∈ (extract line).1 := by simpa [loadHost] using hc
  exact isSpace_of_mem_extract hword

theorem extract_name (hn : ∀ c ∈ name, Routing.isSpace c = false) : (extract name).1 = name := by
  rw [extract_head]
  cases name with
  | nil => rfl
  | cons c name =>
    rw [words_word (List.cons_ne_nil _ _) hn]
    rfl

theorem handed_name (hr : cfg.isRouter = false) (hn : ∀ c ∈ name, Routing.isSpace c = false) :
    ∃ msg, handed cfg ("send ".toList ++ name) = some (String.ofList name, msg) := by
  have hext : extract ("send".toList ++ ' ' :: name) = ("send".toList, ' ' :: name) :=
    extract_word (by decide) (by simp [Routing.isSpace])
  have hsplit : "send ".toList ++ name = "send".toList ++ ' ' :: name := rfl
  have hdebug : "send ".toList ++ name ≠ "debug".toList := by
    intro heq
    cases congrArg List.head? heq
  have hoff : "send ".toList ++ name ≠ "off".toList := by
    intro heq
    cases congrArg List.head? heq
  refine ⟨String.ofList (extract name).2, ?_⟩
  unfold handed
  rw [if_neg (not_or.mpr ⟨hdebug, hoff⟩), hsplit, hext]
  simp only [hr, and_self, if_true, extract_blank, extract_name hn]

theorem menuCommands_name (hr : cfg.isRouter = false) (hn : ∀ c ∈ name, Routing.isSpace c = false)
    (hfind : cfg.hosts.find? (fun h => String.ofList name = h.name) = some host)
    (hres : resolve cfg host.addr = .error f) :
    menuCommands cfg st u ("send ".toList ++ name) = .error f := by
  obtain ⟨msg, hhanded⟩ := handed_name hr hn
  have hline : ("send ".toList ++ name).takeWhile (· ≠ '\n') = "send ".toList ++ name := by
    refine List.takeWhile_eq_self_iff.mpr fun c hc => decide_eq_true ?_
    rintro rfl
    rcases List.mem_append.mp hc with hc | hc
    · exact absurd hc (by decide)
    · exact absurd (hn _ hc) (by decide)
  rw [menuCommands_eq, hline, hhanded]
  simp only [sendCmd, hfind, sendEtherPkt, hres, bind, Except.bind]

theorem cString_name (ht : Typeable name) :
    cString ("send ".toList ++ name) = .ok ("send ".toList ++ name) := by
  refine cString_eq_ok.mpr ⟨List.takeWhile_eq_self_iff.mpr fun c hc => decide_eq_true ?_, ?_⟩
  · rintro rfl
    rcases List.mem_append.mp hc with hc | hc
    · exact absurd hc (by decide)
    · exact ht.1 hc
  · have hlen : ("send ".toList ++ name).length = name.length + 5 := by simp
    rw [hlen]
    exact ht.2

theorem faults_of_listed (hr : cfg.isRouter = false) (hi : cfg.ifaces ≠ [])
    (hn : ∀ c ∈ host.name.toList, Routing.isSpace c = false) (hl : Listed cfg.hosts host)
    (hres : resolve cfg host.addr = .error f) : Faults cfg f := by
  obtain ⟨hfind, ht⟩ := hl
  let typed := "send ".toList ++ host.name.toList
  have hlen : typed.length = host.name.toList.length + 5 := by simp [typed]
  have hbound : 0 < typed.length ∧ typed.length ≤ msgSize := by
    have hshort := ht.2
    omega
  obtain ⟨t, hsweep, hpc⟩ : ∃ t, (machine cfg).step (machine cfg).init (.sweep 0) = some (t, []) ∧
      t.pc = .select := ⟨_, if_pos ⟨rfl, hi⟩, rfl⟩
  have hc : cString typed = .ok typed := cString_name ht
  have hmenu : menuCommands cfg t.store ⟨0, 0⟩ typed = .error f :=
    menuCommands_name hr hn (by simpa using hfind) hres
  have hstdin : (machine cfg).step t (.stdin (some typed) ⟨0, 0⟩) =
      some ({ t with pc := .fault f }, []) := by
    change step cfg t _ = _
    unfold step
    rw [hpc]
    simp only [readStdin, hbound, and_self, if_true, hc, bind, Except.bind, hmenu]
  refine ⟨_, _, _, (Path.nil.snoc hsweep).snoc hstdin, ?_, rfl⟩
  intro mv hmv
  rcases List.mem_append.mp hmv with hmv | hmv
  · obtain rfl := List.mem_singleton.mp hmv
    trivial
  · obtain rfl := List.mem_singleton.mp hmv
    exact congrArg Except.isOk hc

theorem extract_length (line : List Char) :
    (extract line).1.length + (extract line).2.length ≤ line.length := by
  have hsplit : ((extract line).1 ++ (extract line).2).length =
      (line.dropWhile Routing.isSpace).length := congrArg List.length List.takeWhile_append_dropWhile
  have hle : (line.dropWhile Routing.isSpace).length ≤ line.length :=
    (List.dropWhile_suffix _).length_le
  rw [List.length_append] at hsplit
  exact hsplit.trans_le hle

theorem extract_rest_length (hne : (extract (extract line).2).1 ≠ []) :
    (extract (extract line).2).1.length + 1 ≤ (extract line).2.length := by
  cases hrest : (extract line).2 with
  | nil =>
    rw [hrest] at hne
    exact absurd rfl hne
  | cons c rest =>
    have hc : Routing.isSpace c = true := by
      have hhead := List.head?_dropWhile_not (!Routing.isSpace ·) (line.dropWhile Routing.isSpace)
      have hcons : (line.dropWhile Routing.isSpace).dropWhile (!Routing.isSpace ·) = c :: rest :=
        hrest
      simpa [hcons] using hhead
    have hskip : extract (c :: rest) = extract rest := by
      rw [extract, List.dropWhile_cons_of_pos hc]
      rfl
    have hle := extract_length rest
    rw [hskip, List.length_cons]
    omega

theorem mem_of_mem_extract {c : Char} (hc : c ∈ (extract line).1) : c ∈ line :=
  (List.dropWhile_suffix _).subset ((List.takeWhile_prefix _).subset hc)

theorem mem_of_mem_rest {c : Char} (hc : c ∈ (extract line).2) : c ∈ line :=
  (List.dropWhile_suffix _).subset ((List.dropWhile_suffix _).subset hc)

theorem listed_of_commandDst (hc : cString bytes = .ok cmd) (hd : commandDst cfg cmd = some dst) :
    ∃ host, Listed cfg.hosts host ∧ host.addr = dst := by
  obtain ⟨hcmd, hlen⟩ := cString_eq_ok.mp hc
  unfold commandDst at hd
  simp only at hd
  split at hd
  · cases hd
  · split at hd
    · rename_i hsend
      generalize hline : cmd.takeWhile (· ≠ '\n') = line at hd hsend
      obtain ⟨host, hfind, rfl⟩ := Option.map_eq_some_iff.mp hd
      have hname : String.ofList (extract (extract line).2).1 = host.name := by
        simpa using List.find?_some hfind
      have hword : host.name.toList = (extract (extract line).2).1 := by
        rw [← hname, String.toList_ofList]
      refine ⟨host, ⟨hname ▸ hfind, ?_, ?_⟩, rfl⟩
      · rw [hword]
        intro hmem
        have hcmdMem : '\x00' ∈ cmd :=
          (List.takeWhile_prefix _).subset (hline ▸ mem_of_mem_rest (mem_of_mem_extract hmem))
        rw [← hcmd] at hcmdMem
        simpa using List.mem_takeWhile_imp hcmdMem
      · have hle : line.length ≤ cmd.length := hline ▸ (List.takeWhile_prefix _).length_le
        have hfour : (extract line).1.length = 4 := by
          rw [hsend.1]
          rfl
        have hsplit := extract_length line
        rw [hword]
        by_cases hnil : (extract (extract line).2).1 = []
        · rw [hnil]
          decide
        · have hrest := extract_rest_length hnil
          omega
    · cases hd

theorem resolve_empty : resolve cfg "" = .error .invalidArgument := rfl

theorem faults_of_blank_line (hr : cfg.isRouter = false) (hi : cfg.ifaces ≠ [])
    (hh : cfg.hosts = loadHosts file) (hl : line ∈ getlines file) (hblank : words line = []) :
    Faults cfg .invalidArgument := by
  have hempty : loadHost line = ⟨"", ""⟩ := by
    rw [loadHost_words, hblank]
    rfl
  have hmem : ⟨"", ""⟩ ∈ cfg.hosts := by
    rw [hh, ← hempty]
    exact List.mem_map_of_mem hl
  have hsome : (cfg.hosts.find? (fun h => "" = h.name)).isSome = true :=
    List.find?_isSome.mpr ⟨_, hmem, by simp⟩
  obtain ⟨host, hfind⟩ := Option.isSome_iff_exists.mp hsome
  have hname : host.name = "" := by simpa using List.find?_some hfind
  have haddr : host.addr = "" := by
    have hhost := List.mem_of_find?_eq_some hfind
    rw [hh] at hhost
    obtain ⟨line', -, rfl⟩ := List.mem_map.mp hhost
    rw [loadHost_words] at hname ⊢
    cases hwords : words line' with
    | nil => rfl
    | cons w ws =>
      have hw : w ≠ [] := ne_nil_of_mem_words (hwords ▸ List.mem_cons_self)
      rw [hwords] at hname
      exact absurd (by simpa using hname) hw
  refine faults_of_listed hr hi (by simp [hname]) ⟨?_, ?_⟩ (haddr ▸ resolve_empty)
  · rw [hname]
    exact hfind
  · rw [hname]
    exact ⟨by simp, by decide⟩

theorem listed_of_faults (hr : cfg.isRouter = false) (hf : Faults cfg f) :
    ∃ host, Listed cfg.hosts host ∧ resolve cfg host.addr = .error f := by
  obtain ⟨ms, s, h, hp, ht, hpc⟩ := hf
  cases hp with
  | nil => cases hpc
  | @snoc ms t _ h o e hp hs =>
    have hstep : step cfg t e = some (s, o) := hs
    rcases fault_of_step hstep hpc with ⟨bytes, u, rfl, hc⟩ | ⟨dst, hasks, hres⟩ | ⟨pp, hpp, hnone⟩
    · have hok : (cString bytes).isOk = true := ht _ (List.mem_append_right _ List.mem_cons_self)
      rw [hc] at hok
      cases hok
    · cases hasks with
      | command bytes cmd u _ hc hd =>
        obtain ⟨host, hl, rfl⟩ := listed_of_commandDst hc hd
        exact ⟨host, hl, hres⟩
      | frame recv now u hfwd | error rest recv now u _ hfwd =>
        exact absurd hfwd.2.2 (by simp [hr])
    · obtain ⟨owner, nextHop, hw⟩ := wellFormed_of_mem hp hpp
      cases hnone.symm.trans hw.found

theorem faults_iff (hr : cfg.isRouter = false) (hi : cfg.ifaces ≠ [])
    (hh : cfg.hosts = loadHosts file) :
    Faults cfg f ↔ ∃ host, Listed (loadHosts file) host ∧ resolve cfg host.addr = .error f := by
  constructor
  · exact fun hf => hh ▸ listed_of_faults hr hf
  · rintro ⟨host, hl, hres⟩
    have hmem := List.mem_of_find?_eq_some hl.1
    exact faults_of_listed hr hi (isSpace_name hmem) (hh ▸ hl) hres

theorem resolve_error_iff : (∃ f, resolve cfg dst = .error f) ↔ ¬ Routed cfg dst := by
  rw [← resolve_isOk_iff]
  cases resolve cfg dst with
  | ok hop => simp
  | error f => simp

theorem host_faults_iff (hr : cfg.isRouter = false) (hi : cfg.ifaces ≠ [])
    (hh : cfg.hosts = loadHosts file) :
    (∀ f, Faults cfg f ↔
        ∃ host, Listed (loadHosts file) host ∧ resolve cfg host.addr = .error f) ∧
      ((∃ f, Faults cfg f) ↔
        ∃ host, Listed (loadHosts file) host ∧ ¬ Routed cfg host.addr) ∧
      ∀ line ∈ getlines file, words line = [] → Faults cfg .invalidArgument := by
  refine ⟨fun f => faults_iff hr hi hh, ?_, fun line => faults_of_blank_line hr hi hh⟩
  simp only [faults_iff hr hi hh, ← resolve_error_iff]
  rw [exists_comm]
  exact exists_congr fun host => exists_and_left

def hostsFile : List Char := Lines.unlines '\n' ["B 10.0.0.2".toList]

theorem hosts_hostA : hostA.hosts = loadHosts hostsFile := by
  have hlines : getlines hostsFile = ["B 10.0.0.2".toList] := getlines_unlines (by decide)
  rw [loadHosts, hlines]
  decide

theorem host_faults_iff_hostA :
    (∀ f, Faults hostA f ↔
        ∃ host, Listed (loadHosts hostsFile) host ∧ resolve hostA host.addr = .error f) ∧
      ((∃ f, Faults hostA f) ↔
        ∃ host, Listed (loadHosts hostsFile) host ∧ ¬ Routed hostA host.addr) ∧
      ∀ line ∈ getlines hostsFile, words line = [] → Faults hostA .invalidArgument :=
  host_faults_iff rfl (by decide) hosts_hostA

end NetworkEmulator.Station

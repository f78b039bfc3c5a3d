import NetworkEmulator.Bridge.Table
import NetworkEmulator.Foundation.Run
import Mathlib.Data.Finset.Insert
import Mathlib.Data.Finset.Erase

namespace NetworkEmulator.Bridge

open Transition

structure State where
  numPorts : Int
  currPorts : Int
  clients : List ClientData
  listenFd : Port
  btable : BridgeTable
  allSet : Finset Port
  maxFd : Port
  stop : Bool

-- what the kernel answers to the calls of one iteration: select, accept, the reads, the writes
-- and the clock at the sweep and at the two calls of add_arp_entry
structure Wake where
  readSet : Finset Port
  sweep : Milliseconds
  cliFd : Port
  line : Option String
  frame : Option EtherPkt
  wrote : Port → Bool
  learnDst : Milliseconds
  learnSrc : Milliseconds

inductive Out where
  | accept (fd : Port)
  | reject (fd : Port)
  | read (fd : Port) (pkt : EtherPkt)
  | write (fd : Port) (pkt : EtherPkt)
  | broken (fd : Port)
  | overrun (fd : Port)
  | disconnect (fd : Port)
deriving DecidableEq, Repr

def written (out : List Out) : List Port :=
  out.filterMap fun
    | .write fd _ => some fd
    | _ => none

def fdSetSize : Port := 1024

-- FD_SET has no bit for a descriptor from FD_SETSIZE on and writes behind the set instead
def fdSet (fd : Port) (set : Finset Port) : Finset Port :=
  if fd < fdSetSize then insert fd set else set

def removeClient (s : State) (fd : Port) (index : Nat) : State :=
  { s with
    allSet := s.allSet.erase fd
    clients := s.clients.eraseIdx index
    currPorts := s.currPorts - 1 }

def pushClient (s : State) (fd : Port) : State :=
  { s with
    clients := s.clients ++ [⟨fd⟩]
    allSet := fdSet fd s.allSet
    maxFd := if fd > s.maxFd then fd else s.maxFd
    currPorts := s.currPorts + 1 }

-- what the process does once FD_SET has written behind all_set is undefined: it ends here
def acceptClient (s : State) (w : Wake) : State × List Out :=
  let s := pushClient s w.cliFd
  if fdSetSize ≤ w.cliFd then ({ s with stop := true }, [.overrun w.cliFd])
  else if w.wrote w.cliFd = false then ({ s with stop := true }, [.broken w.cliFd])
  else if s.currPorts > s.numPorts then
    (removeClient s w.cliFd (s.clients.length - 1), [.reject w.cliFd])
  else ({ s with btable := addPort w.cliFd s.btable }, [.accept w.cliFd])

-- "debug" and "show sl" print; my_read ends the process when the line is none
def console (s : State) : Option String → State
  | none => { s with stop := true }
  | some line => if line.startsWith "off" then { s with stop := true } else s

def writeAll (wrote : Port → Bool) (pkt : EtherPkt) : List Port → List Out
  | [] => []
  | fd :: fds => if wrote fd then .write fd pkt :: writeAll wrote pkt fds else [.broken fd]

def learnSource (w : Wake) (fd : Port) (pkt : EtherPkt) (btable : BridgeTable) : BridgeTable :=
  if hasArpEntryOn btable fd pkt.macSrc = none then addArpEntry fd pkt.macSrc w.learnSrc btable
  else btable

def learnDestination (w : Wake) (fd : Port) (pkt : EtherPkt) (btable : BridgeTable) :
    BridgeTable :=
  if pkt.macDst ≠ "" then addArpEntry fd pkt.macDst w.learnDst btable else btable

def handleFrame (s : State) (w : Wake) (i : Nat) (fd : Port) (pkt : EtherPkt) :
    State × List Out :=
  match hasArpEntry s.btable s.clients pkt.macDst with
  | none =>
    let others := (s.clients.eraseIdx i).map ClientData.fd
    let out := .read fd pkt :: writeAll w.wrote pkt others
    if others.all w.wrote then
      ({ s with btable := learnSource w fd pkt (learnDestination w fd pkt s.btable) }, out)
    else ({ s with stop := true }, out)
  | some nhopFd =>
    let out := .read fd pkt :: writeAll w.wrote pkt [nhopFd]
    if w.wrote nhopFd then ({ s with btable := learnSource w fd pkt s.btable }, out)
    else ({ s with stop := true }, out)

-- the loop over clients_ handles the first ready descriptor and breaks
def firstReady (readSet : Finset Port) : List ClientData → Option (Nat × ClientData)
  | [] => none
  | c :: clients =>
    if c.fd ∈ readSet then some (0, c)
    else (firstReady readSet clients).map fun r => (r.1 + 1, r.2)

def serveClient (s : State) (w : Wake) : State × List Out :=
  match firstReady w.readSet s.clients with
  | none => (s, [])
  | some (i, c) =>
    match w.frame with
    | some pkt => handleFrame s w i c.fd pkt
    | none => (removeClient s c.fd i, [.disconnect c.fd])

def openFds (s : State) : List Port := [0, 1, 2, s.listenFd] ++ s.clients.map ClientData.fd

-- select reports members of the set below nfds; accept returns a descriptor that is not open
def Answers (s : State) (w : Wake) : Prop :=
  w.readSet ⊆ s.allSet ∧ (∀ fd ∈ w.readSet, fd ≤ s.maxFd) ∧
    (s.listenFd ∈ w.readSet → 0 ≤ w.cliFd ∧ w.cliFd ∉ openFds s)

instance (s : State) (w : Wake) : Decidable (Answers s w) :=
  inferInstanceAs (Decidable (_ ∧ _ ∧ (_ → _)))

def swept (s : State) (w : Wake) : BridgeTable := monitorArpCache w.sweep s.btable

def afterSweep (s : State) (w : Wake) : State := { s with btable := swept s w }

def dispatch (s : State) (w : Wake) : State × List Out :=
  if s.listenFd ∈ w.readSet then acceptClient s w
  else if (0 : Port) ∈ w.readSet then (console s w.line, [])
  else serveClient s w

def step (s : State) (w : Wake) : Option (State × List Out) :=
  if s.stop ∨ ¬ Answers s w then none
  else some (dispatch (afterSweep s w) w)

-- without a bit for listen_fd_ start() is undefined before its first iteration
def machine (numPorts : Int) (listenFd : Port) : Machine State Wake Out where
  init :=
    { numPorts := numPorts, currPorts := 0, clients := [], listenFd := listenFd, btable := ∅
      allSet := fdSet listenFd {0}, maxFd := listenFd, stop := decide (fdSetSize ≤ listenFd) }
  step := step

def Wake.blank : Wake :=
  { readSet := ∅, sweep := 0, cliFd := 0, line := none, frame := none, wrote := fun _ => true
    learnDst := 0, learnSrc := 0 }

def Wake.connect (listenFd fd : Port) : Wake :=
  { Wake.blank with readSet := {listenFd}, cliFd := fd }

def Wake.hangup (fd : Port) : Wake := { Wake.blank with readSet := {fd} }

def Wake.carry (fd : Port) (pkt : EtherPkt) : Wake :=
  { Wake.blank with readSet := {fd}, frame := some pkt }

def frameTo (macDst macSrc : MacAddr) : EtherPkt :=
  { EtherPkt.uninit ⟨1, 0⟩ macSrc with macDst := macDst }

@[simp] theorem afterSweep_clients (s : State) (w : Wake) :
    (afterSweep s w).clients = s.clients := rfl

@[simp] theorem afterSweep_btable (s : State) (w : Wake) :
    (afterSweep s w).btable = swept s w := rfl

@[simp] theorem pushClient_clients (s : State) (fd : Port) :
    (pushClient s fd).clients = s.clients ++ [⟨fd⟩] := rfl

@[simp] theorem pushClient_btable (s : State) (fd : Port) : (pushClient s fd).btable = s.btable := rfl

@[simp] theorem removeClient_clients (s : State) (fd : Port) (i : Nat) :
    (removeClient s fd i).clients = s.clients.eraseIdx i := rfl

@[simp] theorem removeClient_btable (s : State) (fd : Port) (i : Nat) :
    (removeClient s fd i).btable = s.btable := rfl

@[simp] theorem eraseIdx_snoc (clients : List ClientData) (c : ClientData) :
    (clients ++ [c]).eraseIdx clients.length = clients := by
  rw [List.eraseIdx_append_of_length_le (Nat.le_refl _)]
  simp

theorem firstReady_some {readSet : Finset Port} {clients : List ClientData} {i : Nat}
    {c : ClientData} (h : firstReady readSet clients = some (i, c)) :
    clients[i]? = some c ∧ c.fd ∈ readSet := by
  induction clients generalizing i with
  | nil => simp [firstReady] at h
  | cons d clients ih =>
    by_cases hd : d.fd ∈ readSet
    · simp only [firstReady, hd, if_true, Option.some.injEq, Prod.mk.injEq] at h
      obtain ⟨rfl, rfl⟩ := h
      exact ⟨rfl, hd⟩
    · simp only [firstReady, hd, if_false, Option.map_eq_some_iff] at h
      obtain ⟨⟨j, e⟩, hj, he⟩ := h
      obtain ⟨rfl, rfl⟩ := Prod.mk.inj he
      simpa using ih hj

theorem writeAll_all {wrote : Port → Bool} {fds : List Port} (pkt : EtherPkt)
    (h : fds.all wrote = true) : writeAll wrote pkt fds = fds.map (.write · pkt) := by
  induction fds with
  | nil => rfl
  | cons fd fds ih =>
    simp only [List.all_cons, Bool.and_eq_true] at h
    simp [writeAll, h.1, ih h.2]

theorem broken_mem_writeAll {wrote : Port → Bool} {fds : List Port} (pkt : EtherPkt)
    (h : fds.all wrote = false) : ∃ fd, Out.broken fd ∈ writeAll wrote pkt fds := by
  induction fds with
  | nil => simp at h
  | cons fd fds ih =>
    by_cases hfd : wrote fd = true
    · obtain ⟨fd', h'⟩ := ih (by simpa [hfd] using h)
      exact ⟨fd', by simp [writeAll, hfd, h']⟩
    · exact ⟨fd, by simp [writeAll, hfd]⟩

theorem mem_writeAll {wrote : Port → Bool} {fds : List Port} {pkt : EtherPkt} {o : Out}
    (h : o ∈ writeAll wrote pkt fds) : ∃ fd ∈ fds, o = .write fd pkt ∨ o = .broken fd := by
  induction fds with
  | nil => simp [writeAll] at h
  | cons fd fds ih =>
    by_cases hfd : wrote fd = true
    · simp only [writeAll, hfd, if_true, List.mem_cons] at h
      rcases h with rfl | h
      · exact ⟨fd, by simp, Or.inl rfl⟩
      · obtain ⟨fd', hm, ho⟩ := ih h
        exact ⟨fd', List.mem_cons_of_mem _ hm, ho⟩
    · simp only [writeAll, hfd, if_false, List.mem_singleton, Bool.false_eq_true] at h
      exact ⟨fd, by simp, Or.inr h⟩

theorem written_writeAll (wrote : Port → Bool) (fds : List Port) (pkt : EtherPkt) :
    (written (writeAll wrote pkt fds)).Sublist fds := by
  induction fds with
  | nil => exact List.Sublist.slnil
  | cons fd fds ih =>
    by_cases hfd : wrote fd = true
    · simpa [writeAll, hfd, written] using ih
    · simp [writeAll, hfd, written]

def others (s : State) (i : Nat) : List Port := (s.clients.eraseIdx i).map ClientData.fd

inductive Iteration (s : State) (w : Wake) : State → List Out → Prop
  | overrun (hl : s.listenFd ∈ w.readSet) (fresh : w.cliFd ∉ openFds s)
      (past : fdSetSize ≤ w.cliFd) :
      Iteration s w { pushClient (afterSweep s w) w.cliFd with stop := true } [.overrun w.cliFd]
  | greetFailed (fresh : w.cliFd ∉ openFds s) (fits : w.cliFd < fdSetSize) :
      Iteration s w { pushClient (afterSweep s w) w.cliFd with stop := true } [.broken w.cliFd]
  | reject (fresh : w.cliFd ∉ openFds s) (full : s.numPorts < s.currPorts + 1)
      (fits : w.cliFd < fdSetSize) :
      Iteration s w (removeClient (pushClient (afterSweep s w) w.cliFd) w.cliFd s.clients.length)
        [.reject w.cliFd]
  | accept (fresh : w.cliFd ∉ openFds s) (room : s.currPorts + 1 ≤ s.numPorts)
      (fits : w.cliFd < fdSetSize) :
      Iteration s w
        { pushClient (afterSweep s w) w.cliFd with btable := addPort w.cliFd (swept s w) }
        [.accept w.cliFd]
  | idle (stop : Bool) : Iteration s w { afterSweep s w with stop := stop } []
  | disconnect (i : Nat) (c : ClientData) (hi : s.clients[i]? = some c) (hf : w.frame = none) :
      Iteration s w (removeClient (afterSweep s w) c.fd i) [.disconnect c.fd]
  | flood (i : Nat) (c : ClientData) (pkt : EtherPkt) (hi : s.clients[i]? = some c)
      (hf : w.frame = some pkt) (hm : hasArpEntry (swept s w) s.clients pkt.macDst = none) :
      Iteration s w
        { afterSweep s w with
          btable := learnSource w c.fd pkt (learnDestination w c.fd pkt (swept s w)) }
        (.read c.fd pkt :: (others s i).map (.write · pkt))
  | unicast (i : Nat) (c : ClientData) (pkt : EtherPkt) (nhopFd : Port)
      (hi : s.clients[i]? = some c) (hf : w.frame = some pkt)
      (hm : hasArpEntry (swept s w) s.clients pkt.macDst = some nhopFd) :
      Iteration s w { afterSweep s w with btable := learnSource w c.fd pkt (swept s w) }
        [.read c.fd pkt, .write nhopFd pkt]
  | writeFailed (i : Nat) (c : ClientData) (pkt : EtherPkt) (out : List Out)
      (hi : s.clients[i]? = some c) (hf : w.frame = some pkt)
      (hout : ∀ o ∈ out, ∃ fd, o = .write fd pkt ∨ o = .broken fd)
      (hbroken : ∃ fd, Out.broken fd ∈ out)
      (hsub : (written out).Sublist (s.clients.map ClientData.fd)) :
      Iteration s w { afterSweep s w with stop := true } (.read c.fd pkt :: out)

theorem iteration_frame {s : State} {w : Wake} {i : Nat} {c : ClientData} {pkt : EtherPkt}
    (hi : s.clients[i]? = some c) (hf : w.frame = some pkt) :
    Iteration s w (handleFrame (afterSweep s w) w i c.fd pkt).1
      (handleFrame (afterSweep s w) w i c.fd pkt).2 := by
  unfold handleFrame
  simp only [afterSweep_btable, afterSweep_clients]
  cases hm : hasArpEntry (swept s w) s.clients pkt.macDst with
  | none =>
    by_cases hall : ((s.clients.eraseIdx i).map ClientData.fd).all w.wrote = true
    · simp only [hall, if_true, writeAll_all pkt hall]
      exact .flood i c pkt hi hf hm
    · simp only [hall, if_false, Bool.false_eq_true]
      have hsub := (written_writeAll w.wrote (others s i) pkt).trans
        ((List.eraseIdx_sublist _ _).map _)
      refine .writeFailed i c pkt _ hi hf (fun o ho => ?_)
        (broken_mem_writeAll pkt (by simpa using hall)) hsub
      obtain ⟨fd, -, h⟩ := mem_writeAll ho
      exact ⟨fd, h⟩
  | some nhopFd =>
    by_cases hw : w.wrote nhopFd = true
    · simp only [hw, if_true, writeAll]
      exact .unicast i c pkt nhopFd hi hf hm
    · simp only [hw, if_false, Bool.false_eq_true, writeAll]
      exact .writeFailed i c pkt _ hi hf (by simp) ⟨nhopFd, by simp⟩ (List.nil_sublist _)

theorem iteration_accept {s : State} {w : Wake} (hl : s.listenFd ∈ w.readSet)
    (fresh : w.cliFd ∉ openFds s) :
    Iteration s w (acceptClient (afterSweep s w) w).1 (acceptClient (afterSweep s w) w).2 := by
  have hlast : (pushClient (afterSweep s w) w.cliFd).clients.length - 1 = s.clients.length := by
    simp
  unfold acceptClient
  by_cases hover : fdSetSize ≤ w.cliFd
  · simp only [hover, if_true]
    exact .overrun hl fresh hover
  have hfits := Int.not_le.mp hover
  by_cases hw : w.wrote w.cliFd = false
  · simp only [hover, hw, if_true, if_false]
    exact .greetFailed fresh hfits
  · by_cases hn : s.currPorts + 1 > s.numPorts
    · have hn' : (pushClient (afterSweep s w) w.cliFd).currPorts >
        (pushClient (afterSweep s w) w.cliFd).numPorts := hn
      simp only [hover, hw, hn', if_true, if_false, hlast]
      exact .reject fresh hn hfits
    · have hn' : ¬ (pushClient (afterSweep s w) w.cliFd).currPorts >
        (pushClient (afterSweep s w) w.cliFd).numPorts := hn
      simp only [hover, hw, hn', if_false]
      exact .accept fresh (Int.not_lt.mp hn) hfits

theorem iteration_console {s : State} {w : Wake} :
    Iteration s w (console (afterSweep s w) w.line) [] := by
  cases w.line with
  | none => exact .idle true
  | some line =>
    simp only [console]
    split_ifs
    · exact .idle true
    · exact .idle s.stop

theorem iteration_serve {s : State} {w : Wake} :
    Iteration s w (serveClient (afterSweep s w) w).1 (serveClient (afterSweep s w) w).2 := by
  simp only [serveClient]
  split
  · exact .idle s.stop
  · rename_i i c hr
    have hi : s.clients[i]? = some c := (firstReady_some hr).1
    split
    · rename_i hf
      exact iteration_frame hi hf
    · rename_i hf
      exact .disconnect i c hi hf

theorem iteration_of_step {s s' : State} {w : Wake} {out : List Out}
    (h : step s w = some (s', out)) : Iteration s w s' out := by
  unfold step at h
  split at h
  · simp at h
  · rename_i hrun
    have hans : Answers s w := by
      by_contra hn
      exact hrun (Or.inr hn)
    obtain ⟨rfl, rfl⟩ := Prod.ext_iff.mp (Option.some.inj h)
    unfold dispatch
    by_cases hl : (afterSweep s w).listenFd ∈ w.readSet
    · rw [if_pos hl]
      exact iteration_accept hl (hans.2.2 hl).2
    · rw [if_neg hl]
      split_ifs
      · exact iteration_console
      · exact iteration_serve

inductive Relays (s : State) (w : Wake) (pkt : EtherPkt) : Port → State → List Out → Prop
  | flood (i : Nat) (c : ClientData) (hi : s.clients[i]? = some c)
      (hm : hasArpEntry (swept s w) s.clients pkt.macDst = none) :
      Relays s w pkt c.fd
        { afterSweep s w with
          btable := learnSource w c.fd pkt (learnDestination w c.fd pkt (swept s w)) }
        (.read c.fd pkt :: (others s i).map (.write · pkt))
  | unicast (i : Nat) (c : ClientData) (nhopFd : Port) (hi : s.clients[i]? = some c)
      (hm : hasArpEntry (swept s w) s.clients pkt.macDst = some nhopFd) :
      Relays s w pkt c.fd { afterSweep s w with btable := learnSource w c.fd pkt (swept s w) }
        [.read c.fd pkt, .write nhopFd pkt]

theorem relays_of_read {s s' : State} {w : Wake} {out : List Out} {fd : Port} {pkt : EtherPkt}
    (hs : step s w = some (s', out)) (hread : Out.read fd pkt ∈ out)
    (hok : ∀ fd', Out.broken fd' ∉ out) : Relays s w pkt fd s' out := by
  cases iteration_of_step hs with
  | overrun | greetFailed | reject | accept | idle | disconnect => simp at hread
  | writeFailed i c pkt' out hi hf hout hbroken =>
    obtain ⟨fd', hfd'⟩ := hbroken
    exact absurd (List.mem_cons_of_mem _ hfd') (hok fd')
  | flood i c pkt' hi hf hm =>
    obtain ⟨rfl, rfl⟩ : fd = c.fd ∧ pkt = pkt' := by simpa using hread
    exact .flood i c hi hm
  | unicast i c pkt' nhopFd hi hf hm =>
    obtain ⟨rfl, rfl⟩ : fd = c.fd ∧ pkt = pkt' := by simpa using hread
    exact .unicast i c nhopFd hi hm

end NetworkEmulator.Bridge

import NetworkEmulator.Bridge.Consistent
import NetworkEmulator.Station.Connect
import NetworkEmulator.Wire.Framing

namespace NetworkEmulator.Bridge

open Transition Layout Wire Station

variable {numPorts : Int} {listenFd : Port} {s s' : State} {w : Wake} {fd : Port}
  {before since h out : List Out}

def bytesTo (fd : Port) (t : ByteOut) : Bytes :=
  match t.out with
  | .accept cliFd => if cliFd = fd then greeting else []
  | .reject cliFd => if cliFd = fd then rejection else []
  | .write cliFd _ => if cliFd = fd then t.read.frame.bytes else []
  | .read _ _ | .broken _ | .overrun _ | .disconnect _ => []

def Out.writeFd : Out → Option Port
  | .write fd _ => some fd
  | .accept _ | .reject _ | .read _ _ | .broken _ | .overrun _ | .disconnect _ => none

def relayed (fd : Port) (since : List ByteOut) : List (Buffer sizeofEtherPkt) :=
  (readsFrom Out.writeFd fd since).map Read.frame

theorem relays_only {pkt : EtherPkt} {c : Port}
    (hout : ∀ o ∈ out, ∃ fd, o = .write fd pkt ∨ o = .broken fd) :
    .accept fd ∉ .read c pkt :: out ∧ .reject fd ∉ .read c pkt :: out := by
  have hno : ∀ o, o ∈ out → o ≠ .accept fd ∧ o ≠ .reject fd := by
    intro o ho
    obtain ⟨fd', rfl | rfl⟩ := hout o ho
    · exact ⟨nofun, nofun⟩
    · exact ⟨nofun, nofun⟩
  constructor
  · simpa using fun ha => (hno _ ha).1 rfl
  · simpa using fun hr => (hno _ hr).2 rfl

theorem client_of_accept (hs : step s w = some (s', out)) (ha : .accept fd ∈ out) :
    out = [.accept fd] ∧ fd ∈ fds s'.clients := by
  cases iteration_of_step hs with
  | accept fresh room =>
    obtain rfl := Out.accept.inj (List.mem_singleton.mp ha)
    exact ⟨rfl, by simp [fds]⟩
  | writeFailed i c pkt out hi hf hout => exact absurd ha (relays_only hout).1
  | overrun | greetFailed | reject | idle | disconnect | flood | unicast => simp at ha

theorem client_of_step (hw : Wired s) (hs : step s w = some (s', out)) (hfd : fd ∈ fds s.clients)
    (hno : .disconnect fd ∉ out) : fd ∈ fds s'.clients ∧ .reject fd ∉ out := by
  cases iteration_of_step hs with
  | overrun | greetFailed => exact ⟨by simp [fds] at hfd ⊢; exact Or.inl hfd, by simp⟩
  | accept => exact ⟨by simp [fds] at hfd ⊢; exact Or.inl hfd, by simp⟩
  | reject fresh =>
    have hnew : fd ≠ w.cliFd := by
      rintro rfl
      exact fresh (List.mem_append_right _ hfd)
    exact ⟨by simpa using hfd, by simpa using hnew⟩
  | idle => exact ⟨hfd, by simp⟩
  | disconnect i c hi =>
    have hother : fd ≠ c.fd := by simpa using hno
    exact ⟨(mem_fds_eraseIdx hw.distinct hi).mpr ⟨hother, hfd⟩, by simp⟩
  | flood => exact ⟨hfd, by simp⟩
  | unicast => exact ⟨hfd, by simp⟩
  | writeFailed i c pkt out hi hf hout => exact ⟨hfd, (relays_only hout).2⟩

theorem accept_or_extend {before since h out : List Out} (ha : h ++ out = before ++ .accept fd :: since) :
    .accept fd ∈ out ∧ since <:+ out ∨ ∃ since', h = before ++ .accept fd :: since' ∧
      since = since' ++ out := by
  rcases List.append_eq_append_iff.mp ha with ⟨as, -, hout⟩ | ⟨cs, hh, hout⟩
  · exact Or.inl ⟨by simp [hout], ⟨as ++ [.accept fd], by simp [hout]⟩⟩
  · cases cs with
    | nil =>
      have hall : out = .accept fd :: since := by simpa using hout.symm
      exact Or.inl ⟨by simp [hall], [.accept fd], hall.symm⟩
    | cons c cs =>
      obtain ⟨rfl, hsince⟩ := List.cons.inj hout
      exact Or.inr ⟨cs, hh, hsince⟩

theorem still_client {ms : List (Move State Wake Out)}
    (p : Path (machine numPorts listenFd) ms s h) (hh : h = before ++ .accept fd :: since)
    (hno : .disconnect fd ∉ since) : fd ∈ fds s.clients ∧ .reject fd ∉ since := by
  induction p generalizing since with
  | nil => simp at hh
  | @snoc ms s s' h out w p hs ih =>
    rcases accept_or_extend hh with ⟨hmem, hsuf⟩ | ⟨since', hh', rfl⟩
    · obtain ⟨rfl, hfd⟩ := client_of_accept hs hmem
      refine ⟨hfd, fun hr => ?_⟩
      simpa using hsuf.subset hr
    · obtain ⟨hno', hnout⟩ := not_or.mp (List.mem_append.not.mp hno)
      obtain ⟨hfd, hr⟩ := ih hh' hno'
      obtain ⟨hfd', hrout⟩ := client_of_step (wired p) hs hfd hnout
      exact ⟨hfd', fun hmem => (List.mem_append.mp hmem).elim hr hrout⟩

theorem relayed_cons (t : ByteOut) (since : List ByteOut) : relayed fd (t :: since) =
    if t.out.writeFd = some fd then t.read.frame :: relayed fd since else relayed fd since := by
  by_cases h : t.out.writeFd = some fd
  · simp [relayed, readsFrom, h]
  · simp [relayed, readsFrom, h]

theorem relayed_bytes {since : List ByteOut}
    (hno : ∀ t ∈ since, t.out ≠ .accept fd ∧ t.out ≠ .reject fd) :
    since.flatMap (bytesTo fd) = stream (relayed fd since) := by
  induction since with
  | nil => rfl
  | cons t since ih =>
    obtain ⟨⟨ha, hr⟩, hno⟩ := List.forall_mem_cons.mp hno
    rw [List.flatMap_cons, ih hno, relayed_cons]
    by_cases hw : t.out.writeFd = some fd
    · have hbytes : bytesTo fd t = t.read.frame.bytes := by
        cases ho : t.out with
        | write fd' pkt => simp_all [bytesTo, Out.writeFd]
        | accept | reject | read | broken | disconnect | overrun => simp [ho, Out.writeFd] at hw
      rw [if_pos hw, hbytes]
      rfl
    · have hbytes : bytesTo fd t = [] := by
        cases ho : t.out with
        | write fd' pkt => simp_all [bytesTo, Out.writeFd]
        | accept fd' => simp_all [bytesTo]
        | reject fd' => simp_all [bytesTo]
        | read | broken | disconnect | overrun => simp [bytesTo, ho]
      rw [if_neg hw, hbytes]
      rfl

theorem connection_bytes {blank : Buffer sizeofEtherPkt} {ms : List ByteMove} {s : ByteState}
    {before since : List ByteOut} {t : ByteOut}
    (p : Path (receiver blank numPorts listenFd).bytes ms s (before ++ t :: since))
    (ht : t.out = .accept fd)
    (hopen : ∀ t ∈ since, t.out ≠ .accept fd ∧ t.out ≠ .disconnect fd) :
    (t :: since).flatMap (bytesTo fd) = greeting ++ stream (relayed fd since) := by
  obtain ⟨ms', hp⟩ := refines p
  have hlog : (before ++ t :: since).map Traced.out =
      before.map Traced.out ++ .accept fd :: since.map Traced.out := by simp [ht]
  have hno : .disconnect fd ∉ since.map Traced.out := by
    intro hmem
    obtain ⟨t', ht', heq⟩ := List.mem_map.mp hmem
    exact (hopen t' ht').2 heq
  have hreject := (still_client hp hlog hno).2
  have hsince : since.flatMap (bytesTo fd) = stream (relayed fd since) := by
    refine relayed_bytes fun t ht' => ⟨(hopen t ht').1, fun heq => ?_⟩
    exact hreject (heq ▸ List.mem_map_of_mem ht')
  have hgreet : bytesTo fd t = greeting := by simp [bytesTo, ht]
  rw [List.flatMap_cons, hgreet, hsince]

end NetworkEmulator.Bridge

namespace NetworkEmulator.Wire

open Transition Layout Station

structure ReadsGreeting (conn taken : Bytes) (frames : List (Buffer sizeofEtherPkt)) : Prop where
  greeting : taken = greeting
  framed : conn.drop taken.length = stream frames

variable {blank : Buffer sizeofEtherPkt} {numPorts : Int} {listenFd : Port} {fd : Port}
  {ms : List Bridge.ByteMove} {s : Bridge.ByteState} {before since : List Bridge.ByteOut}
  {t : Bridge.ByteOut} {msg : Buffer msgSize} {peers : List Peer} {q : Peer} {taken behind : Bytes}
  {j : Fin 5}

theorem taken_eq (hq : (q, taken) ∈ (connectAll msg peers).log)
    (hj : q.answers j = .accepted behind) (hbefore : ∀ k < j, q.answers k = .unanswered) :
    taken = (greeting ++ behind).take msgSize := by
  rcases taken_of_log hq with hnil | ⟨msg', htaken⟩
  · simp at hnil
  · exact htaken.trans (taken_of_accepted hj hbefore)

theorem take_greeting_iff : (greeting ++ behind).take msgSize = greeting ↔ behind = [] := by
  constructor
  · intro h
    have hlen := congrArg List.length h
    simp only [greeting, msgSize, List.length_take, List.length_append, List.length_cons,
      List.length_nil] at hlen
    exact List.eq_nil_of_length_eq_zero (by omega)
  · rintro rfl
    rfl

theorem handshake_exact_iff
    (p : Path (Bridge.receiver blank numPorts listenFd).bytes ms s (before ++ t :: since))
    (ht : t.out = .accept fd) (hopen : ∀ t ∈ since, t.out ≠ .accept fd ∧ t.out ≠ .disconnect fd)
    (hq : (q, taken) ∈ (connectAll msg peers).log) (hj : q.answers j = .accepted behind)
    (hbefore : ∀ k < j, q.answers k = .unanswered)
    (harrived : greeting ++ behind <+: (t :: since).flatMap (Bridge.bytesTo fd)) :
    (ReadsGreeting ((t :: since).flatMap (Bridge.bytesTo fd)) taken (Bridge.relayed fd since) ↔
        behind = []) ∧
      (Bridge.relayed fd since = [] → behind = []) := by
  have htaken := taken_eq hq hj hbefore
  rw [Bridge.connection_bytes p ht hopen] at harrived ⊢
  constructor
  · rw [← take_greeting_iff]
    constructor
    · intro hr
      exact htaken.symm.trans hr.greeting
    · intro h
      have hexact := htaken.trans h
      exact ⟨hexact, by rw [hexact]; exact List.drop_left' rfl⟩
  · intro hnone
    rw [hnone] at harrived
    have hle := harrived.length_le
    simp only [stream, List.map_nil, List.flatten_nil, List.append_nil, List.length_append] at hle
    exact List.eq_nil_of_length_eq_zero (by omega)

-- a frame of one client is flooded to the next while it still waits for its greeting
def floodedAtOnce : List Bridge.ByteWake :=
  [⟨.connect 3 4, none, seen⟩, ⟨.connect 3 5, none, seen⟩, toBridge (hello.whole (by decide))]

def joined : Bridge.ByteOut := ⟨.accept 5, ⟨[], .zero _⟩⟩

def afterJoined : List Bridge.ByteOut := (bridge.trace floodedAtOnce).drop 2

def greeted (behind : Bytes) : Peer := ⟨(ifaceR2, ⟨5⟩), fun _ => .accepted behind⟩

theorem joined_trace : bridge.trace floodedAtOnce =
    [⟨.accept 4, ⟨[], .zero _⟩⟩] ++ joined :: afterJoined := by
  rfl

theorem joined_path : Path bridge (bridge.moves floodedAtOnce) (bridge.final floodedAtOnce)
    ([⟨.accept 4, ⟨[], .zero _⟩⟩] ++ joined :: afterJoined) :=
  joined_trace ▸ bridge.path floodedAtOnce (by decide +kernel)

theorem joined_open : ∀ t ∈ afterJoined, t.out ≠ .accept 5 ∧ t.out ≠ .disconnect 5 := by
  decide +kernel

theorem joined_bytes :
    (joined :: afterJoined).flatMap (Bridge.bytesTo 5) = greeting ++ hello.bytes := by
  decide +kernel

theorem none_before (k : Fin 5) (hk : k < 0) (p : Peer) : p.answers k = .unanswered :=
  absurd hk (Fin.not_lt_zero k)

theorem handshake_exact_iff_quiet :
    ReadsGreeting ((joined :: afterJoined).flatMap (Bridge.bytesTo 5)) greeting
      (Bridge.relayed 5 afterJoined) := by
  have harrived : greeting ++ [] <+: (joined :: afterJoined).flatMap (Bridge.bytesTo 5) := by
    rw [joined_bytes]
    exact ⟨hello.bytes, rfl⟩
  have hlog := attempted_first (.zero _) (greeted []) []
  exact (handshake_exact_iff (j := 0) joined_path rfl joined_open hlog rfl
    (fun k hk => none_before k hk _) harrived).1.mpr rfl

-- the read takes ninety-one bytes of the frame along
theorem flooded_frame_swallowed :
    ¬ ∀ blank numPorts listenFd fd ms s before since t msg peers q taken behind (j : Fin 5),
        Path (Bridge.receiver blank numPorts listenFd).bytes ms s (before ++ t :: since) →
        t.out = .accept fd → (∀ t ∈ since, t.out ≠ .accept fd ∧ t.out ≠ .disconnect fd) →
        (q, taken) ∈ (connectAll msg peers).log → q.answers j = .accepted behind →
        (∀ k < j, q.answers k = .unanswered) →
        greeting ++ behind <+: (t :: since).flatMap (Bridge.bytesTo fd) →
        ReadsGreeting ((t :: since).flatMap (Bridge.bytesTo fd)) taken
          (Bridge.relayed fd since) := by
  intro hall
  have harrived : greeting ++ hello.bytes <+:
      (joined :: afterJoined).flatMap (Bridge.bytesTo 5) := by
    rw [joined_bytes]
  have hlog := attempted_first (.zero _) (greeted hello.bytes) []
  have hfirst := fun k hk => none_before k hk (greeted hello.bytes)
  have hread := hall _ _ _ _ _ _ _ _ _ _ _ _ _ _ 0 joined_path rfl joined_open hlog rfl hfirst
    harrived
  have hnone := take_greeting_iff.mp ((taken_eq hlog rfl hfirst).symm.trans hread.greeting)
  exact absurd hnone (by decide +kernel)

end NetworkEmulator.Wire

import NetworkEmulator.Foundation.Descriptor
import NetworkEmulator.Startup.Publish

namespace NetworkEmulator.Startup

open Transition Descriptor

def bufSize : Nat := 100

-- what stands in buf and in sd->port before get_iface_socket sets them
structure Memory where
  buf : List Char
  port : Int

-- my_error ends the process; a buffer without a NUL is read past its end
inductive Failure where
  | error (msg : String)
  | overrun

def Disk.readlink (d : Disk) (path : List Char) : Option (List Char) :=
  if hp : Plain path then
    match d.cwd ⟨path, hp⟩ with
    | some (.link target) => some target
    | some .other | none => none
  else if path = [] then none
  else d.elsewhere path

def socketToBridge (limit : Nat) (fds : Open) (ip : List Char) (port : Int) :
    Except Failure (SocketData × InetAddr) :=
  match sockAddr ip port with
  | none => .error (.error "pton error")
  | some addr =>
    match free limit fds with
    | [] => .error (.error "Socket: Socket creation failed.")
    | fd :: _ => .ok (⟨fd⟩, addr)

-- the log line prints buf before anything is in it; a link of BUF_SIZE characters or more leaves
-- the memset behind readlink nothing to clear; the file is open while the socket is made
def getIfaceSocket (limit : Nat) (fds : Open) (d : Disk) (m : Memory) (lan : List Char) :
    Except Failure (SocketData × InetAddr) :=
  if '\x00' ∉ m.buf then .error .overrun
  else
    match d.readlink lan with
    | none => .error (.error "Error: could not read symlink.")
    | some target =>
      if bufSize ≤ target.length then .error .overrun
      else
        match free limit fds, d.files target with
        | file :: _, some content =>
          let (ip, port) := readAddress m.port content
          socketToBridge limit (file :: fds) ip port
        | _, _ => .error (.error ("Failed to open " ++ String.ofList lan ++ "."))

variable {limit : Nat} {fds : Open} {d : Disk} {m : Memory} {name target : List Char}
  {sd : SocketData} {a : InetAddr}

def Reads (d : Disk) (m : Memory) (path : List Char) (a : InetAddr) : Prop :=
  ∃ content, d.files path = some content ∧
    sockAddr (readAddress m.port content).1 (readAddress m.port content).2 = some a

def Resolves (d : Disk) (m : Memory) (name : List Char) (a : InetAddr) : Prop :=
  '\x00' ∈ m.buf ∧ ∃ target, d.readlink name = some target ∧ target.length < bufSize ∧
    Reads d m target a

theorem Resolves.name_ne_nil (hr : Resolves d m name a) : name ≠ [] := by
  rintro rfl
  obtain ⟨-, target, ht, -⟩ := hr
  cases ht

def Room (limit : Nat) (fds : Open) (sd : SocketData) : Prop :=
  ∃ file fd rest, free limit fds = file :: fd :: rest ∧ sd = ⟨fd⟩

theorem socketToBridge_ok {ip : List Char} {port : Int} :
    socketToBridge limit fds ip port = .ok (sd, a) ↔
      sockAddr ip port = some a ∧ ∃ fd rest, free limit fds = fd :: rest ∧ sd = ⟨fd⟩ := by
  unfold socketToBridge
  cases sockAddr ip port with
  | none => simp
  | some addr =>
    cases free limit fds with
    | nil => simp
    | cons fd rest => simp [and_comm, eq_comm]

theorem getIfaceSocket_ok :
    getIfaceSocket limit fds d m name = .ok (sd, a) ↔
      Room limit fds sd ∧ Resolves d m name a := by
  unfold getIfaceSocket Resolves Reads Room
  by_cases hm : '\x00' ∉ m.buf
  · simp [hm]
  rw [if_neg hm, iff_true_intro (not_not.mp hm), true_and]
  cases d.readlink name with
  | none => simp
  | some target =>
    simp only [Option.some.injEq, exists_eq_left']
    by_cases hlen : bufSize ≤ target.length
    · simp [hlen, Nat.not_lt.mpr hlen]
    · simp only [hlen, if_false, Nat.not_le.mp hlen, true_and]
      cases hf : free limit fds with
      | nil => simp
      | cons file more =>
        cases d.files target with
        | none => simp
        | some content =>
          simp only [socketToBridge_ok, free_first hf, Option.some.injEq, exists_eq_left',
            List.cons.injEq]
          constructor
          · rintro ⟨haddr, fd, rest, rfl, rfl⟩
            exact ⟨⟨file, fd, rest, ⟨rfl, rfl⟩, rfl⟩, haddr⟩
          · rintro ⟨⟨_, fd, rest, ⟨rfl, rfl⟩, rfl⟩, haddr⟩
            exact ⟨haddr, fd, rest, rfl, rfl⟩

variable {π : Type} {plan : π → Launch} {disk : Disk} {s : State π} {h : List (Out π)} {q : π}
  {lan : Name} {ms : List (Move (State π) (Event π) (Out π))}

def Announces (h : List (Out π)) (q : π) (lan : Name) : Prop :=
  ∃ h₁ h₂, h = h₁ ++ .published q lan :: h₂ ∧ ∀ r, .opened r lan ∉ h₂

theorem announces_of_lastTouch (ht : lastTouch lan h = some (some q)) : Announces h q lan := by
  obtain ⟨l₁, o, l₂, heq, ho, hno⟩ := List.findSome?_eq_some_iff.mp ht
  obtain rfl := touch_eq_some ho
  refine ⟨l₂.reverse, l₁.reverse, ?_, fun r hr => ?_⟩
  · rw [← List.reverse_reverse h, heq, List.reverse_append, List.reverse_cons, List.append_assoc]
    rfl
  · have hnone := hno _ (List.mem_reverse.mp hr)
    simp [touch] at hnone

theorem lastTouch_of_announces (hi : Published plan disk s h) (ha : Announces h q lan) :
    lastTouch lan h = some (some q) := by
  obtain ⟨h₁, h₂, rfl, hno⟩ := ha
  have hdone : ∀ r, .published r lan ∈ h₁ ++ .published q lan :: h₂ → r = q := by
    intro r hr
    exact hi.once r q lan (Or.inr (hi.done r lan hr)) (Or.inr (hi.done q lan (by simp)))
  rw [lastTouch, List.reverse_append, List.reverse_cons, List.append_assoc, List.findSome?_append]
  cases ht : h₂.reverse.findSome? (touch lan) with
  | none => simp [touch]
  | some t =>
    obtain ⟨o, ho, htouch⟩ := List.exists_of_findSome?_eq_some ht
    have hmem := List.mem_reverse.mp ho
    cases o with
    | opened r l =>
      rw [touch] at htouch
      split_ifs at htouch with hl
      exact absurd (hl ▸ hmem) (hno r)
    | published r l =>
      rw [touch] at htouch
      split_ifs at htouch with hl
      obtain rfl := hdone r (by simp [hl ▸ hmem])
      rw [← htouch]
      rfl
    | linked | failed => cases htouch

theorem lastTouch_eq_none_iff :
    lastTouch lan h = none ↔ (∀ r, .opened r lan ∉ h) ∧ ∀ r, .published r lan ∉ h := by
  rw [lastTouch, List.findSome?_eq_none_iff]
  constructor
  · intro hnone
    refine ⟨fun r hr => ?_, fun r hr => ?_⟩
    · simpa [touch] using hnone _ (List.mem_reverse.mpr hr)
    · simpa [touch] using hnone _ (List.mem_reverse.mpr hr)
  · rintro ⟨hopen, hpub⟩ o ho
    have hmem := List.mem_reverse.mp ho
    cases o with
    | opened r l =>
      have hl : l ≠ lan := by
        rintro rfl
        exact hopen r hmem
      exact if_neg hl
    | published r l =>
      have hl : l ≠ lan := by
        rintro rfl
        exact hpub r hmem
      exact if_neg hl
    | linked | failed => rfl

theorem reads_empty {path : List Char} (he : d.files path = some []) :
    ¬ Reads d m path a := by
  rintro ⟨content, hc, hr⟩
  obtain rfl := Option.some.inj (he.symm.trans hc)
  rw [sockAddr_nil] at hr
  cases hr

theorem reads_text {path : List Char} {b : InetAddr}
    (ht : d.files path = some b.text) : Reads d m path a ↔ a = b := by
  constructor
  · rintro ⟨content, hc, hr⟩
    obtain rfl := Option.some.inj (ht.symm.trans hc)
    rw [sockAddr_text] at hr
    exact (Option.some.inj hr).symm
  · rintro rfl
    exact ⟨_, ht, sockAddr_text _ _⟩

theorem readlink_eq : d.readlink lan.1 = some target ↔ d.cwd lan = some (.link target) := by
  unfold Disk.readlink
  rw [dif_pos lan.2]
  cases d.cwd lan with
  | none => simp
  | some e => cases e <;> simp

def Leads (plan : π → Launch) (disk : Disk) (h : List (Out π)) (m : Memory) (lan : Name)
    (a : InetAddr) : Prop :=
  '\x00' ∈ m.buf ∧ lan.1.length < 94 ∧
    ((∃ q, Announces h q lan ∧ a = (plan q).addr) ∨
      disk.cwd lan = some (.link (tmpPath lan)) ∧ (∀ r, .opened r lan ∉ h) ∧
        Reads disk m (tmpPath lan) a)

variable [DecidableEq π]

theorem resolves_iff (p : Path (machine plan disk) ms s h)
    (hlink : ∀ e, disk.cwd lan = some e → e = .link (tmpPath lan)) :
    Resolves s.disk m lan.1 a ↔ Leads plan disk h m lan a := by
  refine and_congr_right fun _ => ?_
  have hi := published p
  have hcontent := hi.content lan
  have hlen : (tmpPath lan).length < bufSize ↔ lan.1.length < 94 := by
    have heq : (tmpPath lan).length = 6 + lan.1.length := List.length_append
    rw [heq, bufSize]
    omega
  have hcwd : ∀ e, s.disk.cwd lan = some e → e = .link (tmpPath lan) := by
    intro e he
    rcases hi.linked lan with hsame | ⟨q, hh⟩
    · exact hlink e (hsame.symm.trans he)
    · exact Option.some.inj (he.symm.trans (hi.made q lan hh))
  constructor
  · rintro ⟨target, ht, hshort, hreads⟩
    have htarget := hcwd _ (readlink_eq.mp ht)
    obtain rfl := Entry.link.inj htarget
    refine ⟨hlen.mp hshort, ?_⟩
    cases htouch : lastTouch lan h with
    | some t =>
      rw [htouch] at hcontent
      cases t with
      | none => exact absurd hreads (reads_empty hcontent)
      | some q => exact Or.inl ⟨q, announces_of_lastTouch htouch, (reads_text hcontent).mp hreads⟩
    | none =>
      rw [htouch] at hcontent
      right
      rcases hi.linked lan with hsame | ⟨q, hh⟩
      · refine ⟨hsame.symm.trans (readlink_eq.mp ht), (lastTouch_eq_none_iff.mp htouch).1, ?_⟩
        obtain ⟨content, hc, hr⟩ := hreads
        exact ⟨content, hcontent.symm.trans hc, hr⟩
      · exact absurd htouch (hi.begun q lan (Or.inr hh))
  · rintro ⟨hshort, hcase⟩
    refine ⟨tmpPath lan, ?_, hlen.mpr hshort, ?_⟩
    · rw [readlink_eq]
      rcases hcase with ⟨q, ha, -⟩ | ⟨hold, -⟩
      · have hmem : .published q lan ∈ h := mem_of_lastTouch (lastTouch_of_announces hi ha)
        exact hi.made q lan (Or.inr (hi.done q lan hmem))
      · rcases hi.linked lan with hsame | ⟨q, hh⟩
        · exact hsame.trans hold
        · exact hi.made q lan hh
    · rcases hcase with ⟨q, ha, rfl⟩ | ⟨hold, hopen, content, hc, hr⟩
      · rw [lastTouch_of_announces hi ha] at hcontent
        exact (reads_text hcontent).mpr rfl
      · have hpub : ∀ r, .published r lan ∉ h := by
          intro r hr
          exact absurd (hold.symm.trans (hi.free r lan (Or.inr (hi.done r lan hr)))) (by simp)
        rw [lastTouch_eq_none_iff.mpr ⟨hopen, hpub⟩] at hcontent
        exact ⟨content, hcontent.trans hc, hr⟩

theorem resolved_iff (p : Path (machine plan disk) ms s h)
    (hlink : ∀ e, disk.cwd lan = some e → e = .link (tmpPath lan)) :
    getIfaceSocket limit fds s.disk m lan.1 = .ok (sd, a) ↔
      Room limit fds sd ∧ Leads plan disk h m lan a := by
  rw [getIfaceSocket_ok, resolves_iff p hlink]

theorem resolved_iff_first_start :
    getIfaceSocket 256 [0, 1, 2] ((machine startedTwice noFiles).final firstStart).disk
      ⟨['\x00'], 0⟩ cs1.1 = .ok (⟨4⟩, (startedTwice 0).addr) := by
  have hannounces : Announces ((machine startedTwice noFiles).trace firstStart) 0 cs1 :=
    ⟨[.opened 0 cs1, .linked 0 cs1], [], rfl, by simp⟩
  exact (resolved_iff ((machine startedTwice noFiles).path firstStart rfl)
    (fun _ he => nomatch he)).mpr
      ⟨⟨3, 4, _, rfl, rfl⟩, by decide, by decide, Or.inl ⟨0, hannounces, rfl⟩⟩

-- a second start cannot take the name, and leaves no address behind it
example : getIfaceSocket 256 [0, 1, 2] ((machine startedTwice noFiles).final
    (firstStart ++ [.open 1, .link 1])).disk ⟨['\x00'], 0⟩ cs1.1 =
      .error (.error "pton error") := rfl

end NetworkEmulator.Startup

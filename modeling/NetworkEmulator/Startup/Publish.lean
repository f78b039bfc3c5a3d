import NetworkEmulator.Foundation.Run
import NetworkEmulator.Startup.Address
import Mathlib.Logic.Function.Basic

namespace NetworkEmulator.Startup

open Transition

def maxHosts : Nat := 32

-- IP::host up to IP::host_cnt
structure Registry where
  hosts : List (List Char)
  bound : hosts.length ≤ maxHosts

-- every process has these of its own and starts without a host
def Registry.empty : Registry := ⟨[], Nat.zero_le _⟩

def Registry.hostExists (r : Registry) (host : List Char) : Bool := r.hosts.any (· = host)

def Registry.addHost (r : Registry) (host : List Char) : Option Registry :=
  if h : r.hosts.length < maxHosts then
    some ⟨r.hosts ++ [host], by rwa [List.length_append]⟩
  else none

-- the LAN_NAME and the NUM_PORTS that main hands to the constructor
def mainBridge : List (List Char) → Except String (List Char × List Char)
  | [_, lan, ports] =>
    if Registry.empty.hostExists lan then .error "Host already exists."
    else
      match Registry.empty.addHost lan with
      | none => .error "Exceed host capacity."
      | some _ => .ok (lan, ports)
  | _ => .error "LAN_NAME NUM_PORTS"

-- a name that stands for an entry of a directory
def Plain (name : List Char) : Prop :=
  name ≠ [] ∧ '/' ∉ name ∧ '\x00' ∉ name ∧ name ≠ ['.'] ∧ name ≠ ['.', '.'] ∧ name.length ≤ 255

instance {name : List Char} : Decidable (Plain name) := by
  unfold Plain
  infer_instance

abbrev Name := {name : List Char // Plain name}

-- a bridge that is started, and where the kernel puts its listening socket
structure Launch where
  args : List (List Char)
  addr : InetAddr
  plain : ∀ lan ports, mainBridge args = .ok (lan, ports) → Plain lan

def Launch.lanName (l : Launch) : Except String Name :=
  match h : mainBridge l.args with
  | .error err => .error err
  | .ok (lan, ports) => .ok ⟨lan, l.plain lan ports h⟩

inductive Entry where
  | link (target : List Char)
  | other

-- the entries of the working directory, where links at any other path lead to, and the files by
-- path
structure Disk where
  cwd : Name → Option Entry
  elsewhere : List Char → Option (List Char)
  files : List Char → Option (List Char)

-- fname << "./tmp/" << lan_name_
def tmpPath (lan : Name) : List Char := "./tmp/".toList ++ lan.1

inductive Phase where
  | waiting
  | opened (lan : Name)
  | linked (lan : Name)
  | started (lan : Name)
  | failed (err : String)

structure State (π : Type) where
  disk : Disk
  phase : π → Phase

-- the stream's own buffer is written out when create_symlink returns
inductive Event (π : Type) where
  | open (p : π)
  | link (p : π)
  | flush (p : π)

inductive Out (π : Type) where
  | opened (p : π) (lan : Name)
  | linked (p : π) (lan : Name)
  | published (p : π) (lan : Name)
  | failed (p : π) (err : String)

variable {π : Type} [DecidableEq π]

section Step
variable (plan : π → Launch) (s : State π)

def fail (p : π) (err : String) : State π × List (Out π) :=
  ({ s with phase := Function.update s.phase p (.failed err) }, [.failed p err])

-- opening for output truncates; symlink takes no name that is there
def step (s : State π) : Event π → Option (State π × List (Out π))
  | .open p =>
    match s.phase p with
    | .waiting =>
      match (plan p).lanName with
      | .error err => some (fail s p err)
      | .ok lan =>
        some ({
          disk := { s.disk with files := Function.update s.disk.files (tmpPath lan) (some []) }
          phase := Function.update s.phase p (.opened lan) }, [.opened p lan])
    | _ => none
  | .link p =>
    match s.phase p with
    | .opened lan =>
      if (s.disk.cwd lan).isSome then some (fail s p "Error: could not create symlink.")
      else
        some ({
          disk := { s.disk with cwd := Function.update s.disk.cwd lan (some (.link (tmpPath lan))) }
          phase := Function.update s.phase p (.linked lan) }, [.linked p lan])
    | _ => none
  | .flush p =>
    match s.phase p with
    | .linked lan =>
      let text := (plan p).addr.text
      let behind := ((s.disk.files (tmpPath lan)).getD []).drop text.length
      some ({
        disk := { s.disk with
          files := Function.update s.disk.files (tmpPath lan) (some (text ++ behind)) }
        phase := Function.update s.phase p (.started lan) }, [.published p lan])
    | _ => none

end Step

def machine (plan : π → Launch) (disk : Disk) : Machine (State π) (Event π) (Out π) where
  init := { disk := disk, phase := fun _ => .waiting }
  step := step plan

omit [DecidableEq π] in
-- the two guards of main are about the hosts of its own process
theorem mainBridge_ok_iff {args : List (List Char)} {lan ports : List Char} :
    mainBridge args = .ok (lan, ports) ↔ ∃ name, args = [name, lan, ports] := by
  constructor
  · intro h
    unfold mainBridge at h
    split at h
    · rename_i name lan' ports'
      change Except.ok (lan', ports') = _ at h
      obtain ⟨rfl, rfl⟩ := Prod.mk.inj (Except.ok.inj h)
      exact ⟨name, rfl⟩
    · cases h
  · rintro ⟨name, rfl⟩
    rfl

variable {plan : π → Launch} {disk : Disk} {s s' : State π} {e : Event π} {out h : List (Out π)}
  {p q : π} {lan : Name} {ms : List (Move (State π) (Event π) (Out π))}

inductive Happens (plan : π → Launch) (s : State π) : State π → Out π → Prop
  | refused (p : π) (err : String) (hp : s.phase p = .waiting)
      (hl : (plan p).lanName = .error err) :
      Happens plan s (fail s p err).1 (.failed p err)
  | opened (p : π) (lan : Name) (hp : s.phase p = .waiting) :
      Happens plan s
        { disk := { s.disk with files := Function.update s.disk.files (tmpPath lan) (some []) }
          phase := Function.update s.phase p (.opened lan) } (.opened p lan)
  | taken (p : π) (lan : Name) (hp : s.phase p = .opened lan)
      (hlink : (s.disk.cwd lan).isSome) :
      Happens plan s (fail s p "Error: could not create symlink.").1
        (.failed p "Error: could not create symlink.")
  | linked (p : π) (lan : Name) (hp : s.phase p = .opened lan) (hfree : s.disk.cwd lan = none) :
      Happens plan s
        { disk := { s.disk with
            cwd := Function.update s.disk.cwd lan (some (.link (tmpPath lan))) }
          phase := Function.update s.phase p (.linked lan) } (.linked p lan)
  | published (p : π) (lan : Name) (behind : List Char) (hp : s.phase p = .linked lan)
      (hbehind : s.disk.files (tmpPath lan) = some [] → behind = []) :
      Happens plan s
        { disk := { s.disk with
            files := Function.update s.disk.files (tmpPath lan)
              (some ((plan p).addr.text ++ behind)) }
          phase := Function.update s.phase p (.started lan) } (.published p lan)

theorem happens_of_step (hs : step plan s e = some (s', out)) :
    ∃ o, out = [o] ∧ Happens plan s s' o := by
  cases e with
  | «open» p =>
    simp only [step] at hs
    split at hs
    · rename_i hp
      split at hs
      · rename_i hl
        obtain ⟨rfl, rfl⟩ := Prod.mk.inj (Option.some.inj hs)
        exact ⟨_, rfl, .refused p _ hp hl⟩
      · obtain ⟨rfl, rfl⟩ := Prod.mk.inj (Option.some.inj hs)
        exact ⟨_, rfl, .opened p _ hp⟩
    · cases hs
  | link p =>
    simp only [step] at hs
    split at hs
    · rename_i hp
      split at hs
      · rename_i hlink
        obtain ⟨rfl, rfl⟩ := Prod.mk.inj (Option.some.inj hs)
        exact ⟨_, rfl, .taken p _ hp hlink⟩
      · rename_i hfree
        obtain ⟨rfl, rfl⟩ := Prod.mk.inj (Option.some.inj hs)
        exact ⟨_, rfl, .linked p _ hp (Option.not_isSome_iff_eq_none.mp hfree)⟩
    · cases hs
  | flush p =>
    simp only [step] at hs
    split at hs
    · rename_i hp
      obtain ⟨rfl, rfl⟩ := Prod.mk.inj (Option.some.inj hs)
      refine ⟨_, rfl, .published p _ _ hp fun hempty => ?_⟩
      rw [hempty, Option.getD_some, List.drop_nil]
    · cases hs

def Holds (s : State π) (p : π) (lan : Name) : Prop :=
  s.phase p = .linked lan ∨ s.phase p = .started lan

def touch (lan : Name) : Out π → Option (Option π)
  | .opened _ l => if l = lan then some none else none
  | .published p l => if l = lan then some (some p) else none
  | .linked _ _ | .failed _ _ => none

def lastTouch (lan : Name) (h : List (Out π)) : Option (Option π) :=
  h.reverse.findSome? (touch lan)

def written (plan : π → Launch) (disk : Disk) (lan : Name) :
    Option (Option π) → Option (List Char)
  | none => disk.files (tmpPath lan)
  | some none => some []
  | some (some q) => some (plan q).addr.text

structure Published (plan : π → Launch) (disk : Disk) (s : State π) (h : List (Out π)) : Prop where
  content : ∀ lan, s.disk.files (tmpPath lan) = written plan disk lan (lastTouch lan h)
  free : ∀ p lan, Holds s p lan → disk.cwd lan = none
  made : ∀ p lan, Holds s p lan → s.disk.cwd lan = some (.link (tmpPath lan))
  linked : ∀ lan, s.disk.cwd lan = disk.cwd lan ∨ ∃ p, Holds s p lan
  once : ∀ p q lan, Holds s p lan → Holds s q lan → p = q
  begun : ∀ p lan, s.phase p = .opened lan ∨ Holds s p lan → lastTouch lan h ≠ none
  done : ∀ q lan, .published q lan ∈ h → s.phase q = .started lan

omit [DecidableEq π] in
theorem lastTouch_snoc (o : Out π) :
    lastTouch lan (h ++ [o]) = (touch lan o).or (lastTouch lan h) := by
  rw [lastTouch, List.reverse_append, List.reverse_singleton, List.singleton_append,
    List.findSome?_cons]
  cases touch lan o <;> rfl

omit [DecidableEq π] in
theorem touch_eq_some {o : Out π} (ht : touch lan o = some (some q)) : o = .published q lan := by
  cases o with
  | opened _ l =>
    rw [touch] at ht
    split_ifs at ht
    cases ht
  | published _ l =>
    rw [touch] at ht
    split_ifs at ht with hl
    rw [hl, Option.some.inj (Option.some.inj ht)]
  | linked | failed => cases ht

omit [DecidableEq π] in
theorem mem_of_lastTouch (ht : lastTouch lan h = some (some q)) : .published q lan ∈ h := by
  obtain ⟨o, ho, htouch⟩ := List.exists_of_findSome?_eq_some ht
  exact touch_eq_some htouch ▸ List.mem_reverse.mp ho

theorem tmpPath_injective {lan lan' : Name} (heq : tmpPath lan = tmpPath lan') : lan = lan' :=
  Subtype.ext (List.append_cancel_left heq)

omit [DecidableEq π] in
theorem not_holds_of_waiting (hp : s.phase p = .waiting) (lan : Name) : ¬ Holds s p lan := by
  rintro (hh | hh)
  · exact Phase.noConfusion (hp.symm.trans hh)
  · exact Phase.noConfusion (hp.symm.trans hh)

omit [DecidableEq π] in
theorem not_holds_of_opened {lan' : Name} (hp : s.phase p = .opened lan') (lan : Name) :
    ¬ Holds s p lan := by
  rintro (hh | hh)
  · exact Phase.noConfusion (hp.symm.trans hh)
  · exact Phase.noConfusion (hp.symm.trans hh)

section Update
variable {ph : Phase} {d : Disk}

theorem phase_update (hq : q ≠ p) : (Function.update s.phase p ph) q = s.phase q :=
  Function.update_of_ne hq _ _

theorem holds_update_of_ne (hq : q ≠ p) :
    Holds { disk := d, phase := Function.update s.phase p ph } q lan ↔ Holds s q lan := by
  simp only [Holds, phase_update hq]

theorem holds_update_self :
    Holds { disk := d, phase := Function.update s.phase p ph } p lan ↔
      ph = .linked lan ∨ ph = .started lan := by
  simp only [Holds, Function.update_self]

theorem holds_of_update (hno : ∀ lan, ph ≠ .linked lan ∧ ph ≠ .started lan)
    (hh : Holds { disk := d, phase := Function.update s.phase p ph } q lan) :
    q ≠ p ∧ Holds s q lan := by
  have hq : q ≠ p := by
    rintro rfl
    exact (holds_update_self.mp hh).elim (hno lan).1 (hno lan).2
  exact ⟨hq, (holds_update_of_ne hq).mp hh⟩

end Update

theorem published_failed (hi : Published plan disk s h) (err : String)
    (hno : ∀ lan, ¬ Holds s p lan) :
    Published plan disk (fail s p err).1 (h ++ [.failed p err]) := by
  have hfail : ∀ lan, Phase.failed err ≠ .linked lan ∧ Phase.failed err ≠ .started lan :=
    fun lan => ⟨by simp, by simp⟩
  have hkeep : ∀ q lan, Holds s q lan → Holds (fail s p err).1 q lan := by
    intro q lan hh
    have hq : q ≠ p := fun he => hno lan (he ▸ hh)
    exact (holds_update_of_ne hq).mpr hh
  have htouch : ∀ lan, lastTouch lan (h ++ [.failed p err]) = lastTouch lan h :=
    fun lan => lastTouch_snoc _
  constructor
  · intro lan
    rw [htouch]
    exact hi.content lan
  · exact fun q lan hh => hi.free q lan (holds_of_update hfail hh).2
  · exact fun q lan hh => hi.made q lan (holds_of_update hfail hh).2
  · exact fun lan => (hi.linked lan).imp id fun ⟨q, hh⟩ => ⟨q, hkeep q lan hh⟩
  · exact fun q r lan hq hr =>
      hi.once q r lan (holds_of_update hfail hq).2 (holds_of_update hfail hr).2
  · intro q lan hq
    rw [htouch]
    rcases hq with hq | hh
    · by_cases hqp : q = p
      · subst hqp
        simp [fail] at hq
      · exact hi.begun q lan (Or.inl ((phase_update hqp).symm.trans hq))
    · exact hi.begun q lan (Or.inr (holds_of_update hfail hh).2)
  · intro q lan hq
    have hdone := hi.done q lan (by simpa using hq)
    have hqp : q ≠ p := fun he => hno lan (he ▸ Or.inr hdone)
    exact (phase_update hqp).trans hdone

omit [DecidableEq π] in
theorem content_update {c : List Char} {o : Out π} (hi : Published plan disk s h)
    (hself : written plan disk lan (lastTouch lan (h ++ [o])) = some c)
    (hother : ∀ l, l ≠ lan → touch l o = none) (l : Name) :
    Function.update s.disk.files (tmpPath lan) (some c) (tmpPath l) =
      written plan disk l (lastTouch l (h ++ [o])) := by
  by_cases hl : l = lan
  · subst hl
    rw [Function.update_self, hself]
  · have hpath : tmpPath l ≠ tmpPath lan := fun heq => hl (tmpPath_injective heq)
    rw [Function.update_of_ne hpath, lastTouch_snoc, hother l hl, Option.none_or]
    exact hi.content l

theorem published_opened (hi : Published plan disk s h) (hp : s.phase p = .waiting)
    (lan : Name) :
    Published plan disk
      { disk := { s.disk with files := Function.update s.disk.files (tmpPath lan) (some []) }
        phase := Function.update s.phase p (.opened lan) } (h ++ [.opened p lan]) := by
  have hopen : ∀ l, Phase.opened lan ≠ .linked l ∧ Phase.opened lan ≠ .started l :=
    fun l => ⟨by simp, by simp⟩
  have hself : lastTouch lan (h ++ [.opened p lan]) = some none := by
    rw [lastTouch_snoc, touch, if_pos rfl, Option.some_or]
  have hother : ∀ l, l ≠ lan → touch l (.opened p lan) = none := by
    intro l hl
    rw [touch, if_neg (Ne.symm hl)]
  have htouch : ∀ l, l ≠ lan → lastTouch l (h ++ [.opened p lan]) = lastTouch l h := by
    intro l hl
    rw [lastTouch_snoc, hother l hl, Option.none_or]
  constructor
  · exact content_update hi (by rw [hself]; rfl) hother
  · exact fun q l hh => hi.free q l (holds_of_update hopen hh).2
  · exact fun q l hh => hi.made q l (holds_of_update hopen hh).2
  · refine fun l => (hi.linked l).imp id fun ⟨q, hh⟩ => ⟨q, ?_⟩
    have hqp : q ≠ p := fun he => not_holds_of_waiting hp l (he ▸ hh)
    exact (holds_update_of_ne hqp).mpr hh
  · exact fun q r l hq hr =>
      hi.once q r l (holds_of_update hopen hq).2 (holds_of_update hopen hr).2
  · intro q l hq
    by_cases hl : l = lan
    · rw [hl, hself]
      simp
    · rw [htouch l hl]
      rcases hq with hq | hh
      · by_cases hqp : q = p
        · subst hqp
          have heq : Phase.opened lan = .opened l := (Function.update_self q _ s.phase).symm.trans hq
          exact absurd (Phase.opened.inj heq).symm hl
        · exact hi.begun q l (Or.inl ((phase_update hqp).symm.trans hq))
      · exact hi.begun q l (Or.inr (holds_of_update hopen hh).2)
  · intro q l hq
    have hdone := hi.done q l (by simpa using hq)
    have hqp : q ≠ p := fun he => not_holds_of_waiting hp l (he ▸ Or.inr hdone)
    exact (phase_update hqp).trans hdone

theorem published_linked (hi : Published plan disk s h) (hp : s.phase p = .opened lan)
    (hfree : s.disk.cwd lan = none) :
    Published plan disk
      { disk := { s.disk with cwd := Function.update s.disk.cwd lan (some (.link (tmpPath lan))) }
        phase := Function.update s.phase p (.linked lan) } (h ++ [.linked p lan]) := by
  have htouch : ∀ l, lastTouch l (h ++ [.linked p lan]) = lastTouch l h :=
    fun l => lastTouch_snoc _
  have hnobody : ∀ q, ¬ Holds s q lan := by
    intro q hh
    exact absurd (hfree.symm.trans (hi.made q lan hh)) (by simp)
  have hholds : ∀ {d : Disk} {q l},
      Holds { disk := d, phase := Function.update s.phase p (.linked lan) } q l →
        q = p ∧ l = lan ∨ q ≠ p ∧ l ≠ lan ∧ Holds s q l := by
    intro d q l hh
    by_cases hqp : q = p
    · subst hqp
      rcases holds_update_self.mp hh with heq | heq
      · exact Or.inl ⟨rfl, (Phase.linked.inj heq).symm⟩
      · cases heq
    · have hold := (holds_update_of_ne hqp).mp hh
      exact Or.inr ⟨hqp, fun hl => hnobody q (hl ▸ hold), hold⟩
  constructor
  · intro l
    rw [htouch]
    exact hi.content l
  · intro q l hh
    rcases hholds hh with ⟨-, rfl⟩ | ⟨-, -, hold⟩
    · rcases hi.linked l with hsame | ⟨r, hr⟩
      · exact hsame.symm.trans hfree
      · exact absurd hr (hnobody r)
    · exact hi.free q l hold
  · intro q l hh
    rcases hholds hh with ⟨-, rfl⟩ | ⟨-, hl, hold⟩
    · exact Function.update_self _ _ _
    · exact (Function.update_of_ne hl _ _).trans (hi.made q l hold)
  · intro l
    by_cases hl : l = lan
    · exact Or.inr ⟨p, hl ▸ holds_update_self.mpr (Or.inl rfl)⟩
    · rcases hi.linked l with hsame | ⟨q, hh⟩
      · exact Or.inl ((Function.update_of_ne hl _ _).trans hsame)
      · have hqp : q ≠ p := fun he => not_holds_of_opened hp l (he ▸ hh)
        exact Or.inr ⟨q, (holds_update_of_ne hqp).mpr hh⟩
  · intro q r l hq hr
    rcases hholds hq with ⟨hqp, hl⟩ | ⟨-, hl, hq⟩
    · rcases hholds hr with ⟨hrp, -⟩ | ⟨-, hl', -⟩
      · exact hqp.trans hrp.symm
      · exact absurd hl hl'
    · rcases hholds hr with ⟨-, hl'⟩ | ⟨-, -, hr⟩
      · exact absurd hl' hl
      · exact hi.once q r l hq hr
  · intro q l hq
    rw [htouch]
    rcases hq with hq | hh
    · have hqp : q ≠ p := by
        rintro rfl
        have heq : Phase.linked lan = .opened l := (Function.update_self q _ s.phase).symm.trans hq
        cases heq
      exact hi.begun q l (Or.inl ((phase_update hqp).symm.trans hq))
    · rcases hholds hh with ⟨-, rfl⟩ | ⟨-, -, hold⟩
      · exact hi.begun p l (Or.inl hp)
      · exact hi.begun q l (Or.inr hold)
  · intro q l hq
    have hdone := hi.done q l (by simpa using hq)
    have hqp : q ≠ p := fun he => not_holds_of_opened hp l (he ▸ Or.inr hdone)
    exact (phase_update hqp).trans hdone

omit [DecidableEq π] in
theorem empty_of_linked (hi : Published plan disk s h) (hp : s.phase p = .linked lan) :
    s.disk.files (tmpPath lan) = some [] := by
  have hcontent := hi.content lan
  cases ht : lastTouch lan h with
  | none => exact absurd ht (hi.begun p lan (Or.inr (Or.inl hp)))
  | some t =>
    cases t with
    | none => rwa [ht] at hcontent
    | some q =>
      have hdone := hi.done q lan (mem_of_lastTouch ht)
      have heq := hi.once p q lan (Or.inl hp) (Or.inr hdone)
      rw [← heq, hp] at hdone
      cases hdone

theorem published_flushed (hi : Published plan disk s h) (hp : s.phase p = .linked lan) :
    Published plan disk
      { disk := { s.disk with
          files := Function.update s.disk.files (tmpPath lan) (some (plan p).addr.text) }
        phase := Function.update s.phase p (.started lan) } (h ++ [.published p lan]) := by
  have hself : lastTouch lan (h ++ [.published p lan]) = some (some p) := by
    rw [lastTouch_snoc, touch, if_pos rfl, Option.some_or]
  have hother : ∀ l, l ≠ lan → touch l (.published p lan) = none := by
    intro l hl
    rw [touch, if_neg (Ne.symm hl)]
  have htouch : ∀ l, l ≠ lan → lastTouch l (h ++ [.published p lan]) = lastTouch l h := by
    intro l hl
    rw [lastTouch_snoc, hother l hl, Option.none_or]
  have hholds : ∀ {d : Disk} {q l},
      Holds { disk := d, phase := Function.update s.phase p (.started lan) } q l ↔ Holds s q l := by
    intro d q l
    by_cases hqp : q = p
    · subst hqp
      rw [holds_update_self]
      simp [Holds, hp]
    · exact holds_update_of_ne hqp
  constructor
  · exact content_update hi (by rw [hself]; rfl) hother
  · exact fun q l hh => hi.free q l (hholds.mp hh)
  · exact fun q l hh => hi.made q l (hholds.mp hh)
  · exact fun l => (hi.linked l).imp id fun ⟨q, hh⟩ => ⟨q, hholds.mpr hh⟩
  · exact fun q r l hq hr => hi.once q r l (hholds.mp hq) (hholds.mp hr)
  · intro q l hq
    by_cases hl : l = lan
    · rw [hl, hself]
      simp
    · rw [htouch l hl]
      rcases hq with hq | hh
      · have hqp : q ≠ p := by
          rintro rfl
          have heq : Phase.started lan = .opened l :=
            (Function.update_self q _ s.phase).symm.trans hq
          cases heq
        exact hi.begun q l (Or.inl ((phase_update hqp).symm.trans hq))
      · exact hi.begun q l (Or.inr (hholds.mp hh))
  · intro q l hq
    rcases List.mem_append.mp hq with hq | hq
    · have hdone := hi.done q l hq
      have hqp : q ≠ p := by
        rintro rfl
        exact absurd (hp.symm.trans hdone) (by simp)
      exact (phase_update hqp).trans hdone
    · obtain ⟨rfl, rfl⟩ := Out.published.inj (List.mem_singleton.mp hq)
      exact Function.update_self _ _ _

theorem published_happens (hi : Published plan disk s h) {o : Out π} (hh : Happens plan s s' o) :
    Published plan disk s' (h ++ [o]) := by
  cases hh with
  | refused p err hp hl => exact published_failed hi err (not_holds_of_waiting hp)
  | opened p lan hp => exact published_opened hi hp lan
  | taken p lan hp hlink => exact published_failed hi _ (not_holds_of_opened hp)
  | linked p lan hp hfree => exact published_linked hi hp hfree
  | published p lan behind hp hbehind =>
    rw [hbehind (empty_of_linked hi hp), List.append_nil]
    exact published_flushed hi hp

theorem published (p : Path (machine plan disk) ms s h) : Published plan disk s h := by
  refine p.invariant (fun s h => Published plan disk s h) ?_ fun hi hs => ?_
  · constructor <;> simp [machine, Holds, lastTouch, written]
  · obtain ⟨o, rfl, hh⟩ := happens_of_step hs
    exact published_happens hi hh

def cs1 : Name := ⟨"cs1".toList, by decide⟩

def cs1Launch (addr : InetAddr) : Launch where
  args := ["bridge".toList, "cs1".toList, "8".toList]
  addr := addr
  plain := by
    intro lan ports hok
    obtain ⟨name, hargs⟩ := mainBridge_ok_iff.mp hok
    obtain ⟨-, rfl, -⟩ : _ ∧ _ ∧ _ := by simpa using hargs
    exact cs1.2

def noFiles : Disk := ⟨fun _ => none, fun _ => none, fun _ => none⟩

def startedTwice (i : Fin 2) : Launch :=
  cs1Launch ⟨![10, 0, 0, 1], if i = 0 then 40000 else 40001⟩

def firstStart : List (Event (Fin 2)) := [.open 0, .link 0, .flush 0]

end NetworkEmulator.Startup

import NetworkEmulator.Foundation.Run
import NetworkEmulator.Foundation.Stream

namespace Layout

open Transition

variable {S E O I P : Type} {n : Nat}

structure Traced (O : Type) (n : Nat) where
  out : O
  read : Read n

-- a machine whose events come as bytes in a buffer: what it makes of the buffer after a read, and
-- what it leaves there
structure Receiver (S E O I : Type) (n : Nat) where
  machine : Machine S E O
  blank : Buffer n
  event : Buffer n → I → E
  read : Buffer n → I → Read n
  left : S → Buffer n → I → Buffer n
  sound : ∀ b i, (read b i).Sound

structure Receiving (S : Type) (n : Nat) where
  state : S
  buffer : Buffer n

namespace Receiver

def bytes (R : Receiver S E O I n) : Machine (Receiving S n) I (Traced O n) where
  init := ⟨R.machine.init, R.blank⟩
  step s i :=
    (R.machine.step s.state (R.event s.buffer i)).map fun r =>
      (⟨r.1, R.left s.state s.buffer i⟩, r.2.map (⟨·, R.read s.buffer i⟩))

variable {R : Receiver S E O I n} {ms : List (Move (Receiving S n) I (Traced O n))}
  {s s' : Receiving S n} {h out : List (Traced O n)} {i : I}

theorem step_spec (hs : R.bytes.step s i = some (s', out)) :
    ∃ o, R.machine.step s.state (R.event s.buffer i) = some (s'.state, o) ∧
      out = o.map (⟨·, R.read s.buffer i⟩) := by
  obtain ⟨r, hr, he⟩ := Option.map_eq_some_iff.mp hs
  obtain ⟨rfl, rfl⟩ := Prod.mk.inj he
  exact ⟨r.2, hr, rfl⟩

theorem out_traced (o : List O) (r : Read n) : (o.map (⟨·, r⟩)).map Traced.out = o := by
  rw [List.map_map]
  exact List.map_id o

theorem refines (p : Path R.bytes ms s h) :
    ∃ ms', Path R.machine ms' s.state (h.map Traced.out) := by
  induction p with
  | nil => exact ⟨[], .nil⟩
  | snoc p hs ih =>
    obtain ⟨ms', hp⟩ := ih
    obtain ⟨o, ho, rfl⟩ := step_spec hs
    rw [List.map_append, out_traced]
    exact ⟨_, hp.snoc ho⟩

theorem one_read {mv : Move (Receiving S n) I (Traced O n)} (p : Path R.bytes ms s h)
    (hmv : mv ∈ ms) : ∃ r : Read n, r.Sound ∧ ∀ t ∈ mv.out, t.read = r := by
  obtain ⟨_, -, -, hs⟩ := p.before hmv
  obtain ⟨o, -, ho⟩ := step_spec hs
  refine ⟨_, R.sound mv.before.buffer mv.event, fun t ht => ?_⟩
  rw [ho] at ht
  obtain ⟨_, -, rfl⟩ := List.mem_map.mp ht
  rfl

theorem sound_log (p : Path R.bytes ms s h) : ∀ t ∈ h, t.read.Sound := by
  refine p.invariant (fun _ h => ∀ t ∈ h, t.read.Sound) (by simp) ?_
  intro s h i s' out ih hs t ht
  rcases List.mem_append.mp ht with ht | ht
  · exact ih t ht
  · obtain ⟨o, -, rfl⟩ := step_spec hs
    obtain ⟨_, -, rfl⟩ := List.mem_map.mp ht
    exact R.sound s.buffer i

end Receiver

section Connection
variable [DecidableEq P] (port : O → Option P) (fd : P)

def readsFrom (h : List (Traced O n)) : List (Read n) :=
  (h.filter fun t => decide (port t.out = some fd)).map Traced.read

variable {port fd}

theorem sound_readsFrom {h : List (Traced O n)} (hs : ∀ t ∈ h, t.read.Sound) :
    ∀ r ∈ readsFrom port fd h, r.Sound := by
  intro r hr
  obtain ⟨t, ht, rfl⟩ := List.mem_map.mp hr
  exact hs t (List.mem_of_mem_filter ht)

end Connection

structure Framed (frames : List (Buffer n)) (reads : List (Read n)) : Prop where
  whole : Whole reads → InStep frames reads
  complete : consumed reads = stream frames → (InStep frames reads ↔ Whole reads)

theorem framed {frames : List (Buffer n)} {reads : List (Read n)} (hn : 0 < n)
    (hs : ∀ r ∈ reads, r.Sound) (hsent : consumed reads <+: stream frames) :
    Framed frames reads where
  whole := inStep_of_whole hn hs hsent
  complete hall :=
    ⟨fun h => whole_of_processed hs hall (h.complete hall), inStep_of_whole hn hs hsent⟩

end Layout

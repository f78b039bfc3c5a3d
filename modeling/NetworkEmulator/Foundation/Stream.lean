import NetworkEmulator.Foundation.Codec
import Mathlib.Data.List.Infix

namespace Layout

variable {n : Nat}

structure Buffer (n : Nat) where
  bytes : Bytes
  full : bytes.length = n
deriving DecidableEq

structure Chunk (n : Nat) where
  bytes : Bytes
  nonempty : 0 < bytes.length
  fits : bytes.length ≤ n

namespace Buffer

def zero (n : Nat) : Buffer n := ⟨List.replicate n 0, List.length_replicate⟩

def whole (b : Buffer n) (hn : 0 < n) : Chunk n :=
  ⟨b.bytes, hn.trans_eq b.full.symm, Nat.le_of_eq b.full⟩

def first (b : Buffer n) (k : Nat) (hk : 0 < k) (hn : k ≤ n) : Chunk n where
  bytes := b.bytes.take k
  nonempty := by rwa [List.length_take_of_le (b.full.symm ▸ hn)]
  fits := by rwa [List.length_take_of_le (b.full.symm ▸ hn)]

def last (b : Buffer n) (k : Nat) (hn : k < n) : Chunk n where
  bytes := b.bytes.drop k
  nonempty := by
    rw [List.length_drop, b.full]
    exact Nat.sub_pos_of_lt hn
  fits := by
    rw [List.length_drop, b.full]
    exact Nat.sub_le n k

theorem first_append_last (b : Buffer n) {k : Nat} {hk : 0 < k} {hn : k ≤ n} {hn' : k < n} :
    (b.first k hk hn).bytes ++ (b.last k hn').bytes = b.bytes :=
  List.take_append_drop k b.bytes

def overlay (b : Buffer n) (c : Chunk n) : Buffer n where
  bytes := c.bytes ++ b.bytes.drop c.bytes.length
  full := by
    have hfits := c.fits
    rw [List.length_append, List.length_drop, b.full]
    omega

theorem ext {a b : Buffer n} (h : a.bytes = b.bytes) : a = b := by
  cases a with
  | mk bytes full =>
    subst h
    rfl

theorem overlay_bytes {b : Buffer n} {c : Chunk n} (h : c.bytes.length = n) :
    (b.overlay c).bytes = c.bytes := by
  change c.bytes ++ b.bytes.drop c.bytes.length = c.bytes
  have hdrop : b.bytes.drop c.bytes.length = [] := by
    apply List.drop_eq_nil_of_le
    rw [b.full, h]
  rw [hdrop, List.append_nil]

end Buffer

theorem prefix_of_flatten (hn : 0 < n) {xs ys : List Bytes} (hx : ∀ x ∈ xs, x.length = n)
    (hy : ∀ y ∈ ys, y.length = n) (h : xs.flatten <+: ys.flatten) : xs <+: ys := by
  induction xs generalizing ys with
  | nil => exact List.nil_prefix
  | cons x xs ih =>
    have hxn : x.length = n := hx x List.mem_cons_self
    cases ys with
    | nil =>
      have hnil := List.append_eq_nil_iff.mp (List.prefix_nil.mp h)
      rw [hnil.1] at hxn
      exact absurd hxn (Nat.ne_of_lt hn)
    | cons y ys =>
      have hyn : y.length = n := hy y List.mem_cons_self
      obtain ⟨rest, hrest⟩ := h
      rw [List.flatten_cons, List.flatten_cons, List.append_assoc] at hrest
      obtain ⟨rfl, htail⟩ := List.append_inj hrest (hxn.trans hyn.symm)
      have hxs := ih (fun z hz => hx z (List.mem_cons_of_mem _ hz))
        (fun z hz => hy z (List.mem_cons_of_mem _ hz)) ⟨rest, htail⟩
      exact (List.prefix_cons_inj x).mpr hxs

theorem flatten_length_le {xs : List Bytes} (hx : ∀ x ∈ xs, x.length ≤ n) :
    xs.flatten.length ≤ n * xs.length := by
  induction xs with
  | nil => simp
  | cons x xs ih =>
    have hle := ih fun z hz => hx z (List.mem_cons_of_mem _ hz)
    have hxn := hx x List.mem_cons_self
    rw [List.flatten_cons, List.length_append, List.length_cons, Nat.mul_succ]
    omega

theorem length_eq_of_flatten {xs : List Bytes} (hx : ∀ x ∈ xs, x.length ≤ n)
    (h : xs.flatten.length = n * xs.length) : ∀ x ∈ xs, x.length = n := by
  induction xs with
  | nil => simp
  | cons x xs ih =>
    have hxs : ∀ z ∈ xs, z.length ≤ n := fun z hz => hx z (List.mem_cons_of_mem _ hz)
    have hle := flatten_length_le hxs
    have hxn := hx x List.mem_cons_self
    rw [List.flatten_cons, List.length_append, List.length_cons, Nat.mul_succ] at h
    intro z hz
    rcases List.mem_cons.mp hz with rfl | hz
    · omega
    · exact ih hxs (by omega) z hz

-- one turn of a receiver: the bytes that a read returned and the buffer that it went on with
structure Read (n : Nat) where
  chunk : Bytes
  frame : Buffer n

namespace Read

structure Sound (r : Read n) : Prop where
  fits : r.chunk.length ≤ n
  whole : r.chunk.length = n → r.frame.bytes = r.chunk

theorem sound_overlay (b : Buffer n) (c : Chunk n) : Sound ⟨c.bytes, b.overlay c⟩ :=
  ⟨c.fits, Buffer.overlay_bytes⟩

theorem sound_failed (b : Buffer n) : Sound ⟨[], b⟩ where
  fits := Nat.zero_le n
  whole hn := List.length_eq_zero_iff.mp (b.full.trans hn.symm)

end Read

def stream (frames : List (Buffer n)) : Bytes := (frames.map Buffer.bytes).flatten

def consumed (reads : List (Read n)) : Bytes := (reads.map Read.chunk).flatten

structure InStep (frames : List (Buffer n)) (reads : List (Read n)) : Prop where
  processed : reads.map Read.frame <+: frames
  complete : consumed reads = stream frames → reads.map Read.frame = frames

def Whole (reads : List (Read n)) : Prop := ∀ r ∈ reads, r.chunk.length = n

variable {frames : List (Buffer n)} {reads : List (Read n)}

theorem processed_bytes (hs : ∀ r ∈ reads, r.Sound) (hw : Whole reads) :
    (reads.map Read.frame).map Buffer.bytes = reads.map Read.chunk := by
  rw [List.map_map]
  exact List.map_congr_left fun r hr => (hs r hr).whole (hw r hr)

theorem prefix_of_bytes {as bs : List (Buffer n)}
    (h : as.map Buffer.bytes <+: bs.map Buffer.bytes) : as <+: bs :=
  (List.prefix_map_iff_of_injective fun _ _ => Buffer.ext).mp h

theorem bytes_length (frames : List (Buffer n)) :
    ∀ bs ∈ frames.map Buffer.bytes, bs.length = n :=
  List.forall_mem_map.mpr fun b _ => b.full

theorem stream_length (frames : List (Buffer n)) : (stream frames).length = n * frames.length := by
  induction frames with
  | nil => simp [stream]
  | cons b frames ih =>
    simp only [stream, List.map_cons, List.flatten_cons, List.length_append, b.full] at ih ⊢
    rw [ih, List.length_cons, Nat.mul_succ, Nat.add_comm]

theorem prefix_of_whole (hn : 0 < n) (hs : ∀ r ∈ reads, r.Sound)
    (hsent : consumed reads <+: stream frames) (hw : Whole reads) :
    reads.map Read.frame <+: frames := by
  apply prefix_of_bytes
  rw [processed_bytes hs hw]
  exact prefix_of_flatten hn (List.forall_mem_map.mpr hw) (bytes_length frames) hsent

theorem inStep_of_whole (hn : 0 < n) (hs : ∀ r ∈ reads, r.Sound)
    (hsent : consumed reads <+: stream frames) (hw : Whole reads) : InStep frames reads where
  processed := prefix_of_whole hn hs hsent hw
  complete hall := by
    have hback : frames.map Buffer.bytes <+: reads.map Read.chunk :=
      prefix_of_flatten hn (bytes_length frames) (List.forall_mem_map.mpr hw) ⟨[], by
        rw [List.append_nil]
        exact hall.symm⟩
    apply (prefix_of_whole hn hs hsent hw).eq_of_length_le
    simpa using hback.length_le

theorem whole_of_processed (hs : ∀ r ∈ reads, r.Sound) (hall : consumed reads = stream frames)
    (h : reads.map Read.frame = frames) : Whole reads := by
  have hlen : (reads.map Read.chunk).flatten.length = n * (reads.map Read.chunk).length := by
    have hl := congrArg List.length hall
    rw [stream_length, ← h, List.length_map] at hl
    rwa [List.length_map]
  have hfit : ∀ bs ∈ reads.map Read.chunk, bs.length ≤ n :=
    List.forall_mem_map.mpr fun r hr => (hs r hr).fits
  exact List.forall_mem_map.mp (length_eq_of_flatten hfit hlen)

end Layout

import NetworkEmulator.Foundation.Codec
import NetworkEmulator.Foundation.Retry

namespace NetworkEmulator.Common

open Transition Layout

-- bytes by their distance from vptr; only the first n of them are the buffer
abbrev Memory := Int → UInt8

def newline : UInt8 := 10

-- what a call of read finds: bytes that are ready, none at the end of the file, a signal, or a failure
inductive ReadAnswer where
  | ready (bytes : Bytes)
  | interrupted
  | failed
deriving DecidableEq

inductive ReadPc where
  | running (nleft ptr : Int)
  | returned (result : Int)
  | exited

structure Reading where
  memory : Memory
  pc : ReadPc

inductive ReadOut where
  | received (bytes : Bytes)
  | touched (index : Int)

-- n - nleft
def result (n : BitVec 64) (nleft : Int) : Int := (n - BitVec.ofInt 64 nleft).toInt

def Reading.loop (n : BitVec 64) (memory : Memory) (nleft ptr : Int) : Reading :=
  ⟨memory, if nleft > 0 then .running nleft ptr else .returned (result n nleft)⟩

-- the end of the loop's body looks at the byte before ptr, whatever the call has come to
def lookBack (n : BitVec 64) (memory : Memory) (nleft ptr : Int) : Reading × List ReadOut :=
  if memory (ptr - 1) = newline then
    (⟨Function.update memory (ptr - 1) 0, .returned (result n nleft)⟩,
      [.touched (ptr - 1), .touched (ptr - 1)])
  else (.loop n memory nleft ptr, [.touched (ptr - 1)])

def fill (memory : Memory) (ptr : Int) (bytes : Bytes) : Memory := fun i =>
  if ptr ≤ i then (bytes[(i - ptr).toNat]?).getD (memory i) else memory i

def filled (ptr : Int) (bytes : Bytes) : List ReadOut :=
  .received bytes :: (List.range bytes.length).map fun k : Nat => .touched (ptr + k)

def myRead (n : BitVec 64) (memory : Memory) : Machine Reading ReadAnswer ReadOut where
  init := .loop n memory n.toInt 0
  step s a :=
    match s.pc, a with
    | .running nleft ptr, .interrupted => some (lookBack n s.memory nleft ptr)
    | .running _ _, .failed => some (⟨s.memory, .exited⟩, [])
    | .running nleft ptr, .ready bytes =>
      let bytes := bytes.take nleft.toNat
      if bytes = [] then some (⟨s.memory, .returned (result n nleft)⟩, [])
      else
        let r := lookBack n (fill s.memory ptr bytes) (nleft - bytes.length) (ptr + bytes.length)
        some (r.1, filled ptr bytes ++ r.2)
    | .returned _, _ | .exited, _ => none

def ReadOut.bytes : ReadOut → Bytes
  | .received bytes => bytes
  | .touched _ => []

def received (h : List ReadOut) : Bytes := h.flatMap ReadOut.bytes

def terminated (got : Bytes) : Bytes :=
  if got.getLast? = some newline then got.dropLast ++ [0] else got

def Holds (memory : Memory) (bytes : Bytes) : Prop :=
  ∀ (k : Nat) (b : UInt8), bytes[k]? = some b → memory k = b

def Within (n : BitVec 64) (h : List ReadOut) : Prop :=
  ∀ i : Int, .touched i ∈ h → 0 ≤ i ∧ i < n.toNat

structure ReadsWithin (n : BitVec 64) (s : Reading) (h : List ReadOut) : Prop where
  within : Within n h
  stored : ∀ r : Int, s.pc = .returned r → r = (received h).length ∧ r ≤ n.toNat ∧
    Holds s.memory (terminated (received h))

def Filled (n : BitVec 64) (got : Bytes) (s : Reading) : Prop :=
  match s.pc with
  | .running nleft ptr => 0 < nleft ∧ ptr = got.length ∧ ptr + nleft = n.toInt ∧
      Holds s.memory got ∧ got.getLast? ≠ some newline
  | .returned r => r = got.length ∧ r ≤ n.toNat ∧ Holds s.memory (terminated got)
  | .exited => True

def Reading.Ended (s : Reading) : Prop := ∀ nleft ptr, s.pc ≠ .running nleft ptr

def Reading.left (s : Reading) : Nat :=
  match s.pc with
  | .running nleft _ => nleft.toNat
  | .returned _ | .exited => 0

variable {n : BitVec 64} {memory : Memory} {ms : List (Move Reading ReadAnswer ReadOut)}
  {s s' : Reading} {h h' out : List ReadOut} {a : ReadAnswer} {nleft ptr : Int}
  {got bytes : Bytes} {k : Nat}

theorem toInt_le_toNat (n : BitVec 64) : n.toInt ≤ n.toNat := by
  rw [BitVec.toInt_eq_toNat_cond]
  split <;> omega

theorem result_eq (hsum : ptr + nleft = n.toInt) (hptr : 0 ≤ ptr) (hle : 0 ≤ nleft) :
    result n nleft = ptr := by
  have hlt := BitVec.toInt_lt (x := n)
  have hn : n = BitVec.ofInt 64 ptr + BitVec.ofInt 64 nleft := by
    rw [← BitVec.ofInt_add, hsum, BitVec.ofInt_toInt]
  have hsub : n - BitVec.ofInt 64 nleft = BitVec.ofInt 64 ptr := by
    rw [hn, BitVec.add_sub_cancel]
  rw [result, hsub]
  exact BitVec.toInt_ofInt_eq_self (by decide) (by omega) (by omega)

theorem result_filled (hptr : ptr = got.length) (hle : 0 ≤ nleft) (hsum : ptr + nleft = n.toInt) :
    result n nleft = got.length ∧ result n nleft ≤ n.toNat := by
  have hn := toInt_le_toNat n
  rw [result_eq hsum (by omega) hle]
  exact ⟨hptr, by omega⟩

theorem received_append : received (h ++ h') = received h ++ received h' :=
  List.flatMap_append

theorem received_filled : received (filled ptr bytes) = bytes := by
  simp [received, filled, ReadOut.bytes, List.flatMap_map]

theorem within_append (hh : Within n h) (hh' : Within n h') : Within n (h ++ h') :=
  fun i hi => (List.mem_append.mp hi).elim (hh i) (hh' i)

theorem within_filled (hptr : 0 ≤ ptr) (hle : ptr + bytes.length ≤ n.toInt) :
    Within n (filled ptr bytes) := by
  intro i hi
  have hn := toInt_le_toNat n
  simp only [filled, List.mem_cons, List.mem_map, List.mem_range, reduceCtorEq, false_or,
    ReadOut.touched.injEq] at hi
  obtain ⟨k, hk, rfl⟩ := hi
  omega

theorem terminated_eq (hlast : got.getLast? ≠ some newline) : terminated got = got :=
  if_neg hlast

theorem holds_fill (hm : Holds memory got) (hptr : ptr = got.length) :
    Holds (fill memory ptr bytes) (got ++ bytes) := by
  subst hptr
  intro k b hb
  unfold fill
  rcases Nat.lt_or_ge k got.length with hlt | hge
  · rw [List.getElem?_append_left hlt] at hb
    rw [if_neg (by omega)]
    exact hm k b hb
  · rw [List.getElem?_append_right hge] at hb
    have hsub : ((k : Int) - (got.length : Int)).toNat = k - got.length := by omega
    rw [if_pos (by omega), hsub, hb, Option.getD_some]

theorem holds_terminated (hm : Holds memory got) (hptr : ptr = got.length)
    (hlast : got.getLast? = some newline) :
    Holds (Function.update memory (ptr - 1) 0) (terminated got) := by
  obtain ⟨front, rfl⟩ := List.getLast?_eq_some_iff.mp hlast
  rw [terminated, if_pos hlast, List.dropLast_concat]
  rw [List.length_append, List.length_singleton] at hptr
  intro k b hb
  rcases Nat.lt_trichotomy k front.length with hlt | heq | hgt
  · rw [List.getElem?_append_left hlt] at hb
    rw [Function.update_of_ne (by omega)]
    exact hm k b (by rw [List.getElem?_append_left hlt, hb])
  · have hk : (k : Int) = ptr - 1 := by omega
    subst heq
    rw [hk, Function.update_self]
    simpa using hb
  · rw [List.getElem?_eq_none (by simp; omega)] at hb
    cases hb

theorem memory_last (hm : Holds memory got) (hne : got ≠ []) (hptr : ptr = got.length) :
    got.getLast? = some (memory (ptr - 1)) := by
  have hpos := List.length_pos_of_ne_nil hne
  have hlt : got.length - 1 < got.length := by omega
  have hk : ((got.length - 1 : Nat) : Int) = ptr - 1 := by omega
  rw [List.getLast?_eq_getElem?, List.getElem?_eq_getElem hlt, ← hk]
  exact congrArg some (hm _ _ (List.getElem?_eq_getElem hlt)).symm

theorem filled_loop (hptr : ptr = got.length) (hle : 0 ≤ nleft) (hsum : ptr + nleft = n.toInt)
    (hm : Holds memory got) (hlast : got.getLast? ≠ some newline) :
    Filled n got (.loop n memory nleft ptr) := by
  obtain ⟨hresult, hbound⟩ := result_filled hptr hle hsum
  by_cases hpos : nleft > 0
  · simp only [Filled, Reading.loop, if_pos hpos]
    exact ⟨hpos, hptr, hsum, hm, hlast⟩
  · simp only [Filled, Reading.loop, if_neg hpos, terminated_eq hlast]
    exact ⟨hresult, hbound, hm⟩

theorem filled_lookBack (hne : got ≠ []) (hptr : ptr = got.length) (hle : 0 ≤ nleft)
    (hsum : ptr + nleft = n.toInt) (hm : Holds memory got) :
    Filled n got (lookBack n memory nleft ptr).1 := by
  have hlast := memory_last hm hne hptr
  obtain ⟨hresult, hbound⟩ := result_filled hptr hle hsum
  unfold lookBack
  split
  · rename_i hnl
    rw [hnl] at hlast
    exact ⟨hresult, hbound, holds_terminated hm hptr hlast⟩
  · rename_i hnl
    exact filled_loop hptr hle hsum hm (by simpa [hlast] using hnl)

theorem touched_lookBack {i : Int} :
    .touched i ∈ (lookBack n memory nleft ptr).2 ↔ i = ptr - 1 := by
  unfold lookBack
  split <;> simp

theorem within_lookBack (hne : got ≠ []) (hptr : ptr = got.length) (hle : 0 ≤ nleft)
    (hsum : ptr + nleft = n.toInt) : Within n (lookBack n memory nleft ptr).2 := by
  have hpos := List.length_pos_of_ne_nil hne
  have hn := toInt_le_toNat n
  intro i hi
  obtain rfl := touched_lookBack.mp hi
  omega

theorem received_lookBack : received (lookBack n memory nleft ptr).2 = [] := by
  unfold lookBack
  split <;> rfl

inductive Turn (n : BitVec 64) (memory : Memory) (nleft ptr : Int) :
    ReadAnswer → Reading → List ReadOut → Prop
  | again : Turn n memory nleft ptr .interrupted (lookBack n memory nleft ptr).1
      (lookBack n memory nleft ptr).2
  | failed : Turn n memory nleft ptr .failed ⟨memory, .exited⟩ []
  | eof (ready : Bytes) :
      Turn n memory nleft ptr (.ready ready) ⟨memory, .returned (result n nleft)⟩ []
  | got (ready bytes : Bytes) (hne : bytes ≠ []) (hle : bytes.length ≤ nleft) :
      Turn n memory nleft ptr (.ready ready)
        (lookBack n (fill memory ptr bytes) (nleft - bytes.length) (ptr + bytes.length)).1
        (filled ptr bytes ++
          (lookBack n (fill memory ptr bytes) (nleft - bytes.length) (ptr + bytes.length)).2)

theorem turn_of_step (hpc : s.pc = .running nleft ptr)
    (hs : (myRead n memory).step s a = some (s', out)) : Turn n s.memory nleft ptr a s' out := by
  cases a with
  | interrupted =>
    simp only [myRead, hpc, Option.some.injEq] at hs
    obtain ⟨rfl, rfl⟩ := Prod.mk.inj hs
    exact .again
  | failed =>
    simp only [myRead, hpc] at hs
    obtain ⟨rfl, rfl⟩ := Prod.mk.inj (Option.some.inj hs)
    exact .failed
  | ready bytes =>
    simp only [myRead, hpc] at hs
    split at hs
    · obtain ⟨rfl, rfl⟩ := Prod.mk.inj (Option.some.inj hs)
      exact .eof bytes
    · rename_i hne
      obtain ⟨rfl, rfl⟩ := Prod.mk.inj (Option.some.inj hs)
      have hpos := List.length_pos_of_ne_nil hne
      refine .got bytes _ hne ?_
      rw [List.length_take] at hpos ⊢
      omega

theorem running_of_step (hs : (myRead n memory).step s a = some (s', out)) :
    ∃ nleft ptr, s.pc = .running nleft ptr := by
  cases hpc : s.pc with
  | running nleft ptr => exact ⟨nleft, ptr, rfl⟩
  | returned | exited => simp [myRead, hpc] at hs

-- the invariant of a run whose first call is not interrupted: from the second turn on there is a
-- byte before ptr
structure Safe (n : BitVec 64) (ms : List (Move Reading ReadAnswer ReadOut)) (s : Reading)
    (h : List ReadOut) : Prop where
  within : Within n h
  filled : Filled n (received h) s
  started : ms ≠ [] → ∀ nleft ptr, s.pc = .running nleft ptr → received h ≠ []

theorem safe_init : Safe n [] (.loop n memory n.toInt 0) [] := by
  have hfilled : Filled n [] (.loop n memory n.toInt 0) := by
    by_cases hpos : n.toInt > 0
    · exact filled_loop rfl hpos.le (Int.zero_add _) (by simp [Holds]) (by simp)
    · have hzero : result n n.toInt = 0 := by
        rw [result, BitVec.ofInt_toInt, BitVec.sub_self]
        rfl
      simp only [Filled, Reading.loop, if_neg hpos, hzero]
      exact ⟨rfl, by omega, by simp [Holds, terminated]⟩
  exact ⟨by simp [Within], hfilled, fun hno => absurd rfl hno⟩

theorem safe_turn (hi : Safe n ms s h) (hpc : s.pc = .running nleft ptr)
    (ht : Turn n s.memory nleft ptr a s' out) (hfirst : ms = [] → a ≠ .interrupted) :
    Within n (h ++ out) ∧ Filled n (received (h ++ out)) s' ∧
      (received (h ++ out) = [] → s'.Ended) := by
  have hfilled := hi.filled
  simp only [Filled, hpc] at hfilled
  obtain ⟨hpos, hptr, hsum, hm, hlast⟩ := hfilled
  cases ht with
  | again =>
    have hne : received h ≠ [] := hi.started (fun hnil => hfirst hnil rfl) nleft ptr hpc
    rw [received_append, received_lookBack, List.append_nil]
    exact ⟨within_append hi.within (within_lookBack hne hptr hpos.le hsum),
      filled_lookBack hne hptr hpos.le hsum hm, fun hnil => absurd hnil hne⟩
  | failed =>
    rw [List.append_nil]
    exact ⟨hi.within, trivial, fun _ => nofun⟩
  | eof =>
    obtain ⟨hresult, hbound⟩ := result_filled hptr hpos.le hsum
    rw [List.append_nil]
    refine ⟨hi.within, ⟨hresult, hbound, ?_⟩, fun _ => nofun⟩
    rw [terminated_eq hlast]
    exact hm
  | got ready bytes hne hle =>
    have hnew : received h ++ bytes ≠ [] := by simp [hne]
    have hptr' : ptr + bytes.length = ((received h ++ bytes).length : Int) := by
      rw [hptr, List.length_append]
      push_cast
      rfl
    have hle' : 0 ≤ nleft - bytes.length := by omega
    have hsum' : ptr + bytes.length + (nleft - bytes.length) = n.toInt := by omega
    rw [received_append, received_append, received_filled, received_lookBack, List.append_nil]
    refine ⟨within_append hi.within (within_append ?_ ?_), ?_, fun hnil => absurd hnil hnew⟩
    · exact within_filled (by omega) (by omega)
    · exact within_lookBack hnew hptr' hle' hsum'
    · exact filled_lookBack hnew hptr' hle' hsum' (holds_fill hm hptr)

theorem safe (p : Path (myRead n memory) ms s h)
    (hfirst : ∀ mv ∈ ms.head?, mv.event ≠ .interrupted) : Safe n ms s h := by
  induction p with
  | nil => exact safe_init
  | @snoc ms s s' h out a p hs ih =>
    have hprev : Safe n ms s h := by
      apply ih
      intro mv hmv
      exact hfirst mv (by simp [List.head?_append, Option.mem_def.mp hmv])
    have hbegin : ms = [] → a ≠ .interrupted := by
      rintro rfl
      exact hfirst ⟨s, h, a, s', out⟩ rfl
    obtain ⟨nleft, ptr, hpc⟩ := running_of_step hs
    obtain ⟨hwithin, hfilled, hended⟩ := safe_turn hprev hpc (turn_of_step hpc hs) hbegin
    exact ⟨hwithin, hfilled, fun _ nleft ptr hpc' hnil => hended hnil nleft ptr hpc'⟩

theorem readsWithin_of_safe (hi : Safe n ms s h) : ReadsWithin n s h := by
  refine ⟨hi.within, fun r hr => ?_⟩
  have hfilled := hi.filled
  simp only [Filled, hr] at hfilled
  exact hfilled

theorem ptr_of_init (hpc : (Reading.loop n memory n.toInt 0).pc = .running nleft ptr) :
    ptr = 0 := by
  unfold Reading.loop at hpc
  split at hpc
  · exact (ReadPc.running.inj hpc).2.symm
  · cases hpc

theorem touches_before (p : Path (myRead n memory) ms s h) {mv : Move Reading ReadAnswer ReadOut}
    (hmv : mv ∈ ms.head?) (he : mv.event = .interrupted) : .touched (-1) ∈ h := by
  induction p with
  | nil => cases hmv
  | @snoc ms s s' h out a p hs ih =>
    cases ms with
    | cons m ms => exact List.mem_append_left _ (ih hmv)
    | nil =>
      obtain rfl := Option.some.inj hmv
      obtain rfl : a = .interrupted := he
      obtain ⟨rfl, rfl⟩ := p.nil_inv
      obtain ⟨nleft, ptr, hpc⟩ := running_of_step hs
      obtain rfl := ptr_of_init hpc
      cases turn_of_step hpc hs with
      | again => exact List.mem_append_right _ (touched_lookBack.mpr rfl)

theorem readsWithin_iff (p : Path (myRead n memory) ms s h) :
    ReadsWithin n s h ↔ ∀ mv ∈ ms.head?, mv.event ≠ .interrupted := by
  constructor
  · intro hr mv hmv he
    have hneg := (hr.within _ (touches_before p hmv he)).1
    omega
  · exact fun hfirst => readsWithin_of_safe (safe p hfirst)

theorem left_loop (hlt : nleft.toNat < k) :
    (Reading.loop n memory nleft ptr).Ended ∨ (Reading.loop n memory nleft ptr).left < k := by
  unfold Reading.loop
  split
  · exact Or.inr hlt
  · exact Or.inl nofun

theorem left_lookBack (hlt : nleft.toNat < k) :
    (lookBack n memory nleft ptr).1.Ended ∨ (lookBack n memory nleft ptr).1.left < k := by
  unfold lookBack
  split
  · exact Or.inl nofun
  · exact left_loop hlt

theorem retries_myRead (n : BitVec 64) (memory : Memory) :
    Retries (myRead n memory) Reading.Ended (· = .interrupted) Reading.left := by
  constructor
  · intro s a hd
    unfold Reading.Ended at hd
    push Not at hd
    obtain ⟨nleft, ptr, hpc⟩ := hd
    cases a with
    | interrupted => exact ⟨_, _, by simp only [myRead, hpc]; rfl⟩
    | failed => exact ⟨_, _, by simp only [myRead, hpc]; rfl⟩
    | ready bytes =>
      simp only [myRead, hpc]
      split
      · exact ⟨_, _, rfl⟩
      · exact ⟨_, _, rfl⟩
  · intro ms s h a s' out p hs ha
    obtain ⟨nleft, ptr, hpc⟩ := running_of_step hs
    cases turn_of_step hpc hs with
    | again => exact absurd rfl ha
    | failed | eof => exact Or.inl nofun
    | got _ bytes hne hle =>
      have hpos := List.length_pos_of_ne_nil hne
      have hleft : s.left = nleft.toNat := by simp only [Reading.left, hpc]
      rw [hleft]
      exact left_lookBack (by omega)

theorem loop_ne_exited : (Reading.loop n memory nleft ptr).pc ≠ .exited := by
  unfold Reading.loop
  split <;> nofun

theorem lookBack_ne_exited : (lookBack n memory nleft ptr).1.pc ≠ .exited := by
  unfold lookBack
  split
  · nofun
  · exact loop_ne_exited

theorem failed_of_exited (p : Path (myRead n memory) ms s h) (hpc : s.pc = .exited) :
    ∃ mv ∈ ms, mv.event = .failed := by
  cases p with
  | nil => exact absurd hpc loop_ne_exited
  | snoc p hs =>
    obtain ⟨nleft, ptr, hrun⟩ := running_of_step hs
    cases turn_of_step hrun hs with
    | failed => exact ⟨_, List.mem_append_right _ List.mem_cons_self, rfl⟩
    | eof => cases hpc
    | again | got => exact absurd hpc lookBack_ne_exited

theorem returns (memory : Memory) {ω : Nat → ReadAnswer}
    (hfin : {t | ω t = .interrupted}.Finite) (hok : ∀ t, ω t ≠ .failed) :
    ∃ ms s h r, Path (myRead n memory) ms s h ∧ Follows ω ms ∧ s.pc = .returned r := by
  obtain ⟨ms, s, h, p, hf, hd⟩ := (retries_myRead n memory).ends hfin
  cases hpc : s.pc with
  | running nleft ptr => exact absurd hpc (hd nleft ptr)
  | returned r => exact ⟨ms, s, h, r, p, hf, hpc⟩
  | exited =>
    obtain ⟨mv, hmv, he⟩ := failed_of_exited p hpc
    obtain ⟨t, -, ht⟩ := List.mem_map.mp (hf ▸ List.mem_map_of_mem hmv)
    exact absurd (ht.trans he) (hok t)

theorem my_read_within_iff (n : BitVec 64) (memory : Memory) :
    (∀ ms s h, Path (myRead n memory) ms s h →
        (ReadsWithin n s h ↔ ∀ mv ∈ ms.head?, mv.event ≠ .interrupted)) ∧
      ∀ ω, {t | ω t = .interrupted}.Finite → (∀ t, ω t ≠ .failed) →
        ∃ ms s h r, Path (myRead n memory) ms s h ∧ Follows ω ms ∧ s.pc = .returned r :=
  ⟨fun _ _ _ p => readsWithin_iff p, fun _ hfin hok => returns memory hfin hok⟩

-- a signal at the first call: the byte before the buffer is not the caller's
theorem first_interrupt_looks_before :
    ¬ ∀ n memory ms s h, 0 < n → Path (myRead n memory) ms s h → ReadsWithin n s h := by
  intro hall
  have p : Path (myRead 100 (fun _ => 0)) _ _ _ := .snoc (e := .interrupted) .nil rfl
  have hr := hall 100 (fun _ => 0) _ _ _ (by decide) p
  have hneg := (hr.within (-1) (touches_before p rfl rfl)).1
  omega

end NetworkEmulator.Common

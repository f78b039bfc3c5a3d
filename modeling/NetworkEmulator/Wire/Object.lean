import NetworkEmulator.Foundation.Stream
import NetworkEmulator.Ip

namespace NetworkEmulator.Wire

open Layout

abbrev Heap := Nat → Option UInt8

def Heap.read (heap : Heap) (addr : Nat) : Nat → Option Bytes
  | 0 => some []
  | k + 1 => (heap addr).bind fun b => (Heap.read heap (addr + 1) k).map (b :: ·)

def inlineCapacity : Nat := 22

-- std::string: a byte with twice the length, then the characters and what is left of the 24 bytes;
-- or, when there are too many for that, the capacity with its low bit set, the size and an address
inductive StringObj where
  | inline (chars rest : Bytes) (short : chars.length ≤ inlineCapacity)
      (whole : chars.length + rest.length = 23)
  | heap (cap size addr : UInt64) (flag : cap.toNat % 2 = 1)
      (long : inlineCapacity < size.toNat)

def ofBytes (bs : Bytes) : String := String.ofList (bs.map fun b => Char.ofNat b.toNat)

namespace StringObj

def load (heap : Heap) : StringObj → Option String
  | .inline chars _ _ _ => some (ofBytes chars)
  | .heap _ size addr _ _ => (heap.read addr.toNat size.toNat).map ofBytes

def words : Codec (UInt64 × UInt64 × UInt64) := .pair .uint64 (.pair .uint64 .uint64)

def ofInline (chars rest : Bytes) : Option StringObj :=
  if h : chars.length ≤ inlineCapacity ∧ chars.length + rest.length = 23 then
    some (.inline chars rest h.1 h.2)
  else none

def ofWords (w : UInt64 × UInt64 × UInt64) : Option StringObj :=
  if h : w.1.toNat % 2 = 1 ∧ inlineCapacity < w.2.1.toNat then
    some (.heap w.1 w.2.1 w.2.2 h.1 h.2)
  else none

def put : StringObj → Bytes
  | .inline chars rest _ _ => UInt8.ofNat (2 * chars.length) :: (chars ++ rest)
  | .heap cap size addr _ _ => words.put (cap, size, addr)

def get : Bytes → Option StringObj
  | [] => none
  | b :: bs =>
    if b.toNat % 2 = 0 then ofInline (bs.take (b.toNat / 2)) (bs.drop (b.toNat / 2))
    else (words.get (b :: bs)).bind ofWords

theorem length_put (o : StringObj) : o.put.length = 24 := by
  cases o with
  | inline chars rest short whole =>
    rw [put, List.length_cons, List.length_append, whole]
  | heap cap size addr => exact words.length_put _

theorem get_put_inline {chars rest : Bytes} (short : chars.length ≤ inlineCapacity)
    (whole : chars.length + rest.length = 23) :
    get (put (.inline chars rest short whole)) = some (.inline chars rest short whole) := by
  have hb : (UInt8.ofNat (2 * chars.length)).toNat = 2 * chars.length := by
    rw [UInt8.toNat_ofNat']
    unfold inlineCapacity at short
    omega
  have heven : 2 * chars.length % 2 = 0 := Nat.mul_mod_right 2 _
  have hhalf : 2 * chars.length / 2 = chars.length := Nat.mul_div_right _ (by decide)
  simp only [put, get, hb, heven, if_true, hhalf, List.take_left, List.drop_left]
  exact dif_pos ⟨short, whole⟩

theorem get_put_heap {cap size addr : UInt64} (flag : cap.toNat % 2 = 1)
    (long : inlineCapacity < size.toNat) :
    get (put (.heap cap size addr flag long)) = some (.heap cap size addr flag long) := by
  have hget := words.get_put (cap, size, addr)
  have hcons : words.put (cap, size, addr) =
      UInt8.ofNat cap.toNat :: (words.put (cap, size, addr)).tail := rfl
  have hodd : (UInt8.ofNat cap.toNat).toNat % 2 ≠ 0 := by
    rw [UInt8.toNat_ofNat']
    omega
  rw [put, hcons, get, if_neg hodd, ← hcons, hget]
  exact dif_pos ⟨flag, long⟩

def codec : Codec StringObj where
  size := 24
  put := put
  get := get
  length_put := length_put
  get_put o := by
    cases o with
    | inline chars rest short whole => exact get_put_inline short whole
    | heap cap size addr flag long => exact get_put_heap flag long

end StringObj

def short : Codec Int16 := .via .uint16 Int16.toUInt16 (fun a => some a.toInt16) fun _ => rfl

abbrev Pad (n : Nat) := {bs : Bytes // bs.length = n}

structure ArpPktObj where
  op : Int16
  pad : Pad 6
  srcIp : StringObj
  srcMac : StringObj
  dstIp : StringObj
  dstMac : StringObj

structure IpPktObj where
  dstIp : StringObj
  srcIp : StringObj
  data : StringObj

structure EtherPktObj where
  macDst : StringObj
  macSrc : StringObj
  type : Int16
  size : Int16
  pad : Pad 4
  arpPkt : ArpPktObj
  ipPkt : IpPktObj

def ArpPktObj.codec : Codec ArpPktObj :=
  .via (.pair short (.pair (.raw 6) (.pair StringObj.codec (.pair StringObj.codec
      (.pair StringObj.codec StringObj.codec)))))
    (fun x => (x.op, x.pad, x.srcIp, x.srcMac, x.dstIp, x.dstMac))
    (fun (op, pad, srcIp, srcMac, dstIp, dstMac) => some ⟨op, pad, srcIp, srcMac, dstIp, dstMac⟩)
    fun _ => rfl

def IpPktObj.codec : Codec IpPktObj :=
  .via (.pair StringObj.codec (.pair StringObj.codec StringObj.codec))
    (fun x => (x.dstIp, x.srcIp, x.data)) (fun (dstIp, srcIp, data) => some ⟨dstIp, srcIp, data⟩)
    fun _ => rfl

def EtherPktObj.codec : Codec EtherPktObj :=
  .via (.pair StringObj.codec (.pair StringObj.codec (.pair short (.pair short (.pair (.raw 4)
      (.pair ArpPktObj.codec IpPktObj.codec))))))
    (fun x => (x.macDst, x.macSrc, x.type, x.size, x.pad, x.arpPkt, x.ipPkt))
    (fun (macDst, macSrc, type, size, pad, arpPkt, ipPkt) =>
      some ⟨macDst, macSrc, type, size, pad, arpPkt, ipPkt⟩)
    fun _ => rfl

def sizeofEtherPkt : Nat := EtherPktObj.codec.size

example : sizeofEtherPkt = 232 := rfl

def ArpPktObj.load (heap : Heap) (x : ArpPktObj) : Option ArpPkt := do
  let srcIp ← x.srcIp.load heap
  let srcMac ← x.srcMac.load heap
  let dstIp ← x.dstIp.load heap
  let dstMac ← x.dstMac.load heap
  some { op := x.op.toInt, srcIp := srcIp, srcMac := srcMac, dstIp := dstIp, dstMac := dstMac }

def IpPktObj.load (heap : Heap) (x : IpPktObj) : Option IpPkt := do
  let dstIp ← x.dstIp.load heap
  let srcIp ← x.srcIp.load heap
  let data ← x.data.load heap
  some { dstIp := dstIp, srcIp := srcIp, data := data }

def EtherPktObj.load (heap : Heap) (x : EtherPktObj) : Option EtherPkt := do
  let macDst ← x.macDst.load heap
  let macSrc ← x.macSrc.load heap
  let arpPkt ← x.arpPkt.load heap
  let ipPkt ← x.ipPkt.load heap
  some { macDst := macDst, macSrc := macSrc, type := x.type.toInt, arpPkt := arpPkt, ipPkt := ipPkt }

def EtherPktObj.strings (x : EtherPktObj) : List StringObj :=
  [x.macDst, x.macSrc, x.arpPkt.srcIp, x.arpPkt.srcMac, x.arpPkt.dstIp, x.arpPkt.dstMac,
    x.ipPkt.dstIp, x.ipPkt.srcIp, x.ipPkt.data]

def strings (pkt : EtherPkt) : List String :=
  [pkt.macDst, pkt.macSrc, pkt.arpPkt.srcIp, pkt.arpPkt.srcMac, pkt.arpPkt.dstIp,
    pkt.arpPkt.dstMac, pkt.ipPkt.dstIp, pkt.ipPkt.srcIp, pkt.ipPkt.data]

def EtherPktObj.image (x : EtherPktObj) : Buffer sizeofEtherPkt :=
  ⟨EtherPktObj.codec.put x, EtherPktObj.codec.length_put x⟩

def receive (heap : Heap) (pkt : Buffer sizeofEtherPkt) : Option EtherPkt :=
  (EtherPktObj.codec.get pkt.bytes).bind (EtherPktObj.load heap)

variable {heap sender : Heap} {x : EtherPktObj} {pkt : EtherPkt} {o : StringObj} {str : String}

theorem receive_image : receive heap x.image = x.load heap := by
  unfold receive EtherPktObj.image
  rw [EtherPktObj.codec.get_put, Option.bind_some]

theorem ArpPktObj.load_eq_some_iff {x : ArpPktObj} {pkt : ArpPkt} :
    x.load heap = some pkt ↔
      x.op.toInt = pkt.op ∧ x.srcIp.load heap = some pkt.srcIp ∧
        x.srcMac.load heap = some pkt.srcMac ∧ x.dstIp.load heap = some pkt.dstIp ∧
        x.dstMac.load heap = some pkt.dstMac := by
  simp only [ArpPktObj.load, bind, Option.bind_eq_some_iff, Option.some.injEq]
  constructor
  · rintro ⟨srcIp, h1, srcMac, h2, dstIp, h3, dstMac, h4, rfl⟩
    exact ⟨rfl, h1, h2, h3, h4⟩
  · rintro ⟨hop, h1, h2, h3, h4⟩
    refine ⟨_, h1, _, h2, _, h3, _, h4, ?_⟩
    rw [hop]

theorem IpPktObj.load_eq_some_iff {x : IpPktObj} {pkt : IpPkt} :
    x.load heap = some pkt ↔
      x.dstIp.load heap = some pkt.dstIp ∧ x.srcIp.load heap = some pkt.srcIp ∧
        x.data.load heap = some pkt.data := by
  simp only [IpPktObj.load, bind, Option.bind_eq_some_iff, Option.some.injEq]
  constructor
  · rintro ⟨dstIp, h1, srcIp, h2, data, h3, rfl⟩
    exact ⟨h1, h2, h3⟩
  · rintro ⟨h1, h2, h3⟩
    exact ⟨_, h1, _, h2, _, h3, rfl⟩

theorem EtherPktObj.load_eq_some_iff :
    x.load heap = some pkt ↔
      (x.type.toInt = pkt.type ∧ x.arpPkt.op.toInt = pkt.arpPkt.op) ∧
        x.strings.map (StringObj.load heap) = (Wire.strings pkt).map some := by
  simp only [EtherPktObj.strings, Wire.strings, List.map_cons, List.map_nil, List.cons.injEq,
    and_true]
  simp only [EtherPktObj.load, bind, Option.bind_eq_some_iff, Option.some.injEq]
  constructor
  · rintro ⟨macDst, h1, macSrc, h2, arpPkt, harp, ipPkt, hip, rfl⟩
    obtain ⟨hop, h3, h4, h5, h6⟩ := ArpPktObj.load_eq_some_iff.mp harp
    obtain ⟨h7, h8, h9⟩ := IpPktObj.load_eq_some_iff.mp hip
    exact ⟨⟨rfl, hop⟩, h1, h2, h3, h4, h5, h6, h7, h8, h9⟩
  · rintro ⟨⟨htype, hop⟩, h1, h2, h3, h4, h5, h6, h7, h8, h9⟩
    have harp := ArpPktObj.load_eq_some_iff.mpr ⟨hop, h3, h4, h5, h6⟩
    have hip := IpPktObj.load_eq_some_iff.mpr ⟨h7, h8, h9⟩
    refine ⟨_, h1, _, h2, _, harp, _, hip, ?_⟩
    rw [htype]

theorem read_length {addr k : Nat} {bs : Bytes} (h : heap.read addr k = some bs) :
    bs.length = k := by
  induction k generalizing addr bs with
  | zero =>
    obtain rfl := Option.some.inj h
    rfl
  | succ k ih =>
    simp only [Heap.read, Option.bind_eq_some_iff, Option.map_eq_some_iff] at h
    obtain ⟨b, -, bs', hbs, rfl⟩ := h
    rw [List.length_cons, ih hbs]

@[simp] theorem length_ofBytes (bs : Bytes) : (ofBytes bs).length = bs.length := by
  simp [ofBytes]

theorem load_empty_iff (hload : o.load sender = some str) :
    o.load (fun _ => none) = some str ↔ str.length ≤ inlineCapacity := by
  cases o with
  | inline chars rest short =>
    obtain rfl := Option.some.inj hload
    simp [StringObj.load, short]
  | heap cap size addr flag long =>
    obtain ⟨bs, hread, rfl⟩ := Option.map_eq_some_iff.mp hload
    rw [length_ofBytes, read_length hread]
    obtain ⟨k, hk⟩ := Nat.exists_eq_succ_of_ne_zero (Nat.ne_of_gt (Nat.zero_lt_of_lt long))
    have hnone : Heap.read (fun _ => none) addr.toNat size.toNat = none := by
      rw [hk]
      rfl
    simp [StringObj.load, hnone, long]

theorem load_of_short (hload : o.load sender = some str) (hshort : str.length ≤ inlineCapacity) :
    o.load heap = some str := by
  cases o with
  | inline => exact hload
  | heap cap size addr flag long =>
    obtain ⟨bs, hread, rfl⟩ := Option.map_eq_some_iff.mp hload
    rw [length_ofBytes, read_length hread] at hshort
    exact absurd long (Nat.not_lt.mpr hshort)

theorem load_anywhere_iff (hload : o.load sender = some str) :
    (∀ heap, o.load heap = some str) ↔ str.length ≤ inlineCapacity :=
  ⟨fun h => (load_empty_iff hload).mp (h _), fun h _ => load_of_short hload h⟩

theorem map_load_anywhere_iff {os : List StringObj} {strs : List String}
    (hload : os.map (StringObj.load sender) = strs.map some) :
    (∀ heap, os.map (StringObj.load heap) = strs.map some) ↔
      ∀ str ∈ strs, str.length ≤ inlineCapacity := by
  induction os generalizing strs with
  | nil =>
    obtain rfl := List.map_eq_nil_iff.mp hload.symm
    simp
  | cons o os ih =>
    cases strs with
    | nil => simp at hload
    | cons str strs =>
      obtain ⟨ho, hos⟩ := List.cons.inj hload
      simp only [List.map_cons, List.cons.injEq, forall_and, List.forall_mem_cons]
      exact and_congr (load_anywhere_iff ho) (ih hos)

theorem EtherPktObj.load_anywhere_iff (hload : x.load sender = some pkt) :
    (∀ heap, x.load heap = some pkt) ↔ ∀ str ∈ Wire.strings pkt, str.length ≤ inlineCapacity := by
  obtain ⟨hshorts, hstrings⟩ := EtherPktObj.load_eq_some_iff.mp hload
  rw [← map_load_anywhere_iff hstrings]
  apply forall_congr'
  intro heap
  rw [EtherPktObj.load_eq_some_iff]
  exact and_iff_right hshorts

end NetworkEmulator.Wire

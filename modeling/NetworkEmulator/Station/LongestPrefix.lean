import NetworkEmulator.Foundation.Prefix
import NetworkEmulator.Routing.Address
import NetworkEmulator.Station.Start

namespace NetworkEmulator.Station

open Prefix Routing

def Denotes (addr : IPAddr) (o : Fin 4 → BitVec 8) : Prop :=
  (pieces addr).length = 4 ∧ ∀ k : Fin 4, ∀ tok ∈ (pieces addr)[k.val]?,
    tok ≠ [] ∧ (∀ c ∈ tok, c.isDigit = true) ∧ decimal tok = (o k).toNat

-- there is also an instance that tries every Char
instance decidableDigits (tok : List Char) : Decidable (∀ c ∈ tok, c.isDigit = true) :=
  List.decidableBAll _ _

instance decidableDenotes (addr : IPAddr) (o : Fin 4 → BitVec 8) : Decidable (Denotes addr o) :=
  inferInstanceAs (Decidable (_ ∧ _))

structure Entry (r : Rtable) (p : BitPrefix 32) : Prop where
  netMask : ∃ o, Denotes r.netMask o ∧ join o = mask 32 p.len
  destAddr : ∃ o, Denotes r.destAddr o ∧ join o = p.bits

-- a line of the routing table file: four words
def loadRoute (line : List Char) : Rtable :=
  let (destAddr, rest) := extract line
  let (nextHop, rest) := extract rest
  let (netMask, rest) := extract rest
  let (ifaceName, _) := extract rest
  { destAddr := String.ofList destAddr, nextHop := String.ofList nextHop
    netMask := String.ofList netMask, ifaceName := String.ofList ifaceName }

variable {addr dst : IPAddr} {o : Fin 4 → BitVec 8} {tok : List Char} {r : Rtable}
  {routes : List Rtable} {p : BitPrefix 32} {ps : List (BitPrefix 32)} {a : BitVec 32}
  {slots : Slots}

theorem stoi_octet {b : BitVec 8} (hne : tok ≠ []) (hdigits : ∀ c ∈ tok, c.isDigit = true)
    (hval : decimal tok = b.toNat) : stoi tok = .ok (b.setWidth 32) := by
  have hlt : decimal tok < 2 ^ 31 := hval ▸ b.isLt.trans (by decide)
  rw [stoi_digits hne hdigits hlt, hval, BitVec.ofNat_toNat]

theorem Denotes.component (hd : Denotes addr o) (k : Fin 4) :
    component addr k = some ((o k).setWidth 32) := by
  obtain ⟨hlen, hall⟩ := hd
  have hk : k.val < (pieces addr).length := by omega
  obtain ⟨hne, hdigits, hval⟩ := hall k _ (List.getElem?_eq_getElem hk)
  rw [Routing.component, List.getElem?_eq_getElem hk, Option.bind_some]
  exact value_eq_some.mpr (stoi_octet hne hdigits hval)

theorem Denotes.confined (hd : Denotes addr o) : Confined addr := by
  refine confined_iff.mpr ⟨hd.1, fun tok htok => ?_⟩
  obtain ⟨n, hn, rfl⟩ := List.getElem_of_mem htok
  have hn4 : n < 4 := hd.1 ▸ hn
  obtain ⟨hne, hdigits, hval⟩ := hd.2 ⟨n, hn4⟩ _ (List.getElem?_eq_getElem hn)
  exact stoi_isOk_iff.mp ⟨_, stoi_octet hne hdigits hval⟩

theorem matches_iff (hd : Denotes dst o) (he : Entry r p) :
    Matches dst r ↔ p.Contains (join o) := by
  obtain ⟨⟨m, hm, hmask⟩, b, hb, hbits⟩ := he
  rw [BitPrefix.Contains, ← hmask, ← hbits, ← join_matches_iff]
  refine forall_congr' fun k => ?_
  simp only [OctetMatches, hd.component k, hm.component k, hb.component k, Option.some.injEq,
    exists_and_left, exists_eq_left']

theorem rowMatches_entry (hd : Denotes dst o) (he : Entry r p)
    (hs : parseAddress dst (fun _ => none) = .ok slots) :
    rowMatches slots r = .ok (decide (p.Contains (join o))) := by
  obtain ⟨m, hm, -⟩ := he.netMask
  obtain ⟨b, hb, -⟩ := he.destAddr
  obtain ⟨found, hrow, hiff⟩ := rowMatches_isOk hd.confined hm.confined hb.confined hs
  rw [hrow]
  congr 1
  rw [matches_iff hd he] at hiff
  exact Bool.eq_iff_iff.mpr (by simpa using hiff)

theorem scanRoutes_first (hrows : List.Forall₂ Entry routes ps) (hd : Denotes dst o)
    (hs : parseAddress dst (fun _ => none) = .ok slots) :
    (∃ (k : Nat) (r : Rtable) (p : BitPrefix 32), routes[k]? = some r ∧ ps[k]? = some p ∧
        p.Contains (join o) ∧
        (∀ j < k, ∀ q : BitPrefix 32, ps[j]? = some q → ¬ q.Contains (join o)) ∧
        scanRoutes slots routes = .ok ⟨r.nextHop, r.ifaceName⟩) ∨
      (∀ p ∈ ps, ¬ p.Contains (join o)) ∧ scanRoutes slots routes = .ok ⟨"", ""⟩ := by
  induction hrows with
  | nil => exact Or.inr ⟨by simp, rfl⟩
  | @cons r p routes ps he _ ih =>
    rw [scanRoutes_cons, rowMatches_entry hd he hs]
    by_cases hp : p.Contains (join o)
    · refine Or.inl ⟨0, r, p, rfl, rfl, hp, by simp, ?_⟩
      simp [hp, bind, Except.bind]
    · have hstep : (Except.ok (decide (p.Contains (join o))) >>= fun b =>
          if b then .ok ⟨r.nextHop, r.ifaceName⟩ else scanRoutes slots routes) =
            scanRoutes slots routes := by simp [hp, bind, Except.bind]
      rw [hstep]
      rcases ih with ⟨k, r', p', hr', hp', hcontains, hfirst, hscan⟩ | ⟨hnone, hscan⟩
      · refine Or.inl ⟨k + 1, r', p', by simpa using hr', by simpa using hp', hcontains, ?_, hscan⟩
        intro j hj q hq
        cases j with
        | zero =>
          obtain rfl := Option.some.inj hq
          exact hp
        | succ j => exact hfirst j (by omega) q (by simpa using hq)
      · exact Or.inr ⟨List.forall_mem_cons.mpr ⟨hp, hnone⟩, hscan⟩

theorem getNextHop_first (hrows : List.Forall₂ Entry routes ps)
    (hord : ps.Pairwise (fun p q => ¬ StrictSub q p)) (hd : Denotes dst o) :
    (∃ (k : Nat) (r : Rtable), routes[k]? = some r ∧ IsLongest ps (join o) k ∧
        getNextHop routes dst = .ok ⟨r.nextHop, r.ifaceName⟩) ∨
      (∀ p ∈ ps, ¬ p.Contains (join o)) ∧ getNextHop routes dst = .ok ⟨"", ""⟩ := by
  obtain ⟨slots, hs, -⟩ := hd.confined
  have hget : getNextHop routes dst = scanRoutes slots routes := by
    rw [getNextHop, hs]
    rfl
  rw [hget]
  rcases scanRoutes_first hrows hd hs with ⟨k, r, p, hr, hp, hcontains, hfirst, hscan⟩ | hnone
  · exact Or.inl ⟨k, r, hr, isLongest_of_first hord hp hcontains hfirst, hscan⟩
  · exact Or.inr hnone

theorem extract_nil {s : List Char} (h : (extract s).1 = []) : (extract s).2 = [] := by
  unfold extract at h ⊢
  cases hs : s.dropWhile isSpace with
  | nil => rfl
  | cons c cs =>
    have hc := List.head?_dropWhile_not isSpace s
    simp only [hs, List.head?_cons] at hc
    simp [hs, hc] at h

theorem loadRoute_nextHop {line : List Char} (hd : Denotes (loadRoute line).netMask o) :
    (loadRoute line).nextHop ≠ "" := by
  intro hnil
  have hword : (extract (extract line).2).1 = [] := by
    simpa [loadRoute] using hnil
  have hmask : (loadRoute line).netMask = "" := by
    have hrest := extract_nil hword
    simp only [loadRoute, hrest]
    rfl
  have hlen := hd.1
  rw [hmask] at hlen
  exact absurd hlen (by decide)

theorem entry_of_mem (hrows : List.Forall₂ Entry routes ps) (hr : r ∈ routes) :
    ∃ p ∈ ps, Entry r p := by
  induction hrows with
  | nil => simp at hr
  | cons he _ ih =>
    rcases List.mem_cons.mp hr with rfl | hr
    · exact ⟨_, List.mem_cons_self, he⟩
    · obtain ⟨p, hp, hentry⟩ := ih hr
      exact ⟨p, List.mem_cons_of_mem _ hp, hentry⟩

theorem longest_prefix_selected (hrows : List.Forall₂ Entry routes ps)
    (hord : ps.Pairwise (fun p q => ¬ StrictSub q p)) (hd : Denotes dst o) :
    ((∃ p ∈ ps, p.Contains (join o)) → ∃ (k : Nat) (r : Rtable), routes[k]? = some r ∧
        IsLongest ps (join o) k ∧ getNextHop routes dst = .ok ⟨r.nextHop, r.ifaceName⟩) ∧
      ((∀ p ∈ ps, ¬ p.Contains (join o)) → getNextHop routes dst = .ok ⟨"", ""⟩) ∧
      ((∀ r ∈ routes, ∃ line, r = loadRoute line) →
        (getNextHop routes dst = .ok ⟨"", ""⟩ ↔ ∀ p ∈ ps, ¬ p.Contains (join o))) := by
  rcases getNextHop_first hrows hord hd with ⟨k, r, hr, hl, hget⟩ | ⟨hnone, hget⟩
  · obtain ⟨p, hp, hcontains⟩ := hl.contains
    refine ⟨fun _ => ⟨k, r, hr, hl, hget⟩, fun hno => absurd hcontains (hno p hp), ?_⟩
    intro hloaded
    refine iff_of_false ?_ fun hno => hno p hp hcontains
    obtain ⟨line, rfl⟩ := hloaded r (List.mem_of_getElem? hr)
    obtain ⟨_, -, ⟨m, hm, -⟩, -⟩ := entry_of_mem hrows (List.mem_of_getElem? hr)
    rw [hget]
    simp [loadRoute_nextHop hm]
  · refine ⟨fun ⟨p, hp, hcontains⟩ => absurd hcontains (hnone p hp), fun _ => hget, fun _ => ?_⟩
    exact iff_of_true hget hnone

def quad (a b c d : BitVec 8) : Fin 4 → BitVec 8
  | 0 => a
  | 1 => b
  | 2 => c
  | 3 => d

def gateways : List Rtable :=
  [loadRoute "128.252.13.32 0.0.0.0 255.255.255.224 R2-cs2".toList,
    loadRoute "128.252.13.0 128.252.13.35 255.255.255.0 R2-cs2".toList,
    loadRoute "0.0.0.0 128.252.11.39 0.0.0.0 R1-cs1".toList]

def networks : List (BitPrefix 32) :=
  [⟨join (quad 128 252 13 32), 27, by decide, by decide⟩,
    ⟨join (quad 128 252 13 0), 24, by decide, by decide⟩,
    ⟨join (quad 0 0 0 0), 0, by decide, by decide⟩]

theorem gateways_entries : List.Forall₂ Entry gateways networks :=
  .cons ⟨⟨quad 255 255 255 224, by decide, by decide⟩, quad 128 252 13 32, by decide, rfl⟩ <|
  .cons ⟨⟨quad 255 255 255 0, by decide, by decide⟩, quad 128 252 13 0, by decide, rfl⟩ <|
  .cons ⟨⟨quad 0 0 0 0, by decide, by decide⟩, quad 0 0 0 0, by decide, rfl⟩ .nil

theorem longest_prefix_selected_gateways :
    ((∃ p ∈ networks, p.Contains (join (quad 128 252 13 40))) →
        ∃ (k : Nat) (r : Rtable), gateways[k]? = some r ∧
        IsLongest networks (join (quad 128 252 13 40)) k ∧
        getNextHop gateways "128.252.13.40" = .ok ⟨r.nextHop, r.ifaceName⟩) ∧
      ((∀ p ∈ networks, ¬ p.Contains (join (quad 128 252 13 40))) →
        getNextHop gateways "128.252.13.40" = .ok ⟨"", ""⟩) ∧
      ((∀ r ∈ gateways, ∃ line, r = loadRoute line) →
        (getNextHop gateways "128.252.13.40" = .ok ⟨"", ""⟩ ↔
          ∀ p ∈ networks, ¬ p.Contains (join (quad 128 252 13 40)))) :=
  longest_prefix_selected gateways_entries (by decide) (by decide)

end NetworkEmulator.Station

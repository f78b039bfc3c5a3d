import NetworkEmulator.Ip
import NetworkEmulator.Foundation.Renewal
import Mathlib.Data.Int.Order.Basic

namespace NetworkEmulator.ArpHistory

inductive ArpCall where
  | addMapping (ip : IPAddr) (mac : MacAddr) (now : Milliseconds)
  | monitorCache (now : Milliseconds)
deriving DecidableEq, Repr

def ArpCall.time : ArpCall → Milliseconds
  | .addMapping _ _ now | .monitorCache now => now

def call (cache : ArpCache) : ArpCall → ArpCache
  | .addMapping ip mac now => cache.addMapping ip mac now
  | .monitorCache now => cache.monitorCache now

def cache (calls : List ArpCall) : ArpCache := calls.foldl call ∅

-- the map that add_mapping sets and monitor_cache prunes by age
def refer (t : ArpCache) : ArpCall → ArpCache
  | .addMapping ip mac now => AList.insert ip ⟨mac, now⟩ t
  | .monitorCache now => Table.sweep (fun c => !decide (now - c.time ≥ ArpCache.maxTime)) t

def reference (calls : List ArpCall) : ArpCache := calls.foldl refer ∅

def Agrees (calls : List ArpCall) : Prop :=
  ∀ ip, (cache calls).hasMapping ip = (reference calls).hasMapping ip ∧
    (cache calls).getMacFor ip = (reference calls).getMacFor ip

def expired (now time : Milliseconds) : Bool := decide (now - time ≥ ArpCache.maxTime)

def ArpCall.toCall : ArpCall → Renewal.Call IPAddr CacheContent Milliseconds
  | .addMapping ip mac now => .add ip ⟨mac, now⟩
  | .monitorCache now => .sweep now

-- the first and the latest add of ip since the reference map last had no entry for it
def held (calls : List ArpCall) (ip : IPAddr) : Option (Renewal.Span CacheContent) :=
  Renewal.span CacheContent.time expired (calls.map ArpCall.toCall) ip

def Harmless (calls : List ArpCall) : ArpCall → Prop
  | .addMapping ip mac _ => ∀ sp ∈ held calls ip, mac = sp.latest.mac
  | .monitorCache now => ∀ ip, ∀ sp ∈ held calls ip,
      now - sp.first.time ≥ ArpCache.maxTime → now - sp.latest.time ≥ ArpCache.maxTime

variable {calls : List ArpCall}

theorem cache_eq : cache calls =
    Renewal.kept CacheContent.time expired (calls.map ArpCall.toCall) := by
  rw [cache, Renewal.kept, List.foldl_map]
  congr 1
  funext t c
  cases c with
  | addMapping | monitorCache => rfl

theorem reference_eq : reference calls =
    Renewal.renewed CacheContent.time expired (calls.map ArpCall.toCall) := by
  rw [reference, Renewal.renewed, List.foldl_map]
  congr 1
  funext t c
  cases c with
  | addMapping | monitorCache => rfl

theorem agrees_iff : Agrees calls ↔
    Renewal.Agree CacheContent.time expired CacheContent.mac (calls.map ArpCall.toCall) := by
  refine forall_congr' fun ip => ?_
  rw [← cache_eq, ← reference_eq, ArpCache.hasMapping, ArpCache.hasMapping, ArpCache.getMacFor,
    ArpCache.getMacFor]
  cases AList.lookup ip (cache calls) with
  | none => cases AList.lookup ip (reference calls) <;> simp
  | some c => cases AList.lookup ip (reference calls) <;> simp

theorem harmless_iff {c : ArpCall} : Harmless calls c ↔
    Renewal.Harmless CacheContent.time expired CacheContent.mac (calls.map ArpCall.toCall)
      c.toCall := by
  cases c with
  | addMapping => rfl
  | monitorCache => simp [Harmless, Renewal.Harmless, ArpCall.toCall, held, expired]

theorem expired_mono (now time time' : Milliseconds) (hle : time ≤ time')
    (h : expired now time' = true) : expired now time = true := by
  have hage := Int.sub_le_sub_left hle now
  simp only [expired, ge_iff_le, decide_eq_true_eq] at h ⊢
  exact Int.le_trans h hage

theorem toCall_time (c : ArpCall) : c.toCall.time CacheContent.time = c.time := by
  cases c with
  | addMapping | monitorCache => rfl

theorem prefix_map_snoc {α β : Type} {f : α → β} {xs : List α} {ys : List β} {y : β}
    (hp : ys ++ [y] <+: xs.map f) : ∃ zs z, zs ++ [z] <+: xs ∧ zs.map f = ys ∧ f z = y := by
  obtain ⟨zs', hp', heq⟩ := List.prefix_map_iff.mp hp
  obtain ⟨zs, rest, rfl, hzs, hrest⟩ := List.map_eq_append_iff.mp heq.symm
  obtain ⟨z, rest', rfl, hz, hnil⟩ := List.map_eq_cons_iff.mp hrest
  obtain rfl := List.map_eq_nil_iff.mp hnil
  exact ⟨zs, z, hp', hzs, hz⟩

theorem cache_agrees_iff (hclock : calls.Pairwise (fun a b => a.time ≤ b.time)) :
    (∀ pre, pre <+: calls → Agrees pre) ↔
      ∀ pre c, pre ++ [c] <+: calls → Harmless pre c := by
  have hclock' : (calls.map ArpCall.toCall).Pairwise
      (fun a b => a.time CacheContent.time ≤ b.time CacheContent.time) := by
    rw [List.pairwise_map]
    exact hclock.imp fun h => by simpa only [toCall_time] using h
  have hiff : _ ↔ ∀ pre c, _ → Renewal.Harmless CacheContent.time expired CacheContent.mac pre c :=
    Renewal.agree_throughout_iff expired_mono hclock'
  constructor
  · intro ha pre c hp
    rw [harmless_iff]
    refine hiff.mp ?_ _ _ (by simpa using hp.map ArpCall.toCall)
    intro pre' hp'
    obtain ⟨zs, hz, rfl⟩ := List.prefix_map_iff.mp hp'
    exact agrees_iff.mp (ha zs hz)
  · intro hh pre hp
    refine agrees_iff.mpr (hiff.mpr ?_ _ (hp.map ArpCall.toCall))
    intro pre' c' hp'
    obtain ⟨zs, z, hz, rfl, rfl⟩ := prefix_map_snoc hp'
    exact harmless_iff.mp (hh zs z hz)

def confirmed (sweep : Milliseconds) : List ArpCall :=
  [.addMapping "10.0.0.2" "bb" 0, .addMapping "10.0.0.2" "bb" 9000, .monitorCache sweep]

theorem cache_agrees_iff_early :
    (∀ pre, pre <+: confirmed 9500 → Agrees pre) ↔
      ∀ pre c, pre ++ [c] <+: confirmed 9500 → Harmless pre c :=
  cache_agrees_iff (by decide)

-- confirmed at 9000, the mapping is taken out at 10000 by the time of its first insertion
theorem confirmed_mapping_expires :
    ¬ ∀ calls : List ArpCall, calls.Pairwise (fun a b => a.time ≤ b.time) → Agrees calls := by
  intro hall
  have hagrees := (hall (confirmed 10000) (by decide) "10.0.0.2").1
  exact absurd hagrees (by decide)

end NetworkEmulator.ArpHistory

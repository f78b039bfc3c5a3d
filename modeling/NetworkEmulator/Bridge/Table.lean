import NetworkEmulator.Ip

namespace NetworkEmulator.Bridge

abbrev BridgeTableValues := Table MacAddr Milliseconds
abbrev BridgeTable := Table Port BridgeTableValues

structure ClientData where
  fd : Port
deriving DecidableEq, Repr

def arpTime : Milliseconds := 10000

def addPort (port : Port) (btable : BridgeTable) : BridgeTable :=
  Table.insertNew port ∅ btable

def addArpEntry (port : Port) (mac : MacAddr) (now : Milliseconds) (btable : BridgeTable) :
    BridgeTable :=
  Table.update port (Table.insertNew mac now) btable

def hasArpEntryOn (btable : BridgeTable) (port : Port) (mac : MacAddr) : Option Port :=
  match AList.lookup port btable with
  | none => none
  | some values => if mac ∈ values then some port else none

def hasArpEntry (btable : BridgeTable) (clients : List ClientData) (mac : MacAddr) : Option Port :=
  clients.findSome? (fun c => hasArpEntryOn btable c.fd mac)

def monitorArpCache (now : Milliseconds) (btable : BridgeTable) : BridgeTable :=
  Table.mapVals (fun _ => Table.sweep (fun t => !decide (now - t > arpTime))) btable

def entry (btable : BridgeTable) (port : Port) (mac : MacAddr) : Option Milliseconds :=
  (AList.lookup port btable).bind (AList.lookup mac)

def Records (btable : BridgeTable) (port : Port) (mac : MacAddr) : Prop :=
  (entry btable port mac).isSome

instance (btable : BridgeTable) (port : Port) (mac : MacAddr) :
    Decidable (Records btable port mac) :=
  inferInstanceAs (Decidable (_ = true))

@[simp] theorem not_records_empty (port : Port) (mac : MacAddr) :
    ¬ Records (∅ : BridgeTable) port mac := by
  simp [Records, entry]

theorem hasArpEntryOn_eq (btable : BridgeTable) (port : Port) (mac : MacAddr) :
    hasArpEntryOn btable port mac = if Records btable port mac then some port else none := by
  unfold hasArpEntryOn
  cases hv : AList.lookup port btable with
  | none => simp [Records, entry, hv]
  | some values =>
    have hm : mac ∈ values ↔ Records btable port mac := by
      rw [Records, entry, hv, Option.bind_some, AList.lookup_isSome]
    simp [hm]

theorem entry_monitor (now : Milliseconds) (btable : BridgeTable) (port : Port) (mac : MacAddr) :
    entry (monitorArpCache now btable) port mac =
      (entry btable port mac).filter (fun t => !decide (now - t > arpTime)) := by
  rw [entry, monitorArpCache, Table.lookup_mapVals, entry]
  cases AList.lookup port btable with
  | none => rfl
  | some values => exact Table.lookup_sweep _ mac values

theorem entry_monitor_some {now : Milliseconds} {btable : BridgeTable} {port : Port}
    {mac : MacAddr} {stamp : Milliseconds} :
    entry (monitorArpCache now btable) port mac = some stamp ↔
      entry btable port mac = some stamp ∧ now - stamp ≤ arpTime := by
  rw [entry_monitor, Option.filter_eq_some_iff]
  simp

theorem records_monitor {btable : BridgeTable} {now : Milliseconds} {port : Port} {mac : MacAddr}
    (h : Records (monitorArpCache now btable) port mac) : Records btable port mac := by
  rw [Records, entry_monitor] at h
  exact Option.isSome_of_isSome_filter _ _ h

theorem mem_monitor {btable : BridgeTable} {now : Milliseconds} {port : Port} :
    port ∈ monitorArpCache now btable ↔ port ∈ btable :=
  Table.mem_mapVals

theorem entry_addPort (btable : BridgeTable) (port port' : Port) (mac : MacAddr) :
    entry (addPort port btable) port' mac = entry btable port' mac := by
  unfold entry addPort
  by_cases h : port' = port
  · subst h
    rw [Table.lookup_insertNew_self]
    cases AList.lookup port' btable <;> simp
  · rw [Table.lookup_insertNew_ne h]

theorem records_addPort {btable : BridgeTable} {port port' : Port} {mac : MacAddr} :
    Records (addPort port btable) port' mac ↔ Records btable port' mac := by
  rw [Records, entry_addPort, Records]

theorem mem_addPort {btable : BridgeTable} {port port' : Port} :
    port' ∈ addPort port btable ↔ port' = port ∨ port' ∈ btable :=
  Table.mem_insertNew

theorem mem_addArpEntry {btable : BridgeTable} {port port' : Port} {mac : MacAddr}
    {now : Milliseconds} : port' ∈ addArpEntry port mac now btable ↔ port' ∈ btable :=
  Table.mem_update

theorem entry_addArpEntry {btable : BridgeTable} {port : Port} (now : Milliseconds)
    (hp : port ∈ btable) (mac : MacAddr) (port' : Port) (mac' : MacAddr) :
    entry (addArpEntry port mac now btable) port' mac' =
      if port' = port ∧ mac' = mac then some ((entry btable port mac).getD now)
      else entry btable port' mac' := by
  obtain ⟨values, hv⟩ := Option.isSome_iff_exists.mp (AList.lookup_isSome.mpr hp)
  unfold entry addArpEntry
  by_cases h : port' = port
  · subst h
    rw [Table.lookup_update_self, hv]
    by_cases hm : mac' = mac
    · subst hm
      simp [Table.lookup_insertNew_self]
    · simp [Table.lookup_insertNew_ne hm, hm]
  · rw [Table.lookup_update_ne h]
    simp [h]

theorem records_addArpEntry {btable : BridgeTable} {port port' : Port} {mac mac' : MacAddr}
    (now : Milliseconds) (hp : port ∈ btable) :
    Records (addArpEntry port mac now btable) port' mac' ↔
      (port' = port ∧ mac' = mac) ∨ Records btable port' mac' := by
  rw [Records, entry_addArpEntry now hp]
  by_cases h : port' = port ∧ mac' = mac
  · simp [h]
  · simp [h, Records]

-- a port the table has no row for is the end() the source would dereference
theorem records_of_addArpEntry {btable : BridgeTable} {port port' : Port} {mac mac' : MacAddr}
    {now : Milliseconds} (h : Records (addArpEntry port mac now btable) port' mac') :
    (port' = port ∧ mac' = mac) ∨ Records btable port' mac' := by
  by_cases hp : port ∈ btable
  · exact (records_addArpEntry now hp).mp h
  · right
    by_cases hpp : port' = port
    · subst hpp
      have hn := AList.lookup_eq_none.mpr hp
      simp [Records, entry, addArpEntry, Table.lookup_update_self, hn] at h
    · simpa [Records, entry, addArpEntry, Table.lookup_update_ne hpp] using h

theorem hasArpEntry_eq (btable : BridgeTable) (clients : List ClientData) (mac : MacAddr) :
    hasArpEntry btable clients mac =
      (clients.find? (fun c => decide (Records btable c.fd mac))).map ClientData.fd := by
  induction clients with
  | nil => rfl
  | cons c clients ih =>
    simp only [hasArpEntry, hasArpEntryOn_eq, List.findSome?_cons, List.find?_cons] at ih ⊢
    by_cases h : Records btable c.fd mac
    · simp [h]
    · simpa [h] using ih

theorem hasArpEntry_some {btable : BridgeTable} {clients : List ClientData} {mac : MacAddr}
    {port : Port} (h : hasArpEntry btable clients mac = some port) :
    Records btable port mac ∧ ∃ c ∈ clients, c.fd = port := by
  rw [hasArpEntry_eq, Option.map_eq_some_iff] at h
  obtain ⟨c, hc, rfl⟩ := h
  have hrec : Records btable c.fd mac := by simpa using List.find?_some hc
  exact ⟨hrec, c, List.mem_of_find?_eq_some hc, rfl⟩

end NetworkEmulator.Bridge

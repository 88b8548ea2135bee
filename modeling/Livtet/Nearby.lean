import Mathlib.Data.List.Induction
import Mathlib.Data.Prod.Lex
import Mathlib.Data.String.Basic
import Livtet.Lib.Maps
import Livtet.PairLink

/-! # Nearby — the devices heard on the local network

    A device announces a record with its node id, its device id and a name. Whoever looks
    for devices listens for a while and keeps, for each node id, what it heard last. Its
    own records are left out by both ids: the record of an endpoint that is long closed
    has another node id, but the device id is the same.

    So the list is what was heard last of each node but one's own, by name, and a device
    is shown as it announced itself. -/

namespace Nearby

open SyncPairing (trim)
open SyncPairLink (trimEndMatches)
open Maps

/-! ## The record -/

def serviceType : String := "_livtet-sync._tcp.local."

def txtNodeId : String := "id"
def txtDeviceId : String := "device_id"
def txtDeviceName : String := "name"
def txtVersion : String := "version"
def txtHostname : String := "hostname"
def txtDeviceFlavor : String := "deviceFlavor"

def nameAdjectives : List String :=
  ["Amber", "Brisk", "Calm", "Dusty", "Eager", "Fuzzy", "Gentle", "Happy", "Ivory", "Jolly",
    "Kind", "Lucky", "Mellow", "Nimble", "Quiet", "Sunny"]

def nameNouns : List String :=
  ["Otter", "Falcon", "Heron", "Lynx", "Marmot", "Osprey", "Panda", "Quail", "Raven", "Seal",
    "Sparrow", "Tiger", "Wren", "Yak", "Zebra", "Finch"]

/-- FNV-1a over the bytes of the id picks the two words. -/
def friendlyName (deviceId : String) : String :=
  let hash := (deviceId.toList.flatMap String.utf8EncodeChar).foldl
    (fun (hash : UInt64) byte => (hash ^^^ byte.toUInt64) * 0x00000100000001b3) 0xcbf29ce484222325
  let adjective := nameAdjectives.getD (hash % 16).toNat ""
  let noun := nameNouns.getD ((hash >>> 8) % 16).toNat ""
  adjective ++ " " ++ noun

/-- A device that announces itself. An unspecified address is none. -/
structure Announced where
  nodeId : String
  deviceId : String
  deviceName : Option String
  deviceType : String
  ip : Option String
  port : UInt16

/-- The record as it is registered; without an address it has those of every interface. -/
structure ServiceInfo where
  serviceType : String
  instanceName : String
  host : String
  address : Option String
  port : UInt16
  properties : Map String String

/-- The version of the crate. -/
def crateVersion : String := "0.1.0"

def Announced.short (d : Announced) : String := String.ofList (d.nodeId.toList.take 12)

/-- A name that was chosen, if it is not blank, or one that stands in. -/
def Announced.name (d : Announced) : String :=
  ((d.deviceName.map trim).filter fun name => !name.isEmpty).getD (friendlyName d.deviceId)

def serviceInfo (d : Announced) : ServiceInfo where
  serviceType := serviceType
  instanceName := "livtet-" ++ d.short
  host := "livtet-" ++ d.short ++ ".local."
  address := d.ip
  port := d.port
  properties := ((((((∅ : Map String String).insert txtNodeId d.nodeId).insert txtDeviceId
    d.deviceId).insert txtDeviceName d.name).insert txtDeviceFlavor d.deviceType).insert txtVersion
    crateVersion).insert txtHostname ("livtet-" ++ d.short)

/-! ## What is heard -/

/-- A record that was resolved: `property` is `get_property_val_str`. The addresses come
    in no order. -/
structure ResolvedService where
  property : String → Option String
  hostname : String
  addresses : List String
  port : UInt16

structure NearbyPeer where
  nodeId : String
  deviceId : String
  name : String
  deviceType : String
  version : String
  hostname : String
  addresses : List String
  port : UInt16
deriving DecidableEq

def nonEmpty (value : Option String) : Option String := value.filter fun v => !v.isEmpty

/-- A record without a node id is not one of ours. -/
def peerFromResolved (info : ResolvedService) : Option NearbyPeer :=
  match info.property txtNodeId with
  | none => none
  | some nodeId =>
      if nodeId.isEmpty then none
      else
        let hostname := String.ofList (trimEndMatches '.' info.hostname.toList)
        let name := (nonEmpty ((nonEmpty (info.property txtDeviceName)).or
          (info.property txtHostname))).getD hostname
        some {
          nodeId := nodeId
          deviceId := (info.property txtDeviceId).getD ""
          name := name
          deviceType := (info.property txtDeviceFlavor).getD "unknown"
          version := (info.property txtVersion).getD ""
          hostname := hostname
          addresses := info.addresses.mergeSort fun a b => decide (a ≤ b)
          port := info.port }

/-- Only what is resolved is looked at: a goodbye is not. -/
inductive ServiceEvent
  | searchStarted
  | serviceFound (fullname : String)
  | serviceResolved (info : ResolvedService)
  | serviceRemoved (fullname : String)
  | searchStopped

inductive MdnsError
  | mdns (message : String)
deriving DecidableEq, Repr

/-- The loop of `browse_for`, over what comes in before the window closes. -/
def heard (events : List ServiceEvent) : Map String NearbyPeer :=
  events.foldl (fun heard event =>
    match event with
    | .serviceResolved info =>
        match peerFromResolved info with
        | some peer => heard.insert peer.nodeId peer
        | none => heard
    | .searchStarted => heard
    | .serviceFound _ => heard
    | .serviceRemoved _ => heard
    | .searchStopped => heard) ∅

/-- By name, and then by node id. -/
def sortKey (peer : NearbyPeer) : String ×ₗ String := toLex (peer.name, peer.nodeId)

def sortPeers (peers : List NearbyPeer) : List NearbyPeer :=
  peers.mergeSort fun left right => decide (sortKey left ≤ sortKey right)

/-- A map gives its values in no order; `values` is one. -/
def browseFor (daemon browse : Except String Unit) (values : List NearbyPeer) :
    Except MdnsError (List NearbyPeer) :=
  match daemon with
  | .error error => .error (.mdns ("daemon: " ++ error))
  | .ok () =>
      match browse with
      | .error error => .error (.mdns ("browse: " ++ error))
      | .ok () => .ok (sortPeers values)

/-- One's own advertisement is left out, under whichever of the two ids it is known. -/
def handleDiscoveryNearby (ownNodeId ownDeviceId : String)
    (peers : Except MdnsError (List NearbyPeer)) : Except MdnsError (List NearbyPeer) :=
  match peers with
  | .error error => .error error
  | .ok peers =>
      .ok (peers.filter fun peer =>
        decide (peer.nodeId ≠ ownNodeId) && decide (peer.deviceId ≠ ownDeviceId))

/-! ## What is shown -/

/-- The peers that were heard, in the order they were heard. -/
def ServiceEvent.peer : ServiceEvent → Option NearbyPeer
  | .serviceResolved info => peerFromResolved info
  | .searchStarted => none
  | .serviceFound _ => none
  | .serviceRemoved _ => none
  | .searchStopped => none

/-- Of its node, nothing was heard after it. -/
def LastHeard (events : List ServiceEvent) (peer : NearbyPeer) : Prop :=
  ∃ before after, events.filterMap ServiceEvent.peer = before ++ peer :: after ∧
    ∀ p ∈ after, p.nodeId ≠ peer.nodeId

/-- A record as it comes over the network. -/
structure Carries (info : ResolvedService) (d : Announced) : Prop where
  property : ∀ key value, (serviceInfo d).properties.lookup key = some value →
    info.property key = some value
  hostname : info.hostname = (serviceInfo d).host
  port : info.port = d.port

/-- The device, as it announced itself. -/
structure Shows (peer : NearbyPeer) (d : Announced) : Prop where
  nodeId : peer.nodeId = d.nodeId
  deviceId : peer.deviceId = d.deviceId
  name : peer.name = d.name ∧ peer.name ≠ ""
  deviceType : peer.deviceType = d.deviceType
  version : peer.version = crateVersion
  hostname : peer.hostname = "livtet-" ++ d.short ++ ".local"
  port : peer.port = d.port

/-- A list of the devices nearby, after what was heard. -/
structure Listed (events : List ServiceEvent) (ownNodeId ownDeviceId : String)
    (peers : List NearbyPeer) : Prop where
  mem : ∀ peer, peer ∈ peers ↔
    LastHeard events peer ∧ peer.nodeId ≠ ownNodeId ∧ peer.deviceId ≠ ownDeviceId
  sorted : peers.Pairwise fun a b => sortKey a < sortKey b
  once : (peers.map NearbyPeer.nodeId).Nodup

/-- What the reader sees of the devices nearby. -/
structure Seen (events : List ServiceEvent) (ownNodeId ownDeviceId : String)
    (peers : List NearbyPeer) : Prop extends Listed events ownNodeId ownDeviceId peers where
  /-- There is one such list, whatever the order of the map. -/
  only : ∀ peers', Listed events ownNodeId ownDeviceId peers' → peers' = peers
  /-- A device that is heard is shown as it announced itself, unless another announced
      itself under its node id. -/
  shown : ∀ d : Announced, d.nodeId ≠ "" → d.nodeId ≠ ownNodeId → d.deviceId ≠ ownDeviceId →
    (∃ info, .serviceResolved info ∈ events ∧ Carries info d) →
    (∀ info peer, .serviceResolved info ∈ events → peerFromResolved info = some peer →
      peer.nodeId = d.nodeId → Carries info d) →
    ∃ peer ∈ peers, Shows peer d
  /-- One's own record is not shown, whatever its node id was. -/
  notOwn : ∀ d : Announced, d.deviceId = ownDeviceId → ∀ peer ∈ peers, ¬ Shows peer d

/-! ## The record, read back -/

section Record

variable {d : Announced} {info : ResolvedService}

theorem friendlyName_ne_empty (deviceId : String) : friendlyName deviceId ≠ "" := by
  intro h
  have hlength := congrArg String.length h
  simp [friendlyName, String.length_append] at hlength

theorem Announced.name_ne_empty (d : Announced) : d.name ≠ "" := by
  rw [Announced.name]
  cases hname : (d.deviceName.map trim).filter fun name => !name.isEmpty with
  | none => exact friendlyName_ne_empty d.deviceId
  | some name =>
      obtain ⟨_, hfilled⟩ := Option.filter_eq_some_iff.1 hname
      rintro rfl
      cases hfilled

theorem nonEmpty_some {value : String} (h : value ≠ "") : nonEmpty (some value) = some value := by
  rw [nonEmpty, Option.filter_some_pos]
  rw [Bool.not_eq_true', String.isEmpty_eq_false_iff]
  exact h

/-- Only the dot at the end of a host goes. -/
theorem trimmed_host (d : Announced) :
    String.ofList (trimEndMatches '.' (serviceInfo d).host.toList) =
      "livtet-" ++ d.short ++ ".local" := by
  have hdot : ∀ text : List Char,
      trimEndMatches '.' (text ++ ".local.".toList) = text ++ ".local".toList := by
    intro text
    rw [trimEndMatches, List.reverse_append]
    show (".local".toList.reverse ++ text.reverse).reverse = _
    rw [← List.reverse_append, List.reverse_reverse]
  rw [serviceInfo, String.toList_append, hdot, String.ofList_append, String.ofList_toList,
    String.ofList_toList]

/-- **THE RECORD** is read back as it was announced. -/
theorem shows_of_carries (h : Carries info d) (hnode : d.nodeId ≠ "") :
    ∃ peer, peerFromResolved info = some peer ∧ Shows peer d := by
  have hread := h.property
  rw [serviceInfo] at hread
  have hid := hread txtNodeId d.nodeId (by rfl)
  have hdevice := hread txtDeviceId d.deviceId (by rfl)
  have hname := hread txtDeviceName d.name (by rfl)
  have hflavor := hread txtDeviceFlavor d.deviceType (by rfl)
  have hversion := hread txtVersion crateVersion (by rfl)
  have hnamed : (nonEmpty ((nonEmpty (info.property txtDeviceName)).or
      (info.property txtHostname))) = some d.name := by
    rw [hname, nonEmpty_some d.name_ne_empty, Option.some_or, nonEmpty_some d.name_ne_empty]
  have hfilled : d.nodeId.isEmpty = false := String.isEmpty_eq_false_iff.2 hnode
  rw [peerFromResolved, hid]
  dsimp only
  rw [hfilled, if_neg Bool.false_ne_true, hnamed, hdevice, hflavor, hversion, h.hostname,
    trimmed_host]
  exact ⟨_, rfl, rfl, rfl, ⟨rfl, d.name_ne_empty⟩, rfl, rfl, rfl, h.port⟩

end Record

/-! ## The map -/

section Map

variable {events : List ServiceEvent}

theorem heard_eq (events : List ServiceEvent) : heard events =
    (events.filterMap ServiceEvent.peer).foldl (fun m p => m.insert p.nodeId p) ∅ := by
  rw [List.foldl_filterMap, heard]
  congr 1
  funext m event
  cases event with
  | serviceResolved info =>
      dsimp only [ServiceEvent.peer]
      cases peerFromResolved info <;> rfl
  | searchStarted => rfl
  | serviceFound _ => rfl
  | serviceRemoved _ => rfl
  | searchStopped => rfl

/-- What is in the map under a node id is what was put there last. -/
theorem lookup_inserted (id : String) (peer : NearbyPeer) (peers : List NearbyPeer) :
    (peers.foldl (fun (m : Map String NearbyPeer) p => m.insert p.nodeId p) ∅).lookup id =
        some peer ↔
      peer.nodeId = id ∧ ∃ before after, peers = before ++ peer :: after ∧
        ∀ p ∈ after, p.nodeId ≠ peer.nodeId := by
  induction peers using List.reverseRecOn with
  | nil =>
      rw [List.foldl_nil, AList.lookup_empty]
      refine iff_of_false nofun ?_
      rintro ⟨_, before, after, hnil, _⟩
      exact absurd hnil.symm (by simp)
  | append_singleton peers last ih =>
      rw [List.foldl_append, List.foldl_cons, List.foldl_nil, lookup_insert, ih]
      constructor
      · rintro (⟨rfl, rfl⟩ | ⟨hother, hid, before, after, rfl, hlast⟩)
        · exact ⟨rfl, peers, [], rfl, nofun⟩
        · refine ⟨hid, before, after ++ [last], by rw [List.append_assoc, List.cons_append], ?_⟩
          intro p hp
          rcases List.mem_append.1 hp with hp | hp
          · exact hlast p hp
          · rw [List.mem_singleton.1 hp, hid]
            exact hother.symm
      · rintro ⟨rfl, before, after, hsplit, hlast⟩
        rcases List.eq_nil_or_concat after with rfl | ⟨after, p, rfl⟩
        · have hsame := (List.append_inj' hsplit rfl).2
          cases hsame
          exact Or.inl ⟨rfl, rfl⟩
        · rw [List.concat_eq_append, ← List.cons_append, ← List.append_assoc] at hsplit
          obtain ⟨hfront, hsame⟩ := List.append_inj' hsplit rfl
          cases hsame
          refine Or.inr ⟨fun h => ?_, rfl, before, after, hfront, fun q hq => ?_⟩
          · exact hlast last (by simp) h.symm
          · exact hlast q (by simp [hq])

theorem lookup_heard {id : String} {peer : NearbyPeer} :
    (heard events).lookup id = some peer ↔ peer.nodeId = id ∧ LastHeard events peer := by
  rw [heard_eq, lookup_inserted]
  rfl

/-- The values of the map. -/
def heardPeers (events : List ServiceEvent) : List NearbyPeer :=
  (heard events).entries.map fun e => e.2

theorem mem_heardPeers {peer : NearbyPeer} : peer ∈ heardPeers events ↔ LastHeard events peer := by
  rw [heardPeers, List.mem_map]
  constructor
  · rintro ⟨⟨id, peer⟩, hmem, rfl⟩
    exact (lookup_heard.1 (AList.mem_lookup_iff.2 hmem)).2
  · intro h
    exact ⟨⟨peer.nodeId, peer⟩, AList.mem_lookup_iff.1 (lookup_heard.2 ⟨rfl, h⟩), rfl⟩

theorem nodup_heardPeers (events : List ServiceEvent) :
    ((heardPeers events).map NearbyPeer.nodeId).Nodup := by
  have hkeys : (heardPeers events).map NearbyPeer.nodeId = (heard events).keys := by
    rw [heardPeers, List.map_map]
    refine List.map_congr_left fun e he => ?_
    exact (lookup_heard.1 (AList.mem_lookup_iff.2 he)).1
  rw [hkeys]
  exact (heard events).nodupKeys

/-- Of each node that was heard, something was heard last. -/
theorem exists_last {peer : NearbyPeer} {peers : List NearbyPeer} (h : peer ∈ peers) :
    ∃ last, last.nodeId = peer.nodeId ∧ ∃ before after, peers = before ++ last :: after ∧
      ∀ p ∈ after, p.nodeId ≠ last.nodeId := by
  induction peers generalizing peer with
  | nil => cases h
  | cons p rest ih =>
      by_cases hlater : ∃ q ∈ rest, q.nodeId = peer.nodeId
      · obtain ⟨q, hq, hid⟩ := hlater
        obtain ⟨last, hlast, before, after, rfl, hnone⟩ := ih hq
        exact ⟨last, hlast.trans hid, p :: before, after, rfl, hnone⟩
      · rcases List.mem_cons.1 h with rfl | hrest
        · exact ⟨peer, rfl, [], rest, rfl, fun q hq hid => hlater ⟨q, hq, hid⟩⟩
        · exact absurd ⟨peer, hrest, rfl⟩ hlater

/-- A peer was heard in an event. -/
theorem LastHeard.event {peer : NearbyPeer} (h : LastHeard events peer) :
    ∃ info, .serviceResolved info ∈ events ∧ peerFromResolved info = some peer := by
  obtain ⟨before, after, hsplit, _⟩ := h
  have hmem : peer ∈ events.filterMap ServiceEvent.peer := by
    rw [hsplit]
    exact List.mem_append_right _ List.mem_cons_self
  obtain ⟨event, hevent, hpeer⟩ := List.mem_filterMap.1 hmem
  cases event with
  | serviceResolved info => exact ⟨info, hevent, hpeer⟩
  | searchStarted => cases hpeer
  | serviceFound _ => cases hpeer
  | serviceRemoved _ => cases hpeer
  | searchStopped => cases hpeer

end Map

/-! ## The list -/

section Sorted

variable {events : List ServiceEvent} {ownNodeId ownDeviceId : String}

theorem sorted_sortPeers (peers : List NearbyPeer) :
    (sortPeers peers).Pairwise fun a b => sortKey a ≤ sortKey b := by
  refine (List.pairwise_mergeSort ?_ ?_ peers).imp of_decide_eq_true
  · intro a b c hab hbc
    exact decide_eq_true ((of_decide_eq_true hab).trans (of_decide_eq_true hbc))
  · intro a b
    rw [Bool.or_eq_true]
    exact (le_total (sortKey a) (sortKey b)).imp decide_eq_true decide_eq_true

theorem sortKey_lt {a b : NearbyPeer} (hle : sortKey a ≤ sortKey b) (hne : a.nodeId ≠ b.nodeId) :
    sortKey a < sortKey b := by
  refine lt_of_le_of_ne hle fun h => hne ?_
  exact congrArg Prod.snd (toLex.injective h)

/-- Two lists with the same peers, in order, are one. -/
theorem Listed.unique {peers peers' : List NearbyPeer} (h : Listed events ownNodeId ownDeviceId peers)
    (h' : Listed events ownNodeId ownDeviceId peers') : peers' = peers := by
  have hnodup : ∀ {l : List NearbyPeer}, (l.Pairwise fun a b => sortKey a < sortKey b) →
      l.Nodup := fun hl => hl.imp fun hlt heq => absurd (congrArg sortKey heq) hlt.ne
  refine List.Perm.eq_of_pairwise ?_ h'.sorted h.sorted ?_
  · exact fun a b _ _ hab hba => absurd hab hba.asymm
  · exact (List.perm_ext_iff_of_nodup (hnodup h'.sorted) (hnodup h.sorted)).2
      fun peer => (h'.mem peer).trans (h.mem peer).symm

/-- Whatever the order of the map, the list is the one of what was heard last. -/
theorem listed_of_perm {values : List NearbyPeer} (h : values.Perm (heardPeers events)) :
    Listed events ownNodeId ownDeviceId ((sortPeers values).filter fun peer =>
      decide (peer.nodeId ≠ ownNodeId) && decide (peer.deviceId ≠ ownDeviceId)) := by
  have hperm : (sortPeers values).Perm (heardPeers events) := (List.mergeSort_perm _ _).trans h
  have honce : ((sortPeers values).map NearbyPeer.nodeId).Nodup :=
    ((hperm.map _).nodup_iff).2 (nodup_heardPeers events)
  refine ⟨fun peer => ?_, ?_, ?_⟩
  · rw [List.mem_filter, hperm.mem_iff, mem_heardPeers, Bool.and_eq_true, decide_eq_true_iff,
      decide_eq_true_iff]
  · refine List.Pairwise.filter _ ?_
    exact ((sorted_sortPeers values).and (List.pairwise_map.1 honce)).imp
      fun hboth => sortKey_lt hboth.1 hboth.2
  · exact honce.sublist (List.filter_sublist.map _)

end Sorted

end Nearby

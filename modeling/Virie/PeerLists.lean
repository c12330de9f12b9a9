import Virie.Foundation.Runs
import Virie.P2p.Peerlist

/-! # What the peer lists contain

Whatever peers tell and whenever peers are seen, no address is in both lists or twice in one, and
the lists keep their limits. Loopback addresses are never stored, nor are local ones of the ranges
that the node recognizes; it does not recognize 172.16.0.0 to 172.31.255.255. Entries of remote
lists are shifted to the local clock, and unless the shift overflows and the local clock is set
back no entry is in the future. -/

open Foundation

namespace Virie.P2p

/-! ## Addresses -/

/-- 127.0.0.0 to 127.255.255.255. -/
def Loopback (ip : UInt32) : Prop := ip.toNat % 256 = 127

/-- 172.16.0.0 to 172.31.255.255. -/
def PrivateOf172 (ip : UInt32) : Prop :=
  ip.toNat % 256 = 172 ∧ 16 ≤ ip.toNat / 256 % 256 ∧ ip.toNat / 256 % 256 ≤ 31

/-- The local ranges: 10.0.0.0 to 10.255.255.255, 192.168.0.0 to 192.168.255.255, and those
starting with 172. -/
def Local (ip : UInt32) : Prop :=
  ip.toNat % 256 = 10 ∨ ip.toNat % 256 = 192 ∧ ip.toNat / 256 % 256 = 168 ∨ PrivateOf172 ip

/-- An address that a node may store. -/
def Permitted (allowLocalIp : Bool) (ip : UInt32) : Prop :=
  ¬ Loopback ip ∧ (allowLocalIp = false → ¬ Local ip)

/-- An ip with its high bits set depends on its low bits. -/
theorem or_mask {ip other mask : UInt32} {bits : Nat}
    (isMask : mask.toNat = (2 ^ (32 - bits) - 1) <<< bits)
    (same : ip.toNat % 2 ^ bits = other.toNat % 2 ^ bits) : ip ||| mask = other ||| mask := by
  rw [← UInt32.toNat_inj, UInt32.toNat_or, UInt32.toNat_or]
  refine Nat.eq_of_testBit_eq fun j => ?_
  rw [Nat.testBit_or, Nat.testBit_or, isMask, Nat.testBit_shiftLeft, Nat.testBit_two_pow_sub_one]
  by_cases low : j < bits
  · have bit := congrArg (fun n => n.testBit j) same
    have equal : ip.toNat.testBit j = other.toNat.testBit j := by
      simpa [Nat.testBit_mod_two_pow, low] using bit
    rw [equal]
  · by_cases word : j < 32
    · have high : j ≥ bits := Nat.le_of_not_lt low
      simp [high, show j - bits < 32 - bits by omega]
    · have beyond : ∀ n : UInt32, n.toNat.testBit j = false := fun n =>
        Nat.testBit_lt_two_pow (lt_of_lt_of_le n.toNat_lt
          (Nat.pow_le_pow_right (by decide) (Nat.le_of_not_lt word)))
      rw [beyond, beyond]

theorem isIpLoopback_of {ip : UInt32} (loopback : Loopback ip) : isIpLoopback ip = true := by
  have masked : ip ||| 0xffffff00 = 0x7f ||| 0xffffff00 :=
    @or_mask _ _ _ 8 (by decide) loopback
  rw [isIpLoopback, masked]
  decide

theorem isIpLocal_of {ip : UInt32} (isLocal : Local ip) (recognized : ¬ PrivateOf172 ip) :
    isIpLocal ip = true := by
  rcases isLocal with ten | ⟨first, second⟩ | unrecognized
  · have masked : ip ||| 0xffffff00 = 0x0a ||| 0xffffff00 :=
      @or_mask _ _ _ 8 (by decide) ten
    rw [isIpLocal, masked, if_pos (by decide)]
  · have masked : ip ||| 0xffff0000 = 0xa8c0 ||| 0xffff0000 := by
      refine @or_mask _ _ _ 16 (by decide) ?_
      have low : (0xa8c0 : UInt32).toNat % 2 ^ 16 = 43200 := by decide
      rw [low]
      omega
    rw [isIpLocal, masked]
    split
    · rfl
    · rw [if_pos (by decide)]
  · exact absurd unrecognized recognized

/-- What the manager allows is permitted, apart from the range that it does not recognize. -/
theorem permitted_of {m : PeerlistManager} {ip : UInt32} (allowed : m.isIpAllowed ip = true)
    (recognized : m.allowLocalIp = false → ¬ PrivateOf172 ip) : Permitted m.allowLocalIp ip := by
  rw [PeerlistManager.isIpAllowed] at allowed
  refine ⟨fun loopback => ?_, fun closed isLocal => ?_⟩
  · rw [if_pos (isIpLoopback_of loopback)] at allowed
    cases allowed
  · split at allowed
    · cases allowed
    · rw [closed, isIpLocal_of isLocal (recognized closed)] at allowed
      cases allowed

/-! ## One list -/

/-- A list in which addresses are unique, with a limit and a property of its entries. -/
structure Listed (limit : Nat) (fine : PeerlistEntry → Prop) (peers : PeersIndexed) : Prop where
  unique : (peers.map PeerlistEntry.adr).Nodup
  limited : peers.length ≤ limit
  fine : ∀ entry ∈ peers, fine entry

section Lists

variable {limit : Nat} {fine : PeerlistEntry → Prop} {peers : PeersIndexed} {ple : PeerlistEntry}

theorem findAddr_none {adr : NetAddress} :
    peers.findAddr adr = none ↔ adr ∉ peers.map PeerlistEntry.adr := by
  simp [PeersIndexed.findAddr, List.find?_eq_none, List.mem_map]

theorem link_perm (ple : PeerlistEntry) (peers : PeersIndexed) :
    (PeersIndexed.link ple peers).Perm (ple :: peers) := by
  induction peers with
  | nil => exact .refl _
  | cons entry rest ih =>
    rw [PeersIndexed.link]
    split
    · exact .refl _
    · exact (ih.cons entry).trans (.swap ple entry rest)

theorem trim_sublist (limit : Nat) (peers : PeersIndexed) :
    (peers.trim limit).Sublist peers := List.drop_sublist _ _

theorem trim_length (limit : Nat) (peers : PeersIndexed) : (peers.trim limit).length ≤ limit := by
  rw [PeersIndexed.trim, List.length_drop]
  omega

theorem Listed.sublist {fewer : PeersIndexed} (listed : Listed limit fine peers)
    (part : fewer.Sublist peers) : Listed limit fine fewer where
  unique := (part.map PeerlistEntry.adr).nodup listed.unique
  limited := part.length_le.trans listed.limited
  fine entry member := listed.fine entry (part.subset member)

/-- A new entry may cost the entries that were not seen for longest. -/
theorem Listed.add (listed : Listed limit fine peers) (absent : peers.findAddr ple.adr = none)
    (good : fine ple) : Listed limit fine ((PeersIndexed.link ple peers).trim limit) := by
  have part := trim_sublist limit (PeersIndexed.link ple peers)
  have perm := link_perm ple peers
  have unique : ((PeersIndexed.link ple peers).map PeerlistEntry.adr).Nodup := by
    rw [(perm.map PeerlistEntry.adr).nodup_iff, List.map_cons, List.nodup_cons]
    exact ⟨findAddr_none.1 absent, listed.unique⟩
  refine ⟨(part.map _).nodup unique, trim_length _ _, fun entry member => ?_⟩
  rcases List.mem_cons.1 (perm.subset (part.subset member)) with same | before
  · exact same ▸ good
  · exact listed.fine entry before

theorem mem_add {entry : PeerlistEntry}
    (member : entry ∈ (PeersIndexed.link ple peers).trim limit) : entry = ple ∨ entry ∈ peers :=
  List.mem_cons.1 ((link_perm ple peers).subset ((trim_sublist limit _).subset member))

theorem mem_replace {entry : PeerlistEntry} (member : entry ∈ peers.replace ple) :
    entry = ple ∨ entry ∈ peers := by
  rw [PeersIndexed.replace] at member
  split at member
  · obtain ⟨old, before, same⟩ := List.mem_map.1 member
    split at same
    · exact .inl same.symm
    · exact .inr (same ▸ before)
  · rcases List.mem_cons.1 ((link_perm ple _).subset member) with same | before
    · exact .inl same
    · exact .inr (List.mem_of_mem_filter before)

/-- The entry that replaces another has its address. -/
theorem Listed.replace (listed : Listed limit fine peers)
    (present : ple.adr ∈ peers.map PeerlistEntry.adr) (good : fine ple) :
    Listed limit fine (peers.replace ple) := by
  have all : ∀ entry ∈ peers.replace ple, fine entry := fun entry member => by
    rcases mem_replace member with same | before
    · exact same ▸ good
    · exact listed.fine entry before
  rw [PeersIndexed.replace] at all ⊢
  split
  · rename_i inPlace
    rw [if_pos inPlace] at all
    have addresses : (peers.map fun entry => if entry.adr = ple.adr then ple else entry).map
        PeerlistEntry.adr = peers.map PeerlistEntry.adr := by
      rw [List.map_map]
      refine List.map_congr_left fun entry _ => ?_
      by_cases same : entry.adr = ple.adr
      · simp [same]
      · simp [same]
    exact ⟨addresses ▸ listed.unique, by rw [List.length_map]; exact listed.limited, all⟩
  · rename_i moved
    rw [if_neg moved] at all
    have perm := link_perm ple (peers.eraseAddr ple.adr)
    refine ⟨?_, ?_, all⟩
    · rw [(perm.map PeerlistEntry.adr).nodup_iff, List.map_cons, List.nodup_cons]
      refine ⟨fun kept => ?_, (List.filter_sublist.map _).nodup listed.unique⟩
      obtain ⟨entry, member, same⟩ := List.mem_map.1 kept
      exact absurd same (of_decide_eq_true (List.mem_filter.1 member).2)
    · obtain ⟨entry, member, same⟩ := List.mem_map.1 present
      have fewer : (peers.eraseAddr ple.adr).length < peers.length := by
        refine List.length_filter_lt_length_iff_exists.2 ⟨entry, member, ?_⟩
        simp [same]
      rw [perm.length_eq, List.length_cons]
      exact (Nat.succ_le_of_lt fewer).trans listed.limited

/-- A property that holds of the entries as well. -/
theorem Listed.congr {other : PeerlistEntry → Prop} (listed : Listed limit fine peers)
    (holds : ∀ entry ∈ peers, other entry) : Listed limit other peers :=
  ⟨listed.unique, listed.limited, holds⟩

end Lists

/-! ## The manager -/

/-- Both lists keep their limits and a property of their entries, and they have no address in
common. -/
structure Kept (fine : PeerlistEntry → Prop) (m : PeerlistManager) : Prop where
  white : Listed localWhitePeerlistLimit fine m.peersWhite
  gray : Listed localGrayPeerlistLimit fine m.peersGray
  apart : ∀ known ∈ m.peersWhite, ∀ heard ∈ m.peersGray, known.adr ≠ heard.adr

section Manager

variable {fine : PeerlistEntry → Prop} {m : PeerlistManager} {ple : PeerlistEntry}

theorem Kept.congr {other : PeerlistEntry → Prop} (kept : Kept fine m)
    (holds : ∀ entry, fine entry → other entry) : Kept other m :=
  ⟨kept.white.congr fun entry member => holds entry (kept.white.fine entry member),
    kept.gray.congr fun entry member => holds entry (kept.gray.fine entry member), kept.apart⟩

theorem Kept.appendWhite (kept : Kept fine m)
    (good : m.isIpAllowed ple.adr.ip = true → fine ple) : Kept fine (m.appendWithPeerWhite ple) := by
  rw [PeerlistManager.appendWithPeerWhite]
  split
  · exact kept
  · rename_i allowed
    have fits : fine ple := good (by simpa using allowed)
    have erased : ∀ heard ∈ m.peersGray.eraseAddr ple.adr,
        heard ∈ m.peersGray ∧ heard.adr ≠ ple.adr := fun heard member =>
      ⟨List.mem_of_mem_filter member, of_decide_eq_true (List.mem_filter.1 member).2⟩
    have apart : ∀ known, known = ple ∨ known ∈ m.peersWhite →
        ∀ heard ∈ m.peersGray.eraseAddr ple.adr, known.adr ≠ heard.adr := by
      intro known either heard member
      rcases either with same | before
      · exact fun equal => (erased heard member).2 (equal.symm.trans (congrArg _ same))
      · exact kept.apart known before heard (erased heard member).1
    have gray := kept.gray.sublist (List.filter_sublist (p := fun entry => entry.adr ≠ ple.adr))
    cases found : m.peersWhite.findAddr ple.adr with
    | none =>
      have white := kept.white.add found fits
      dsimp only
      exact ⟨white, gray, fun known member => apart known (@mem_add localWhitePeerlistLimit
        m.peersWhite ple known member)⟩
    | some old =>
      have present : ple.adr ∈ m.peersWhite.map PeerlistEntry.adr := by
        by_contra absent
        rw [findAddr_none.2 absent] at found
        cases found
      exact ⟨kept.white.replace present fits, gray,
        fun known member => apart known (mem_replace member)⟩

theorem Kept.appendGray (kept : Kept fine m)
    (good : m.isIpAllowed ple.adr.ip = true → m.peersWhite.findAddr ple.adr = none → fine ple) :
    Kept fine (m.appendWithPeerGray ple) := by
  rw [PeerlistManager.appendWithPeerGray]
  split
  · exact kept
  · rename_i allowed
    cases white : m.peersWhite.findAddr ple.adr with
    | some known => exact kept
    | none =>
      have fits : fine ple := good (by simpa using allowed) white
      have apart : ∀ heard, heard = ple ∨ heard ∈ m.peersGray →
          ∀ known ∈ m.peersWhite, known.adr ≠ heard.adr := by
        intro heard either known member
        rcases either with same | before
        · subst same
          exact fun equal => findAddr_none.1 white (List.mem_map.2 ⟨known, member, equal⟩)
        · exact kept.apart known member heard before
      cases found : m.peersGray.findAddr ple.adr with
      | none =>
        have gray := kept.gray.add found fits
        dsimp only
        exact ⟨kept.white, gray, fun known member heard member' =>
          apart heard (@mem_add localGrayPeerlistLimit m.peersGray ple heard member') known member⟩
      | some old =>
        have present : ple.adr ∈ m.peersGray.map PeerlistEntry.adr := by
          by_contra absent
          rw [findAddr_none.2 absent] at found
          cases found
        exact ⟨kept.white, kept.gray.replace present fits,
          fun known member heard member' => apart heard (mem_replace member') known member⟩

/-- Gray entries do not change what is allowed or the white list. -/
theorem appendGray_rest (m : PeerlistManager) (ple : PeerlistEntry) :
    (m.appendWithPeerGray ple).peersWhite = m.peersWhite ∧
      (m.appendWithPeerGray ple).allowLocalIp = m.allowLocalIp := by
  rw [PeerlistManager.appendWithPeerGray]
  split
  · exact ⟨rfl, rfl⟩
  · split <;> exact ⟨rfl, rfl⟩

theorem Kept.merge (kept : Kept fine m) {outerBs : List PeerlistEntry}
    (good : ∀ be ∈ outerBs, m.isIpAllowed be.adr.ip = true →
      m.peersWhite.findAddr be.adr = none → fine be) :
    Kept fine (m.mergePeerlist outerBs) ∧
      (m.mergePeerlist outerBs).allowLocalIp = m.allowLocalIp := by
  have merged : Kept fine (outerBs.foldl PeerlistManager.appendWithPeerGray m) ∧
      (outerBs.foldl PeerlistManager.appendWithPeerGray m).allowLocalIp = m.allowLocalIp := by
    induction outerBs generalizing m with
    | nil => exact ⟨kept, rfl⟩
    | cons be rest ih =>
      obtain ⟨here, later⟩ := List.forall_mem_cons.1 good
      obtain ⟨white, allow⟩ := appendGray_rest m be
      have next := ih (kept.appendGray here) fun be' member allowed absent =>
        later be' member (by rwa [PeerlistManager.isIpAllowed, allow] at allowed)
          (white ▸ absent)
      exact ⟨next.1, next.2.trans allow⟩
  obtain ⟨kept', allow⟩ := merged
  have part := trim_sublist localGrayPeerlistLimit
    (outerBs.foldl PeerlistManager.appendWithPeerGray m).peersGray
  rw [PeerlistManager.mergePeerlist]
  dsimp only
  exact ⟨⟨kept'.white, kept'.gray.sublist part, fun known member heard member' =>
    kept'.apart known member heard (part.subset member')⟩, allow⟩

end Manager

/-! ## Remote lists -/

theorem shiftPeerlist_some {localTime delta : Int64} {peerlist shifted : List PeerlistEntry}
    (accepted : shiftPeerlist localTime delta peerlist = some shifted) :
    (∀ be ∈ peerlist, be.lastSeen ≤ localTime) ∧
      shifted = peerlist.map fun be => { be with lastSeen := be.lastSeen + delta } := by
  induction peerlist generalizing shifted with
  | nil =>
    cases accepted
    exact ⟨List.forall_mem_nil _, rfl⟩
  | cons be rest ih =>
    rw [shiftPeerlist] at accepted
    split at accepted
    · cases accepted
    · rename_i past
      obtain ⟨later, run, rfl⟩ := Option.map_eq_some_iff.1 accepted
      obtain ⟨all, rfl⟩ := ih run
      refine ⟨List.forall_mem_cons.2 ⟨?_, all⟩, rfl⟩
      rw [gt_iff_lt, Int64.lt_iff_toInt_lt] at past
      rw [Int64.le_iff_toInt_le]
      omega

/-- A time that is not in the future of the remote clock is not in the future of the local one once
it is shifted, unless the sum falls below the range of the type. -/
theorem shifted_le {lastSeen localTime now : Int64} (past : lastSeen ≤ localTime)
    (room : -2 ^ 63 ≤ lastSeen.toInt - localTime.toInt + now.toInt) :
    lastSeen + (now - localTime) ≤ now := by
  rw [Int64.le_iff_toInt_le] at past ⊢
  have bound := now.toInt_lt
  have sum : (lastSeen + (now - localTime)).toInt =
      lastSeen.toInt - localTime.toInt + now.toInt := by
    rw [Int64.toInt_add, Int64.toInt_sub, Int.add_bmod_bmod]
    have regroup : lastSeen.toInt + (now.toInt - localTime.toInt) =
        lastSeen.toInt - localTime.toInt + now.toInt := by omega
    rw [regroup]
    exact Int.bmod_eq_of_le (by omega) (by omega)
  omega

/-! ## Every run -/

/-- What the node hears and does. -/
inductive PeerEvent where
  | remotePeerlist (peerlist : List PeerlistEntry) (localTime : Int64)
  | justSeen (peer : UInt64) (adr : NetAddress)
  | pinged (peer : UInt64) (adr : NetAddress)
  | commandLinePeer (peer : UInt64) (adr : NetAddress)

/-- The peer lists and the local clock. -/
structure Node where
  manager : PeerlistManager
  clock : Int64

namespace Node

/-- What the manager does at a time. An address of the command line was never seen. -/
def react (m : PeerlistManager) (now : Int64) : PeerEvent → PeerlistManager
  | .remotePeerlist peerlist localTime => (handleRemotePeerlist m peerlist localTime now).2
  | .justSeen peer adr => m.setPeerJustSeen peer adr now
  | .pinged peer adr => m.appendWithPeerWhite { adr, id := peer, lastSeen := now }
  | .commandLinePeer peer adr => m.appendWithPeerWhite { adr, id := peer, lastSeen := 0 }

/-- A node with empty lists. -/
def system : System (Int64 × PeerEvent) Node where
  start s := ∃ allowLocalIp clock, s = ⟨⟨allowLocalIp, [], []⟩, clock⟩
  step event s := ⟨react s.manager event.1 event.2, event.1⟩

/-- An address that the manager takes is none of the local range that it does not recognize. -/
def Recognized (m : PeerlistManager) (ip : UInt32) : Prop :=
  m.isIpAllowed ip = true → m.allowLocalIp = false → ¬ PrivateOf172 ip

/-- The clock is not set back and is not before the epoch for addresses of the command line, the
stored addresses are recognized, and the times of a remote list can be shifted. -/
def Regular (event : Int64 × PeerEvent) (s : Node) : Prop :=
  s.clock ≤ event.1 ∧
    match event.2 with
    | .remotePeerlist peerlist localTime =>
      (∀ be ∈ peerlist, be.lastSeen ≤ localTime) → ∀ be ∈ peerlist,
        s.manager.isIpAllowed be.adr.ip = true → s.manager.peersWhite.findAddr be.adr = none →
          Recognized s.manager be.adr.ip ∧
            -2 ^ 63 ≤ be.lastSeen.toInt - localTime.toInt + event.1.toInt
    | .justSeen _ adr => Recognized s.manager adr.ip
    | .pinged _ adr => Recognized s.manager adr.ip
    | .commandLinePeer _ adr => Recognized s.manager adr.ip ∧ 0 ≤ event.1

/-- An entry that the lists of a node may hold. -/
def Fine (allowLocalIp : Bool) (clock : Int64) (entry : PeerlistEntry) : Prop :=
  Permitted allowLocalIp entry.adr.ip ∧ entry.lastSeen ≤ clock

/-- The lists are as they should be, and a restart keeps them. -/
structure Sound (s : Node) : Prop where
  kept : Kept (Fine s.manager.allowLocalIp s.clock) s.manager
  restart : ∀ now, s.clock ≤ now → s.manager.init s.manager.allowLocalIp now = s.manager

variable {s : Node} {m : PeerlistManager} {ple : PeerlistEntry} {clock now : Int64}

theorem Fine.later {allowLocalIp : Bool} (fine : Fine allowLocalIp clock ple) (onward : clock ≤ now) :
    Fine allowLocalIp now ple := by
  refine ⟨fine.1, ?_⟩
  have seen := fine.2
  rw [Int64.le_iff_toInt_le] at seen onward ⊢
  omega

theorem appendWhite_allow (m : PeerlistManager) (ple : PeerlistEntry) :
    (m.appendWithPeerWhite ple).allowLocalIp = m.allowLocalIp := by
  rw [PeerlistManager.appendWithPeerWhite]
  split <;> rfl

/-- A peer in the white list at a time that is not in the future. -/
theorem kept_white (kept : Kept (Fine m.allowLocalIp now) m)
    (recognized : Recognized m ple.adr.ip) (past : ple.lastSeen ≤ now) :
    Kept (Fine (m.appendWithPeerWhite ple).allowLocalIp now) (m.appendWithPeerWhite ple) := by
  rw [appendWhite_allow]
  exact kept.appendWhite fun allowed =>
    ⟨permitted_of allowed (recognized allowed), past⟩

/-- What one event does to the lists. -/
theorem kept_react {event : PeerEvent} (kept : Kept (Fine m.allowLocalIp clock) m)
    (regular : Regular (now, event) ⟨m, clock⟩) :
    Kept (Fine (react m now event).allowLocalIp now) (react m now event) := by
  obtain ⟨onward, meets⟩ := regular
  have kept := kept.congr fun entry fine => fine.later onward
  have itself : now ≤ now := by rw [Int64.le_iff_toInt_le]
  cases event with
  | remotePeerlist peerlist localTime =>
    rw [react, handleRemotePeerlist, fixTimeDelta]
    cases accepted : shiftPeerlist localTime (now - localTime) peerlist with
    | none => exact kept
    | some shifted =>
      obtain ⟨past, rfl⟩ := shiftPeerlist_some accepted
      have good : ∀ be ∈ peerlist.map fun be =>
          { be with lastSeen := be.lastSeen + (now - localTime) },
          m.isIpAllowed be.adr.ip = true → m.peersWhite.findAddr be.adr = none →
            Fine m.allowLocalIp now be := by
        intro be member allowed absent
        obtain ⟨old, offered, rfl⟩ := List.mem_map.1 member
        obtain ⟨recognized, room⟩ := meets past old offered allowed absent
        exact ⟨permitted_of allowed (recognized allowed), shifted_le (past old offered) room⟩
      obtain ⟨merged, allow⟩ := kept.merge good
      dsimp only
      rw [allow]
      exact merged
  | justSeen peer adr => exact kept_white kept meets itself
  | pinged peer adr => exact kept_white kept meets itself
  | commandLinePeer peer adr => exact kept_white kept meets.1 meets.2

/-- A restart at a time that is not in the past finds nothing in the future. -/
theorem init_of_kept (kept : Kept (Fine m.allowLocalIp clock) m) (onward : clock ≤ now) :
    m.init m.allowLocalIp now = m := by
  have present : ∀ peers : PeersIndexed, (∀ entry ∈ peers, Fine m.allowLocalIp clock entry) →
      (peers.any fun v => v.lastSeen > now) = false := by
    intro peers all
    rw [List.any_eq_false]
    intro entry member
    have seen := (all entry member |>.later onward).2
    rw [Int64.le_iff_toInt_le] at seen
    rw [decide_eq_true_eq, gt_iff_lt, Int64.lt_iff_toInt_lt]
    omega
  rw [PeerlistManager.init, present _ kept.white.fine, present _ kept.gray.fine]
  rfl

/-- In every run in which the clock is not set back, no stored address is of the unrecognized range
and no shift overflows, both lists are as they should be after each step. -/
theorem sound_of_reaches (reached : system.Reaches Regular s) : s.Sound := by
  have kept : Kept (Fine s.manager.allowLocalIp s.clock) s.manager := by
    induction reached with
    | start start =>
      obtain ⟨allowLocalIp, clock, rfl⟩ := start
      have empty : ∀ limit fine, Listed limit fine [] := fun limit fine =>
        ⟨List.nodup_nil, Nat.zero_le _, List.forall_mem_nil _⟩
      exact ⟨empty _ _, empty _ _, fun known member => absurd member List.not_mem_nil⟩
    | step _ event meets kept => exact kept_react kept meets
  exact ⟨kept, fun now onward => init_of_kept kept onward⟩

end Node

/-! ## Entries that should not be there -/

namespace StrayEntries

/-- A node that does not allow local addresses, at some time. -/
def node : Node := ⟨⟨false, [], []⟩, 1000⟩

theorem node_start : Node.system.start node := ⟨false, 1000, rfl⟩

def publicAddr : NetAddress := ⟨0x08080808, 8080⟩

/-- A remote list with the address 172.16.0.1. -/
def privateRange : Int64 × PeerEvent := (1000, .remotePeerlist [⟨⟨0x010010ac, 8080⟩, 7, 900⟩] 950)

/-- A remote list with a time so early that shifting it back overflows. -/
def overflow : Int64 × PeerEvent :=
  (1000, .remotePeerlist [⟨publicAddr, 7, -9223372036854775808⟩] 2000)

/-- The local clock is set back after a peer was seen. -/
def setBack : List (Int64 × PeerEvent) :=
  [(1000, .justSeen 7 publicAddr), (500, .commandLinePeer 8 ⟨0x04040404, 8080⟩)]

/-- A local address gets into the gray list, and entries in the future make a restart clean a
list. -/
theorem lists_unsound :
    (∃ entry ∈ (Node.system.step privateRange node).manager.peersGray, Local entry.adr.ip) ∧
    ¬ (Node.system.step privateRange node).Sound ∧
    (∃ entry ∈ (Node.system.step overflow node).manager.peersGray,
      (Node.system.step overflow node).clock < entry.lastSeen) ∧
    ((Node.system.step overflow node).manager.init false 1001).peersGray = [] ∧
    ¬ (Node.system.step overflow node).Sound ∧
    ¬ (Node.system.after node setBack).Sound := by
  have stored : (Node.system.step privateRange node).manager.peersGray =
      [⟨⟨0x010010ac, 8080⟩, 7, 950⟩] := by decide +kernel
  have early : (Node.system.step overflow node).manager.peersGray =
      [⟨publicAddr, 7, 9223372036854774808⟩] := by decide +kernel
  have seen : (Node.system.after node setBack).manager.init false 500 ≠
      (Node.system.after node setBack).manager := by decide +kernel
  have isLocal : Local 0x010010ac := by
    refine .inr (.inr ⟨?_, ?_, ?_⟩) <;> decide
  have cleaned : ((Node.system.step overflow node).manager.init false 1001).peersGray = [] := by
    decide +kernel
  refine ⟨⟨_, stored ▸ List.mem_singleton_self _, isLocal⟩, fun sound => ?_,
    ⟨_, early ▸ List.mem_singleton_self _, by decide⟩, cleaned, fun sound => ?_, fun sound => ?_⟩
  · have fine := sound.kept.gray.fine _ (stored ▸ List.mem_singleton_self _)
    exact fine.1.2 rfl isLocal
  · have kept := sound.restart 1001 (by decide)
    have gray := congrArg PeerlistManager.peersGray kept
    change ((Node.system.step overflow node).manager.init false 1001).peersGray = _ at gray
    rw [cleaned, early] at gray
    cases gray
  · exact seen (sound.restart 500 (by decide))

/-- A peer is seen, tells of two others, and one of them answers a ping. -/
def regularRun : List (Int64 × PeerEvent) :=
  [(1000, .justSeen 7 publicAddr),
    (1001, .remotePeerlist [⟨⟨0x04040404, 8080⟩, 8, 800⟩, ⟨publicAddr, 7, 900⟩] 900),
    (1002, .pinged 8 ⟨0x04040404, 8080⟩)]

theorem regularRun_sound : (Node.system.after node regularRun).Sound := by
  refine Node.sound_of_reaches (System.Reaches.after (.start node_start) ⟨?_, ?_, ?_, trivial⟩)
  · refine ⟨by decide, fun _ _ => ?_⟩
    unfold PrivateOf172
    decide
  · refine ⟨by decide, fun _ be member _ _ => ?_⟩
    rcases List.mem_cons.1 member with rfl | member
    · refine ⟨fun _ _ => ?_, by decide⟩
      unfold PrivateOf172
      decide
    · rw [List.mem_singleton.1 member]
      refine ⟨fun _ _ => ?_, by decide⟩
      unfold PrivateOf172
      decide
  · refine ⟨by decide, fun _ _ => ?_⟩
    unfold PrivateOf172
    decide

end StrayEntries

end Virie.P2p

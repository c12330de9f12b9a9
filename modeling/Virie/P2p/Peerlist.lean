import Mathlib

/-! # The peer lists

`peerlist_manager` keeps two lists of peers, the white one with peers that this node talked to and
the gray one with peers that others told it of. A list is indexed by the address, which is unique,
and ordered by the time at which a peer was last seen; a list that outgrows its limit loses the
peers that were not seen for longest. Sums and differences of times wrap around. -/

namespace Virie.P2p

/-- An address; an ip has its first number in the lowest byte. -/
structure NetAddress where
  ip : UInt32
  port : UInt32
deriving DecidableEq

structure PeerlistEntry where
  adr : NetAddress
  id : UInt64
  lastSeen : Int64
deriving DecidableEq

@[irreducible] def localWhitePeerlistLimit : Nat := 1000
@[irreducible] def localGrayPeerlistLimit : Nat := 5000

/-- `is_ip_local`. -/
def isIpLocal (ip : UInt32) : Bool :=
  if ip ||| 0xffffff00 = 0xffffff0a then true
  else if ip ||| 0xffff0000 = 0xffffa8c0 then true
  else if ip ||| 0xffffff00 = 0xffffffac then
    let secondNum := (ip <<< 8) &&& 0xff000000
    secondNum ≥ 16 && secondNum ≤ 31
  else false

/-- `is_ip_loopback`. -/
def isIpLoopback (ip : UInt32) : Bool := ip ||| 0xffffff00 = 0xffffff7f

/-! ## Lists ordered by time -/

/-- `peers_indexed` in the order of its index by time. -/
abbrev PeersIndexed := List PeerlistEntry

namespace PeersIndexed

def findAddr (peers : PeersIndexed) (adr : NetAddress) : Option PeerlistEntry :=
  peers.find? fun entry => entry.adr = adr

/-- Put an entry behind those that were seen no later. -/
def link (ple : PeerlistEntry) : PeersIndexed → PeersIndexed
  | [] => [ple]
  | entry :: rest =>
    if ple.lastSeen < entry.lastSeen then ple :: entry :: rest else entry :: link ple rest

/-- `erase` of the entry of an address. -/
def eraseAddr (peers : PeersIndexed) (adr : NetAddress) : PeersIndexed :=
  peers.filter fun entry => entry.adr ≠ adr

/-- `replace` of the entry of an address: in its place if the order by time allows it. -/
def replace (peers : PeersIndexed) (ple : PeerlistEntry) : PeersIndexed :=
  let inPlace := peers.map fun entry => if entry.adr = ple.adr then ple else entry
  if inPlace.Pairwise fun a b => a.lastSeen ≤ b.lastSeen then inPlace
  else link ple (eraseAddr peers ple.adr)

/-- Erase the entries at the start of the index by time while there are more than a limit. -/
def trim (limit : Nat) (peers : PeersIndexed) : PeersIndexed := peers.drop (peers.length - limit)

end PeersIndexed

/-! ## The manager -/

structure PeerlistManager where
  allowLocalIp : Bool
  peersWhite : PeersIndexed
  peersGray : PeersIndexed
deriving DecidableEq

namespace PeerlistManager

/-- `init` at a time: a list with an entry in the future is cleaned. -/
def init (m : PeerlistManager) (allowLocalIp : Bool) (now : Int64) : PeerlistManager where
  allowLocalIp := allowLocalIp
  peersWhite := if m.peersWhite.any fun v => v.lastSeen > now then [] else m.peersWhite
  peersGray := if m.peersGray.any fun v => v.lastSeen > now then [] else m.peersGray

def isIpAllowed (m : PeerlistManager) (ip : UInt32) : Bool :=
  if isIpLoopback ip then false
  else if !m.allowLocalIp && isIpLocal ip then false
  else true

def appendWithPeerWhite (m : PeerlistManager) (ple : PeerlistEntry) : PeerlistManager :=
  if !m.isIpAllowed ple.adr.ip then m
  else
    let peersWhite :=
      match m.peersWhite.findAddr ple.adr with
      | none => (m.peersWhite.link ple).trim localWhitePeerlistLimit
      | some _ => m.peersWhite.replace ple
    { m with peersWhite, peersGray := m.peersGray.eraseAddr ple.adr }

def appendWithPeerGray (m : PeerlistManager) (ple : PeerlistEntry) : PeerlistManager :=
  if !m.isIpAllowed ple.adr.ip then m
  else
    match m.peersWhite.findAddr ple.adr, m.peersGray.findAddr ple.adr with
    | some _, _ => m
    | none, none =>
      { m with peersGray := (m.peersGray.link ple).trim localGrayPeerlistLimit }
    | none, some _ => { m with peersGray := m.peersGray.replace ple }

def mergePeerlist (m : PeerlistManager) (outerBs : List PeerlistEntry) : PeerlistManager :=
  let m := outerBs.foldl appendWithPeerGray m
  { m with peersGray := m.peersGray.trim localGrayPeerlistLimit }

/-- `set_peer_just_seen` at a time. -/
def setPeerJustSeen (m : PeerlistManager) (peer : UInt64) (adr : NetAddress) (now : Int64) :
    PeerlistManager :=
  m.appendWithPeerWhite { adr, id := peer, lastSeen := now }

end PeerlistManager

/-! ## Remote lists -/

/-- The loop of `fix_time_delta`; a remote entry in the future of the remote clock ends it. -/
def shiftPeerlist (localTime delta : Int64) : List PeerlistEntry → Option (List PeerlistEntry)
  | [] => some []
  | be :: rest =>
    if be.lastSeen > localTime then none
    else (shiftPeerlist localTime delta rest).map fun shifted =>
      { be with lastSeen := be.lastSeen + delta } :: shifted

/-- `fix_time_delta` at a time. -/
def fixTimeDelta (localPeerlist : List PeerlistEntry) (localTime now : Int64) :
    Option (List PeerlistEntry) :=
  shiftPeerlist localTime ((now - localTime)) localPeerlist

/-- `handle_remote_peerlist` at a time: whether the list was merged, and the manager. -/
def handleRemotePeerlist (m : PeerlistManager) (peerlist : List PeerlistEntry)
    (localTime now : Int64) : Bool × PeerlistManager :=
  match fixTimeDelta peerlist localTime now with
  | none => (false, m)
  | some shifted => (true, m.mergePeerlist shifted)

end Virie.P2p

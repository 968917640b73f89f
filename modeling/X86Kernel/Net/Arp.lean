import X86Kernel.Lib.Counting
import X86Kernel.Net.Ip

/-! The ARP cache of `ethernet.c` and the packets that wait for it, with a log of what is
transmitted and dropped. -/
namespace X86Kernel.Net

open Traced (Bytes)

abbrev arpCacheSize : ℕ := 16
abbrev arpQueueSize : ℕ := 8
def arpRetryTicks : ℕ := 100
def arpMaxTries : UInt8 := 4

inductive ArpState where
  | free
  | pending
  | resolved
  deriving DecidableEq

structure ArpEntry where
  ip : ℕ
  mac : List UInt8
  state : ArpState
  lastReq : ℕ
  tries : UInt8

/-- What `net_tx` accepts: no more than `eth_send` can put into a frame. -/
abbrev Payload := { l : List UInt8 // l.length ≤ ethMtu }

structure Packet where
  nextHop : ℕ
  ethertype : ℕ
  data : Payload

/-- A slot of the queue; `call` is the number of the call of `net_tx` that filled it. -/
structure PendingPkt where
  used : Bool
  packet : Packet
  call : ℕ

def PendingPkt.cleared (p : PendingPkt) : PendingPkt := { p with used := false }

inductive DropReason where
  | queueFull
  | evicted
  | unresolved
  deriving DecidableEq

inductive ArpEvent where
  | learned (ip : ℕ) (mac : List UInt8)
  | sent (call : ℕ) (dest : List UInt8) (ethertype : ℕ) (data : List UInt8)
  | dropped (call : ℕ) (reason : DropReason)
  | request (target : ℕ)
  | reply (dest : List UInt8) (target : ℕ)

/-- The two tables, the static `next`, the packets that were given to `net_tx` and the events, the
last one first. -/
structure Arp where
  cache : Fin arpCacheSize → ArpEntry
  queue : Fin arpQueueSize → PendingPkt
  next : Fin arpCacheSize
  given : List Packet
  log : List ArpEvent

namespace Arp

/-- The zeroed tables that the program begins with. -/
def init : Arp where
  cache _ := ⟨0, List.replicate 6 0, .free, 0, 0⟩
  queue _ := ⟨false, ⟨0, 0, ⟨[], Nat.zero_le _⟩⟩, 0⟩
  next := 0
  given := []
  log := []

def emit (s : Arp) (e : ArpEvent) : Arp := { s with log := e :: s.log }

def setEntry (s : Arp) (i : Fin arpCacheSize) (e : ArpEntry) : Arp :=
  { s with cache := Function.update s.cache i e }

def setSlot (s : Arp) (i : Fin arpQueueSize) (p : PendingPkt) : Arp :=
  { s with queue := Function.update s.queue i p }

def give (s : Arp) (p : Packet) : Arp := { s with given := s.given ++ [p] }

/-- `eth_send` of a packet that `net_tx` was given. -/
def ethSend (s : Arp) (call : ℕ) (dest : List UInt8) (p : Packet) : Arp :=
  if ethMtu < p.data.val.length then s else s.emit (.sent call dest p.ethertype p.data)

def arpRequest (s : Arp) (target : ℕ) : Arp := s.emit (.request target)

def arpFind (s : Arp) (ip : ℕ) : Option (Fin arpCacheSize) :=
  (List.finRange arpCacheSize).find? fun i =>
    decide ((s.cache i).state ≠ .free ∧ (s.cache i).ip = ip)

def arpLookup (s : Arp) (ip : ℕ) : Option (List UInt8) :=
  match s.arpFind ip with
  | none => none
  | some i => if (s.cache i).state ≠ .resolved then none else some (s.cache i).mac

/-- One turn of the loops over the packets that wait for a next hop: `act` on the packet, and its
slot is free. -/
def sweepSlot (hop : ℕ) (act : Arp → PendingPkt → Arp) (s : Arp) (i : Fin arpQueueSize) : Arp :=
  if (s.queue i).used = true ∧ (s.queue i).packet.nextHop = hop then
    (act s (s.queue i)).setSlot i (s.queue i).cleared
  else s

def sweep (s : Arp) (hop : ℕ) (act : Arp → PendingPkt → Arp) : Arp :=
  (List.finRange arpQueueSize).foldl (sweepSlot hop act) s

def arpDropQueue (s : Arp) (hop : ℕ) (reason : DropReason) : Arp :=
  s.sweep hop fun s p => s.emit (.dropped p.call reason)

def arpFlush (s : Arp) (hop : ℕ) : Arp :=
  match s.arpLookup hop with
  | none => s
  | some mac => s.sweep hop fun s p => s.ethSend p.call mac p.packet

def arpAllocSlot (s : Arp) : Arp × Fin arpCacheSize :=
  match (List.finRange arpCacheSize).find? fun i => decide ((s.cache i).state = .free) with
  | some i => (s, i)
  | none => ({ s with next := s.next + 1 }.arpDropQueue (s.cache s.next).ip .evicted, s.next)

/-- The entry for an address, or else a slot for one. -/
def arpFindOrAlloc (s : Arp) (ip : ℕ) : Arp × Fin arpCacheSize :=
  match s.arpFind ip with
  | some i => (s, i)
  | none => s.arpAllocSlot

def arpUpdateCache (s : Arp) (ip : ℕ) (mac : List UInt8) : Arp :=
  let (s, i) := s.arpFindOrAlloc ip
  (s.setEntry i { s.cache i with ip, mac, state := .resolved }).emit (.learned ip mac)

def arpLearn (s : Arp) : Option (ℕ × List UInt8) → Arp
  | none => s
  | some (ip, mac) => (s.arpUpdateCache ip mac).arpFlush ip

def arpAnswer (s : Arp) : Option Reply → Arp
  | some (.arp mac ip) => s.emit (.reply mac ip)
  | _ => s

/-- `arp_input` of a frame: what it learns goes into the cache, then it answers. -/
def arpInput (s : Arp) (host len : ℕ) (frame : Bytes) : Arp :=
  let received := (Net.arpInput host len frame).value
  (s.arpLearn received.learned).arpAnswer received.reply

def arpEnqueue (s : Arp) (call : ℕ) (p : Packet) : Arp :=
  match (List.finRange arpQueueSize).find? fun i => !(s.queue i).used with
  | some i => s.setSlot i ⟨true, p, call⟩
  | none => s.emit (.dropped call .queueFull)

/-- `arp_resolve`, where `get_tick` gives `now`. -/
def arpResolve (s : Arp) (ip now : ℕ) : Arp :=
  match s.arpFind ip with
  | some _ => s
  | none =>
    let (s, i) := s.arpAllocSlot
    (s.setEntry i { s.cache i with
      ip, state := .pending, tries := 1, lastReq := now }).arpRequest ip

def netTx (s : Arp) (p : Packet) (now : ℕ) : Arp :=
  let call := s.given.length
  let s := s.give p
  match s.arpLookup p.nextHop with
  | some mac => s.ethSend call mac p
  | none => (s.arpEnqueue call p).arpResolve p.nextHop now

/-- One turn of the loop of `arp_tick`; ticks are a `uint32_t`. -/
def arpTickEntry (now : ℕ) (s : Arp) (i : Fin arpCacheSize) : Arp :=
  let e := s.cache i
  if e.state ≠ .pending then s
  else if (now + 2 ^ 32 - e.lastReq) % 2 ^ 32 < arpRetryTicks then s
  else if arpMaxTries ≤ e.tries then (s.arpDropQueue e.ip .unresolved).setEntry i { e with
    state := .free }
  else (s.setEntry i { e with tries := e.tries + 1, lastReq := now }).arpRequest e.ip

def arpTick (s : Arp) (now : ℕ) : Arp := (List.finRange arpCacheSize).foldl (arpTickEntry now) s

end Arp

/-- What the card, the timer and the layers above ask for. -/
inductive ArpStep where
  | netTx (p : Packet) (now : UInt32)
  | arpInput (host : UInt32) (len : UInt16) (frame : Bytes)
  | arpResolve (ip now : UInt32)
  | arpTick (now : UInt32)

def Arp.step (s : Arp) : ArpStep → Arp
  | .netTx p now => s.netTx p now.toNat
  | .arpInput host len frame => s.arpInput host.toNat len.toNat frame
  | .arpResolve ip now => s.arpResolve ip.toNat now.toNat
  | .arpTick now => s.arpTick now.toNat

end X86Kernel.Net

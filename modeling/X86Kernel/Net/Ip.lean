import X86Kernel.Net.Checksum

/-! Ethernet, ARP, IPv4, ICMP and UDP: what `eth_input` reads of a frame and what it answers, and
what `ip_send` builds. -/
namespace X86Kernel.Net

open LittleEndian
open Traced (Bytes)

def ethHeaderLen : ℕ := 14
def ethMtu : ℕ := 1500
def arpLen : ℕ := 28
def ipMtu : ℕ := 1500
def ipHeaderLen : ℕ := 20
def icmpHeaderLen : ℕ := 8
def udpHeaderLen : ℕ := 8
def ipProtoIcmp : UInt8 := 1
def ipProtoUdp : UInt8 := 17

/-! ### Sending -/

/-- `ip_header_t` with the fields that `ip_send` sets. -/
def ipHeader (checksum len : ℕ) (protocol : UInt8) (src dst : ℕ) : List UInt8 :=
  ([.ofNat (5 ||| 4 <<< 4), 0] : List UInt8) ++ le16Bytes
    (htons (ipHeaderLen + len)) ++ le16Bytes 0 ++ le16Bytes 0 ++
    [64, protocol] ++ le16Bytes checksum ++ le32Bytes src ++ le32Bytes dst

def ipNextHop (host dst : ℕ) : ℕ := if dst &&& 0x00FFFFFF = host &&& 0x00FFFFFF then dst
  else gatewayIp

/-- The next hop and the packet that `ip_send` gives to `net_tx`; `none` where the payload is too
long for one. -/
def ipSend (host dst : ℕ) (protocol : UInt8) (payload : List UInt8) : Option (ℕ × List UInt8) :=
  if ipMtu - ipHeaderLen < payload.length then none
  else
    let sum := checksum (bytesOf (ipHeader 0 payload.length protocol host dst)) 0 ipHeaderLen
    some (ipNextHop host dst, ipHeader sum payload.length protocol host dst ++ payload)

/-- The frame that `eth_send` builds. -/
def ethFrame (dest src : Mac) (ethertype : ℕ) (payload : List UInt8) : List UInt8 :=
  dest.toList ++ src.toList ++ le16Bytes (htons ethertype) ++ payload

/-! ### Receiving -/

/-- What is asked of `eth_send`, `ip_send` and `udp_send` in answer to a frame. -/
inductive Reply where
  | arp (mac : List UInt8) (ip : ℕ)
  | icmp (dst : ℕ) (packet : List UInt8)
  | udp (dst dstPort srcPort : ℕ) (payload : List UInt8)
  deriving DecidableEq

/-- The mapping that `arp_input` learns, and the answer. -/
structure Received where
  learned : Option (ℕ × List UInt8)
  reply : Option Reply
  deriving DecidableEq

def Received.nothing : Received := ⟨none, none⟩

/-- `arp_input`; the offsets are those of the frame. -/
def arpInput (host len : ℕ) : Traced Received :=
  if len < ethHeaderLen + arpLen then return .nothing
  else do
    let htype ← read16 14
    if htons htype ≠ 1 then return .nothing
    else do
      let ptype ← read16 16
      if htons ptype ≠ 0x0800 then return .nothing
      else do
        let spa ← read32 28
        let sha ← Traced.readBytes 22 6
        let op ← read16 20
        if htons op ≠ 1 then return ⟨some (spa, sha), none⟩
        else do
          let tpa ← read32 38
          if tpa ≠ host then return ⟨some (spa, sha), none⟩
          else return ⟨some (spa, sha), some (.arp sha spa)⟩

/-- `icmp_input` of `len` bytes at `off`. `ip_send` reads no payload that it drops. -/
def icmpInput (src off len : ℕ) : Traced (Option Reply) :=
  if len < icmpHeaderLen then return none
  else do
    let sum ← ipChecksum off len
    if sum ≠ 0 then return none
    else do
      let type ← Traced.read off
      if type = 8 then do
        Traced.write off 0
        write16 (off + 2) 0
        let sum ← ipChecksum off len
        write16 (off + 2) sum
        if ipMtu - ipHeaderLen < len then return none
        else do
          let packet ← Traced.readBytes off len
          return some (.icmp src packet)
      else if type = 0 then do
        let _ ← read32 (off + 4)
        return none
      else return none

/-- `udp_input` of `len` bytes at `off`. -/
def udpInput (src off len : ℕ) : Traced (Option Reply) := do
  let length ← read16 (off + 4)
  let udpLen := htons length
  if udpLen < udpHeaderLen ∨ len < udpLen then return none
  else do
    let srcPort ← read16 off
    let _ ← read16 (off + 2)
    let _ ← Traced.readBytes (off + udpHeaderLen) (udpLen - udpHeaderLen)
    -- "test" and its NUL
    return some (.udp src (htons srcPort) 7777 [116, 101, 115, 116, 0])

/-- The checks of `ip_input`: where the payload lies in the frame and how long it is. -/
def ipChecks (host len : ℕ) : Traced (Option (ℕ × ℕ)) :=
  if len < ethHeaderLen + ipHeaderLen then return none
  else do
    let first ← Traced.read 14
    let ihl := (first &&& 0x0F).toNat * 4
    let totalLen ← read16 16
    let total := htons totalLen
    if ihl < ipHeaderLen ∨ total < ihl ∨ len < ethHeaderLen + total then return none
    else do
      let version ← Traced.read 14
      if version >>> 4 ≠ 4 then return none
      else do
        let sum ← ipChecksum 14 ihl
        if sum ≠ 0 then return none
        else do
          let dst ← read32 30
          if dst ≠ host then return none else return some (ethHeaderLen + ihl, total - ihl)

/-- `ip_input`: the payload that passes the checks goes to the layer that its protocol names. -/
def ipInput (host len : ℕ) : Traced (Option Reply) := do
  match ← ipChecks host len with
  | none => return none
  | some (payload, payloadLen) =>
    let protocol ← Traced.read 23
    if protocol = ipProtoIcmp then do
      let src ← read32 26
      icmpInput src payload payloadLen
    else if protocol = ipProtoUdp then do
      let src ← read32 26
      udpInput src payload payloadLen
    else return none

def ethInput (host len : ℕ) : Traced Received :=
  if len < ethHeaderLen then return .nothing
  else do
    let frameType ← read16 12
    let ethertype := htons frameType
    if ethertype = 0x0806 then arpInput host len
    else if ethertype = 0x0800 then do
      let reply ← ipInput host len
      return ⟨none, reply⟩
    else return .nothing

end X86Kernel.Net

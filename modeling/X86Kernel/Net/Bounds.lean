import X86Kernel.Net.Input

/-! Which frames `eth_input` parses inside their bounds, and drops where they are malformed. -/
namespace X86Kernel.Net

open LittleEndian
open Traced (Bytes Sat)

variable {host len : ℕ} {f : Bytes}

/-! ### ARP -/

structure ArpTypes (f : Bytes) : Prop where
  htype : htons (le16 f 14) = 1
  ptype : htons (le16 f 16) = 0x0800

structure ArpAnswered (host : ℕ) (f : Bytes) (len : ℕ) : Prop where
  header : ethHeaderLen + arpLen ≤ len
  types : ArpTypes f
  request : htons (le16 f 20) = 1
  target : le32 f 38 = host

theorem sat_arpInput (host len : ℕ) (f : Bytes) :
    Sat len (arpInput host len) f fun r _ => r.reply ≠ none ↔ ArpAnswered host f len := by
  have hnone : ∀ {r : Received} {f' : Bytes}, r.reply = none → ¬ArpAnswered host f len →
      Sat len (pure r : Traced Received) f' fun r _ => r.reply ≠ none ↔ ArpAnswered host f len := by
    intro r f' hr hn
    apply Sat.pure
    simp [hr, hn]
  unfold arpInput
  apply Sat.ite
  · intro hshort
    exact hnone rfl fun h => absurd h.header (by omega)
  intro hheader
  simp only [ethHeaderLen, arpLen] at hheader
  apply Sat.bind (sat_read16 (by omega))
  rintro _ _ ⟨rfl, rfl⟩
  apply Sat.ite
  · intro hne
    exact hnone rfl fun h => hne h.types.htype
  intro hhtype
  apply Sat.bind (sat_read16 (by omega))
  rintro _ _ ⟨rfl, rfl⟩
  apply Sat.ite
  · intro hne
    exact hnone rfl fun h => hne h.types.ptype
  intro hptype
  apply Sat.bind (sat_read32 (by omega))
  rintro _ _ ⟨rfl, rfl⟩
  apply Sat.bind (Sat.readBytes (by omega))
  rintro _ _ ⟨rfl, rfl⟩
  apply Sat.bind (sat_read16 (by omega))
  rintro _ _ ⟨rfl, rfl⟩
  apply Sat.ite
  · intro hne
    exact hnone rfl fun h => hne h.request
  intro hop
  apply Sat.bind (sat_read32 (by omega))
  rintro _ _ ⟨rfl, rfl⟩
  apply Sat.ite
  · intro hne
    exact hnone rfl fun h => hne h.target
  intro htpa
  apply Sat.pure
  simp only [ne_eq, reduceCtorEq, not_false_eq_true, true_iff]
  exact ⟨not_lt.mp hheader, ⟨not_not.mp hhtype, not_not.mp hptype⟩, not_not.mp hop, not_not.mp htpa⟩

/-! ### The whole frame -/

/-- The words that a UDP checksum covers: the pseudo header and the datagram. -/
def udpSum (f : Bytes) (off : ℕ) : ℕ :=
  le16 f 26 + le16 f 28 + le16 f 30 + le16 f 32 + 2 ^ 8 * ipProtoUdp.toNat + le16 f (off + 4) +
    wordSum f (udpLength f off) off

/-- A datagram that was sent with a checksum, and not with this one. -/
def UdpSumWrong (f : Bytes) (off : ℕ) : Prop :=
  le16 f (off + 6) ≠ 0 ∧ complement16 (foldCarries (udpSum f off) (udpSum f off)) ≠ 0

/-- What makes a header malformed: it is cut short, its lengths do not fit, or its checksum is
wrong. -/
inductive Malformed (f : Bytes) (len : ℕ) : Prop
  | runt (h : len < ethHeaderLen)
  | arpShort (ht : ethertype f = 0x0806) (h : len < ethHeaderLen + arpLen)
  | arpTypes (ht : ethertype f = 0x0806) (h : ¬ArpTypes f)
  | arpLengths (ht : ethertype f = 0x0806) (h : f 18 ≠ 6 ∨ f 19 ≠ 4)
  | ipShort (ht : ethertype f = 0x0800) (h : len < ethHeaderLen + ipHeaderLen)
  | ipLength (ht : ethertype f = 0x0800) (h : ipIhl f < ipHeaderLen)
  | ipOptions (ht : ethertype f = 0x0800) (h : ipTotal f < ipIhl f)
  | ipTotal (ht : ethertype f = 0x0800) (h : len < ethHeaderLen + ipTotal f)
  | ipVersion (ht : ethertype f = 0x0800) (h : f 14 >>> 4 ≠ 4)
  | ipSum (ht : ethertype f = 0x0800) (h : checksum f 14 (ipIhl f) ≠ 0)
  | icmpShort (ht : ethertype f = 0x0800) (hp : ipProtocol f = ipProtoIcmp)
      (h : Net.ipTotal f - ipIhl f < icmpHeaderLen)
  | icmpSum (ht : ethertype f = 0x0800) (hp : ipProtocol f = ipProtoIcmp)
      (h : checksum f (ethHeaderLen + ipIhl f) (Net.ipTotal f - ipIhl f) ≠ 0)
  | udpShort (ht : ethertype f = 0x0800) (hp : ipProtocol f = ipProtoUdp)
      (h : Net.ipTotal f - ipIhl f < udpHeaderLen)
  | udpLength (ht : ethertype f = 0x0800) (hp : ipProtocol f = ipProtoUdp)
      (h : udpLength f (ethHeaderLen + ipIhl f) < udpHeaderLen ∨
        Net.ipTotal f - ipIhl f < udpLength f (ethHeaderLen + ipIhl f))
  | udpSum (ht : ethertype f = 0x0800) (hp : ipProtocol f = ipProtoUdp)
      (h : UdpSumWrong f (ethHeaderLen + ipIhl f))

/-- `eth_input` stays in the frame, and answers no malformed one. -/
structure ParsedSafely (host : ℕ) (f : Bytes) (len : ℕ) : Prop where
  inside : ∀ a ∈ (ethInput host len f).log, a.off < len
  dropped : Malformed f len → (ethInput host len f).value.reply = none

/-- The frames that are not parsed so: `arp_input` goes by the types and not by the lengths,
`udp_input` reads a length that is past the frame, and takes any checksum. -/
inductive Careless (host : ℕ) (f : Bytes) (len : ℕ) : Prop
  | arpLengths (ht : ethertype f = 0x0806) (ha : ArpAnswered host f len) (h : f 18 ≠ 6 ∨ f 19 ≠ 4)
  | udpCut (ht : ethertype f = 0x0800) (h : UdpCut host f len)
  | udpSum (ht : ethertype f = 0x0800) (ha : Answerable host f len) (hp : ipProtocol f = ipProtoUdp)
      (h : UdpSumWrong f (ethHeaderLen + ipIhl f))

/-- What the answer to a frame says of it. -/
structure EthAnswer (host : ℕ) (f : Bytes) (len : ℕ) (reply : Option Reply) : Prop where
  header : reply ≠ none → ethHeaderLen ≤ len
  types : reply ≠ none → ethertype f = 0x0806 ∨ ethertype f = 0x0800
  arp : ethHeaderLen ≤ len → ethertype f = 0x0806 → (reply ≠ none ↔ ArpAnswered host f len)
  ip : ethertype f = 0x0800 → reply ≠ none → Answerable host f len
  udp : ethHeaderLen ≤ len → ethertype f = 0x0800 → Answerable host f len →
    ipProtocol f = ipProtoUdp → reply ≠ none

theorem sat_ethInput (host : ℕ) (hlen : len < 2 ^ 16)
    (hcut : ethertype f = 0x0800 → ¬UdpCut host f len) :
    Sat len (ethInput host len) f fun r _ => EthAnswer host f len r.reply := by
  unfold ethInput
  apply Sat.ite
  · intro hshort
    apply Sat.pure
    constructor <;> simp [Received.nothing] <;> omega
  intro hheader
  have hheader' : ethHeaderLen ≤ len := not_lt.mp hheader
  simp only [ethHeaderLen] at hheader
  apply Sat.bind (sat_read16 (by omega))
  rintro _ _ ⟨rfl, rfl⟩
  apply Sat.ite
  · intro ht
    have hother : ethertype f ≠ 0x0800 := by
      rw [show ethertype f = 0x0806 from ht]
      decide
    apply (sat_arpInput host len f).mono
    intro r _ hr
    exact ⟨fun _ => hheader', fun _ => .inl ht, fun _ _ => hr, fun h => absurd h hother,
      fun _ h => absurd h hother⟩
  intro hnotArp
  apply Sat.ite
  · intro ht
    apply Sat.bind (sat_ipInput host hlen (hcut ht))
    intro r _ hr
    apply Sat.pure
    exact ⟨fun _ => hheader', fun _ => .inr ht, fun _ h => absurd h hnotArp, fun _ => hr.1,
      fun _ _ => hr.2⟩
  · intro hnotIp
    apply Sat.pure
    exact ⟨fun h => absurd rfl h, fun h => absurd rfl h, fun _ h => absurd h hnotArp,
      fun h => absurd h hnotIp,
      fun _ h => absurd h hnotIp⟩

theorem ipChecks_run (host : ℕ) (hlen : len < 2 ^ 16) (f : Bytes) : (ipChecks host len f).mem = f :=
  (sat_ipChecks host hlen f).post.1.symm

/-- The read past the frame. -/
theorem udpCut_reads (hlen : len < 2 ^ 16) (ht : ethertype f = 0x0800) (h : UdpCut host f len) :
    .read (ethHeaderLen + ipIhl f + 5) ∈ (ethInput host len f).log := by
  have hvalue : (ipChecks host len f).value = some (ethHeaderLen + ipIhl f, ipTotal f - ipIhl f) :=
    ((sat_ipChecks host hlen f).post.2 _).mpr ⟨h.accepted, rfl⟩
  have hip : .read (ethHeaderLen + ipIhl f + 5) ∈ (ipInput host len f).log := by
    have hudp : f 23 = ipProtoUdp := h.udp
    have hread := udpInput_reads (le32 f 26) (ethHeaderLen + ipIhl f) (ipTotal f - ipIhl f) f
    unfold ipInput
    simp only [Traced.run_bind, hvalue, ipChecks_run host hlen f, Traced.run_read, hudp,
      List.mem_append]
    rw [if_neg (by decide), if_pos trivial]
    simp only [Traced.run_bind, run_read32, List.mem_append]
    exact .inr (.inr (.inr hread))
  have hheader : ¬len < ethHeaderLen := by
    have hboth := h.accepted.header
    omega
  have htype : htons (le16 f 12) = 0x0800 := ht
  unfold ethInput
  rw [if_neg hheader]
  simp only [Traced.run_bind, run_read16, htype, List.mem_append]
  rw [if_neg (by decide), if_pos trivial]
  simp only [Traced.run_bind, List.mem_append]
  exact .inr (.inl hip)

/-- A malformed frame that is answered is one of the careless ones. -/
theorem careless_of_answer {reply : Option Reply} (h : EthAnswer host f len reply)
    (hm : Malformed f len) (hr : reply ≠ none) : Careless host f len := by
  have harp : ethertype f = 0x0806 → ArpAnswered host f len :=
    fun ht => (h.arp (h.header hr) ht).mp hr
  have hip : ethertype f = 0x0800 → Answerable host f len := fun ht => h.ip ht hr
  cases hm with
  | runt hshort => exact absurd (h.header hr) (not_le.mpr hshort)
  | arpShort ht hshort => exact absurd (harp ht).header (not_le.mpr hshort)
  | arpTypes ht htypes => exact absurd (harp ht).types htypes
  | arpLengths ht hlengths => exact .arpLengths ht (harp ht) hlengths
  | ipShort ht hshort => exact absurd (hip ht).1.header (not_le.mpr hshort)
  | ipLength ht hlength => exact absurd (hip ht).1.ihl (not_le.mpr hlength)
  | ipOptions ht hoptions => exact absurd (hip ht).1.total (not_le.mpr hoptions)
  | ipTotal ht htotal => exact absurd (hip ht).1.inside (not_le.mpr htotal)
  | ipVersion ht hversion => exact absurd (hip ht).1.version hversion
  | ipSum ht hsum => exact absurd (hip ht).1.sum hsum
  | icmpShort ht hp hshort =>
    obtain ⟨-, ⟨-, hfits, -⟩ | ⟨hudp, -⟩⟩ := hip ht
    · exact absurd hfits (not_le.mpr hshort)
    · exact absurd (hp.symm.trans hudp) (by decide)
  | icmpSum ht hp hsum =>
    obtain ⟨-, ⟨-, -, hzero⟩ | ⟨hudp, -⟩⟩ := hip ht
    · exact absurd hzero hsum
    · exact absurd (hp.symm.trans hudp) (by decide)
  | udpShort ht hp hshort =>
    obtain ⟨-, ⟨hicmp, -⟩ | ⟨-, hlow, hhigh⟩⟩ := hip ht
    · exact absurd (hicmp.symm.trans hp) (by decide)
    · omega
  | udpLength ht hp hlengths =>
    obtain ⟨-, ⟨hicmp, -⟩ | ⟨-, hlow, hhigh⟩⟩ := hip ht
    · exact absurd (hicmp.symm.trans hp) (by decide)
    · omega
  | udpSum ht hp hsum => exact .udpSum ht (hip ht) hp hsum

/-- `eth_input` parses a frame inside its bounds, and drops it when it is malformed, just where the
frame is none of the careless ones. -/
theorem ethInput_parsedSafely_iff (host : ℕ) (f : Bytes) (len : UInt16) :
    ParsedSafely host f len.toNat ↔ ¬Careless host f len.toNat := by
  have hlen : len.toNat < 2 ^ 16 := len.toNat_lt
  constructor
  · rintro ⟨hinside, hdropped⟩ hcareless
    cases hcareless with
    | udpCut ht hcut =>
      have hread := hinside _ (udpCut_reads hlen ht hcut)
      have hpast := hcut.cut
      simp only [Traced.Access.off] at hread
      omega
    | arpLengths ht ha hlengths =>
      have hother : ethertype f ≠ 0x0800 := by
        rw [ht]
        decide
      have hanswer := (sat_ethInput host hlen fun h => absurd h hother).post
      have hheader : ethHeaderLen ≤ len.toNat := le_trans (by decide) ha.header
      exact (hanswer.arp hheader ht).mpr ha (hdropped (.arpLengths ht hlengths))
    | udpSum ht ha hp hsum =>
      by_cases hcut : UdpCut host f len.toNat
      · have hread := hinside _ (udpCut_reads hlen ht hcut)
        have hpast := hcut.cut
        simp only [Traced.Access.off] at hread
        omega
      · have hanswer := (sat_ethInput host hlen fun _ => hcut).post
        have hheader : ethHeaderLen ≤ len.toNat := le_trans (by decide) ha.1.header
        exact hanswer.udp hheader ht ha hp (hdropped (.udpSum ht hp hsum))
  · intro hcareful
    have hsat := sat_ethInput (f := f) host hlen fun ht hcut => hcareful (.udpCut ht hcut)
    refine ⟨hsat.below, fun hm => ?_⟩
    by_contra hr
    exact hcareful (careless_of_answer hsat.post hm hr)

/-- An IP packet for this host that says it carries UDP, and carries nothing. -/
def udpHeaderOnly : List UInt8 :=
  [2, 0, 0, 0, 0, 1, 2, 0, 0, 0, 0, 2, 8, 0] ++
    ipHeader (checksum (bytesOf (ipHeader 0 0 ipProtoUdp 0 localIp)) 0 ipHeaderLen) 0
      ipProtoUdp 0 localIp

theorem udpHeaderOnly_parsed_past_end :
    ¬∀ (f : Bytes) (len : UInt16), ParsedSafely localIp f len.toNat := by
  intro h
  have hinside := (h (bytesOf udpHeaderOnly) 34).inside (.read 39) (by decide +kernel)
  exact absurd hinside (by decide)

end X86Kernel.Net

import X86Kernel.Net.Ip

/-! What `eth_input` reads of a frame, and which frames it leaves without an answer. -/
namespace X86Kernel.Net

open LittleEndian
open Traced (Bytes Sat)

variable {host len src off l : ℕ} {f : Bytes}

/-! ### The fields of a frame -/

def ethertype (f : Bytes) : ℕ := htons (le16 f 12)
def ipIhl (f : Bytes) : ℕ := (f 14 &&& 0x0F).toNat * 4
def ipTotal (f : Bytes) : ℕ := htons (le16 f 16)
def ipProtocol (f : Bytes) : UInt8 := f 23

/-- What `ip_input` goes by when it hands a payload on. -/
structure IpAccepted (host : ℕ) (f : Bytes) (len : ℕ) : Prop where
  header : ethHeaderLen + ipHeaderLen ≤ len
  ihl : ipHeaderLen ≤ ipIhl f
  total : ipIhl f ≤ ipTotal f
  inside : ethHeaderLen + ipTotal f ≤ len
  version : f 14 >>> 4 = 4
  sum : checksum f 14 (ipIhl f) = 0
  dst : le32 f 30 = host

theorem ipIhl_le (f : Bytes) : ipIhl f ≤ 60 := by
  have hmask : (f 14 &&& 0x0F).toNat = (f 14).toNat % 2 ^ 4 := by
    rw [UInt8.toNat_and]
    exact Nat.and_two_pow_sub_one_eq_mod _ 4
  unfold ipIhl
  omega

theorem sat_read16 (h : off + 1 < len) :
    Sat len (read16 off) f fun v f' => le16 f off = v ∧ f = f' := by
  refine ⟨fun a ha => ?_, rfl, rfl⟩
  simp only [run_read16, List.mem_cons, List.not_mem_nil, or_false] at ha
  rcases ha with rfl | rfl <;> simp only [Traced.Access.off] <;> omega

theorem sat_read32 (h : off + 3 < len) :
    Sat len (read32 off) f fun v f' => le32 f off = v ∧ f = f' := by
  refine ⟨fun a ha => ?_, rfl, rfl⟩
  simp only [run_read32, List.mem_cons, List.not_mem_nil, or_false] at ha
  rcases ha with rfl | rfl | rfl | rfl <;> simp only [Traced.Access.off] <;> omega

theorem sat_ipChecksum (hl : l < 2 ^ 16) (h : off + l ≤ len) :
    Sat len (ipChecksum off l) f fun v f' => checksum f off l = v ∧ f = f' := by
  rw [show ipChecksum off l = fun f => _ from funext fun f => run_ipChecksum f hl off]
  refine ⟨fun a ha => ?_, rfl, rfl⟩
  obtain ⟨k, hk, rfl⟩ := List.mem_map.mp ha
  have hlt := List.mem_range.mp hk
  simp only [Traced.Access.off]
  omega

theorem sat_write16 {v : ℕ} (h : off + 1 < len) :
    Sat len (write16 off v) f fun _ f' => setField f off v = f' := by
  refine ⟨fun a ha => ?_, rfl⟩
  simp only [run_write16, List.mem_cons, List.not_mem_nil, or_false] at ha
  rcases ha with rfl | rfl <;> simp only [Traced.Access.off] <;> omega

/-! ### The checks of `ip_input` -/

theorem sat_ipChecks (host : ℕ) {len : ℕ} (hlen : len < 2 ^ 16) (f : Bytes) :
    Sat len (ipChecks host len) f fun r f' => f = f' ∧
      ∀ p, r = some p ↔
        IpAccepted host f len ∧ p = (ethHeaderLen + ipIhl f, ipTotal f - ipIhl f) := by
  have hno : ∀ {q : ℕ × ℕ → Prop}, ¬IpAccepted host f len → ∀ p, none = some p ↔
      IpAccepted host f len ∧ q p :=
    fun hn p => ⟨fun h => absurd h (by simp), fun h => absurd h.1 hn⟩
  have hihl := ipIhl_le f
  unfold ipChecks
  split_ifs with hshort
  · exact .pure ⟨rfl, hno fun h => absurd h.header (by omega)⟩
  simp only [ethHeaderLen, ipHeaderLen] at hshort ⊢
  refine .bind (.read (by omega)) ?_
  rintro _ _ ⟨rfl, rfl⟩
  refine .bind (sat_read16 (by omega)) ?_
  rintro _ _ ⟨rfl, rfl⟩
  change Sat len (if ipIhl f < 20 ∨ ipTotal f < ipIhl f ∨ len < 14 + ipTotal f then _ else _) _ _
  split_ifs with hlengths
  · refine .pure ⟨rfl, hno fun h => ?_⟩
    have h1 := h.ihl
    have h2 := h.total
    have h3 := h.inside
    simp only [ethHeaderLen, ipHeaderLen] at h1 h3
    omega
  simp only [not_or, not_lt] at hlengths
  obtain ⟨h1, h2, h3⟩ := hlengths
  refine .bind (.read (by omega)) ?_
  rintro _ _ ⟨rfl, rfl⟩
  split_ifs with hversion
  · exact .pure ⟨rfl, hno fun h => hversion h.version⟩
  refine .bind (sat_ipChecksum (by unfold ipIhl at hihl; omega) (by unfold ipIhl at h2; omega)) ?_
  rintro _ _ ⟨rfl, rfl⟩
  split_ifs with hsum
  · exact .pure ⟨rfl, hno fun h => hsum h.sum⟩
  refine .bind (sat_read32 (by omega)) ?_
  rintro _ _ ⟨rfl, rfl⟩
  split_ifs with hdst
  · exact .pure ⟨rfl, hno fun h => hdst h.dst⟩
  refine .pure ⟨rfl, fun p =>
    ⟨fun h => ⟨⟨by simp only [ethHeaderLen, ipHeaderLen]; omega, h1, h2, h3, not_not.mp hversion,
    not_not.mp hsum, not_not.mp hdst⟩, ?_⟩, fun h => ?_⟩⟩
  · exact (Option.some.inj h).symm
  · exact congrArg some h.2.symm

/-! ### The layers above -/

def udpLength (f : Bytes) (off : ℕ) : ℕ := htons (le16 f (off + 4))

theorem sat_icmpInput (src : ℕ) (hl : l < 2 ^ 16) (h : off + l ≤ len) :
    Sat len (icmpInput src off l) f fun r _ =>
      r ≠ none → icmpHeaderLen ≤ l ∧ checksum f off l = 0 := by
  have hnone : ∀ {f' : Bytes}, Sat len (pure none : Traced (Option Reply)) f' fun r _ =>
      r ≠ none → icmpHeaderLen ≤ l ∧ checksum f off l = 0 := by
    intro f'
    apply Sat.pure
    simp
  unfold icmpInput
  apply Sat.ite
  · intro _
    exact hnone
  intro hshort
  have hfield : 8 ≤ l := not_lt.mp hshort
  apply Sat.bind (sat_ipChecksum hl h)
  rintro _ _ ⟨rfl, rfl⟩
  apply Sat.ite
  · intro _
    exact hnone
  intro hsum
  apply Sat.bind (Sat.read (by omega))
  rintro _ _ ⟨rfl, rfl⟩
  apply Sat.ite
  · intro _
    apply Sat.bind (Sat.write (by omega))
    intro _ _ _
    apply Sat.bind (sat_write16 (by omega))
    intro _ _ _
    apply Sat.bind (sat_ipChecksum hl h)
    intro _ _ _
    apply Sat.bind (sat_write16 (by omega))
    intro _ _ _
    apply Sat.ite
    · intro _
      exact hnone
    intro _
    apply Sat.bind (Sat.readBytes (.inr h))
    intro _ _ _
    apply Sat.pure
    intro _
    exact ⟨hfield, not_not.mp hsum⟩
  intro _
  apply Sat.ite
  · intro _
    apply Sat.bind (sat_read32 (by omega))
    intro _ _ _
    exact hnone
  · intro _
    exact hnone

/-- With the length field in the frame, nothing past the datagram is read. -/
theorem sat_udpInput (src : ℕ) (hfield : off + 6 ≤ len) (h : off + l ≤ len) :
    Sat len (udpInput src off l) f fun r _ => r ≠ none ↔
    udpHeaderLen ≤ udpLength f off ∧ udpLength f off ≤ l := by
  unfold udpInput
  apply Sat.bind (sat_read16 (by omega))
  rintro _ _ ⟨rfl, rfl⟩
  change Sat len (if udpLength f off < udpHeaderLen ∨ l < udpLength f off then _ else _) _ _
  simp only [udpHeaderLen]
  apply Sat.ite
  · intro hbad
    apply Sat.pure
    constructor
    · simp
    · intro hgood
      omega
  intro hgood
  apply Sat.bind (sat_read16 (by omega))
  rintro _ _ ⟨rfl, rfl⟩
  apply Sat.bind (sat_read16 (by omega))
  rintro _ _ ⟨rfl, rfl⟩
  apply Sat.bind (Sat.readBytes (.inr _))
  · rintro _ _ ⟨rfl, rfl⟩
    apply Sat.pure
    constructor
    · intro _
      omega
    · simp
  · change off + 8 + (udpLength f off - 8) ≤ len
    omega

/-- The length field is read before anything is checked. -/
theorem udpInput_reads (src off l : ℕ) (f : Bytes) :
    .read (off + 5) ∈ (udpInput src off l f).log := by
  simp [udpInput]

/-- A payload that `ip_input` hands on and that its layer answers, except for what the ICMP type
says. -/
def Answerable (host : ℕ) (f : Bytes) (len : ℕ) : Prop :=
  IpAccepted host f len ∧
    (ipProtocol f = ipProtoIcmp ∧ icmpHeaderLen ≤ ipTotal f - ipIhl f ∧
        checksum f (ethHeaderLen + ipIhl f) (ipTotal f - ipIhl f) = 0 ∨
      ipProtocol f = ipProtoUdp ∧ udpHeaderLen ≤ udpLength f (ethHeaderLen + ipIhl f) ∧
        udpLength f (ethHeaderLen + ipIhl f) ≤ ipTotal f - ipIhl f)

/-- A UDP packet whose length field is not in the frame. -/
structure UdpCut (host : ℕ) (f : Bytes) (len : ℕ) : Prop where
  accepted : IpAccepted host f len
  udp : ipProtocol f = ipProtoUdp
  cut : len < ethHeaderLen + ipIhl f + 6

theorem sat_ipInput (host : ℕ) (hlen : len < 2 ^ 16) (hcut : ¬UdpCut host f len) :
    Sat len (ipInput host len) f fun r _ => (r ≠ none → Answerable host f len) ∧
      (Answerable host f len → ipProtocol f = ipProtoUdp → r ≠ none) := by
  unfold ipInput
  refine .bind (sat_ipChecks host hlen f) fun r f' hr => ?_
  obtain ⟨rfl, hr⟩ := hr
  cases r with
  | none =>
    refine .pure ⟨fun hne => absurd rfl hne, fun ha => ?_⟩
    have hno := (hr _).mpr ⟨ha.1, rfl⟩
    simp at hno
  | some p =>
    obtain ⟨hacc, rfl⟩ := (hr p).mp rfl
    have htotal : ipTotal f < 2 ^ 16 := htons_lt _
    have hinside := hacc.inside
    have hihl := hacc.total
    have hheader := hacc.header
    simp only [ethHeaderLen, ipHeaderLen] at hinside hheader
    dsimp only
    refine .bind (.read (by omega)) ?_
    rintro _ _ ⟨rfl, rfl⟩
    change Sat len (if ipProtocol f = ipProtoIcmp then _ else _) _ _
    split_ifs with hicmp hudp
    · refine .bind (sat_read32 (by omega)) ?_
      rintro _ _ ⟨rfl, rfl⟩
      refine (sat_icmpInput _ (by omega) (by simp only [ethHeaderLen]; omega)).mono fun r _ hr' =>
        ⟨fun hne => ?_, ?_⟩
      · exact ⟨hacc, .inl ⟨hicmp, (hr' hne).1, (hr' hne).2⟩⟩
      · intro _ hudp
        rw [hicmp] at hudp
        exact absurd hudp (by decide)
    · refine .bind (sat_read32 (by omega)) ?_
      rintro _ _ ⟨rfl, rfl⟩
      have hfield : ethHeaderLen + ipIhl f + 6 ≤ len := by
        by_contra hshort
        exact hcut ⟨hacc, hudp, not_le.mp hshort⟩
      refine (sat_udpInput _ hfield (by simp only [ethHeaderLen]; omega)).mono fun r _ hr' =>
        ⟨fun hne => ?_, ?_⟩
      · exact ⟨hacc, .inr ⟨hudp, (hr'.mp hne).1, (hr'.mp hne).2⟩⟩
      · rintro ⟨-, ⟨hicmp', -⟩ | ⟨-, hgood⟩⟩ -
        · exact absurd hicmp' hicmp
        · exact hr'.mpr hgood
    · exact .pure ⟨fun hne => absurd rfl hne, fun _ hudp' => absurd hudp' hudp⟩

end X86Kernel.Net

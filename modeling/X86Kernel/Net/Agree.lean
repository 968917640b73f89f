import X86Kernel.Net.Input

/-! What `ip_send` builds is what `ip_input` takes apart, and an echo reply passes the test of
`icmp_input`. -/
namespace X86Kernel.Net

open LittleEndian
open Traced (Bytes)

variable {rest payload padding : List UInt8} {dest me : Mac} {sum len src dst type : ℕ}
  {protocol : UInt8}

/-! ### The bytes of a packet -/

@[simp] theorem ipHeader_length : (ipHeader sum len protocol src dst).length = ipHeaderLen := rfl

theorem ethFrame_length (payload : List UInt8) :
    (ethFrame dest me type payload).length = ethHeaderLen + payload.length := by
  simp only [ethFrame, le16Bytes, ethHeaderLen, List.length_append, Vector.length_toList,
    List.length_cons,
    List.length_nil]

/-- The payload of a frame lies behind the 14 bytes of its header. -/
theorem ethFrame_payload (payload rest : List UInt8) (k : ℕ) :
    bytesOf (ethFrame dest me type payload ++ rest) (14 + k) = bytesOf (payload ++ rest) k := by
  have hheader : (dest.toList ++ me.toList ++ le16Bytes (htons type)).length = 14 := by
    simp [le16Bytes]
  rw [ethFrame, List.append_assoc, ← hheader]
  exact bytesOf_append_right _ _ k

theorem ethFrame_type (payload rest : List UInt8) (htype : type < 2 ^ 16) :
    ethertype (bytesOf (ethFrame dest me type payload ++ rest)) = type := by
  have hmacs : (dest.toList ++ me.toList).length = 12 := by
    simp
  have hbyte : ∀ k, bytesOf (ethFrame dest me type payload ++ rest) (12 + k) =
      bytesOf (le16Bytes (htons type) ++ (payload ++ rest)) k := by
    intro k
    rw [ethFrame, List.append_assoc, List.append_assoc, ← hmacs]
    exact bytesOf_append_right _ _ k
  have hfield : le16 (bytesOf (ethFrame dest me type payload ++ rest)) 12 = htons type := by
    rw [le16, show (12 : ℕ) + 1 = 12 + 1 from rfl, hbyte 1,
      show (12 : ℕ) = 12 + 0 from rfl, hbyte 0]
    exact le16_bytes (htons_lt _)
  rw [ethertype, hfield, htons_htons htype]

/-- The checksum that `ip_send` puts into a header. -/
def ipHeaderSum (len : ℕ) (protocol : UInt8) (src dst : ℕ) : ℕ :=
  checksum (bytesOf (ipHeader 0 len protocol src dst)) 0 ipHeaderLen

theorem bytesOf_ipHeader (sum : ℕ) :
    bytesOf (ipHeader sum len protocol src dst) =
    setField (bytesOf (ipHeader 0 len protocol src dst)) 10 sum := by
  funext k
  by_cases hlow : k = 10
  · subst hlow
    rfl
  by_cases hhigh : k = 11
  · subst hhigh
    rfl
  rw [setField_of_ne _ hlow hhigh]
  by_cases hbefore : k < 10
  · interval_cases k <;> rfl
  by_cases hafter : k < 20
  · interval_cases k <;> first | rfl | omega
  · unfold bytesOf
    rw [List.getD_eq_default _ _ (by rw [ipHeader_length]; exact not_lt.mp hafter),
      List.getD_eq_default _ _ (by rw [ipHeader_length]; exact not_lt.mp hafter)]

theorem checksum_ipHeader :
    checksum (bytesOf (ipHeader (ipHeaderSum len protocol src dst) len protocol src dst)) 0
      ipHeaderLen = 0 := by
  have hstored := checksum_stored (bytesOf (ipHeader 0 len protocol src dst)) 0 5
    (show 2 * 5 + 2 ≤ ipHeaderLen by decide)
  rw [Nat.zero_add, ← bytesOf_ipHeader 0] at hstored
  rwa [bytesOf_ipHeader]

/-! ### The packet that is received -/

/-- A frame with a packet of `ip_send` in it, and what the card adds to it. -/
def ipFrame (dest me : Mac) (protocol : UInt8) (src dst : ℕ) (payload padding : List UInt8) :
    List UInt8 :=
  ethFrame dest me 0x0800
    (ipHeader (ipHeaderSum payload.length protocol src dst) payload.length protocol src dst ++
      payload) ++ padding

theorem ipSend_eq (h : payload.length ≤ ipMtu - ipHeaderLen) :
    ipSend src dst protocol payload =
      some (ipNextHop src dst,
        ipHeader (ipHeaderSum payload.length protocol src dst) payload.length protocol src dst ++
        payload) := by
  rw [ipSend, if_neg (not_lt.mpr h)]
  rfl

theorem ipFrame_length :
    (ipFrame dest me protocol src dst payload padding).length =
    34 + payload.length + padding.length := by
  rw [ipFrame, List.length_append, ethFrame_length, List.length_append, ipHeader_length]
  simp only [ethHeaderLen, ipHeaderLen]
  omega

theorem ipFrame_header (k : ℕ) (hk : k < ipHeaderLen) :
    bytesOf (ipFrame dest me protocol src dst payload padding) (14 + k) =
      bytesOf (ipHeader
        (ipHeaderSum payload.length protocol src dst) payload.length protocol src dst) k := by
  rw [ipFrame, ethFrame_payload, List.append_assoc, bytesOf_append_left _ hk]

theorem ipFrame_le16 (k : ℕ) (hk : k + 1 < ipHeaderLen) :
    le16 (bytesOf (ipFrame dest me protocol src dst payload padding)) (14 + k) =
      le16
        (bytesOf (ipHeader
          (ipHeaderSum payload.length protocol src dst) payload.length protocol src dst)) k := by
  rw [le16, le16, ipFrame_header k (by omega), Nat.add_assoc, ipFrame_header (k + 1) hk]

theorem ipFrame_le32 (k : ℕ) (hk : k + 3 < ipHeaderLen) :
    le32 (bytesOf (ipFrame dest me protocol src dst payload padding)) (14 + k) =
      le32
        (bytesOf (ipHeader
          (ipHeaderSum payload.length protocol src dst) payload.length protocol src dst)) k := by
  rw [le32, le32, ipFrame_le16 k (by omega), Nat.add_assoc, ipFrame_le16 (k + 2) hk]

theorem ipFrame_payload (k : ℕ) :
    bytesOf (ipFrame dest me protocol src dst payload padding) (34 + k) =
    bytesOf (payload ++ padding) k := by
  rw [show 34 + k = 14 + (20 + k) by ring, ipFrame, ethFrame_payload, List.append_assoc]
  exact bytesOf_append_right (ipHeader _ _ _ _ _) _ k

theorem ipFrame_total (h : payload.length ≤ ipMtu - ipHeaderLen) :
    ipTotal (bytesOf (ipFrame dest me protocol src dst payload padding)) = 20 + payload.length := by
  have hlt : 20 + payload.length < 2 ^ 16 := by
    simp only [ipMtu, ipHeaderLen] at h
    omega
  have hfield : le16 (bytesOf (ipFrame dest me protocol src dst payload padding)) 16 =
      htons (20 + payload.length) := by
    apply (ipFrame_le16 2 (by decide)).trans
    exact le16_bytes (htons_lt _)
  rw [ipTotal, hfield, htons_htons hlt]

theorem ipFrame_first : bytesOf (ipFrame dest me protocol src dst payload padding) 14 = 0x45 :=
  ipFrame_header 0 (by decide)

theorem ipFrame_ihl : ipIhl (bytesOf (ipFrame dest me protocol src dst payload padding)) = 20 := by
  rw [ipIhl, ipFrame_first]
  decide

theorem ipFrame_protocol :
    ipProtocol (bytesOf (ipFrame dest me protocol src dst payload padding)) = protocol :=
  ipFrame_header 9 (by decide)

theorem ipFrame_src (hsrc : src < 2 ^ 32) :
    le32 (bytesOf (ipFrame dest me protocol src dst payload padding)) 26 = src := by
  apply (ipFrame_le32 12 (by decide)).trans
  exact le32_bytes hsrc

theorem ipFrame_dst (hdst : dst < 2 ^ 32) :
    le32 (bytesOf (ipFrame dest me protocol src dst payload padding)) 30 = dst := by
  apply (ipFrame_le32 16 (by decide)).trans
  exact le32_bytes hdst

theorem ipFrame_accepted (hdst : dst < 2 ^ 32) (h : payload.length ≤ ipMtu - ipHeaderLen) :
    IpAccepted dst (bytesOf (ipFrame dest me protocol src dst payload padding))
      (ipFrame dest me protocol src dst payload padding).length := by
  constructor
  · rw [ipFrame_length]
    simp only [ethHeaderLen, ipHeaderLen]
    omega
  · rw [ipFrame_ihl]
    decide
  · rw [ipFrame_ihl, ipFrame_total h]
    omega
  · rw [ipFrame_total h, ipFrame_length]
    simp only [ethHeaderLen]
    omega
  · rw [ipFrame_first]
    decide
  · rw [ipFrame_ihl, ← checksum_ipHeader]
    apply checksum_congr
    intro k hk
    rw [ipFrame_header k hk, Nat.zero_add]
  · exact ipFrame_dst hdst

/-- Where the switch of `ip_input` sends a payload. -/
def nextLayer (protocol : UInt8) (src off len : ℕ) : Traced (Option Reply) :=
  if protocol = ipProtoIcmp then icmpInput src off len
  else if protocol = ipProtoUdp then udpInput src off len
  else pure none

/-- `ip_input` finds just this protocol, source and payload in a frame. -/
structure HandedOn (host : ℕ) (f : Bytes) (len : ℕ) (protocol : UInt8) (src : ℕ)
    (payload : List UInt8) : Prop where
  isIp : ethertype f = 0x0800
  checks : (ipChecks host len f).value = some (34, payload.length)
  names : f 23 = protocol
  source : le32 f 26 = src
  bytes : ∀ k (hk : k < payload.length), f (34 + k) = payload[k]
  handed : (ipInput host len f).value = (nextLayer protocol src 34 payload.length f).value

theorem ipFrame_handedOn (hsrc : src < 2 ^ 32) (hdst : dst < 2 ^ 32)
    (h : payload.length ≤ ipMtu - ipHeaderLen)
    (hlen : (ipFrame dest me protocol src dst payload padding).length < 2 ^ 16) :
    HandedOn dst (bytesOf (ipFrame dest me protocol src dst payload padding))
      (ipFrame dest me protocol src dst payload padding).length protocol src payload := by
  have hchecks :=
    (sat_ipChecks dst hlen (bytesOf (ipFrame dest me protocol src dst payload padding))).post
  have hvalue := (hchecks.2 _).mpr ⟨ipFrame_accepted hdst h, rfl⟩
  rw [ipFrame_ihl, ipFrame_total h, Nat.add_sub_cancel_left] at hvalue
  constructor
  · exact ethFrame_type _ _ (by norm_num)
  · exact hvalue
  · exact ipFrame_protocol
  · exact ipFrame_src hsrc
  · intro k hk
    rw [ipFrame_payload, bytesOf_append_left _ hk]
    exact List.getD_eq_getElem _ _ hk
  · have hprotocol : bytesOf (ipFrame dest me protocol src dst payload padding) 23 = protocol :=
      ipFrame_protocol
    unfold ipInput nextLayer
    rw [Traced.run_bind, hvalue, ← hchecks.1]
    simp only [Traced.run_bind, Traced.run_read, hprotocol]
    split_ifs with hicmp hudp
    · rw [Traced.run_bind, run_read32]
      exact congrArg (fun src => (icmpInput src 34 _ _).value) (ipFrame_src hsrc)
    · rw [Traced.run_bind, run_read32]
      exact congrArg (fun src => (udpInput src 34 _ _).value) (ipFrame_src hsrc)
    · rfl

/-! ### The echo reply -/

structure EchoRequest (off len : ℕ) (f : Bytes) : Prop where
  header : icmpHeaderLen ≤ len
  sum : (ipChecksum off len f).value = 0
  type : f off = 8

/-- The bytes of a buffer. -/
def bytesAt (f : Bytes) (off len : ℕ) : List UInt8 := (List.range len).map fun k => f (off + k)

theorem echoRequest_iff {off : ℕ} {f : Bytes} (hlen : len < 2 ^ 16) :
    EchoRequest off len f ↔ icmpHeaderLen ≤ len ∧ checksum f off len = 0 ∧ f off = 8 := by
  constructor
  · rintro ⟨hheader, hsum, htype⟩
    rw [run_ipChecksum f hlen] at hsum
    exact ⟨hheader, hsum, htype⟩
  · rintro ⟨hheader, hsum, htype⟩
    refine ⟨hheader, ?_, htype⟩
    rw [run_ipChecksum f hlen]
    exact hsum

/-- The request with its type replaced, and its checksum computed anew. -/
def echoReply (f : Bytes) (off len : ℕ) : Bytes :=
  setField (Function.update f off 0) (off + 2)
    (checksum (setField (Function.update f off 0) (off + 2) 0) off len)

theorem checksum_echoReply (f : Bytes) (off : ℕ) (h : icmpHeaderLen ≤ len) :
    checksum (echoReply f off len) off len = 0 :=
  checksum_stored (Function.update f off 0) off 1 (by simp only [icmpHeaderLen] at h; omega)

theorem echoReply_type (f : Bytes) (off len : ℕ) : echoReply f off len off = 0 := by
  rw [echoReply, setField_of_ne _ (by omega) (by omega), Function.update_self]

theorem run_icmpInput (src : ℕ) {off : ℕ} {f : Bytes} (hlen : len < 2 ^ 16)
    (h : EchoRequest off len f) :
    (icmpInput src off len f).mem = echoReply f off len ∧
      (icmpInput src off len f).value =
        if ipMtu - ipHeaderLen < len then none
        else some (.icmp src (bytesAt (echoReply f off len) off len)) := by
  obtain ⟨hheader, hsum, htype⟩ := (echoRequest_iff hlen).mp h
  have hkeep : setField (setField (Function.update f off 0) (off + 2) 0) (off + 2)
      (checksum (setField (Function.update f off 0) (off + 2) 0) off len) = echoReply f off len :=
    setField_setField _ _ _ _
  unfold icmpInput
  rw [if_neg (not_lt.mpr hheader), Traced.run_bind, run_ipChecksum f hlen]
  dsimp only
  rw [if_neg (not_not.mpr hsum), Traced.run_bind, Traced.run_read]
  dsimp only
  rw [if_pos htype]
  simp only [Traced.run_bind, Traced.run_write, run_write16, run_ipChecksum _ hlen]
  split_ifs with hlong
  · exact ⟨hkeep, rfl⟩
  · simp only [Traced.run_bind, Traced.run_readBytes, Traced.run_pure]
    refine ⟨hkeep, ?_⟩
    rw [← hkeep]
    rfl

/-- Nothing else is answered. -/
theorem icmpInput_other (src : ℕ) {off : ℕ} {f : Bytes} (hlen : len < 2 ^ 16)
    (h : ¬EchoRequest off len f) :
    (icmpInput src off len f).value = none := by
  rw [echoRequest_iff hlen] at h
  unfold icmpInput
  split
  · rfl
  rename_i hheader
  rw [Traced.run_bind, run_ipChecksum f hlen]
  dsimp only
  split
  · rfl
  rename_i hsum
  rw [Traced.run_bind, Traced.run_read]
  dsimp only
  rw [if_neg fun htype => h ⟨not_lt.mp hheader, not_not.mp hsum, htype⟩]
  split <;> rfl

theorem bytesAt_eq {f : Bytes} {off k : ℕ} (h : k < len) :
    bytesOf (bytesAt f off len) k = f (off + k) := by
  unfold bytesOf bytesAt
  rw [List.getD_eq_getElem _ _ (by simpa using h)]
  simp

/-- `icmp_input` answers echo requests only, and turns one into a reply whose checksum is 0, also
where the requester looks at the bytes that were sent. -/
structure EchoAnswered (src off len : ℕ) (f : Bytes) : Prop where
  only : (icmpInput src off len f).value ≠ none → EchoRequest off len f
  sum : EchoRequest off len f → (ipChecksum off len (icmpInput src off len f).mem).value = 0
  sent : ∀ dst packet, (icmpInput src off len f).value = some (.icmp dst packet) →
    dst = src ∧ packet.length = len ∧ (ipChecksum 0 len (bytesOf packet)).value = 0 ∧
      bytesOf packet 0 = 0
  answered : EchoRequest off len f → len ≤ ipMtu - ipHeaderLen →
    (icmpInput src off len f).value ≠ none

theorem icmpInput_answered {off : ℕ} (hlen : len < 2 ^ 16) (src : ℕ) (f : Bytes) :
    EchoAnswered src off len f := by
  by_cases h : EchoRequest off len f
  · obtain ⟨hmem, hvalue⟩ := run_icmpInput src hlen h
    have hsum := checksum_echoReply f off h.header
    constructor
    · intro _
      exact h
    · intro _
      rw [hmem, run_ipChecksum _ hlen]
      exact hsum
    · intro dst packet hsome
      rw [hvalue] at hsome
      split_ifs at hsome
      obtain ⟨rfl, rfl⟩ : src = dst ∧ bytesAt (echoReply f off len) off len = packet := by
        simpa using hsome
      refine ⟨rfl, by simp [bytesAt], ?_, ?_⟩
      · rw [run_ipChecksum _ hlen]
        apply Eq.trans _ hsum
        apply checksum_congr
        intro k hk
        rw [Nat.zero_add, bytesAt_eq hk]
      · have hheader := h.header
        simp only [icmpHeaderLen] at hheader
        rw [bytesAt_eq (by omega)]
        exact echoReply_type f off len
    · intro _ hshort
      rw [hvalue, if_neg (not_lt.mpr hshort)]
      simp
  · have hnone := icmpInput_other src hlen h
    constructor
    · intro hne
      exact absurd hnone hne
    · intro hr
      exact absurd hr h
    · intro dst packet hsome
      rw [hnone] at hsome
      simp at hsome
    · intro hr
      exact absurd hr h

/-- A stored checksum makes the checksum 0; so a packet of `ip_send` passes the checks of its
receiver, which hands on what was sent, and an echo reply passes the test of `icmp_input`. -/
theorem ipSend_agrees :
    (∀ (mem : Bytes) (off k len : ℕ), len < 2 ^ 16 → 2 * k + 2 ≤ len →
      let zeroed := (write16 (off + 2 * k) 0 mem).mem
      let stored := (write16 (off + 2 * k) (ipChecksum off len zeroed).value mem).mem
      (ipChecksum off len stored).value = 0) ∧
    (∀ (dest me : Mac) (protocol : UInt8) (src dst : UInt32) (payload : List UInt8),
      payload.length ≤ 1480 →
      ∃ packet, ipSend src.toNat dst.toNat protocol payload =
        some (ipNextHop src.toNat dst.toNat, packet) ∧
        ∀ padding, (ethFrame dest me 0x0800 packet ++ padding).length < 2 ^ 16 →
          HandedOn dst.toNat (bytesOf (ethFrame dest me 0x0800 packet ++ padding))
            (ethFrame dest me 0x0800 packet ++ padding).length protocol src.toNat payload) ∧
    ∀ (src off len : ℕ) (f : Bytes), len < 2 ^ 16 → EchoAnswered src off len f := by
  refine ⟨?_, ?_, ?_⟩
  · intro mem off k len hlen hk
    simp only [run_ipChecksum _ hlen]
    exact checksum_stored mem off k hk
  · intro dest me protocol src dst payload hpayload
    refine ⟨_, ipSend_eq hpayload, ?_⟩
    intro padding hlen
    exact ipFrame_handedOn src.toNat_lt dst.toNat_lt hpayload hlen
  · intro src off len f hlen
    exact icmpInput_answered hlen src f

end X86Kernel.Net

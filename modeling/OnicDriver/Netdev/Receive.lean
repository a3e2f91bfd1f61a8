import OnicDriver.Kernel

/-!
# Handing a received packet to the network stack

`onic_rx_deliver` copies a small packet out of its buffer and attaches the
pages of a large one to the socket buffer as fragments. The hand-off is right
for exactly the packets named at the end of the file.
-/

namespace OnicDriver.Netdev

open Lib

def ONIC_RX_COPY_THRES : ℕ := 256
def ONIC_RX_PULL_LEN : ℕ := 128

/-- What reception depends on besides the packet: memory by linear address, the
addresses of the pages, `NETIF_F_SG`, and whether `napi_alloc_skb` succeeds. -/
structure RxEnv where
  mem : ℕ → UInt8
  pageAddress : ℕ → ℕ
  netifFSg : Bool
  napiAllocSkb : Bool

/-- `n` bytes of memory from an address on. -/
def readMem (mem : ℕ → UInt8) (addr n : ℕ) : List UInt8 :=
  (List.range n).map fun k => mem (addr + k)

@[simp] theorem readMem_length (mem : ℕ → UInt8) (addr n : ℕ) :
    (readMem mem addr n).length = n := by
  simp [readMem]

/-- A read may be cut in two. -/
theorem readMem_add (mem : ℕ → UInt8) (addr m n : ℕ) :
    readMem mem addr (m + n) = readMem mem addr m ++ readMem mem (addr + m) n := by
  simp [readMem, List.range_add, Function.comp_def, Nat.add_assoc]

/-- The bytes of one buffer. -/
def RxEnv.bytes (env : RxEnv) (sg : SwSg) : List UInt8 :=
  readMem env.mem (env.pageAddress sg.pg + sg.offset) sg.len

/-- The parts of a received `struct sk_buff` that the driver fills in. -/
structure RxSkb where
  data : List UInt8
  frags : List SwSg := []
  len : ℕ
  dataLen : ℕ := 0

/-- The content of a socket buffer: its linear part and then its fragments. -/
def RxSkb.bytes (env : RxEnv) (skb : RxSkb) : List UInt8 :=
  skb.data ++ skb.frags.flatMap env.bytes

/-- The outcome of reception: the return value, the socket buffer given to
`netif_receive_skb`, the pages released by `put_page`, and the list afterwards. -/
structure RxResult where
  ret : ℤ
  skb : Option RxSkb := none
  putPages : List ℕ := []
  sgl : List SwSg

/-- The fragment loop of `onic_rx_deliver`. -/
def skbFillPageDescs : ℕ → List SwSg → List SwSg
  | 0, _ => []
  | _, [] => []
  | sgcnt + 1, sg :: sgl => sg :: skbFillPageDescs sgcnt sgl

/-- The first buffer of a fragmented packet after its start was pulled out of it. -/
def pulled (sg : SwSg) : SwSg :=
  { sg with offset := u32 (sg.offset + ONIC_RX_PULL_LEN), len := u32 (sg.len - ONIC_RX_PULL_LEN) }

/-- `onic_rx_deliver`. -/
def onicRxDeliver (env : RxEnv) (len sgcnt : ℕ) (sgl : List SwSg) : RxResult :=
  if sgcnt = 0 then { ret := -EINVAL, sgl := sgl }
  else match sgl with
  | [] => { ret := -EINVAL, sgl := [] }
  | c2hSgl :: next =>
    let data := env.pageAddress c2hSgl.pg + c2hSgl.offset
    if len ≤ ONIC_RX_COPY_THRES ∨ env.netifFSg = false then
      if env.napiAllocSkb = false then { ret := -ENOMEM, sgl := c2hSgl :: next }
      else
        { ret := 0, skb := some { data := readMem env.mem data len, len := len }
          putPages := [c2hSgl.pg], sgl := c2hSgl :: next }
    else if env.napiAllocSkb = false then { ret := -ENOMEM, sgl := c2hSgl :: next }
    else
      let skb : RxSkb :=
        { data := readMem env.mem data ONIC_RX_PULL_LEN
          frags := skbFillPageDescs sgcnt (pulled c2hSgl :: next)
          len := len, dataLen := u32 (len - ONIC_RX_PULL_LEN) }
      { ret := 0, skb := some skb, sgl := pulled c2hSgl :: next }

/-- `onic_rx_pkt_process`: a failed delivery drops the pages of the packet. -/
def onicRxPktProcess (env : RxEnv) (len sgcnt : ℕ) (sgl : List SwSg) : RxResult :=
  if sgcnt = 0 then { ret := -EINVAL, sgl := sgl }
  else
    let r := onicRxDeliver env len sgcnt sgl
    if r.ret < 0 then { r with putPages := r.putPages ++ (sgl.take sgcnt).map SwSg.pg } else r

/-! ## Received packets -/

/-- A packet as the queue library passes it on: the first `sgcnt` buffers of a list hold
its `len` bytes. -/
structure RxPacket where
  len : ℕ
  sgcnt : ℕ
  sgl : List SwSg
  sgcnt_le : sgcnt ≤ sgl.length
  sum_len : ((sgl.take sgcnt).map SwSg.len).sum = len
  len_lt : len < 2 ^ 32
  offset_lt : ∀ sg ∈ sgl, sg.offset + sg.len < 2 ^ 32

/-- The buffers of a packet. -/
def RxPacket.buffers (p : RxPacket) : List SwSg := p.sgl.take p.sgcnt

/-- The bytes of a packet. -/
def RxPacket.bytes (p : RxPacket) (env : RxEnv) : List UInt8 := p.buffers.flatMap env.bytes

/-- What reception owes to the stack and to the owners of the pages. -/
structure HandedOver (env : RxEnv) (p : RxPacket) (r : RxResult) : Prop where
  content : ∀ skb, r.skb = some skb → skb.bytes env = p.bytes env
  frags : ∀ skb, r.skb = some skb → skb.frags.length ≤ MAX_SKB_FRAGS
  refs : ((r.skb.map RxSkb.frags).getD [] |>.map SwSg.pg) ++ r.putPages |>.Perm
    (p.buffers.map SwSg.pg)

/-- Whether `onic_rx_deliver` copies the packet. -/
def Copied (env : RxEnv) (p : RxPacket) : Prop :=
  p.len ≤ ONIC_RX_COPY_THRES ∨ env.netifFSg = false

/-- The first buffer is no shorter than what `onic_rx_deliver` pulls out of it. -/
def FirstPulled (p : RxPacket) : Prop := ∀ sg ∈ p.sgl.head?, ONIC_RX_PULL_LEN ≤ sg.len

theorem skbFillPageDescs_eq_take (sgcnt : ℕ) (sgl : List SwSg) :
    skbFillPageDescs sgcnt sgl = sgl.take sgcnt := by
  induction sgl generalizing sgcnt with
  | nil => cases sgcnt <;> rfl
  | cons sg sgl ih =>
    cases sgcnt with
    | zero => rfl
    | succ sgcnt => rw [skbFillPageDescs, List.take_succ_cons, ih]

section Delivery

variable {env : RxEnv} {p : RxPacket} {first : SwSg} {rest : List SwSg}

/-- A packet without buffers leaves nothing to hand over. -/
theorem handedOver_of_empty (hzero : p.sgcnt = 0) :
    HandedOver env p (onicRxPktProcess env p.len p.sgcnt p.sgl) := by
  unfold onicRxPktProcess
  rw [if_pos hzero]
  exact ⟨by simp, by simp, by simp [RxPacket.buffers, hzero]⟩

/-- Without memory for a socket buffer every page is dropped once. -/
theorem handedOver_of_alloc_fails (hsgl : p.sgl = first :: rest) (hpos : p.sgcnt ≠ 0)
    (halloc : env.napiAllocSkb = false) :
    HandedOver env p (onicRxPktProcess env p.len p.sgcnt p.sgl) := by
  have hdeliver : onicRxDeliver env p.len p.sgcnt p.sgl = { ret := -ENOMEM, sgl := p.sgl } := by
    unfold onicRxDeliver
    rw [if_neg hpos, hsgl]
    simp only [halloc, if_true, ite_self]
  have hneg : -ENOMEM < 0 := by decide
  unfold onicRxPktProcess
  rw [if_neg hpos, hdeliver]
  dsimp only
  rw [if_pos hneg]
  exact ⟨by simp, by simp, by simp [RxPacket.buffers]⟩

/-- A successful delivery is the outcome of reception. -/
theorem onicRxPktProcess_of_deliver {r : RxResult} (hpos : p.sgcnt ≠ 0)
    (hdeliver : onicRxDeliver env p.len p.sgcnt p.sgl = r) (hret : r.ret = 0) :
    onicRxPktProcess env p.len p.sgcnt p.sgl = r := by
  have hnonneg : ¬ r.ret < 0 := by omega
  unfold onicRxPktProcess
  rw [if_neg hpos, hdeliver]
  dsimp only
  rw [if_neg hnonneg]

/-- The outcome for a copied packet. -/
theorem onicRxPktProcess_copied (hsgl : p.sgl = first :: rest) (hpos : p.sgcnt ≠ 0)
    (halloc : env.napiAllocSkb = true) (hcopy : Copied env p) :
    onicRxPktProcess env p.len p.sgcnt p.sgl =
      { ret := 0
        skb := some
          { data := readMem env.mem (env.pageAddress first.pg + first.offset) p.len, len := p.len }
        putPages := [first.pg], sgl := p.sgl } := by
  refine onicRxPktProcess_of_deliver hpos ?_ rfl
  unfold Copied at hcopy
  unfold onicRxDeliver
  rw [if_neg hpos, hsgl]
  dsimp only
  rw [if_pos hcopy, if_neg (by simp [halloc])]

/-- The outcome for a packet passed on in fragments. -/
theorem onicRxPktProcess_fragmented (hsgl : p.sgl = first :: rest) (hpos : p.sgcnt ≠ 0)
    (halloc : env.napiAllocSkb = true) (hcopy : ¬ Copied env p) :
    onicRxPktProcess env p.len p.sgcnt p.sgl =
      { ret := 0
        skb := some
          { data := readMem env.mem (env.pageAddress first.pg + first.offset) ONIC_RX_PULL_LEN
            frags := (pulled first :: rest).take p.sgcnt
            len := p.len, dataLen := u32 (p.len - ONIC_RX_PULL_LEN) }
        sgl := pulled first :: rest } := by
  refine onicRxPktProcess_of_deliver hpos ?_ rfl
  unfold Copied at hcopy
  unfold onicRxDeliver
  rw [if_neg hpos, hsgl]
  dsimp only
  rw [if_neg hcopy, if_neg (by simp [halloc]), skbFillPageDescs_eq_take]

/-- A copied packet is handed over if and only if it has a single buffer. -/
theorem handedOver_copied_iff (hsgl : p.sgl = first :: rest) (hpos : p.sgcnt ≠ 0)
    (halloc : env.napiAllocSkb = true) (hcopy : Copied env p) :
    HandedOver env p (onicRxPktProcess env p.len p.sgcnt p.sgl) ↔ p.sgcnt = 1 := by
  rw [onicRxPktProcess_copied hsgl hpos halloc hcopy]
  constructor
  · intro h
    have hcount := h.refs.length_eq
    have hle := p.sgcnt_le
    simp only [Option.map_some, Option.getD_some, List.map_nil, List.nil_append, List.length_cons,
      List.length_nil, List.length_map, RxPacket.buffers, List.length_take] at hcount
    omega
  · intro hone
    have hbuffers : p.buffers = [first] := by simp [RxPacket.buffers, hsgl, hone]
    have hlen := p.sum_len
    rw [← RxPacket.buffers, hbuffers] at hlen
    refine ⟨?_, ?_, ?_⟩
    · rintro skb ⟨⟩
      rw [RxPacket.bytes, hbuffers, ← hlen]
      simp [RxSkb.bytes, RxEnv.bytes]
    · rintro skb ⟨⟩
      simp
    · simp [hbuffers]

/-- The pulled bytes and the rest of the first buffer are the first buffer. -/
theorem bytes_pulled (env : RxEnv) (hpull : ONIC_RX_PULL_LEN ≤ first.len)
    (hfit : first.offset + first.len < 2 ^ 32) :
    readMem env.mem (env.pageAddress first.pg + first.offset) ONIC_RX_PULL_LEN ++
      env.bytes (pulled first) = env.bytes first := by
  have hoffset : u32 (first.offset + ONIC_RX_PULL_LEN) = first.offset + ONIC_RX_PULL_LEN := by
    rw [← u32_natCast (n := first.offset + ONIC_RX_PULL_LEN) (by omega)]
    push_cast
    rfl
  have hlen : u32 (first.len - ONIC_RX_PULL_LEN) = first.len - ONIC_RX_PULL_LEN := by
    rw [← u32_natCast (n := first.len - ONIC_RX_PULL_LEN) (by omega)]
    push_cast [hpull]
    rfl
  have hsplit : first.len = ONIC_RX_PULL_LEN + (first.len - ONIC_RX_PULL_LEN) := by omega
  unfold RxEnv.bytes pulled
  dsimp only
  rw [hoffset, hlen, ← Nat.add_assoc, ← readMem_add, ← hsplit]

/-- A fragmented packet is handed over if and only if its first buffer holds what is pulled
out of it and its buffers fit the fragment array. -/
theorem handedOver_fragmented_iff (hsgl : p.sgl = first :: rest) (hpos : p.sgcnt ≠ 0)
    (halloc : env.napiAllocSkb = true) (hcopy : ¬ Copied env p) :
    HandedOver env p (onicRxPktProcess env p.len p.sgcnt p.sgl) ↔
      ONIC_RX_PULL_LEN ≤ first.len ∧ p.sgcnt ≤ MAX_SKB_FRAGS := by
  obtain ⟨n, hn⟩ : ∃ n, p.sgcnt = n + 1 := ⟨p.sgcnt - 1, by omega⟩
  have hbuffers : p.buffers = first :: rest.take n := by simp [RxPacket.buffers, hsgl, hn]
  have hsum := p.sum_len
  rw [← RxPacket.buffers, hbuffers, List.map_cons, List.sum_cons] at hsum
  have hle := p.sgcnt_le
  rw [hsgl, hn, List.length_cons] at hle
  have hlt := p.len_lt
  rw [onicRxPktProcess_fragmented hsgl hpos halloc hcopy, hn, List.take_succ_cons]
  constructor
  · intro h
    have hcontent := congrArg List.length (h.content _ rfl)
    have hfrags := h.frags _ rfl
    simp only [List.length_cons, List.length_take] at hfrags
    refine ⟨?_, by omega⟩
    by_contra hshort
    -- a short first buffer gives a first fragment of almost 4 GiB
    have hwrap : (u32 (first.len - ONIC_RX_PULL_LEN) : ℤ) =
        first.len - ONIC_RX_PULL_LEN + 2 ^ 32 := by
      unfold u32 ONIC_RX_PULL_LEN at *
      omega
    simp only [RxSkb.bytes, RxPacket.bytes, hbuffers, List.length_append, List.flatMap_cons,
      RxEnv.bytes, readMem_length, pulled] at hcontent
    omega
  · rintro ⟨hpull, hfit⟩
    refine ⟨?_, ?_, ?_⟩
    · rintro skb ⟨⟩
      have hfirst := bytes_pulled env hpull
        (p.offset_lt first (by rw [hsgl]; exact List.mem_cons_self))
      simp only [RxSkb.bytes, RxPacket.bytes, hbuffers, List.flatMap_cons]
      rw [← hfirst, List.append_assoc]
    · rintro skb ⟨⟩
      simp only [List.length_cons, List.length_take]
      omega
    · simp [hbuffers, pulled]

end Delivery

/-- Reception hands a packet over as it should if and only if the packet has no buffers, or
no socket buffer can be allocated, or it is copied out of a single buffer, or it is passed
on in at most `MAX_SKB_FRAGS` fragments the first of which holds what is pulled out of it. -/
theorem onicRxPktProcess_handedOver_iff (env : RxEnv) (p : RxPacket) :
    HandedOver env p (onicRxPktProcess env p.len p.sgcnt p.sgl) ↔
      p.sgcnt = 0 ∨ env.napiAllocSkb = false ∨ (Copied env p ∧ p.sgcnt = 1) ∨
        (¬ Copied env p ∧ FirstPulled p ∧ p.sgcnt ≤ MAX_SKB_FRAGS) := by
  by_cases hzero : p.sgcnt = 0
  · simp only [hzero, true_or, iff_true]
    rw [← hzero]
    exact handedOver_of_empty hzero
  · cases hsgl : p.sgl with
    | nil =>
      have hle := p.sgcnt_le
      rw [hsgl] at hle
      exact absurd (Nat.le_zero.mp hle) hzero
    | cons first rest =>
      rw [← hsgl]
      have hpulled : FirstPulled p ↔ ONIC_RX_PULL_LEN ≤ first.len := by simp [FirstPulled, hsgl]
      cases halloc : env.napiAllocSkb with
      | false =>
        simp only [true_or, or_true, iff_true]
        exact handedOver_of_alloc_fails hsgl hzero halloc
      | true =>
        by_cases hcopy : Copied env p
        · rw [handedOver_copied_iff hsgl hzero halloc hcopy]
          simp [hzero, hcopy]
        · rw [handedOver_fragmented_iff hsgl hzero halloc hcopy]
          simp [hzero, hcopy, hpulled]

/-- A packet of 200 bytes in two buffers of 100. -/
def twoBuffers : RxPacket :=
  { len := 200, sgcnt := 2, sgl := [{ pg := 0, len := 100 }, { pg := 1, len := 100 }]
    sgcnt_le := by decide, sum_len := by decide, len_lt := by decide, offset_lt := by decide }

/-- The page of its second buffer is neither passed on nor dropped, and the bytes of that
buffer are replaced by what follows the first one in memory. -/
theorem onicRxPktProcess_twoBuffers :
    ¬ HandedOver
      { mem := fun addr => if addr < 8192 then 0 else 1, pageAddress := fun pg => 8192 * pg
        netifFSg := true, napiAllocSkb := true } twoBuffers
      (onicRxPktProcess
        { mem := fun addr => if addr < 8192 then 0 else 1, pageAddress := fun pg => 8192 * pg
          netifFSg := true, napiAllocSkb := true } twoBuffers.len twoBuffers.sgcnt
        twoBuffers.sgl) := by
  intro h
  exact absurd h.refs.length_eq (by decide)

end OnicDriver.Netdev

import OnicDriver.Kernel
import OnicDriver.Mailbox.Ownership
import OnicDriver.Mailbox.Wire

/-!
# Active queues asked for over the mailbox

The PF answers a VF that asks for its active queues with three counts, and with
the last of them as the status of the response.
-/

namespace OnicDriver.Mailbox

open Lib Access Resource CType

/-! ## The response in memory -/

/-- `struct mbox_msg_active_qcnt`. -/
def mboxMsgActiveQcnt : List CType := [struct mboxMsgHdr, u32, u32, u32]

/-- The member of a queue type. -/
def qcntField : DevQType → Field
  | .h2c => member mboxMsgActiveQcnt 1
  | .c2h => member mboxMsgActiveQcnt 2
  | .cmpt => member mboxMsgActiveQcnt 3

/-- The message of a response with active queues: counts first, then the header. -/
def qcntMessage (resp : RespMsg) (raw : ByteMem) : ByteMem :=
  let raw := match resp.body with
    | .qcnt h2c c2h cmpt =>
      setMember (qcntField .cmpt) cmpt <| setMember (qcntField .c2h) c2h <|
        setMember (qcntField .h2c) h2c raw
    | _ => raw
  setMember hdrStatus (resp.status % 2 ^ 8).toNat <| setMember hdrSrcFuncId resp.srcFuncId <|
    setMember hdrDstFuncId resp.dstFuncId <| setMember hdrOp resp.op raw

/-- The message `m` of the VF after the words of `resp` came through the buffer `rx`. -/
def vfMessage (resp rx m : ByteMem) : ByteMem :=
  copyRaw (qdmaMboxRcv true (some ⟨0, loadAll 0 rawFields resp⟩) rx).2 m

/-- `qdma_mbox_vf_active_queues_get`. -/
def qdmaMboxVfActiveQueuesGet (raw : ByteMem) (qType : DevQType) : ℤ :=
  s32 (getMember (qcntField qType) raw)

/-- `qdma_dev_get_active_qcnt` once the response has come: the result and the three counts. -/
def qdmaDevGetActiveQcnt (raw : ByteMem) : Except ℤ (ℤ × (DevQType → ℕ)) :=
  let rv := qdmaMboxVfResponseStatus raw
  if rv < 0 then .error (-EINVAL)
  else .ok (rv, fun qType => Lib.u32 (qdmaMboxVfActiveQueuesGet raw qType))

/-! ## Reachable counts -/

/-- A message or a call of the resource manager. -/
inductive ManagerEvent
  | mbox (e : MboxEvent)
  | increment (dmaDeviceIndex funcId : ℕ) (qType : Option DevQType)
  | decrement (dmaDeviceIndex funcId : ℕ) (qType : Option DevQType)

/-- The resource manager after an event. -/
def manage (s : ResourceState) : ManagerEvent → ResourceState
  | .mbox e => handleEvent s e
  | .increment i f qType => (qdmaDevIncrementActiveQueue s i f qType).2
  | .decrement i f qType => (qdmaDevDecrementActiveQueue s i f qType).2

/-- Every count is a number of 32 bits. -/
def CountsFit (s : ResourceState) : Prop :=
  ∀ m ∈ s.masterResourceList, ∀ d ∈ m.devList, ∀ t, d.activeQcnt t < 2 ^ 32

variable {s : ResourceState}

theorem CountsFit.setMaster (h : CountsFit s) {m : ResourceMaster}
    (hm : ∀ d ∈ m.devList, ∀ t, d.activeQcnt t < 2 ^ 32) : CountsFit (s.setMaster m) := by
  intro n hn
  rcases mem_writeFirst hn with rfl | hn
  · exact hm
  · exact h n hn

/-- Writing back a device entry. -/
theorem CountsFit.setDev (h : CountsFit s) {m : ResourceMaster} {i : ℕ}
    (hm : qdmaGetMasterResourceEntry s i = some m) {d : DevEntry}
    (hd : ∀ t, d.activeQcnt t < 2 ^ 32) {m' : ResourceMaster} (hlist : m'.devList = m.devList) :
    CountsFit (s.setMaster (m'.setDev d)) := by
  have hold := h m (List.mem_of_find?_eq_some hm)
  apply h.setMaster
  intro e he
  rcases mem_writeFirst he with rfl | he
  · exact hd
  · rw [hlist] at he
    exact hold e he

theorem CountsFit.devEntryCreate (h : CountsFit s) (i f : ℕ) (mem : CallocResults) :
    CountsFit (qdmaDevEntryCreate s i f mem).2 := by
  unfold qdmaDevEntryCreate
  cases hm : qdmaGetMasterResourceEntry s i with
  | none => exact h
  | some m =>
    dsimp only
    cases m.devEntry f with
    | some d => exact h
    | none =>
      dsimp only
      rcases qdmaCalloc mem with ⟨ok, mem'⟩
      cases ok with
      | false => exact h
      | true =>
        refine h.setMaster fun e he t => ?_
        rcases List.mem_append.mp he with he | he
        · exact h m (List.mem_of_find?_eq_some hm) e he t
        · rw [List.mem_singleton.mp he]
          cases t <;> exact Nat.two_pow_pos 32

theorem CountsFit.devEntryDestroy (h : CountsFit s) (i f : ℕ) (mem : CallocResults) :
    CountsFit (qdmaDevEntryDestroy s i f mem) := by
  unfold qdmaDevEntryDestroy
  cases hm : qdmaGetMasterResourceEntry s i with
  | none => exact h
  | some m =>
    dsimp only
    cases m.devEntry f with
    | none => exact h
    | some d =>
      exact h.setMaster fun e he => h m (List.mem_of_find?_eq_some hm) e (List.mem_of_mem_eraseP he)

theorem CountsFit.devUpdate (h : CountsFit s) (i f qmax : ℕ) (qbase : ℤ) (mem : CallocResults) :
    CountsFit (qdmaDevUpdate s i f qmax qbase mem).2.2 := by
  unfold qdmaDevUpdate
  cases hm : qdmaGetMasterResourceEntry s i with
  | none => exact h
  | some m =>
    dsimp only
    cases hdev : m.devEntry f with
    | none => exact h
    | some d =>
      dsimp only
      split
      · exact h
      · have hd := h m (List.mem_of_find?_eq_some hm) d (List.mem_of_find?_eq_some hdev)
        rcases qdmaRequestQResource d.entry qmax qbase m.freeList mem with ⟨rv, entry, free, mem'⟩
        have hentry : ∀ t, ({ d with entry := entry } : DevEntry).activeQcnt t < 2 ^ 32 := by
          intro t
          have ht := hd t
          cases t <;> exact ht
        have hlist : ({ m with freeList := free } : ResourceMaster).devList = m.devList := rfl
        exact h.setDev hm hentry hlist

theorem CountsFit.incrementActiveQueue (h : CountsFit s) (i f : ℕ) (qType : Option DevQType) :
    CountsFit (qdmaDevIncrementActiveQueue s i f qType).2 := by
  unfold qdmaDevIncrementActiveQueue
  cases hm : qdmaGetMasterResourceEntry s i with
  | none => exact h
  | some m =>
    dsimp only
    cases hdev : m.devEntry f with
    | none => exact h
    | some d =>
      cases qType with
      | none => exact h
      | some t =>
        dsimp only
        split
        · exact h
        · have hd := h m (List.mem_of_find?_eq_some hm) d (List.mem_of_find?_eq_some hdev)
          refine h.setDev hm (fun t' => ?_) rfl
          by_cases ht : t' = t
          · rw [ht, setActiveQcnt_activeQcnt]
            exact u32_lt _
          · rw [setActiveQcnt_activeQcnt_of_ne ht]
            exact hd t'

theorem CountsFit.decrementActiveQueue (h : CountsFit s) (i f : ℕ) (qType : Option DevQType) :
    CountsFit (qdmaDevDecrementActiveQueue s i f qType).2 := by
  unfold qdmaDevDecrementActiveQueue
  cases hm : qdmaGetMasterResourceEntry s i with
  | none => exact h
  | some m =>
    dsimp only
    cases hdev : m.devEntry f with
    | none => exact h
    | some d =>
      have hold := h m (List.mem_of_find?_eq_some hm)
      cases qType with
      | none => exact h.setMaster hold
      | some t =>
        have hd := hold d (List.mem_of_find?_eq_some hdev)
        dsimp only
        split
        · refine h.setDev hm (fun t' => ?_) rfl
          by_cases ht : t' = t
          · rw [ht, setActiveQcnt_activeQcnt]
            exact (Nat.sub_le _ _).trans_lt (hd t)
          · rw [setActiveQcnt_activeQcnt_of_ne ht]
            exact hd t'
        · exact h.setDev hm hd rfl

theorem CountsFit.exec (h : CountsFit s) (op : ResourceOp) : CountsFit (exec s op) := by
  cases op with
  | masterResourceCreate busStart busEnd qBase totalQ mem =>
    rcases exec_cases s (.masterResourceCreate busStart busEnd qBase totalQ mem) with
      heq | ⟨_, _, _, _, _, hop, hlist⟩ | ⟨_, _, _, _, hstep, _⟩
    · rwa [heq]
    · cases hop
      intro m hm
      rw [hlist] at hm
      rcases List.mem_append.mp hm with hm | hm
      · exact h m hm
      · rw [List.mem_singleton.mp hm]
        exact fun d hd => nomatch hd
    · cases hstep
  | devEntryCreate i f mem => exact h.devEntryCreate i f mem
  | devEntryDestroy i f mem => exact h.devEntryDestroy i f mem
  | devUpdate i f qmax qbase mem => exact h.devUpdate i f qmax qbase mem

theorem CountsFit.handler (h : CountsFit s) (env : HwEnv) (i f : ℕ) (m : MboxMem)
    (mem : CallocResults) (log : HwLog) :
    CountsFit (qdmaMboxPfRcvMsgHandler env i f m s mem log).state := by
  unfold qdmaMboxPfRcvMsgHandler
  cases MboxOp.fromByte m.op with
  | none => exact h
  | some op =>
    cases op with
    | vfBye | pfResetVfBye => exact h.devEntryDestroy i m.srcFuncId mem
    | hello =>
      dsimp only
      rcases handleHello_state (s := s) with hstate | hstate
      · rwa [hstate]
      · rw [hstate]
        exact h.devEntryCreate i m.srcFuncId mem
    | qreq =>
      dsimp only
      rw [handleQreq_state]
      exact h.devUpdate i m.srcFuncId _ _ mem
    | qnotifyAdd =>
      dsimp only
      rcases handleQnotify_state (s := s) with hstate | hstate
      · rwa [hstate]
      · rw [hstate]
        exact h.incrementActiveQueue i m.srcFuncId _
    | qnotifyDel =>
      dsimp only
      rcases handleQnotify_state (s := s) with hstate | hstate
      · rwa [hstate]
      · rw [hstate]
        exact h.decrementActiveQueue i m.srcFuncId _
    | fmap =>
      dsimp only
      rwa [handleFmap_state]
    | csr =>
      dsimp only
      rwa [handleCsr_state]
    | regListRead =>
      dsimp only
      rwa [handleRegListRead_state]
    | getQactiveCnt | qctxtWrt | qctxtRd | qctxtClr | qctxtInv | intrCtxtWrt | intrCtxtRd
    | intrCtxtClr | intrCtxtInv | resetPrepare | resetDone | pfBye => exact h

theorem CountsFit.manage (h : CountsFit s) (e : ManagerEvent) : CountsFit (manage s e) := by
  cases e with
  | mbox e =>
    cases e with
    | call op => exact h.exec op
    | message env i f m mem log => exact h.handler env i f m mem log
  | increment i f qType => exact h.incrementActiveQueue i f qType
  | decrement i f qType => exact h.decrementActiveQueue i f qType

/-- In every state of the resource manager the counts are numbers of 32 bits. -/
theorem run_countsFit (events : List ManagerEvent) : CountsFit (run manage {} events) := by
  have hinit : CountsFit {} := by simp [CountsFit]
  have hall : Admitted manage (fun _ _ => True) {} events :=
    admitted_of_forall (fun _ _ => trivial) _
  exact hall.invariant (fun _ e hs _ => hs.manage e) hinit

/-! ## What the VF decodes -/

section

variable {env : HwEnv} {i f : ℕ} {req : MboxMem} {mem : CallocResults} {log : HwLog}
  {raw rx m : ByteMem} {d : DevEntry}

/-- A member among the words of a response comes to the VF as it is. -/
theorem getMember_vfMessage {field : Field} (resp rx m : ByteMem)
    (hfield : field.offset + field.size ≤ rawSize) :
    getMember field (vfMessage resp rx m) = getMember field resp := by
  refine ByteMem.load_congr fun a _ ha => ?_
  have ha := ha.trans_le hfield
  rw [vfMessage, copyRaw, if_pos ha, qdmaMboxRcv_vf, storeAll_rawFields ha]

/-- The response to a request for the active queues of a function. -/
theorem handler_qcnt (env : HwEnv) (f : ℕ) (mem : List Bool) (log : HwLog)
    (hop : MboxOp.fromByte req.op = some .getQactiveCnt)
    (hd : qdmaGetDevEntry s i req.srcFuncId = some d) :
    (qdmaMboxPfRcvMsgHandler env i f req s mem log).resp.status = s8 (s32 d.activeCmptQcnt) ∧
      (qdmaMboxPfRcvMsgHandler env i f req s mem log).resp.body =
        .qcnt (Lib.u32 (s32 (d.activeQcnt .h2c))) (Lib.u32 (s32 (d.activeQcnt .c2h)))
          (Lib.u32 (s32 (d.activeQcnt .cmpt))) := by
  have hcount : ∀ t, qdmaGetDeviceActiveQueueCount s i req.srcFuncId t = s32 (d.activeQcnt t) := by
    intro t
    unfold qdmaGetDevEntry at hd
    unfold qdmaGetDeviceActiveQueueCount
    cases hm : qdmaGetMasterResourceEntry s i with
    | none => simp [hm] at hd
    | some m =>
      rw [hm] at hd
      dsimp only
      rw [show m.devEntry req.srcFuncId = some d from hd]
  unfold qdmaMboxPfRcvMsgHandler
  rw [hop]
  unfold handleGetQactiveCnt exitFunc
  dsimp only
  rw [hcount, hcount, hcount]
  exact ⟨rfl, rfl⟩

theorem s8_nonneg_iff_byte (x : ℤ) : 0 ≤ s8 x ↔ x % 256 < 128 := by
  unfold s8
  rw [Int.bmod_def]
  split <;> omega

theorem u32_s32 {n : ℕ} (h : n < 2 ^ 32) : Lib.u32 (s32 n) = n := by
  unfold Lib.u32 s32
  rw [Int.bmod_def]
  split <;> omega

/-- The response as the VF receives it, read member by member. -/
theorem qcntMessage_members {resp : RespMsg} {h2c c2h cmpt : ℕ}
    (hbody : resp.body = .qcnt h2c c2h cmpt) (raw : ByteMem) :
    getMember hdrStatus (qcntMessage resp raw) = (resp.status % 2 ^ 8).toNat % 256 ∧
      getMember (qcntField .h2c) (qcntMessage resp raw) = h2c % 2 ^ 32 ∧
      getMember (qcntField .c2h) (qcntMessage resp raw) = c2h % 2 ^ 32 ∧
      getMember (qcntField .cmpt) (qcntMessage resp raw) = cmpt % 2 ^ 32 := by
  have hskip : ∀ t, ∀ f ∈ [hdrStatus, hdrSrcFuncId, hdrDstFuncId, hdrOp],
      f.offset + f.size ≤ (qcntField t).offset := by
    intro t
    cases t <;> decide
  have hhdr : ∀ t v₁ v₂ v₃ v₄ r, getMember (qcntField t) (setMember hdrStatus v₁ <|
      setMember hdrSrcFuncId v₂ <| setMember hdrDstFuncId v₃ <| setMember hdrOp v₄ r) =
        getMember (qcntField t) r := by
    intro t v₁ v₂ v₃ v₄ r
    rw [getMember_setMember_of_disjoint (.inr (hskip t _ (by simp))),
      getMember_setMember_of_disjoint (.inr (hskip t _ (by simp))),
      getMember_setMember_of_disjoint (.inr (hskip t _ (by simp))),
      getMember_setMember_of_disjoint (.inr (hskip t _ (by simp)))]
  have happart : ∀ t t', t ≠ t' →
      (qcntField t).offset + (qcntField t).size ≤ (qcntField t').offset ∨
      (qcntField t').offset + (qcntField t').size ≤ (qcntField t).offset := by
    intro t t'
    cases t <;> cases t' <;> decide
  unfold qcntMessage
  rw [hbody]
  refine ⟨getMember_setMember _ _ _, ?_, ?_, ?_⟩
  · rw [hhdr, getMember_setMember_of_disjoint (happart _ _ (by decide)),
      getMember_setMember_of_disjoint (happart _ _ (by decide)), getMember_setMember]
    rfl
  · rw [hhdr, getMember_setMember_of_disjoint (happart _ _ (by decide)), getMember_setMember]
    rfl
  · rw [hhdr, getMember_setMember]
    rfl

/-- In every state of the resource manager, a VF that asks for its active queues decodes a success
and the counts that the PF holds for it, exactly if the lowest byte of its number of active
completion queues is below 128. -/
theorem activeCounts_told_iff (events : List ManagerEvent)
    (hop : MboxOp.fromByte req.op = some .getQactiveCnt)
    (hd : qdmaGetDevEntry (run manage {} events) i req.srcFuncId = some d) :
    (∃ rv, qdmaDevGetActiveQcnt (vfMessage (qcntMessage
        (qdmaMboxPfRcvMsgHandler env i f req (run manage {} events) mem log).resp raw) rx m) =
          .ok (rv, d.activeQcnt)) ↔
      d.activeCmptQcnt % 256 < 128 := by
  obtain ⟨hstatus, hbody⟩ := handler_qcnt env f mem log hop hd
  generalize (qdmaMboxPfRcvMsgHandler env i f req (run manage {} events) mem log).resp = resp at *
  obtain ⟨hst, hh2c, hc2h, hcmpt⟩ := qcntMessage_members hbody raw
  have hfit : ∀ t, d.activeQcnt t < 2 ^ 32 := by
    unfold qdmaGetDevEntry at hd
    obtain ⟨master, hmaster, hdev⟩ := Option.bind_eq_some_iff.mp hd
    exact run_countsFit events master (List.mem_of_find?_eq_some hmaster) d
      (List.mem_of_find?_eq_some hdev)
  have hcounts : (fun t => Lib.u32 (qdmaMboxVfActiveQueuesGet
      (vfMessage (qcntMessage resp raw) rx m) t)) = d.activeQcnt := by
    have hend : ∀ t, (qcntField t).offset + (qcntField t).size ≤ rawSize := by
      intro t
      cases t <;> decide
    funext t
    have ht := hfit t
    rw [qdmaMboxVfActiveQueuesGet, getMember_vfMessage _ _ _ (hend t)]
    cases t with
    | h2c =>
      rw [hh2c, u32_s32 ht, Nat.mod_eq_of_lt ht]
      exact u32_s32 ht
    | c2h =>
      rw [hc2h, u32_s32 ht, Nat.mod_eq_of_lt ht]
      exact u32_s32 ht
    | cmpt =>
      rw [hcmpt, u32_s32 ht, Nat.mod_eq_of_lt ht]
      exact u32_s32 ht
  have hrv : 0 ≤ qdmaMboxVfResponseStatus (vfMessage (qcntMessage resp raw) rx m) ↔
      d.activeCmptQcnt % 256 < 128 := by
    rw [qdmaMboxVfResponseStatus, getMember_vfMessage _ _ _ (by decide), hst, hstatus,
      s8_nonneg_iff_byte]
    have hbyte : s8 (s32 d.activeCmptQcnt) % 2 ^ 8 = d.activeCmptQcnt % 256 := by
      have hdvd : (2 ^ 8 : ℤ) ∣ 2 ^ 32 := by norm_num
      have hs8 : s8 (s32 d.activeCmptQcnt) % 2 ^ 8 = s32 d.activeCmptQcnt % 2 ^ 8 :=
        Int.bmod_emod
      have hs32 : s32 d.activeCmptQcnt % 2 ^ 32 = (d.activeCmptQcnt : ℤ) % 2 ^ 32 :=
        Int.bmod_emod
      rw [hs8, ← Int.emod_emod_of_dvd _ hdvd, hs32, Int.emod_emod_of_dvd _ hdvd]
      norm_num
    rw [hbyte]
    clear * -
    omega
  unfold qdmaDevGetActiveQcnt
  dsimp only
  rw [hcounts, ← hrv]
  constructor
  · rintro ⟨rv, hok⟩
    by_contra hneg
    rw [if_pos (not_le.mp hneg)] at hok
    cases hok
  · intro hpos
    exact ⟨_, if_neg (not_lt.mpr hpos)⟩

end

/-- Function 5 has 200 queues, of which `n` completion queues are active. -/
def activeCmptRun (n : ℕ) : List ManagerEvent :=
  [.mbox (.call (.masterResourceCreate 0 0 0 256 [])), .mbox (.call (.devEntryCreate 0 5 [])),
    .mbox (.call (.devUpdate 0 5 200 0 []))] ++ List.replicate n (.increment 0 5 (some .cmpt))

/-- The request of function 5. -/
def qcntRequest : MboxMem := MboxMem.ofWords [7 + 2 ^ 16 * 5]

theorem activeCounts_told_three : ∃ rv, qdmaDevGetActiveQcnt (vfMessage (qcntMessage
    (qdmaMboxPfRcvMsgHandler HwEnv.zero 0 0 qcntRequest (run manage {} (activeCmptRun 3)) []
      []).resp
      fun _ => 0) (fun _ => 0) fun _ => 0) =
    .ok (rv, ({ funcId := 5, activeCmptQcnt := 3, entry := ⟨0, 200⟩ } : DevEntry).activeQcnt) :=
  (activeCounts_told_iff (activeCmptRun 3) (by decide +kernel) (by decide +kernel)).mpr (by decide)

/-- With 128 active completion queues the VF decodes an error. -/
theorem activeCounts_not_told_128 : ∃ d,
    qdmaGetDevEntry (run manage {} (activeCmptRun 128)) 0 5 = some d ∧
      ¬ ∃ rv, qdmaDevGetActiveQcnt (vfMessage (qcntMessage (qdmaMboxPfRcvMsgHandler HwEnv.zero 0 0
        qcntRequest (run manage {} (activeCmptRun 128)) [] []).resp fun _ => 0) (fun _ => 0)
          fun _ => 0) = .ok (rv, d.activeQcnt) := by
  refine ⟨{ funcId := 5, activeCmptQcnt := 128, entry := ⟨0, 200⟩ }, by decide +kernel, ?_⟩
  rintro ⟨rv, hok⟩
  have hstatus : qdmaMboxVfResponseStatus (vfMessage (qcntMessage
      (qdmaMboxPfRcvMsgHandler HwEnv.zero 0 0 qcntRequest (run manage {} (activeCmptRun 128)) []
        []).resp fun _ => 0) (fun _ => 0) fun _ => 0) < 0 := by decide +kernel
  rw [qdmaDevGetActiveQcnt, if_pos hstatus] at hok
  cases hok

end OnicDriver.Mailbox

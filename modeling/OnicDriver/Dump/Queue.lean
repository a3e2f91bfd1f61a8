import OnicDriver.Lib.Format
import OnicDriver.Queue.Descq

/-!
# The text of a queue

What the state of a queue and its rings look like in a buffer of the caller.
-/

namespace OnicDriver.Dump

open Lib Queue

/-- What is told of a queue. A pointer that is `NULL` is 0. -/
structure Descq where
  name : String
  qType : QType
  st : Bool
  err : Bool
  qState : QState
  qidxHw : ℕ
  cmplthp : Option String
  desc : ℕ
  descBus : ℕ
  rngsz : ℕ
  descCmpt : ℕ
  descCmptBus : ℕ
  rngszCmpt : ℕ
  deriving DecidableEq, Repr

/-- `q_state_list`. -/
def qStateList : QState → String
  | .disabled => "disabled"
  | .enabled => "cfg'ed"
  | .online => "online"

namespace Descq

/-- The name and the type of a queue. -/
def titleText (q : Descq) : List Char :=
  let type := if q.qType ≠ .cmpt then if q.qType = .c2h then "C2H" else "H2C" else "CMPT"
  (q.name ++ " " ++ type ++ " ").toList

/-- The state of a queue. -/
def stateText (q : Descq) : List Char :=
  if q.err then "ERR\n".toList else (qStateList q.qState ++ "\n").toList

/-- The number, the thread and the ring of a queue. -/
def ringText (fmtPtr fmtHex : ℕ → String) (q : Descq) : List Char :=
  ("\thw_ID " ++ toString q.qidxHw ++ ", thp " ++ q.cmplthp.getD "?" ++ ", desc 0x" ++
    fmtPtr q.desc ++ "/0x" ++ fmtHex q.descBus ++ ", " ++ toString q.rngsz ++ "\n").toList

/-- The completion ring of a streaming C2H queue. -/
def cmptText (fmtPtr fmtHex : ℕ → String) (q : Descq) : List Char :=
  ("\tcmpt desc 0x" ++ fmtPtr q.descCmpt ++ "/0x" ++ fmtHex q.descCmptBus ++ ", " ++
    toString q.rngszCmpt ++ "\n").toList

/-- A streaming C2H queue. -/
def isStC2h (q : Descq) : Bool := q.st && q.qType = .c2h

end Descq

section

variable (fmtPtr fmtHex : ℕ → String) (limit : ℕ)

/-- `qdma_descq_dump_state`, which is called with room in the buffer. -/
def qdmaDescqDumpState (q : Descq) (s : Cursor) : Cursor :=
  .merge do
    let r ← (s.print limit q.titleText).checked s.cur limit
    (r.print limit q.stateText).checked s.cur limit

/-- `qdma_descq_dump` without details, which is called with room in the buffer. -/
def qdmaDescqDump (q : Descq) (s : Cursor) : Cursor :=
  .merge do
    let r ← (qdmaDescqDumpState limit q s).checked s.cur limit
    if q.qState = .disabled then return r
    else
      let r ← (r.print limit (q.ringText fmtPtr fmtHex)).checked s.cur limit
      if q.isStC2h then (r.print limit (q.cmptText fmtPtr fmtHex)).checked s.cur limit
      else return r

/-- The record of a queue: all that `qdma_descq_dump` writes, where there is room. -/
def Descq.record (q : Descq) : List Char :=
  q.titleText ++ q.stateText ++
    if q.qState = .disabled then []
    else q.ringText fmtPtr fmtHex ++ if q.isStC2h then q.cmptText fmtPtr fmtHex else []

variable {fmtPtr fmtHex limit} {t : List Char} {s : Cursor}

/-- The state of a queue is written behind the text so far, if it fits. -/
theorem qdmaDescqDumpState_spec (q : Descq) (htop : s.buf.top ≤ limit) (hcur : s.cur = t.length)
    (hlt : s.cur < limit) (ht : s.buf.Holds 0 t) :
    (qdmaDescqDumpState limit q s).Prints limit (t ++ (q.titleText ++ q.stateText)) := by
  have htitle := Cursor.prints_print htop hcur hlt ht q.titleText
  rw [← List.append_assoc]
  apply htitle.checked_bind hlt
  intro hroom
  exact (htitle.print hroom q.stateText).checked hlt

theorem fence_qdmaDescqDumpState (q : Descq) (s : Cursor) :
    (qdmaDescqDumpState limit q s).buf.fence = s.buf.fence := by
  unfold qdmaDescqDumpState
  rw [Cursor.fence_checked_bind]
  · exact TextBuffer.snprintf_fence
  · intro r
    exact (Cursor.fence_checked _).trans TextBuffer.snprintf_fence

/-- The record is written behind the text so far, if it fits. -/
theorem qdmaDescqDump_spec (q : Descq) (h : s.Prints limit t) (hlt : s.cur < limit) :
    (qdmaDescqDump fmtPtr fmtHex limit q s).Prints limit (t ++ q.record fmtPtr fmtHex) := by
  obtain ⟨hcur, ht⟩ := h.fits (h.length_lt hlt)
  have hstate := qdmaDescqDumpState_spec q h.top hcur hlt ht.left
  unfold Descq.record
  rw [← List.append_assoc t]
  apply hstate.checked_bind hlt
  intro hroom
  split_ifs with hdisabled hcmpt
  · rw [List.append_nil]
    exact hstate
  · have hring := hstate.print hroom (q.ringText fmtPtr fmtHex)
    rw [← List.append_assoc]
    apply hring.checked_bind hlt
    intro hroom
    exact (hring.print hroom (q.cmptText fmtPtr fmtHex)).checked hlt
  · have hring := hstate.print hroom (q.ringText fmtPtr fmtHex)
    rw [← List.append_assoc]
    apply hring.checked_bind hlt
    intro _
    rw [List.append_nil]
    exact hring

end

end OnicDriver.Dump

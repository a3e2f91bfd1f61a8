import OnicDriver.Queue.Request
import OnicDriver.Queue.Ring
import Mathlib.Logic.Function.Basic

/-!
# Constants of descriptor queues

The sizes and flags of descriptors, the modes of the driver and the states of
a queue.
-/

namespace OnicDriver.Queue

open Lib

def ENXIO : ℤ := 6

def QDMA_DESC_BLEN_BITS : ℕ := 28
def QDMA_DESC_BLEN_MAX : ℕ := 2 ^ QDMA_DESC_BLEN_BITS - 1

def S_DESC_F_DV : ℕ := 28
def S_DESC_F_SOP : ℕ := 29
def S_DESC_F_EOP : ℕ := 30

def S_H2C_DESC_F_SOP : ℕ := 1
def S_H2C_DESC_F_EOP : ℕ := 2
def S_H2C_DESC_F_ZERO_CDH : ℕ := 13

def PAGE_SIZE : ℕ := 4096

/-- `enum qdma_drv_mode`. -/
inductive DrvMode
  | auto
  | poll
  | directIntr
  | indirectIntr
  | legacyIntr
  deriving DecidableEq, Repr

/-- `enum q_state_t`. -/
inductive QState
  | disabled
  | enabled
  | online
  deriving DecidableEq, Repr

end OnicDriver.Queue

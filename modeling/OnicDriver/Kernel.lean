import OnicDriver.Lib.CInt

/-!
# Kernel values and structures shared by the modules

Error numbers, limits of the network stack, and the scatter-gather element
that both the network driver and the queue library work on.
-/

namespace OnicDriver

def EIO : ℤ := 5
def ENOMEM : ℤ := 12
def EFAULT : ℤ := 14
def EBUSY : ℤ := 16
def EINVAL : ℤ := 22

def NETDEV_TX_OK : ℤ := 0
def NETDEV_TX_BUSY : ℤ := 0x10

/-- `MAX_SKB_FRAGS` for pages of 4 KiB. -/
def MAX_SKB_FRAGS : ℕ := 17

/-- `struct qdma_sw_sg`. The `next` pointers of a list are the list itself. -/
structure SwSg where
  pg : ℕ := 0
  offset : ℕ := 0
  len : ℕ
  dmaAddr : ℕ := 0
  deriving DecidableEq, Repr

end OnicDriver

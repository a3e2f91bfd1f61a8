import Mathlib.Data.Int.Basic

/-!
# The platform information

What a configuration file says about the network function of a card.
-/

namespace OnicDriver

/-- `struct onic_platform_info`. -/
structure PlatformInfo where
  qdmaBar : UInt8 := 0
  userBar : UInt8 := 0
  queueBase : UInt16 := 0
  queueMax : UInt16 := 0
  usedQueues : UInt16 := 0
  pciMsixUserCnt : UInt8 := 0
  pciMasterPf : Bool := false
  pollMode : Bool := false
  intrModEn : Bool := false
  ringSz : ℤ := 0
  c2hTmrCnt : ℤ := 0
  c2hCntThr : ℤ := 0
  c2hBufSz : ℤ := 0
  rsfecEn : Bool := false
  portId : UInt8 := 0
  macAddr : Vector UInt8 6 := Vector.replicate 6 0
  deriving DecidableEq, Repr

end OnicDriver

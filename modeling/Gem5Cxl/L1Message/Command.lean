import Mathlib.Logic.Function.Basic

/-!
# Memory commands (`mem/packet.hh`, `mem/packet.cc`)

Every packet of the memory system carries a `MemCmd`. What a component does
with a packet depends on the command's attributes (does it read, does it
invalidate, does it need a response), which the source keeps in one table,
`MemCmd::commandInfo`. The table is transcribed row by row; the attribute
tests are the source's one-line readers of it.

The printed name of a row is left out: no modelled function reads it.
-/
namespace Gem5Cxl.L1

/-- `MemCmd::Command`. mirrors packet.hh:89-157 -/
inductive MemCmd
  | invalidCmd | readReq | readResp | readRespWithInvalidate | writeReq | writeResp
  | writeCompleteResp | writebackDirty | writebackClean | writeClean | cleanEvict | softPFReq
  | softPFExReq | hardPFReq | softPFResp | hardPFResp | writeLineReq | upgradeReq
  | scUpgradeReq | upgradeResp | scUpgradeFailReq | upgradeFailResp | readExReq | readExResp
  | readCleanReq | readSharedReq | loadLockedReq | storeCondReq | storeCondFailReq
  | storeCondResp | lockedRMWReadReq | lockedRMWReadResp | lockedRMWWriteReq
  | lockedRMWWriteResp | swapReq | swapResp | memFenceReq | memSyncReq | memSyncResp
  | memFenceResp | cleanSharedReq | cleanSharedResp | cleanInvalidReq | cleanInvalidResp
  | invalidDestError | badAddressError | readError | writeError | functionalReadError
  | functionalWriteError | printReq | flushReq | invalidateReq | invalidateResp | htmReq
  | htmReqResp | htmAbort | tlbiExtSync
deriving DecidableEq, Repr

/-- `MemCmd::Attribute`. mirrors packet.hh:163-185 -/
inductive Attribute
  | isRead | isWrite | isUpgrade | isInvalidate | isClean | needsWritable | isRequest
  | isResponse | needsResponse | isEviction | isSWPrefetch | isHWPrefetch | isLlsc
  | isLockedRMW | hasData | isError | isPrint | isFlush | fromCache
deriving DecidableEq, Repr

namespace MemCmd

/-- The attribute column of `MemCmd::commandInfo`. mirrors packet.cc:65-236 -/
def attributes : MemCmd → List Attribute
  | .invalidCmd => []
  | .readReq => [.isRead, .isRequest, .needsResponse]
  | .readResp => [.isRead, .isResponse, .hasData]
  | .readRespWithInvalidate => [.isRead, .isResponse, .hasData, .isInvalidate]
  | .writeReq => [.isWrite, .needsWritable, .isRequest, .needsResponse, .hasData]
  | .writeResp => [.isWrite, .isResponse]
  | .writeCompleteResp => [.isWrite, .isResponse]
  | .writebackDirty => [.isWrite, .isRequest, .isEviction, .hasData, .fromCache]
  | .writebackClean => [.isWrite, .isRequest, .isEviction, .hasData, .fromCache]
  | .writeClean => [.isWrite, .isRequest, .hasData, .fromCache]
  | .cleanEvict => [.isRequest, .isEviction, .fromCache]
  | .softPFReq => [.isRead, .isRequest, .isSWPrefetch, .needsResponse]
  | .softPFExReq =>
    [.isRead, .needsWritable, .isInvalidate, .isRequest, .isSWPrefetch, .needsResponse]
  | .hardPFReq => [.isRead, .isRequest, .isHWPrefetch, .needsResponse, .fromCache]
  | .softPFResp => [.isRead, .isResponse, .isSWPrefetch, .hasData]
  | .hardPFResp => [.isRead, .isResponse, .isHWPrefetch, .hasData]
  | .writeLineReq => [.isWrite, .needsWritable, .isRequest, .needsResponse, .hasData]
  | .upgradeReq =>
    [.isInvalidate, .needsWritable, .isUpgrade, .isRequest, .needsResponse, .fromCache]
  | .scUpgradeReq =>
    [.isInvalidate, .needsWritable, .isUpgrade, .isLlsc, .isRequest, .needsResponse, .fromCache]
  | .upgradeResp => [.isUpgrade, .isResponse]
  | .scUpgradeFailReq =>
    [.isRead, .needsWritable, .isInvalidate, .isLlsc, .isRequest, .needsResponse, .fromCache]
  | .upgradeFailResp => [.isRead, .isResponse, .hasData]
  | .readExReq => [.isRead, .needsWritable, .isInvalidate, .isRequest, .needsResponse, .fromCache]
  | .readExResp => [.isRead, .isResponse, .hasData]
  | .readCleanReq => [.isRead, .isRequest, .needsResponse, .fromCache]
  | .readSharedReq => [.isRead, .isRequest, .needsResponse, .fromCache]
  | .loadLockedReq => [.isRead, .isLlsc, .isRequest, .needsResponse]
  | .storeCondReq => [.isWrite, .needsWritable, .isLlsc, .isRequest, .needsResponse, .hasData]
  | .storeCondFailReq => [.isWrite, .needsWritable, .isLlsc, .isRequest, .needsResponse, .hasData]
  | .storeCondResp => [.isWrite, .isLlsc, .isResponse]
  | .lockedRMWReadReq => [.isRead, .isLockedRMW, .needsWritable, .isRequest, .needsResponse]
  | .lockedRMWReadResp => [.isRead, .isLockedRMW, .needsWritable, .isResponse, .hasData]
  | .lockedRMWWriteReq =>
    [.isWrite, .isLockedRMW, .needsWritable, .isRequest, .needsResponse, .hasData]
  | .lockedRMWWriteResp => [.isWrite, .isLockedRMW, .needsWritable, .isResponse]
  | .swapReq => [.isRead, .isWrite, .needsWritable, .isRequest, .hasData, .needsResponse]
  | .swapResp => [.isRead, .isWrite, .isResponse, .hasData]
  | .memFenceReq => [.isRequest, .needsResponse]
  | .memSyncReq => [.isRequest, .needsResponse]
  | .memSyncResp => [.isResponse]
  | .memFenceResp => [.isResponse]
  | .cleanSharedReq => [.isRequest, .isClean, .needsResponse, .fromCache]
  | .cleanSharedResp => [.isResponse, .isClean]
  | .cleanInvalidReq => [.isRequest, .isInvalidate, .isClean, .needsResponse, .fromCache]
  | .cleanInvalidResp => [.isResponse, .isInvalidate, .isClean]
  | .invalidDestError => [.isResponse, .isError]
  | .badAddressError => [.isResponse, .isError]
  | .readError => [.isRead, .isResponse, .isError]
  | .writeError => [.isWrite, .isResponse, .isError]
  | .functionalReadError => [.isRead, .isResponse, .isError]
  | .functionalWriteError => [.isWrite, .isResponse, .isError]
  | .printReq => [.isRequest, .isPrint]
  | .flushReq => [.isRequest, .isFlush, .needsWritable]
  | .invalidateReq => [.isInvalidate, .isRequest, .needsWritable, .needsResponse, .fromCache]
  | .invalidateResp => [.isInvalidate, .isResponse]
  | .htmReq => [.isRead, .isRequest, .needsResponse]
  | .htmReqResp => [.isRead, .isResponse]
  | .htmAbort => [.isRead, .isRequest]
  | .tlbiExtSync => [.isRequest]

/-- The response column of `MemCmd::commandInfo`: `InvalidCmd` for every command
that is not named here. mirrors packet.cc:65-236 -/
def responseCommand : MemCmd → MemCmd
  | .readReq | .readCleanReq | .readSharedReq | .loadLockedReq => .readResp
  | .writeReq | .writeLineReq => .writeResp
  | .softPFReq | .softPFExReq => .softPFResp
  | .hardPFReq => .hardPFResp
  | .upgradeReq | .scUpgradeReq => .upgradeResp
  | .scUpgradeFailReq => .upgradeFailResp
  | .readExReq => .readExResp
  | .storeCondReq | .storeCondFailReq => .storeCondResp
  | .lockedRMWReadReq => .lockedRMWReadResp
  | .lockedRMWWriteReq => .lockedRMWWriteResp
  | .swapReq => .swapResp
  | .memFenceReq => .memFenceResp
  | .memSyncReq => .memSyncResp
  | .cleanSharedReq => .cleanSharedResp
  | .cleanInvalidReq => .cleanInvalidResp
  | .invalidateReq => .invalidateResp
  | .htmReq => .htmReqResp
  | _ => .invalidCmd

/-- mirrors packet.hh:228-232 -/
def testCmdAttrib (c : MemCmd) (a : Attribute) : Bool := c.attributes.contains a

def isRead (c : MemCmd) : Bool := c.testCmdAttrib .isRead
def isWrite (c : MemCmd) : Bool := c.testCmdAttrib .isWrite
def isRequest (c : MemCmd) : Bool := c.testCmdAttrib .isRequest
def isResponse (c : MemCmd) : Bool := c.testCmdAttrib .isResponse
def needsWritable (c : MemCmd) : Bool := c.testCmdAttrib .needsWritable
def needsResponse (c : MemCmd) : Bool := c.testCmdAttrib .needsResponse
def isInvalidate (c : MemCmd) : Bool := c.testCmdAttrib .isInvalidate
def isEviction (c : MemCmd) : Bool := c.testCmdAttrib .isEviction
def isClean (c : MemCmd) : Bool := c.testCmdAttrib .isClean
def fromCache (c : MemCmd) : Bool := c.testCmdAttrib .fromCache
def hasData (c : MemCmd) : Bool := c.testCmdAttrib .hasData
def isLLSC (c : MemCmd) : Bool := c.testCmdAttrib .isLlsc
def isUpgrade (c : MemCmd) : Bool := c.testCmdAttrib .isUpgrade

/-- mirrors packet.hh:246-247 -/
def isWriteback (c : MemCmd) : Bool := c.isEviction && c.hasData

end MemCmd

end Gem5Cxl.L1

/-!
Fixed bounds, defaults and names of the service.
-/

namespace QueuedFiles.Limits

/-- Default limit of a path, in bytes of UTF-8. -/
def pathLength : Nat := 1024

def queueCapacity : Nat := 8

def queueCapacityCeiling : Nat := 65536

def decompressedSize : Nat := 16777216

/-- Largest bound of a decompressed payload: the most bytes a block may stand for. -/
def decompressedSizeCeiling : Nat := 0x7E000000

def successCode : Int := 0

/-- Code of a failure that the operating system did not number. -/
def genericFailureCode : Int := -1

/-- The byte behind the data of a terminated buffer. -/
def terminator : UInt8 := 0

/-- Thread name of the worker that reads and writes files. -/
def fileWorkerName : String := "fs-io"

/-- Thread name of the worker that runs the codec. -/
def codecWorkerName : String := "fs-compression"

/-- Which log lines are kept when nothing else is asked for. -/
def logFilter : String := "fs_core=info"

end QueuedFiles.Limits

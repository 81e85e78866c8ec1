import WasabiOS.Wfs.FsStructs

/-!
# Wfs/Error — what the file system fails with

Errors are boxed as `dyn Error` on their way up, and a boxed error may itself be a file system error:
the tree boxes every error of its own lookups.
-/

open Machinery
namespace WasabiOS

inductive FsMalformedError where
  | headerMagicInvalid
  | headerWithoutTransient
  | headerMismatch
  | directoryEntryCountMismatch (expected found : ℕ)
  | malformedStringLength
  | malformedStringUtf8
  deriving DecidableEq, Repr

mutual

inductive FsError where
  | blockDevice (e : BoxedError)
  | blockDeviceToSmall (maxBlockCount required : ℕ)
  | blockDeviceFull (count : ℕ)
  | noConsecutiveFreeBlocks (size : ℕ)
  | overrideCheck
  | writeAllocatorFreeList
  | headerVersionMismatch (version : UInt8 × UInt8 × UInt8 × UInt8)
  | notInitialized
  | compareExchangeFailedToOften
  | alreadyMounted
  | stringToLong
  | oom
  | oomOnError
  | memTreeError (e : MemTreeError)
  | fileDoesNotExist (id : FileId)
  | fileTypeMismatch (id : FileId) (fileType expected : FileType)
  | readZeroBytes
  | malformedFs (e : FsMalformedError)

inductive MemTreeError where
  | oom
  | blockDevice (e : BoxedError)
  | fileNodeExists (id : FileId)
  | fileDoesNotExist (id : FileId)

/-- `Box<dyn Error>` -/
inductive BoxedError where
  | device (e : DeviceError)
  | fs (e : FsError)
end

/-- `map_device_error`, where the box can be allocated -/
def mapDeviceError (e : DeviceError) : FsError := .blockDevice (.device e)

/-- `MemTreeError::from` -/
def MemTreeError.ofFsError (e : FsError) : MemTreeError := .blockDevice (.fs e)

/-- `From<MemTreeError> for FsError` -/
def FsError.ofMemTreeError : MemTreeError → FsError
  | .oom => .oom
  | .blockDevice err => .blockDevice err
  | err => .memTreeError err
end WasabiOS

import Mathlib.Algebra.Order.Ring.Nat

/-!
# Kernel/Nvme/Command — commands and completion entries

The layouts all commands and all completion entries share.  Fields that no modelled function reads are
left out.  A command and its completion carry a ghost `tag`, the number of the submission, which no code
reads.
-/

namespace WasabiOS
namespace Nvme

/-- specifies whether a command uses PRPs or SGLs for data transfer -/
inductive PrpOrSgl where
  | prp
  | sglMetaContiguBuffer
  | sglIncludingMeta
  deriving DecidableEq, Repr, Inhabited

/-- The first command dword -/
structure CDW0 where
  opcode : ℕ
  prpOrSgl : PrpOrSgl
  /-- a `u16` -/
  commandIdentifier : ℕ
  deriving DecidableEq, Repr, Inhabited

/-- where the data of a command is -/
structure DataPtr where
  prpEntry1 : ℕ
  prpEntry2 : ℕ
  deriving DecidableEq, Repr, Inhabited

/-- Command layout shared by all commands -/
structure CommonCommand where
  dword0 : CDW0
  namespaceIdent : ℕ
  dataPtr : DataPtr
  dword10 : ℕ
  dword11 : ℕ
  dword12 : ℕ
  /-- ghost: the number of the submission -/
  tag : ℕ
  deriving DecidableEq, Repr, Inhabited

/-- The identifier of a command. -/
def CommonCommand.ident (c : CommonCommand) : ℕ := c.dword0.commandIdentifier

/-- `set_command_identifier`, on submission number `tag` -/
def CommonCommand.withIdent (ident tag : ℕ) (c : CommonCommand) : CommonCommand :=
  ⟨⟨c.dword0.opcode, c.dword0.prpOrSgl, ident⟩, c.namespaceIdent, c.dataPtr, c.dword10, c.dword11, c.dword12,
    tag⟩

/-- Status and Phase of a completion entry -/
structure StatusAndPhase where
  phase : Bool
  statusCode : ℕ
  statusCodeType : ℕ
  deriving DecidableEq, Repr, Inhabited

/-- Common layout shared by all completion entries -/
structure CommonCompletionEntry where
  submissionQueueHead : ℕ
  submissionQueueIdent : ℕ
  commandIdent : ℕ
  statusAndPhase : StatusAndPhase
  /-- ghost: the number of the submission this completes -/
  tag : ℕ
  deriving DecidableEq, Repr, Inhabited

/-- StatusCode of a completion entry -/
inductive CommandStatusCode where
  | genericStatus (code : ℕ)
  | unknownGenericStatus (code : ℕ)
  | commandSpecificStatus (code : ℕ)
  | mediaAndDataIntegrityError (code : ℕ)
  | pathRelatedStatus (code : ℕ)
  | reserved (typ status : ℕ)
  | vendorSpecific (code : ℕ)
  deriving DecidableEq, Repr

/-- The codes of `GenericCommandStatus`; `Success` is 0. -/
def isGenericCommandStatus (code : ℕ) : Bool :=
  code ≤ 0x16 || (0x18 ≤ code && code ≤ 0x24) || (0x80 ≤ code && code ≤ 0x89)

namespace CommonCompletionEntry

/-- the phase bit -/
def phase (e : CommonCompletionEntry) : Bool := e.statusAndPhase.phase

def status (e : CommonCompletionEntry) : CommandStatusCode :=
  match e.statusAndPhase.statusCodeType with
  | 0 =>
    if isGenericCommandStatus e.statusAndPhase.statusCode then .genericStatus e.statusAndPhase.statusCode
    else .unknownGenericStatus e.statusAndPhase.statusCode
  | 1 => .commandSpecificStatus e.statusAndPhase.statusCode
  | 2 => .mediaAndDataIntegrityError e.statusAndPhase.statusCode
  | 3 => .pathRelatedStatus e.statusAndPhase.statusCode
  | 7 => .vendorSpecific e.statusAndPhase.statusCode
  | typ => .reserved typ e.statusAndPhase.statusCode
end CommonCompletionEntry

/-- returns `true` if the status does not represents any type of error -/
def CommandStatusCode.isSuccess (s : CommandStatusCode) : Bool := s = .genericStatus 0

/-- returns `true` if the status represents any type of error -/
def CommandStatusCode.isErr (s : CommandStatusCode) : Bool := !s.isSuccess
end Nvme
end WasabiOS

/- `task_patch.c`: what its appliers share. -/

import Mathlib.Tactic.Ring

namespace RetroArch.Tasks

inductive PatchError
  | unknown
  | success
  | patchTooSmall
  | patchInvalidHeader
  | patchInvalid
  | sourceTooSmall
  | targetTooSmall
  | sourceInvalid
  | targetInvalid
  | sourceChecksumInvalid
  | targetChecksumInvalid
  | patchChecksumInvalid
  deriving DecidableEq, Repr

end RetroArch.Tasks

import Mathlib.Algebra.Group.Int.Defs
import Mathlib.Algebra.Group.Nat.Defs

namespace EchoKernel

/-- The error numbers that modelled functions return. -/
inductive Errno where
  | eperm
  | esrch
  | eio
  | enomem
  | efault
  | ebusy
  | einval
  | enospc
  | erange
  | eagain
  | eacces
  | enoent
  | enolck
  | edeadlk
  deriving Repr, DecidableEq

/-- How a fallible kernel function ends; `bug` is a `BUG_ON` that fires. -/
inductive KernelResult (α : Type) where
  | ok (value : α)
  | error (errno : Errno)
  | bug
  deriving Repr, DecidableEq

end EchoKernel

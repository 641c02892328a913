/-!
# Crashes

A fault is a program's own mistake and is reported to whoever runs it. A crash is none: the
machine was asked for something that it cannot do and does not look out for, and the whole
process ends there.
-/

namespace Lehce

/-- Why a process ends at once. -/
inductive Crash where
  /-- A text is repeated a number of times that is too great to be one. -/
  | negativeRepeat
  /-- A repeated text would have more bytes than can be counted. -/
  | repeatOverflow
  /-- A repeated text would have more bytes than can be had. -/
  | tooLong
  /-- The arguments of a call have no room in the memory made for it. -/
  | noRoom (last capacity : Nat)
  /-- Something that is not there is used. -/
  | missing
  /-- The top level has no storage. -/
  | noStorage
  /-- A list or dictionary that contains itself is followed without an end. -/
  | endless
  /-- A settings file is refused; what is wrong with it is not told here. -/
  | refusedSettings
  deriving Repr, DecidableEq, Inhabited

namespace Crash

/-- What the process says when it ends. -/
def message : Crash → String
  | negativeRepeat => "strings: negative Repeat count"
  | repeatOverflow => "strings: Repeat output length overflow"
  | tooLong => "runtime error: makeslice: len out of range"
  | noRoom last capacity =>
    "runtime error: slice bounds out of range [:" ++ toString last ++ "] with capacity " ++
      toString capacity
  | missing => "runtime error: invalid memory address or nil pointer dereference"
  | noStorage => "runtime error: index out of range [0] with length 0"
  | endless => "stack overflow"
  | refusedSettings => "settings refused"

/-- Whether an operation refused its operands itself, rather than the machine below it. -/
def deliberate : Crash → Bool
  | negativeRepeat | repeatOverflow => true
  | _ => false

end Crash

end Lehce

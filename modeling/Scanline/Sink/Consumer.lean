/-!
# Consumers of pixels

A consumer takes runs of interleaved pixels.  It is opened for a number of workers, handed runs,
and released.  All exchanges are kept in order, and the answers of a consumer may depend on all
that went before, so that a consumer is free to refuse at any point.
-/

namespace Scanline

/-- The most pixels handed over at once. -/
def runLimit : Nat := 1024

/-- One run of pixels handed to the consumer. -/
structure Call where
  /-- The worker that hands it over. -/
  worker : Nat
  /-- The column of the first pixel. -/
  x : Nat
  /-- The row. -/
  y : Nat
  /-- The number of pixels. -/
  pixels : Nat
  /-- The interleaved pixels. -/
  bytes : Array UInt8
deriving DecidableEq, Repr

/-- One exchange with the consumer. -/
inductive Event where
  /-- It was opened for a number of workers and of pixels per call, and may have refused. -/
  | opened (workers pixels : Nat) (refusal : Option String)
  /-- It was handed a run, and may have failed. -/
  | called (call : Call) (failure : Option String)
  /-- It was released. -/
  | released
deriving DecidableEq, Repr

/-- What takes the pixels. -/
structure Consumer where
  /-- Why it will not start with so many workers, if it will not. -/
  refusal : Array Event → Nat → Option String
  /-- Why it gives up on a run, if it does. -/
  failure : Array Event → Call → Option String

/-- The consumer that takes everything. -/
def Consumer.willing : Consumer := ⟨fun _ _ ↦ none, fun _ _ ↦ none⟩

namespace Event

/-- The run that was handed over and taken. -/
def taken? : Event → Option Call
  | called call none => some call
  | _ => none

/-- Whether the consumer was asked to start. -/
def isOpening : Event → Bool
  | opened .. => true
  | _ => false

/-- Whether the consumer was let go. -/
def isRelease : Event → Bool
  | released => true
  | _ => false

end Event

end Scanline

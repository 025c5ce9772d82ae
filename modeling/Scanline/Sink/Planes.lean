import Scanline.Stage.Usage
import Scanline.Frame.Bundle

/-!
# Sinks of planes

`FrameSink` copies every channel into a bundle, `PlanarSink` the three colors into an image.
Neither converts anything, and a segment that is misused in any channel is copied in none.  Each
is bound once to the sizes of the channels: planes that already have the right size are kept,
others are replaced by zeros.
-/

namespace Scanline

/-- How far a sink of planes has got with its target. -/
inductive Binding where
  /-- It has not been told any sizes. -/
  | free
  /-- It was told sizes that could not be had. -/
  | spent
  /-- Its target has planes of the sizes it was told. -/
  | bound
deriving DecidableEq, Repr

/-- Checks that there are three channels and that the first `checked` have one size, and returns
that size. -/
def commonSize (stage : StageKind) (sizes : List (Nat × Nat)) (checked : Nat) :
    Except Fault (Nat × Nat) :=
  match sizes with
  | expected :: _ :: _ :: _ =>
    match (sizes.take checked).findIdx? (· ≠ expected) with
    | some channel =>
      .error (.sizeMismatch channel (sizes[channel]?.getD expected) expected)
    | none => .ok expected
  | _ => .error (.inconsistent (.tooFewColors stage sizes.length))

/-- An image of the given size: the one that is there if it fits, or one of zeros. -/
def Image.reuse (image : Option Image) (size : Nat × Nat) : Except Failure Image :=
  match image with
  | some image => if image.size = size then .ok image else Image.allocate size.1 size.2
  | none => Image.allocate size.1 size.2

/-- Planes of zeros of the given sizes, as many as can be had before the first failure. -/
def Plane.allocateAll : List (Nat × Nat) → List Plane × Option Failure
  | [] => ([], none)
  | size :: rest =>
    match Plane.allocate size.1 size.2 with
    | .ok plane =>
      let (planes, failure) := allocateAll rest
      (plane :: planes, failure)
    | .error failure => ([], some failure)

/-- A sink that fills a bundle. -/
structure FrameSink where
  /-- The target. -/
  bundle : Bundle
  /-- What the target is marked as. -/
  encoding : ColorEncoding
  /-- How far it has got. -/
  binding : Binding := .free
deriving DecidableEq, Repr

namespace FrameSink

variable (s : FrameSink)

/-- How a channel is used: all are copied. -/
def mode (_ : Nat) : Mode := .read

/-- Finds planes for the channels from number three on.  They are kept if their number and
every size fits. -/
def bindExtras (sizes : List (Nat × Nat)) : Outcome FrameSink :=
  if s.bundle.extras.map Plane.size = sizes then .done s
  else
    let (extras, failure) := Plane.allocateAll sizes
    ⟨{ s with bundle := { s.bundle with extras } }, failure⟩

/-- Marks the target and takes its planes into use. -/
def adopt : Outcome FrameSink :=
  let s := { s with bundle := { s.bundle with encoding := s.encoding } }
  if s.bundle.channels.all Plane.rowsComplete then .done { s with binding := .bound }
  else .misused s .outOfRange

/-- Binds the sink to the sizes of the channels. -/
def bind (sizes : List (Nat × Nat)) : Outcome FrameSink :=
  match commonSize .frame sizes sizes.length with
  | .error fault => .faulted s fault
  | .ok size =>
    if s.binding = .free then
      let s := { s with binding := .spent }
      match Image.reuse s.bundle.color size with
      | .error failure => .failed s failure
      | .ok color =>
        let s := { s with bundle := { s.bundle with color := some color } }
        (s.bindExtras (sizes.drop 3)).next adopt
    else .faulted s (.inconsistent (.alreadyBound .frame))

/-- Copies one segment of every channel. -/
def receive (input : Rows) (segment : Segment) : Outcome FrameSink :=
  if s.binding = .bound then
    match Plane.patchesOf s.bundle.channels input segment with
    | .ok patches => .done { s with bundle := s.bundle.mapPlanes (Plane.pasteFrom patches) }
    | .error misuse => .misused s misuse
  else .faulted s (.unprepared .frame)

end FrameSink

/-- A sink that fills an image. -/
structure PlanarSink where
  /-- The target. -/
  image : Option Image
  /-- How far it has got. -/
  binding : Binding := .free
deriving DecidableEq, Repr

namespace PlanarSink

variable (s : PlanarSink)

/-- How a channel is used: the colors are copied. -/
def mode (channel : Nat) : Mode := if channel < 3 then .read else .skip

/-- Binds the sink to the sizes of the channels. -/
def bind (sizes : List (Nat × Nat)) : Outcome PlanarSink :=
  match commonSize .planar sizes 3 with
  | .error fault => .faulted s fault
  | .ok size =>
    if s.binding = .free then
      match Image.reuse s.image size with
      | .error failure => .failed { s with binding := .spent } failure
      | .ok image =>
        let s := { s with image := some image }
        if image.planes.all Plane.rowsComplete then .done { s with binding := .bound }
        else .misused s .outOfRange
    else .faulted s (.inconsistent (.alreadyBound .planar))

/-- Copies one segment of every color. -/
def receive (input : Rows) (segment : Segment) : Outcome PlanarSink :=
  if s.binding = .bound then
    match Plane.patchesOf ((s.image.map Image.planes).getD []) input segment with
    | .ok patches =>
      .done { s with image := s.image.map (·.mapPlanes (Plane.pasteFrom patches)) }
    | .error misuse => .misused s misuse
  else .faulted s (.unprepared .planar)

end PlanarSink

end Scanline

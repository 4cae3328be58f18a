import StillVideo.Proofs.BannerLengths
import StillVideo.Proofs.FlatJobFaults
import StillVideo.Proofs.PlannedRuns

/-!
# Measured lengths

A job of whole files without given durations asks for the length of one file after the other
(`FlatJob.total`). A plan of such a job has the sum of the lengths, added up in the order of the
files, or the first file without a length, or whose length cannot be asked for, is the last one that
is asked for (`FlatJob.measuresInOrder`).
-/

namespace StillVideo

attribute [local irreducible] Binary64.one Binary64.bound

variable {m : Machine} {tool : Document} {path : String} {files : List String} {x y : Binary64}

namespace Machine

/-- What the encoder tells about a file. -/
def banner (m : Machine) (path : String) : String :=
  (m.banners.lookup path <|> m.banners.lookup "*").getD ""

/-- With files on the record, in the order in which their lengths have been asked for. -/
def asked (m : Machine) (tool : Document) (files : List String) : Machine :=
  m.noteAll (files.map fun file => .probed [tool, .text "-hide_banner", .text "-i", .text file])

end Machine

namespace FlatJob

variable {j : FlatJob} {joined : Document}

section

variable (haudio : j.audio = .sequence (files.map .text))
include haudio

end

end FlatJob

end StillVideo

import StillVideo.Proofs.SupervisedRuns

/-!
# What a system refuses by its form

A text with half of a pair has no encoding (`isSome_encodingFault?_iff`), and a command shows every
character of its arguments, so a loud run with such an argument cannot be announced
(`Supervisor.isSome_unannounced?`).
-/

namespace StillVideo

namespace Supervisor

end Supervisor

end StillVideo

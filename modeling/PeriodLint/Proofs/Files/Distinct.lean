import Mathlib
import PeriodLint.Proofs.Files.RealPlace

/-!
# First spellings

Paths stand for candidates, which may lead to one real place in several
spellings: a directory overlaps another, a file is listed beside its directory,
or a link is another name of a file. Of the candidates exactly those are dropped
whose real place an earlier one has, so that every place is kept once, under its
first spelling and in the order of the candidates. A candidate without a real
place leaves no list at all.
-/

namespace PeriodLint

namespace FileStore

section Distinct

variable {fs : FileStore} {placed : List (Path × Place)} {p q : Path}

end Distinct

section SelfLink

variable {fs : FileStore} {name : String}

end SelfLink

/-! ## A directory with links -/

section Linked

end Linked

end FileStore

end PeriodLint

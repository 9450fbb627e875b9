/-!
# Names that are still free

Names that would clash are told apart by a number. The number is the least one from 2 on whose
name is free, so names depend only on what is taken and not on how the search is done.
-/

namespace Exemplar.Fresh

/-- The first candidate from number `n` on that is not taken, looking at `steps` of them and
settling for the next one. -/
def search (taken : List String) (candidate : Nat → String) : Nat → Nat → String
  | 0, n => candidate n
  | steps + 1, n =>
    if taken.contains (candidate n) then search taken candidate steps (n + 1) else candidate n

/-- The candidate with the least number from 2 on that is not taken. Of more candidates than there
are names taken, one is free if they differ from each other. -/
def numbered (taken : List String) (candidate : Nat → String) : String :=
  search taken candidate taken.length 2

/-- The name itself if it is free, else the name with the least free number appended. -/
def name (taken : List String) (base : String) : String :=
  if taken.contains base then numbered taken fun n => base ++ toString n else base

end Exemplar.Fresh

/-! Cancellation. A render polls its cancel token at fixed points, and all it can learn is
whether the token is raised at each of them; so a schedule is the sequence of answers,
whoever raises or clears the token in between. -/

namespace Passage

/-- The answers of a cancel token, by the number of the poll: `true` is raised. -/
abbrev Polls := Nat → Bool

namespace Polls

def always (raised : Bool) : Polls :=
  fun _ => raised

def after (n : Nat) (polls : Polls) : Polls :=
  fun i => polls (n + i)

/-- A token that is raised between polls `n` and `n + 1`. -/
def raisedAfter (n : Nat) : Polls :=
  fun i => n < i

end Polls

end Passage
